/-
# One browser tab and the web proxy

A tab sends page requests, which pass through `proxy`, and calls of `apiFetch`, which do not.  Both
sides refresh the session, and each keeps a single-flight entry of its own: the proxy one for each
token (`inflightRefreshes`), the tab a single slot (`inflightRefresh`).  The cookies are the tab's;
a refresh changes them when the response that carries its `Set-Cookie` reaches the browser.

A step is what the code does from one `await` to the next, or one message on its way.  Responses
arrive in any order and after any delay, and none is lost.  A refresh may fail to reach the API.  Of
the API's refresh endpoint the model has its log, with the tokens that it received and those that it
issued: it answers with a token that it has not issued before, or refuses.
-/
import Enroll.Schema
import Enroll.Rotation

namespace Enroll.Web

open Rotation (Entry Log)

abbrev Token := Nat
abbrev PageId := Nat
abbrev CallId := Nat
/-- The place of a flight in the list of flights. -/
abbrev FlightId := Nat

/-! ## 1. The state -/

/-- The cookies `access_token`, of which only the presence matters here, and `refresh_token`. -/
structure Jar where
  accessToken : Bool
  refreshToken : Option Token
  deriving DecidableEq, Repr

/-- The `Set-Cookie` headers of a refresh, applied: a new pair. -/
def Jar.refreshed (token : Token) : Jar := ⟨true, some token⟩

/-- Who started a flight. -/
inductive Side where
  | proxy
  | tab
  deriving DecidableEq, Repr

/-- How the fetch of a refresh ends. -/
inductive Outcome where
  /-- 200, with the cookies of a new pair. -/
  | ok (token : Token)
  /-- An answer that is not `ok`. -/
  | notOk
  /-- The API was not reached. -/
  | unreachable
  deriving DecidableEq, Repr

inductive Phase where
  /-- The API has the POST and owes its answer. -/
  | posted
  /-- The outcome is on its way to who started the flight. -/
  | answered (outcome : Outcome)
  /-- The promise is settled; the retention timer runs since `since`. -/
  | settled (outcome : Outcome) (since : Time)
  /-- The timer has fired. -/
  | evicted (outcome : Outcome)
  deriving DecidableEq, Repr

/-- A refresh: a POST to `/auth/refresh` with the token it carries, and its promise. -/
structure Flight where
  side : Side
  refreshToken : Option Token
  phase : Phase
  deriving DecidableEq, Repr

/-- What the promise holds, once it is settled. -/
def Flight.result (f : Flight) : Option Outcome :=
  match f.phase with
  | .settled o _ => some o
  | .evicted o => some o
  | _ => none

/-- What the proxy answers, with the pair that its `Set-Cookie` carries. -/
inductive Reply where
  /-- `NextResponse.next()` -/
  | next (setCookies : Option Token)
  /-- The redirect to `/login`. -/
  | login
  deriving DecidableEq, Repr

/-- A page request. -/
inductive Page where
  /-- On its way to the proxy, with the cookies it was sent with. -/
  | sent (cookies : Jar)
  /-- At `await flight`. -/
  | awaiting (flight : FlightId)
  | replied (reply : Reply)
  deriving DecidableEq, Repr

/-- A call of `apiFetch`. -/
inductive Call where
  /-- The first `fetch` is under way. -/
  | sent
  /-- At `await refreshOnce()`. -/
  | awaiting (flight : FlightId)
  /-- The second `fetch` is under way. -/
  | resent
  /-- It never settles: the page navigates to `/login`. -/
  | leaving
  deriving DecidableEq, Repr

structure State where
  jar : Jar
  pages : PageId → Option Page
  calls : CallId → Option Call
  flights : List Flight
  /-- The map of the proxy. -/
  inflightRefreshes : Token → Option FlightId
  /-- The slot of the tab. -/
  inflightRefresh : Option FlightId
  /-- The log of the refresh endpoint, newest entry first. -/
  log : Log Token
  now : Time

/-- A session that a login with the token `t` has just begun. -/
def State.start (t : Token) : State where
  jar := .refreshed t
  pages _ := none
  calls _ := none
  flights := []
  inflightRefreshes _ := none
  inflightRefresh := none
  log := [.issued t]
  now := 0

/-! ## 2. What the code does -/

/-- `REFRESH_RESULT_RETENTION_MS` of `proxy.ts` and of `client.ts`. -/
def Side.retentionMs : Side → Time
  | proxy => 10000
  | tab => 250

namespace State

variable (s : State)

/-- A `fetch` of `/auth/refresh`; `reaches` says whether it reaches the API.  A request without the
cookie is refused, and spends nothing. -/
def post (side : Side) (token : Option Token) (reaches : Bool) : State :=
  { s with
    flights := s.flights ++ [⟨side, token, if reaches then .posted else .answered .unreachable⟩]
    log := if reaches then (token.map Entry.spent).toList ++ s.log else s.log }

/-- `proxy`, up to its first `await`. -/
def proxy (page : PageId) (cookies : Jar) (reaches : Bool) : State :=
  if cookies.accessToken then
    { s with pages := Function.update s.pages page (some (.replied (.next none))) }
  else
    match cookies.refreshToken with
    | none => { s with pages := Function.update s.pages page (some (.replied .login)) }
    | some token =>
      match s.inflightRefreshes token with
      | some flight => { s with pages := Function.update s.pages page (some (.awaiting flight)) }
      | none =>
        let flight := s.flights.length
        { s.post .proxy (some token) reaches with
          inflightRefreshes := Function.update s.inflightRefreshes token (some flight)
          pages := Function.update s.pages page (some (.awaiting flight)) }

/-- The rest of `proxy`. -/
def proxyReply : Outcome → Reply
  | .ok token => .next (some token)
  | .notOk => .login
  | .unreachable => .next none

/-- `refreshOnce`, for a call that got a 401. -/
def refreshOnce (call : CallId) (reaches : Bool) : State :=
  match s.inflightRefresh with
  | some flight => { s with calls := Function.update s.calls call (some (.awaiting flight)) }
  | none =>
    let flight := s.flights.length
    { s.post .tab s.jar.refreshToken reaches with
      inflightRefresh := some flight
      calls := Function.update s.calls call (some (.awaiting flight)) }

/-- The rest of `apiFetch`, until its next `await`. -/
def apiFetchNext : Outcome → Option Call
  | .ok _ => some .resent
  | .notOk => some .leaving
  | .unreachable => none

/-- Flight `i` goes on to the phase `p`. -/
def advance (i : FlightId) (f : Flight) (p : Phase) : State :=
  { s with flights := s.flights.set i { f with phase := p } }

/-- The entry that an answer leaves in the log. -/
def answerEntry (f : Flight) (o : Outcome) : List (Entry Token) :=
  match f.refreshToken, o with
  | none, _ => []
  | some _, .ok token => [.issued token]
  | some _, _ => [.refused]

/-- The API may answer so: a new token only for a token, and one that it has not issued before. -/
def mayAnswer (f : Flight) : Outcome → Bool
  | .ok token => f.refreshToken.isSome && !decide (.issued token ∈ s.log)
  | .notOk => true
  | .unreachable => false

/-- What the timer of flight `i` does to the entry that leads to it. -/
def evict (i : FlightId) (f : Flight) : State :=
  match f.side with
  | .proxy => { s with inflightRefreshes := fun token =>
      if f.refreshToken = some token then none else s.inflightRefreshes token }
  | .tab => { s with inflightRefresh :=
      if s.inflightRefresh = some i then none else s.inflightRefresh }

end State

/-! ## 3. Steps -/

inductive Label where
  /-- The tab sends a page request. -/
  | navigate (page : PageId)
  /-- The proxy gets it. -/
  | arrive (page : PageId) (reaches : Bool)
  /-- The proxy goes on after its `await`. -/
  | reply (page : PageId)
  /-- The browser gets the response. -/
  | deliver (page : PageId)
  /-- The tab calls `apiFetch`. -/
  | apiFetch (call : CallId)
  /-- A `fetch` of the call is answered, and not with a 401 that makes it refresh. -/
  | respond (call : CallId)
  /-- Its first `fetch` is answered with 401. -/
  | unauthorized (call : CallId) (reaches : Bool)
  /-- The call goes on after `await refreshOnce()`. -/
  | resume (call : CallId)
  /-- The API answers a refresh. -/
  | answer (flight : FlightId) (outcome : Outcome)
  /-- The answer reaches who sent the refresh. -/
  | settle (flight : FlightId)
  /-- The retention timer of a flight fires. -/
  | evict (flight : FlightId)
  /-- The document is loaded anew: the variables of the tab are gone. -/
  | reload
  /-- A cookie reaches its `maxAge`, or a logout clears it. -/
  | dropAccess
  | dropRefresh
  | tick (ms : Time)
  deriving DecidableEq, Repr

/-- `none`: the step cannot be taken. -/
def State.step (s : State) : Label → Option State
  | .navigate page =>
    match s.pages page with
    | none => some { s with pages := Function.update s.pages page (some (.sent s.jar)) }
    | some _ => none
  | .arrive page reaches =>
    match s.pages page with
    | some (.sent cookies) => some (s.proxy page cookies reaches)
    | _ => none
  | .reply page =>
    match s.pages page with
    | some (.awaiting flight) =>
      (s.flights[flight]?.bind Flight.result).map fun o =>
        { s with pages := Function.update s.pages page (some (.replied (State.proxyReply o))) }
    | _ => none
  | .deliver page =>
    match s.pages page with
    | some (.replied reply) =>
      let s := { s with pages := Function.update s.pages page none }
      match reply with
      | .next (some token) => some { s with jar := .refreshed token }
      | _ => some s
    | _ => none
  | .apiFetch call =>
    match s.calls call with
    | none => some { s with calls := Function.update s.calls call (some .sent) }
    | some _ => none
  | .respond call =>
    match s.calls call with
    | some .sent => some { s with calls := Function.update s.calls call none }
    | some .resent => some { s with calls := Function.update s.calls call none }
    | _ => none
  | .unauthorized call reaches =>
    match s.calls call with
    | some .sent => some (s.refreshOnce call reaches)
    | _ => none
  | .resume call =>
    match s.calls call with
    | some (.awaiting flight) =>
      (s.flights[flight]?.bind Flight.result).map fun o =>
        { s with calls := Function.update s.calls call (State.apiFetchNext o) }
    | _ => none
  | .answer i o =>
    match s.flights[i]? with
    | some f =>
      if f.phase = .posted ∧ s.mayAnswer f o = true then
        some { s.advance i f (.answered o) with log := State.answerEntry f o ++ s.log }
      else none
    | none => none
  | .settle i =>
    match s.flights[i]? with
    | some f =>
      match f.phase with
      | .answered o =>
        let s := s.advance i f (.settled o s.now)
        match f.side, o with
        | .tab, .ok token => some { s with jar := .refreshed token }
        | _, _ => some s
      | _ => none
    | none => none
  | .evict i =>
    match s.flights[i]? with
    | some f =>
      match f.phase with
      | .settled o since =>
        if since + f.side.retentionMs ≤ s.now then some ((s.advance i f (.evicted o)).evict i f)
        else none
      | _ => none
    | none => none
  | .reload => some { s with calls := fun _ => none, inflightRefresh := none }
  | .dropAccess => some { s with jar := { s.jar with accessToken := false } }
  | .dropRefresh => some { s with jar := { s.jar with refreshToken := none } }
  | .tick ms => some { s with now := s.now + ms }

def State.run (s : State) : List Label → Option State
  | [] => some s
  | l :: ls => (s.step l).bind (fun s' => s'.run ls)

/-- The tokens that the refresh endpoint received. -/
def State.received (s : State) : List Token := Rotation.spents s.log

/-! ## 4. What a step can do -/

section Cases

variable {s s' : State} {page : PageId} {call : CallId} {i : FlightId} {o : Outcome}
  {reaches : Bool}

theorem navigate_cases (h : s.step (.navigate page) = some s') :
    s.pages page = none ∧
      s' = { s with pages := Function.update s.pages page (some (.sent s.jar)) } := by
  simp only [State.step] at h
  split at h
  · rename_i hpage
    exact ⟨hpage, (Option.some.inj h).symm⟩
  · exact absurd h (by simp)

theorem arrive_cases (h : s.step (.arrive page reaches) = some s') :
    ∃ cookies, s.pages page = some (.sent cookies) ∧ s' = s.proxy page cookies reaches := by
  simp only [State.step] at h
  split at h
  · rename_i cookies hpage
    exact ⟨cookies, hpage, (Option.some.inj h).symm⟩
  · exact absurd h (by simp)

theorem reply_cases (h : s.step (.reply page) = some s') :
    ∃ flight o, s.pages page = some (.awaiting flight) ∧
      s.flights[flight]?.bind Flight.result = some o ∧
      s' = { s with
        pages := Function.update s.pages page (some (.replied (State.proxyReply o))) } := by
  simp only [State.step] at h
  split at h
  · rename_i flight hpage
    obtain ⟨o, ho, hs'⟩ := Option.map_eq_some_iff.mp h
    exact ⟨flight, o, hpage, ho, hs'.symm⟩
  · exact absurd h (by simp)

/-- A response brings the cookies of a refresh, or it leaves the jar as it is. -/
theorem deliver_cases (h : s.step (.deliver page) = some s') :
    ∃ reply jar, s.pages page = some (.replied reply) ∧
      ((∃ token, reply = .next (some token) ∧ jar = .refreshed token) ∨ jar = s.jar) ∧
      s' = { s with pages := Function.update s.pages page none, jar := jar } := by
  simp only [State.step] at h
  split at h
  · rename_i reply hpage
    split at h
    · rename_i token
      exact ⟨_, _, hpage, .inl ⟨token, rfl, rfl⟩, (Option.some.inj h).symm⟩
    · exact ⟨_, _, hpage, .inr rfl, (Option.some.inj h).symm⟩
  · exact absurd h (by simp)

theorem apiFetch_cases (h : s.step (.apiFetch call) = some s') :
    ∃ calls, s' = { s with calls := calls } := by
  simp only [State.step] at h
  split at h
  · exact ⟨_, (Option.some.inj h).symm⟩
  · exact absurd h (by simp)

theorem respond_cases (h : s.step (.respond call) = some s') :
    ∃ calls, s' = { s with calls := calls } := by
  simp only [State.step] at h
  split at h
  · exact ⟨_, (Option.some.inj h).symm⟩
  · exact ⟨_, (Option.some.inj h).symm⟩
  · exact absurd h (by simp)

theorem unauthorized_cases (h : s.step (.unauthorized call reaches) = some s') :
    s.calls call = some .sent ∧ s' = s.refreshOnce call reaches := by
  simp only [State.step] at h
  split at h
  · rename_i hcall
    exact ⟨hcall, (Option.some.inj h).symm⟩
  · exact absurd h (by simp)

theorem resume_cases (h : s.step (.resume call) = some s') :
    ∃ calls, s' = { s with calls := calls } := by
  simp only [State.step] at h
  split at h
  · obtain ⟨o, -, hs'⟩ := Option.map_eq_some_iff.mp h
    exact ⟨_, hs'.symm⟩
  · exact absurd h (by simp)

theorem answer_cases (h : s.step (.answer i o) = some s') :
    ∃ f, s.flights[i]? = some f ∧ f.phase = .posted ∧ s.mayAnswer f o = true ∧
      s' = { s.advance i f (.answered o) with log := State.answerEntry f o ++ s.log } := by
  simp only [State.step] at h
  split at h
  · rename_i f hi
    split at h
    · rename_i hmay
      exact ⟨f, hi, hmay.1, hmay.2, (Option.some.inj h).symm⟩
    · exact absurd h (by simp)
  · exact absurd h (by simp)

/-- The response of the tab brings its cookies with it; the proxy passes them on. -/
theorem settle_cases (h : s.step (.settle i) = some s') :
    ∃ f o jar, s.flights[i]? = some f ∧ f.phase = .answered o ∧
      ((∃ token, f.side = .tab ∧ o = .ok token ∧ jar = .refreshed token) ∨ jar = s.jar) ∧
      s' = { s.advance i f (.settled o s.now) with jar := jar } := by
  simp only [State.step] at h
  split at h
  · rename_i f hi
    split at h
    · rename_i o hphase
      split at h
      · rename_i token hside
        exact ⟨f, _, _, hi, hphase, .inl ⟨token, hside, rfl, rfl⟩, (Option.some.inj h).symm⟩
      · exact ⟨f, _, _, hi, hphase, .inr rfl, (Option.some.inj h).symm⟩
    · exact absurd h (by simp)
  · exact absurd h (by simp)

theorem evict_cases (h : s.step (.evict i) = some s') :
    ∃ f o since, s.flights[i]? = some f ∧ f.phase = .settled o since ∧
      since + f.side.retentionMs ≤ s.now ∧ s' = (s.advance i f (.evicted o)).evict i f := by
  simp only [State.step] at h
  split at h
  · rename_i f hi
    split at h
    · rename_i o since hphase
      split at h
      · rename_i hold
        exact ⟨f, o, since, hi, hphase, hold, (Option.some.inj h).symm⟩
      · exact absurd h (by simp)
    · exact absurd h (by simp)
  · exact absurd h (by simp)

end Cases

end Enroll.Web
