/-
# Staying signed in

The browser tab and the proxy on one side, the API with its table of refresh tokens on the other, as
one machine: a refresh that reaches the API is served in a session of its own, and when the session
ends the answer goes to the flight it belongs to.  Other users log in, refresh and log out meanwhile.

`signed_in` says what a user gets of the tab, the proxy and the token rotation together.  As long as
every refresh begins in turn, the token issued last is good until it expires, and no refresh is ever
refused because its token was spent or is unknown.  `Campus.crossing_signs_out` is a run out of turn:
the page and a call post one token, and the family is revoked although nothing was stolen.

The throttle of the endpoint and the nightly purge are left out.
-/
import Enroll.Machine
import Enroll.TokenFamily
import Enroll.TokenReplay

namespace Enroll.Web

open Rotation (Entry)

/-! ## 1. Flights that the API has -/

variable {s s' : State} {l : Label}

/-- The label is an answer to a refresh that has a token.  The others are refused at the door. -/
def State.byApi (s : State) : Label → Bool
  | .answer i _ => ((s.flights[i]?).bind Flight.refreshToken).isSome
  | _ => false

/-- What a step of the tab or the proxy means to the API. -/
structure Outside (s : State) (l : Label) (s' : State) : Prop where
  log : s'.log = ((s.begins l).map Entry.spent).toList ++ s.log
  /-- a refresh that begins waits for its answer -/
  posted : ∀ token, s.begins l = some token →
    ∃ side, s'.flights = s.flights ++ [⟨side, some token, .posted⟩]
  /-- those that wait go on waiting -/
  waits : ∀ (i : FlightId) (f : Flight), s.flights[i]? = some f → f.phase = .posted →
    f.refreshToken.isSome → s'.flights[i]? = some f

namespace Outside

/-- A step that is not about refreshes. -/
theorem of_eq (hbegins : s.begins l = none) (hlog : s'.log = s.log)
    (hflights : s'.flights = s.flights) : Outside s l s' where
  log := by rw [hbegins, hlog]; rfl
  posted token h := absurd (hbegins.symm.trans h) (by simp)
  waits i f hf _ _ := hflights ▸ hf

/-- A flight that does not wait goes on. -/
theorem of_advance {i : FlightId} {f : Flight} {p : Phase} (hbegins : s.begins l = none)
    (hlog : s'.log = s.log) (hflights : s'.flights = (s.advance i f p).flights)
    (hi : s.flights[i]? = some f) (hf : f.phase ≠ .posted ∨ f.refreshToken = none) :
    Outside s l s' where
  log := by rw [hbegins, hlog]; rfl
  posted token h := absurd (hbegins.symm.trans h) (by simp)
  waits j g hg hposted htoken := by
    have hne : i ≠ j := by
      rintro rfl
      obtain rfl := Option.some.inj (hi.symm.trans hg)
      rcases hf with hf | hf
      · exact hf hposted
      · rw [hf] at htoken
        exact absurd htoken (by simp)
    rw [hflights]
    show (s.flights.set i _)[j]? = _
    rw [List.getElem?_set_ne hne]
    exact hg

/-- A POST, to wherever. -/
theorem of_post (side : Side) (token : Option Token) (reaches : Bool)
    (hbegins : s.begins l = if reaches then token else none)
    (hlog : s'.log = (s.post side token reaches).log)
    (hflights : s'.flights = (s.post side token reaches).flights) : Outside s l s' where
  log := by
    rw [hbegins, hlog]
    cases reaches <;> rfl
  posted t h := by
    rw [hbegins] at h
    cases reaches with
    | false => exact absurd h (by simp)
    | true =>
      obtain rfl : token = some t := h
      exact ⟨side, hflights⟩
  waits i f hf _ _ := by
    rw [hflights]
    exact List.getElem?_append_left (List.getElem?_eq_some_iff.mp hf).1 ▸ hf

theorem proxy {page : PageId} {cookies : Jar} {reaches : Bool}
    (hpage : s.pages page = some (.sent cookies)) :
    Outside s (.arrive page reaches) (s.proxy page cookies reaches) := by
  have hbegins := begins_arrive reaches hpage
  unfold State.proxy
  split
  · rename_i haccess
    exact .of_eq (by simp [hbegins, haccess]) rfl rfl
  · rename_i haccess
    split
    · rename_i hnone
      exact .of_eq (by simp [hbegins, hnone]) rfl rfl
    · rename_i token htoken
      split
      · rename_i flight hmap
        exact .of_eq (by simp [hbegins, htoken, hmap, Option.filter]) rfl rfl
      · rename_i hmap
        refine .of_post .proxy (some token) reaches ?_ rfl rfl
        cases reaches <;> simp [hbegins, haccess, htoken, hmap, Option.filter]

theorem refreshOnce {call : CallId} {reaches : Bool} (hcall : s.calls call = some .sent) :
    Outside s (.unauthorized call reaches) (s.refreshOnce call reaches) := by
  have hbegins : s.begins (.unauthorized call reaches)
      = if reaches && s.inflightRefresh.isNone then s.jar.refreshToken else none := by
    cases reaches <;> simp [State.begins, hcall]
  unfold State.refreshOnce
  split
  · rename_i flight hslot
    exact .of_eq (by simp [hbegins, hslot]) rfl rfl
  · rename_i hslot
    refine .of_post .tab s.jar.refreshToken reaches ?_ rfl rfl
    cases reaches <;> simp [hbegins, hslot]

/-- A refusal at the door is no answer of the API. -/
theorem answer {i : FlightId} {o : Outcome} (h : s.step (.answer i o) = some s')
    (hl : s.byApi (.answer i o) = false) : Outside s (.answer i o) s' := by
  obtain ⟨f, hi, -, -, rfl⟩ := answer_cases h
  have htoken : f.refreshToken = none := by simpa [State.byApi, hi] using hl
  exact .of_advance rfl (by simp [State.answerEntry, htoken]) rfl hi (.inr htoken)

theorem settle {i : FlightId} (h : s.step (.settle i) = some s') : Outside s (.settle i) s' := by
  obtain ⟨f, o, jar, hi, hphase, -, rfl⟩ := settle_cases h
  exact .of_advance rfl rfl rfl hi (.inl (by simp [hphase]))

theorem evict {i : FlightId} (h : s.step (.evict i) = some s') : Outside s (.evict i) s' := by
  obtain ⟨f, o, since, hi, hphase, -, rfl⟩ := evict_cases h
  unfold State.evict
  split <;> exact .of_advance rfl rfl rfl hi (.inl (by simp [hphase]))

end Outside

theorem outside_of_step (h : s.step l = some s') (hl : s.byApi l = false) : Outside s l s' := by
  cases l with
  | navigate page =>
    obtain ⟨-, rfl⟩ := navigate_cases h
    exact .of_eq rfl rfl rfl
  | arrive page reaches =>
    obtain ⟨cookies, hpage, rfl⟩ := arrive_cases h
    exact .proxy hpage
  | reply page =>
    obtain ⟨flight, o, -, -, rfl⟩ := reply_cases h
    exact .of_eq rfl rfl rfl
  | deliver page =>
    obtain ⟨reply, jar, -, -, rfl⟩ := deliver_cases h
    exact .of_eq rfl rfl rfl
  | apiFetch call =>
    obtain ⟨calls, rfl⟩ := apiFetch_cases h
    exact .of_eq rfl rfl rfl
  | respond call =>
    obtain ⟨calls, rfl⟩ := respond_cases h
    exact .of_eq rfl rfl rfl
  | unauthorized call reaches =>
    obtain ⟨hcall, rfl⟩ := unauthorized_cases h
    exact .refreshOnce hcall
  | resume call =>
    obtain ⟨calls, rfl⟩ := resume_cases h
    exact .of_eq rfl rfl rfl
  | answer i o => exact .answer h hl
  | settle i => exact .settle h
  | evict i => exact .evict h
  | reload | dropAccess | dropRefresh | tick ms =>
    obtain rfl := Option.some.inj h
    exact .of_eq rfl rfl rfl

end Enroll.Web

namespace Enroll.SignedIn

open Enroll.Auth
open Rotation (Entry)
open Txn (Label Session Discipline Accord)

/-! ## 2. The machine -/

structure Site (deps : Deps) where
  web : Web.State
  api : Auth.Sys deps
  /-- the flight whose refresh a session of the API serves -/
  serving : Nat → Option Web.FlightId

inductive Event (deps : Deps) where
  /-- A step of the tab or the proxy.  A refresh that it begins is served in session `t`; `jti` and
  `bytes` are what `uuidv4` and `randomBytes` return to it. -/
  | web (l : Web.Label) (t jti : Nat) (bytes : RawToken)
  | api (l : Label (authService deps))

namespace Site

variable {deps : Deps}

/-- The tab has just logged in with the token `token`. -/
def start (w : Auth.World) (token : RawToken) : Site deps :=
  ⟨.start token, (Txn.Sys.init w : Auth.Sys deps), fun _ => none⟩

/-- What the response of session `t` says when the session ends. -/
def outcome (sys : Auth.Sys deps) (t : Nat) : Label (authService deps) → Web.Outcome
  | .commit _ =>
    match (sys.sessions t).map Session.prog with
    | some (.pure (.tokens pair)) => .ok pair.refreshToken
    | _ => .notOk
  | _ => .notOk

/-- The response goes to flight `i`. -/
def answer (web : Web.State) (i : Web.FlightId) (o : Web.Outcome) : Web.State :=
  match web.flights[i]? with
  | some f => { web.advance i f (.answered o) with log := Web.State.answerEntry f o ++ web.log }
  | none => web

/-- The session that a step ends, with the flight that waits for it. -/
def served (s : Site deps) (l : Label (authService deps)) : Option (Nat × Web.FlightId) :=
  l.ends.bind fun t => (s.serving t).map fun i => (t, i)

def step (s : Site deps) : Event deps → Option (Site deps)
  | .web l t jti bytes =>
    if s.web.byApi l then none
    else (s.web.step l).bind fun web' =>
      match s.web.begins l with
      | none => some { s with web := web' }
      | some token => (s.api.step (.begin t (.refresh token jti bytes))).map fun api' =>
        ⟨web', api', Function.update s.serving t (some s.web.flights.length)⟩
  | .api l => (s.api.step l).map fun api' =>
    match s.served l with
    | none => { s with api := api' }
    | some (t, i) => ⟨answer s.web i (outcome s.api t l), api', Function.update s.serving t none⟩

variable {s s' : Site deps}

theorem web_cases {l : Web.Label} {t jti : Nat} {bytes : RawToken}
    (h : s.step (.web l t jti bytes) = some s') :
    s.web.byApi l = false ∧ ∃ web', s.web.step l = some web' ∧
      ((s.web.begins l = none ∧ s' = { s with web := web' }) ∨
        ∃ token api', s.web.begins l = some token ∧
          s.api.step (.begin t (.refresh token jti bytes)) = some api' ∧
          s' = ⟨web', api', Function.update s.serving t (some s.web.flights.length)⟩) := by
  simp only [step] at h
  split at h
  · exact absurd h (by simp)
  · rename_i hby
    obtain ⟨web', hweb, h⟩ := Option.bind_eq_some_iff.mp h
    refine ⟨Bool.eq_false_iff.mpr hby, web', hweb, ?_⟩
    split at h
    · exact .inl ⟨‹_›, (Option.some.inj h).symm⟩
    · obtain ⟨api', hapi, rfl⟩ := Option.map_eq_some_iff.mp h
      exact .inr ⟨_, api', ‹_›, hapi, rfl⟩

theorem api_cases {l : Label (authService deps)} (h : s.step (.api l) = some s') :
    ∃ api', s.api.step l = some api' ∧
      (((∀ t, l.ends = some t → s.serving t = none) ∧ s' = { s with api := api' }) ∨
        ∃ t i, l.ends = some t ∧ s.serving t = some i ∧
          s' = ⟨answer s.web i (outcome s.api t l), api', Function.update s.serving t none⟩) := by
  obtain ⟨api', hapi, h⟩ := Option.map_eq_some_iff.mp h
  refine ⟨api', hapi, ?_⟩
  split at h
  · rename_i hserved
    refine .inl ⟨fun t ht => ?_, h.symm⟩
    cases hi : s.serving t with
    | none => rfl
    | some i => simp [served, ht, hi] at hserved
  · rename_i t i hserved
    obtain ⟨t', ht, hmap⟩ := Option.bind_eq_some_iff.mp hserved
    obtain ⟨i', hi, he⟩ := Option.map_eq_some_iff.mp hmap
    obtain ⟨rfl, rfl⟩ := Prod.mk.inj he
    exact .inr ⟨t', i', ht, hi, h.symm⟩

end Site

/-! ## 3. Every refresh in turn -/

variable {deps : Deps} {f : Family} {K : TokenHash → Prop} {w : Auth.World} {token : RawToken}
  {s s' : Site deps}

/-- `randomBytes` gives the session tokens of `K`, and nobody else has one. -/
def Apart (f : Family) (K : TokenHash → Prop) (s : Site deps) : Event deps → Prop
  | .web l _ _ bytes => s.web.begins l ≠ none → K (hashToken deps bytes)
  | .api l => ∀ t op, l = .begin t op → op.Foreign deps f K

/-- A refresh begins only if the last thing that the endpoint did was to issue its token. -/
def InTurn (s : Site deps) : Event deps → Prop
  | .web l _ _ _ => s.web.InTurn l
  | .api _ => True

/-- A session of the API serves flight `i`, which waits for it. -/
def Serves (K : TokenHash → Prop) (s : Site deps) (t : Nat) (i : Web.FlightId) : Prop :=
  ∃ fl raw ses jti bytes, s.web.flights[i]? = some fl ∧ fl.phase = .posted ∧
    fl.refreshToken = some raw ∧ s.web.log.head? = some (.spent raw) ∧
      s.api.sessions t = some ses ∧ ses.op = .refresh raw jti bytes ∧ K (hashToken deps raw)

/-- The invariant.  The token that is in turn is unrevoked, and those before it are revoked. -/
structure InStep (token : RawToken) (f : Family) (K : TokenHash → Prop) (s : Site deps) :
    Prop where
  run : FamilyRun f K s.api
  web : Machine.Reach Web.State.step Web.State.InTurn (.start token) s.web
  serving : ∀ t i, s.serving t = some i → Serves K s t i
  ours : ∀ t ses, s.api.sessions t = some ses → ses.op.Ours deps K → s.serving t ≠ none
  good : ∀ t, Rotation.InTurn s.web.log t → Unspent f (hashToken deps t) s.api.world
  past : s.web.log.head? ≠ some .refused → ∀ t, .issued t ∈ s.web.log →
    s.web.log.head? = some (.issued t) ∨ s.web.log.head? = some (.spent t) ∨
      Spent (hashToken deps t) s.api.world

namespace InStep

theorem start (hg : Guarded f K w) (hu : Unspent f (hashToken deps token) w) :
    InStep token f K (.start w token : Site deps) where
  run := .init hg
  web := .refl
  serving t i h := absurd h (by simp [Site.start])
  ours t ses h := absurd h (by simp [Site.start, Txn.Sys.init])
  good t h := by
    obtain rfl : token = t := Rotation.inTurn_issued.mp h
    exact hu
  past _ t h := by
    obtain rfl : t = token := by simpa [Site.start, Web.State.start] using h
    exact .inl rfl

/-- While a token is in turn nobody refreshes. -/
theorem idle (h : InStep token f K s) {t : RawToken} (ht : Rotation.InTurn s.web.log t) :
    (∀ t', s.serving t' = none) ∧
      ∀ t' ses, s.api.sessions t' = some ses → ¬ ses.op.Ours deps K := by
  have hnone : ∀ t', s.serving t' = none := by
    intro t'
    by_contra hne
    obtain ⟨i, hi⟩ := Option.ne_none_iff_exists'.mp hne
    obtain ⟨fl, raw, -, -, -, -, -, -, hhead, -⟩ := h.serving t' i hi
    exact absurd (hhead.symm.trans ht) (by simp)
  exact ⟨hnone, fun t' ses ht' ho => h.ours t' ses ht' ho (hnone t')⟩

/-- A step of the tab or the proxy that begins no refresh. -/
theorem of_web (h : InStep token f K s) {l : Web.Label} {web' : Web.State}
    (hturn : s.web.InTurn l) (hby : s.web.byApi l = false) (hbegins : s.web.begins l = none)
    (hweb : s.web.step l = some web') : InStep token f K { s with web := web' } := by
  have hout := Web.outside_of_step hweb hby
  have hlog : web'.log = s.web.log := by
    rw [hout.log, hbegins]
    rfl
  refine ⟨h.run, h.web.tail hturn hweb, fun t i ht => ?_, h.ours,
    fun r hr => h.good r (hlog ▸ hr), ?_⟩
  · obtain ⟨fl, raw, ses, jti, bytes, hfl, hposted, htoken, hhead, hrest⟩ := h.serving t i ht
    exact ⟨fl, raw, ses, jti, bytes, hout.waits i fl hfl hposted (htoken ▸ rfl), hposted,
      htoken, hlog ▸ hhead, hrest⟩
  · show web'.log.head? ≠ _ → _
    rw [hlog]
    exact h.past

/-- A refresh begins, in turn. -/
theorem of_begun (h : InStep token f K s) {l : Web.Label} {web' : Web.State} {raw bytes : RawToken}
    {t jti : Nat} {api' : Auth.Sys deps} (hturn : s.web.InTurn l) (hby : s.web.byApi l = false)
    (hbegins : s.web.begins l = some raw) (hbytes : K (hashToken deps bytes))
    (hweb : s.web.step l = some web')
    (hapi : s.api.step (.begin t (.refresh raw jti bytes)) = some api') :
    InStep token f K ⟨web', api', Function.update s.serving t (some s.web.flights.length)⟩ := by
  have hout := Web.outside_of_step hweb hby
  have hturn' : s.web.log.head? = some (.issued raw) := hturn raw hbegins
  obtain ⟨hnone, hfree⟩ := h.idle hturn'
  have hu := h.good raw hturn'
  have hraw : K (hashToken deps raw) := by
    obtain ⟨r, hr, hh, hf, -⟩ := hu
    exact hh ▸ h.run.good.inv.hashes r hr hf
  have hpolite : Polite f K s.api (.begin t (.refresh raw jti bytes)) := by
    rintro t' op he
    obtain ⟨-, rfl⟩ := Label.begin.inj he
    exact .inr ⟨raw, jti, bytes, rfl, hraw, hbytes, hu, hfree⟩
  have hrun := h.run.step hpolite hapi
  obtain ⟨-, rfl⟩ := Discipline.begin_cases hapi
  have hlog : web'.log = .spent raw :: s.web.log := by
    rw [hout.log, hbegins]
    rfl
  obtain ⟨side, hflights⟩ := hout.posted raw hbegins
  refine ⟨hrun, h.web.tail hturn hweb, fun t' i ht' => ?_, fun t' ses ht' ho => ?_,
    fun r hr => ?_, ?_⟩
  · by_cases hne : t' = t
    · subst hne
      obtain rfl : s.web.flights.length = i := Option.some.inj
        ((Function.update_self t' _ s.serving).symm.trans ht')
      refine ⟨⟨side, some raw, .posted⟩, raw, _, jti, bytes, ?_, rfl, rfl, ?_,
        Function.update_self _ _ _, rfl, hraw⟩
      · show web'.flights[_]? = _
        rw [hflights]
        exact List.getElem?_concat_length
      · show web'.log.head? = _
        rw [hlog]
        rfl
    · exact absurd ((Function.update_of_ne hne _ s.serving).symm.trans ht') (by simp [hnone t'])
  · by_cases hne : t' = t
    · subst hne
      simp
    · exact absurd ho (hfree t' ses ((Function.update_of_ne hne _ _).symm.trans ht'))
  · have hr : web'.log.head? = some (.issued r) := hr
    rw [hlog] at hr
    exact absurd hr (by simp)
  · show web'.log.head? ≠ _ → ∀ r, .issued r ∈ web'.log → _
    intro _ r hr
    have hold : .issued r ∈ s.web.log := by
      rw [hlog] at hr
      simpa using hr
    rw [show web'.log.head? = some (.spent raw) by rw [hlog]; rfl]
    rcases h.past (by simp [hturn']) r hold with hh | hh | hh
    · exact .inr (.inl (by rw [hturn'] at hh; simpa using hh))
    · exact absurd (hturn'.symm.trans hh) (by simp)
    · exact .inr (.inr hh)

/-- A step of the API that ends no refresh of the session. -/
theorem of_api (h : InStep token f K s) {l : Label (authService deps)} {api' : Auth.Sys deps}
    (hC : ∀ t op, l = .begin t op → op.Foreign deps f K)
    (hends : ∀ t, l.ends = some t → s.serving t = none) (hapi : s.api.step l = some api') :
    InStep token f K { s with api := api' } := by
  obtain ⟨honward, hspares⟩ := onward_step h.run.good hapi
  refine ⟨h.run.step (fun t op he => .inl (hC t op he)) hapi, h.web, fun t i ht => ?_,
    fun t ses' ht' ho => ?_, fun r hr => hspares (h.idle hr).2 _ (h.good r hr),
    fun hopen r hr => ?_⟩
  · obtain ⟨fl, raw, ses, jti, bytes, hfl, hposted, htoken, hhead, hses, hop, hraw⟩ := h.serving t i ht
    have hl : l.ends ≠ some t := fun he => by simp [hends t he] at ht
    obtain ⟨ses', hses', hop'⟩ := Txn.stays_of_step hapi hses hl
    exact ⟨fl, raw, ses', jti, bytes, hfl, hposted, htoken, hhead, hses', hop'.trans hop, hraw⟩
  · rcases Txn.op_of_step hapi ht' with ⟨ses, ht, hop⟩ | hl
    · exact h.ours t ses ht (hop ▸ ho)
    · exact absurd ho (hC t _ hl).not_ours
  · exact (h.past hopen r hr).imp_right (Or.imp_right fun hs => hs.kept honward.kept)

/-- What the response of a refresh of the session says is true, and news. -/
theorem outcome_cases (h : InStep token f K s) {l : Label (authService deps)} {api' : Auth.Sys deps}
    {t : Nat} {i : Web.FlightId} (ht : l.ends = some t) (hi : s.serving t = some i)
    (hapi : s.api.step l = some api') : ∃ fl raw, s.web.flights[i]? = some fl ∧
      fl.phase = .posted ∧ fl.refreshToken = some raw ∧ s.web.log.head? = some (.spent raw) ∧
      (Site.outcome s.api t l = .notOk ∨ ∃ bytes, Site.outcome s.api t l = .ok bytes ∧
        .issued bytes ∉ s.web.log ∧ Unspent f (hashToken deps bytes) api'.world ∧
        Spent (hashToken deps raw) api'.world) := by
  obtain ⟨fl, raw, ses, jti, bytes, hfl, hposted, htoken, hhead, hses, hop, hraw⟩ := h.serving t i hi
  refine ⟨fl, raw, hfl, hposted, htoken, hhead, ?_⟩
  cases l with
  | commit t' =>
    obtain rfl : t' = t := Option.some.inj ht
    obtain ⟨ses', a, hses', hp, rfl⟩ := Discipline.commit_cases hapi
    obtain rfl := Option.some.inj (hses.symm.trans hses')
    obtain ⟨r', hr', hmap⟩ := h.run.good.post hses hp raw jti bytes hop hraw
    cases r' with
    | error e => exact absurd hmap (by simp [Except.map])
    | ok pair =>
      obtain rfl : a = .tokens pair := Except.ok.inj hmap
      obtain ⟨hpair, hu, hs⟩ := hr'
      have hview : (s.api.ctx t' ses).view = s.api.world := Accord.view_eq _
      refine .inr ⟨bytes, ?_, fun hold => ?_, hview ▸ hu, hview ▸ hs⟩
      · simp [Site.outcome, hses, hp, hpair]
      -- the token is not revoked, and all that were issued before are
      · have hnot := hu.not_spent h.run.good.inv.valid
        rcases h.past (by simp [hhead]) bytes hold with hh | hh | hh
        · exact absurd (hhead.symm.trans hh) (by simp)
        · obtain rfl : raw = bytes := by
            rw [hhead] at hh
            simpa using hh
          exact hnot hs
        · exact hnot hh
  | rollback t' => exact .inl rfl
  | crash t' => exact .inl rfl
  | begin t' op => exact absurd ht (by simp [Txn.Label.ends])
  | exec t' x => exact absurd ht (by simp [Txn.Label.ends])
  | env e => exact absurd ht (by simp [Txn.Label.ends])

/-- A refresh of the session is answered. -/
theorem of_answer (h : InStep token f K s) {l : Label (authService deps)} {api' : Auth.Sys deps}
    {t : Nat} {i : Web.FlightId} (hC : ∀ t op, l = .begin t op → op.Foreign deps f K)
    (ht : l.ends = some t) (hi : s.serving t = some i) (hapi : s.api.step l = some api') :
    InStep token f K
      ⟨Site.answer s.web i (Site.outcome s.api t l), api', Function.update s.serving t none⟩ := by
  obtain ⟨fl, raw, hfl, hposted, htoken, hhead, hout⟩ := h.outcome_cases ht hi hapi
  have hrun := h.run.step (fun t op he => .inl (hC t op he)) hapi
  obtain ⟨_, _, ses, _, _, -, -, -, -, hses, hop, hraw⟩ := h.serving t i hi
  -- nobody else refreshes
  have halone : ∀ t' ses', s.api.sessions t' = some ses' → ses'.op.Ours deps K → t' = t :=
    fun t' ses' ht' ho => h.run.one t' t ses' ses ht' hses ho (hop ▸ hraw)
  have hserving : ∀ t', Function.update s.serving t none t' = none := by
    intro t'
    by_cases hne : t' = t
    · exact hne ▸ Function.update_self _ _ _
    · rw [Function.update_of_ne hne]
      by_contra hsome
      obtain ⟨i', hi'⟩ := Option.ne_none_iff_exists'.mp hsome
      obtain ⟨_, _, ses', _, _, -, -, -, -, hses', hop', hraw'⟩ := h.serving t' i' hi'
      exact hne (halone t' ses' hses' (hop' ▸ hraw'))
  have hours : ∀ t' ses', api'.sessions t' = some ses' → ¬ ses'.op.Ours deps K := by
    intro t' ses' ht' ho
    rcases Txn.op_of_step hapi ht' with ⟨ses₀, ht₀, hop₀⟩ | hl
    · obtain rfl := halone t' ses₀ ht₀ (hop₀ ▸ ho)
      exact absurd ((Txn.closed_of_step ht hapi).symm.trans ht') (by simp)
    · exact (hC t' _ hl).not_ours ho
  have hanswer (o : Web.Outcome) : Site.answer s.web i o =
      { s.web.advance i fl (.answered o) with
        log := Web.State.answerEntry fl o ++ s.web.log } := by
    simp only [Site.answer, hfl]
  have hstep (o : Web.Outcome) (hmay : s.web.mayAnswer fl o = true) :
      s.web.step (.answer i o) = some (Site.answer s.web i o) := by
    simp only [Web.State.step, hfl, hanswer, hposted, hmay, and_self, if_true]
  have hlog (o : Web.Outcome) : (Site.answer s.web i o).log =
      Web.State.answerEntry fl o ++ s.web.log := by rw [hanswer]
  rcases hout with ho | ⟨bytes, ho, hnew, hu, hs⟩ <;> rw [ho]
  · have hmay : s.web.mayAnswer fl .notOk = true := rfl
    refine ⟨hrun, h.web.tail (fun r hr => absurd hr (by simp [Web.State.begins])) (hstep _ hmay),
      fun t' i' ht' => absurd ((hserving t').symm.trans ht') (by simp),
      fun t' ses' ht' ho => absurd ho (hours t' ses' ht'), fun r hr => ?_, fun hopen => ?_⟩
    · have hr : (Site.answer s.web i .notOk).log.head? = some (.issued r) := hr
      simp [hlog, Web.State.answerEntry, htoken] at hr
    · exact absurd (show (Site.answer s.web i .notOk).log.head? = _ by
        simp [hlog, Web.State.answerEntry, htoken]) hopen
  · have hmay : s.web.mayAnswer fl (.ok bytes) = true := by
      simp [Web.State.mayAnswer, htoken, hnew]
    have hlog' : (Site.answer s.web i (.ok bytes)).log = .issued bytes :: s.web.log := by
      simp [hlog, Web.State.answerEntry, htoken]
    refine ⟨hrun, h.web.tail (fun r hr => absurd hr (by simp [Web.State.begins])) (hstep _ hmay),
      fun t' i' ht' => absurd ((hserving t').symm.trans ht') (by simp),
      fun t' ses' ht' ho => absurd ho (hours t' ses' ht'), fun r hr => ?_, fun _ r hr => ?_⟩
    · have hr : (Site.answer s.web i (.ok bytes)).log.head? = some (.issued r) := hr
      obtain rfl : bytes = r := by simpa [hlog'] using hr
      exact hu
    · have hr : .issued r ∈ (Site.answer s.web i (.ok bytes)).log := hr
      rw [hlog'] at hr
      rcases List.mem_cons.mp hr with he | hold
      · obtain rfl := Entry.issued.inj he
        exact .inl (congrArg List.head? hlog')
      · have hkept := (onward_step h.run.good hapi).1.kept
        rcases h.past (by simp [hhead]) r hold with hh | hh | hh
        · exact absurd (hhead.symm.trans hh) (by simp)
        · obtain rfl : raw = r := by
            rw [hhead] at hh
            simpa using hh
          exact .inr (.inr hs)
        · exact .inr (.inr (hh.kept hkept))

theorem step (h : InStep token f K s) {e : Event deps} (hC : Apart f K s e) (hturn : InTurn s e)
    (hs : s.step e = some s') : InStep token f K s' := by
  cases e with
  | web l t jti bytes =>
    obtain ⟨hby, web', hweb, ⟨hbegins, rfl⟩ | ⟨raw, api', hbegins, hapi, rfl⟩⟩ := Site.web_cases hs
    · exact h.of_web hturn hby hbegins hweb
    · exact h.of_begun hturn hby hbegins (hC (by simp [hbegins])) hweb hapi
  | api l =>
    obtain ⟨api', hapi, ⟨hends, rfl⟩ | ⟨t, i, ht, hi, rfl⟩⟩ := Site.api_cases hs
    · exact h.of_api hC hends hapi
    · exact h.of_answer hC ht hi hapi

end InStep

/-- What a user who is signed in can count on. -/
structure Trusted (token : RawToken) (f : Family) (K : TokenHash → Prop) (s : Site deps) :
    Prop where
  /-- the API answers as the tab and the proxy take it to -/
  web : Machine.Reach Web.State.step Web.State.InTurn (.start token) s.web
  /-- the token issued last, until it is spent, is not revoked -/
  good : ∀ t, Rotation.InTurn s.web.log t → Unspent f (hashToken deps t) s.api.world
  /-- a refresh gives the next token, or fails because its token has expired, or in the database -/
  answered : WellAnswered K s.api

/-- **A session whose refreshes begin in turn is never taken for stolen.** -/
theorem signed_in (hg : Guarded f K w) (hu : Unspent f (hashToken deps token) w)
    (hr : Machine.Reach Site.step (fun s e => Apart f K s e ∧ InTurn s e)
      (.start w token : Site deps) s) : Trusted token f K s := by
  have h : InStep token f K s := hr.inv (.start hg hu) fun s e s' hC h hs => h.step hC.1 hC.2 hs
  exact ⟨h.web, h.good, h.run.answered⟩

namespace Campus

open Auth.Campus (stubs world world_valid)

/-- The tokens of user 1 are the small ones. -/
def small (h : TokenHash) : Prop := h ≤ 1010

instance : DecidablePred small := fun h => inferInstanceAs (Decidable (h ≤ 1010))

theorem world_guarded : Guarded 5 small world := by
  refine ⟨world_valid, fun r hr _ => ?_⟩
  rw [List.mem_singleton.mp hr]
  exact of_decide_eq_true rfl

theorem world_unspent : Unspent 5 1001 world := ⟨_, List.mem_singleton_self _, rfl, rfl, rfl⟩

/-- A check of `Apart`, for refreshes alone. -/
def apart (_ : Site stubs) : Event stubs → Bool
  | .web _ _ _ bytes => decide (small (hashToken stubs bytes))
  | .api (.begin _ (.refresh raw _ _)) => !decide (small (hashToken stubs raw))
  | .api (.begin _ _) => false
  | .api _ => true

theorem apart_of_check (s : Site stubs) (e : Event stubs) (h : apart s e = true) :
    Apart 5 small s e := by
  cases e with
  | web l t jti bytes => exact fun _ => by simpa [apart] using h
  | api l =>
    rintro t op rfl
    cases op with
    | refresh raw jti bytes => simpa [apart, Op.Foreign] using h
    | login dto family jti bytes => exact absurd h (by simp [apart])
    | logout raw => exact absurd h (by simp [apart])

/-- A check of `InTurn`. -/
def inTurn (s : Site stubs) : Event stubs → Bool
  | .web l _ _ _ => (s.web.begins l).all fun t => s.web.log.head? == some (.issued t)
  | .api _ => true

theorem inTurn_of_check (s : Site stubs) (e : Event stubs) (h : inTurn s e = true) :
    InTurn s e := by
  cases e with
  | web l t jti bytes =>
    intro r hr
    have hhead : s.web.log.head? = some (.issued r) := by simpa [inTurn, hr] using h
    exact hhead
  | api l => trivial

/-- A step of the tab or the proxy that begins no refresh. -/
def web (l : Web.Label) : Event stubs := .web l 0 0 2

/-- Session `t` serves a refresh in seven statements; `id` is the uuid of the new row. -/
def serve (t : Nat) (id : TokenId) : List (Event stubs) :=
  List.replicate 7 (.api (.exec t id)) ++ [.api (.commit t)]

/-- The proxy refreshes for a page, and then the tab for a call.  Somebody tries a token that does
not exist. -/
def twoRefreshes : List (Event stubs) :=
  [web .dropAccess, web (.navigate 0), .web (.arrive 0 true) 3 0 2, .api (.begin 4 (.refresh 20 0 21)),
    .api (.exec 4 0)] ++ serve 3 10 ++ [web (.settle 0), web (.reply 0), web (.deliver 0),
    web (.apiFetch 0), .api (.rollback 4), .web (.unauthorized 0 true) 5 1 3] ++ serve 5 11 ++
    [web (.settle 1), web (.resume 0)]

set_option maxRecDepth 8000 in
theorem twoRefreshes_runs : (Machine.runIf Site.step (fun s e => apart s e && inTurn s e)
    (.start world 1) twoRefreshes).isSome = true := by decide

def afterTwoRefreshes : Site stubs := (Machine.runIf Site.step (fun s e => apart s e && inTurn s e)
  (.start world 1) twoRefreshes).get twoRefreshes_runs

set_option maxRecDepth 8000 in
theorem signed_in_twoRefreshes :
    Trusted 1 5 small afterTwoRefreshes ∧ afterTwoRefreshes.web.jar = .refreshed 3 ∧
      afterTwoRefreshes.web.log.head? = some (.issued 3) := by
  refine ⟨signed_in world_guarded world_unspent (.of_runIf (fun s e h => ?_) .refl
    (Option.some_get twoRefreshes_runs).symm), by decide, by decide⟩
  rw [Bool.and_eq_true] at h
  exact ⟨apart_of_check s e h.1, inTurn_of_check s e h.2⟩

/-- The page and the call of the tab post one token. -/
def crossing : List (Event stubs) :=
  [web .dropAccess, web (.navigate 0), web (.apiFetch 0), .web (.arrive 0 true) 3 0 2,
    .web (.unauthorized 0 true) 4 1 3] ++ serve 3 10 ++ [.api (.exec 4 11), .api (.exec 4 11),
    .api (.exec 4 11), .api (.rollback 4)]

set_option maxRecDepth 8000 in
theorem crossing_runs :
    (Machine.runIf Site.step apart (.start world 1) crossing).isSome = true := by decide

def afterCrossing : Site stubs :=
  (Machine.runIf Site.step apart (.start world 1) crossing).get crossing_runs

set_option maxRecDepth 8000 in
theorem crossing_family :
    afterCrossing.api.world.refreshTokens.map (fun r => (r.tokenHash, r.family, r.revoked)) =
      [(1001, 5, true), (1002, 5, true)] := by decide

set_option maxRecDepth 8000 in
/-- **Out of turn the user is signed out**: the token that the page brings is revoked already. -/
theorem crossing_signs_out : ¬ ∀ s : Site stubs,
    Machine.Reach Site.step (Apart 5 small) (.start world 1) s → Trusted 1 5 small s := by
  intro h
  obtain ⟨-, -, hanswered⟩ := h afterCrossing
    (.of_runIf apart_of_check .refl (Option.some_get crossing_runs).symm)
  have hmem : (4, Op.refresh 1 1 3, (.error (Auth.unauthorized "Token reuse detected"))) ∈
      answers afterCrossing.api := by decide
  rcases hanswered _ hmem 1 1 3 rfl (by decide) with ⟨a, ha⟩ | ⟨err, herr, hex⟩
  · exact absurd ha (by simp)
  · obtain rfl := Except.error.inj herr
    rcases hex with ⟨he, -⟩ | ⟨d, hd⟩
    · exact absurd he (by decide)
    · exact absurd hd (by simp [Auth.unauthorized])

end Campus

end Enroll.SignedIn
