/-
# Entries, timers and cookies

Which runs of the tab and the proxy spend each token once.  An entry of the proxy or of the tab
stands in for a token that the API has received: whoever presents the token next joins its flight.
Two things go wrong.  The entries do not see each other (`Crosses`), and an entry may go, by its
timer or with the document, while its token is still about (`Drops`): in the jar, in a page request
on its way to the proxy, or in a response on its way to the browser (`Carried`).

`posted_once`: in a run in which neither happens the endpoint receives no token twice.  That the
entries hold what they should is `Entries`; the invariant is `Sheltered`.  Every refresh of such a run
begins in turn (`inTurn_of_kept`).
-/
import Enroll.Machine
import Enroll.TokenReplay

namespace Enroll.Web

open Rotation (Entry)

/-! ## 1. Where a token is -/

/-- The outcome of a flight, as far as it is known to anybody. -/
def Flight.outcome (f : Flight) : Option Outcome :=
  match f.phase with
  | .posted => none
  | .answered o => some o
  | .settled o _ => some o
  | .evicted o => some o

/-- The API got the POST. -/
def Flight.reached (f : Flight) : Bool := f.outcome != some .unreachable

namespace State

variable (s : State)

/-- The token that the answer of flight `i` brings. -/
def brought (i : FlightId) : Option Token := (s.flights[i]?).bind Flight.token

/-- The token that a page request brings to the proxy, or its response to the browser.  A request
with an access cookie passes the proxy by. -/
def brings : Page → Option Token
  | .sent cookies => if cookies.accessToken then none else cookies.refreshToken
  | .awaiting flight => s.brought flight
  | .replied (.next setCookies) => setCookies
  | .replied .login => none

/-- The proxy has an entry for the token, of a refresh that the API got. -/
def ProxyHolds (t : Token) : Prop :=
  ∃ i f, s.inflightRefreshes t = some i ∧ s.flights[i]? = some f ∧ f.reached = true

/-- The slot of the tab is a refresh of the token that the API got. -/
def TabHolds (t : Token) : Prop :=
  ∃ i f, s.inflightRefresh = some i ∧ s.flights[i]? = some f ∧ f.refreshToken = some t ∧
    f.reached = true

end State

/-- The token is about: whoever has it may present it, or it is on its way to somebody who may.  A
page request that has token `t₀` joins the flight of its entry and brings what that one brings. -/
inductive Carried (s : State) : Token → Prop
  | jar {t : Token} : s.jar.refreshToken = some t → Carried s t
  | page {page : PageId} {p : Page} {t : Token} :
      s.pages page = some p → s.brings p = some t → Carried s t
  | response {i : FlightId} {f : Flight} {t : Token} : s.flights[i]? = some f → f.side = .tab →
      f.phase = .answered (.ok t) → Carried s t
  | joins {t₀ t : Token} {i : FlightId} : Carried s t₀ → s.inflightRefreshes t₀ = some i →
      s.brought i = some t → Carried s t

namespace State

variable (s : State)

/-- The refresh that the step begins has a token that the other side has an entry for. -/
def Crosses (l : Label) : Prop :=
  ∃ t, s.begins l = some t ∧
    match l with
    | .arrive _ _ => s.TabHolds t
    | .unauthorized _ _ => s.ProxyHolds t
    | _ => False

/-- The step takes away the entry of a refresh of the token that the API got: its timer fires, or
the document goes and the slot of the tab with it. -/
def Drops (t : Token) : Label → Prop
  | .evict i => ∃ f, s.flights[i]? = some f ∧ f.refreshToken = some t ∧ f.reached = true ∧
      (f.side = .tab → s.inflightRefresh = some i)
  | .reload => s.TabHolds t
  | _ => False

end State

/-- The condition of a run: no refresh crosses the other side's, and an entry goes only when its
token is not about any more. -/
structure Kept (s : State) (l : Label) : Prop where
  apart : ¬ s.Crosses l
  outlives : ∀ t, s.Drops t l → ¬ Carried s t

variable {s s' : State} {l : Label} {t : Token}

/-! ## 2. Entries -/

/-- An entry leads to a flight of its side that is not evicted, and the proxy has one for every such
flight.  What a flight carries was issued, and spent if the API got it. -/
structure Entries (s : State) : Prop where
  entry : ∀ t i, s.inflightRefreshes t = some i → ∃ f, s.flights[i]? = some f ∧
    f.refreshToken = some t
  proxy : ∀ i f, s.flights[i]? = some f → f.side = .proxy → (∀ o, f.phase ≠ .evicted o) →
    ∃ t, f.refreshToken = some t ∧ s.inflightRefreshes t = some i
  slot : ∀ i, s.inflightRefresh = some i → ∃ f, s.flights[i]? = some f ∧ f.side = .tab
  issued : ∀ f ∈ s.flights, ∀ t, f.refreshToken = some t → .issued t ∈ s.log
  spent : ∀ f ∈ s.flights, ∀ t, f.refreshToken = some t → f.reached = true → .spent t ∈ s.log

/-- What a token is known to have is known to be held. -/
theorem Carried.held (h : Carried s t) : Held s t := by
  have hbrought {i : FlightId} {t : Token} (hi : s.brought i = some t) : Held s t := by
    obtain ⟨f, hf, ht⟩ := Option.bind_eq_some_iff.mp hi
    exact .flight f (List.mem_of_getElem? hf) ht
  cases h with
  | jar h => exact .jar h
  | @page page p _ hp ht =>
    cases p with
    | sent cookies =>
      simp only [State.brings] at ht
      split at ht
      · exact absurd ht (by simp)
      · exact .page page _ hp ht
    | awaiting flight => exact hbrought ht
    | replied reply =>
      cases reply with
      | next setCookies => exact .page page _ hp ht
      | login => exact absurd ht (by simp [State.brings])
  | @response i f _ hf hside hphase =>
    exact .flight f (List.mem_of_getElem? hf) (by simp [Flight.token, hphase, Outcome.token])
  | joins h hmap hi => exact hbrought hi

/-! ## 3. Flights go on -/

/-- Flight `i` has gone on to the phase `p`. -/
structure Advanced (s : State) (i : FlightId) (f : Flight) (p : Phase) (s' : State) : Prop where
  at_i : s.flights[i]? = some f
  flights : s'.flights = s.flights.set i { f with phase := p }

namespace Advanced

variable {i j : FlightId} {f g : Flight} {p : Phase}

theorem self (h : Advanced s i f p s') : s'.flights[i]? = some { f with phase := p } := by
  rw [h.flights]
  exact List.getElem?_set_self (List.getElem?_eq_some_iff.mp h.at_i).1

theorem other (h : Advanced s i f p s') (hne : j ≠ i) : s'.flights[j]? = s.flights[j]? := by
  rw [h.flights]
  exact List.getElem?_set_ne (Ne.symm hne)

/-- A flight as it was, but for its phase. -/
theorem cases (h : Advanced s i f p s') (hg : s'.flights[j]? = some g) :
    (j = i ∧ g = { f with phase := p }) ∨ (j ≠ i ∧ s.flights[j]? = some g) := by
  by_cases hj : j = i
  · subst hj
    exact .inl ⟨rfl, Option.some.inj (hg.symm.trans h.self)⟩
  · exact .inr ⟨hj, (h.other hj).symm.trans hg⟩

/-- Only the phase of a flight changes. -/
theorem kept (h : Advanced s i f p s') (hg : s.flights[j]? = some g) :
    ∃ g', s'.flights[j]? = some g' ∧ g'.refreshToken = g.refreshToken ∧ g'.side = g.side := by
  by_cases hj : j = i
  · subst hj
    obtain rfl := Option.some.inj (h.at_i.symm.trans hg)
    exact ⟨_, h.self, rfl, rfl⟩
  · exact ⟨g, (h.other hj).trans hg, rfl, rfl⟩

theorem brought (h : Advanced s i f p s') (hp : ({ f with phase := p } : Flight).token = f.token)
    (j : FlightId) : s'.brought j = s.brought j := by
  unfold State.brought
  by_cases hj : j = i
  · subst hj
    rw [h.self, h.at_i]
    exact hp
  · rw [h.other hj]

end Advanced

/-! ## 4. What a step leaves about -/

theorem Carried.back (h : Carried s' t)
    (hjar : ∀ t, s'.jar.refreshToken = some t → Carried s t)
    (hpages : ∀ page p t, s'.pages page = some p → s'.brings p = some t → Carried s t)
    (hresponse : ∀ (i : FlightId) (f : Flight) (t : Token), s'.flights[i]? = some f →
      f.side = .tab → f.phase = .answered (.ok t) → Carried s t)
    (hjoins : ∀ t₀ i t, Carried s t₀ → s'.inflightRefreshes t₀ = some i → s'.brought i = some t →
      Carried s t) : Carried s t := by
  induction h with
  | jar h => exact hjar _ h
  | page hp ht => exact hpages _ _ _ hp ht
  | response hf hside hphase => exact hresponse _ _ _ hf hside hphase
  | joins h hmap hi ih => exact hjoins _ _ _ ih hmap hi

/-- What page requests bring depends on the flights. -/
theorem brings_congr (h : ∀ i, s'.brought i = s.brought i) (p : Page) :
    s'.brings p = s.brings p := by
  cases p with
  | sent cookies => rfl
  | awaiting flight => exact h flight
  | replied reply => cases reply <;> rfl

/-- One page request goes on, with what was about. -/
theorem Carried.of_page {page : PageId} {o : Option Page} (h : Carried s' t)
    (hjar : s'.jar = s.jar) (hpages : s'.pages = Function.update s.pages page o)
    (hflights : s'.flights = s.flights) (hmap : s'.inflightRefreshes = s.inflightRefreshes)
    (ho : ∀ p, o = some p → ∀ t, s.brings p = some t → Carried s t) : Carried s t := by
  have hbrought (i : FlightId) : s'.brought i = s.brought i := by
    unfold State.brought
    rw [hflights]
  refine h.back (fun t ht => .jar (hjar ▸ ht)) (fun page' p t hp ht => ?_)
    (fun i f t hf => .response (hflights ▸ hf))
    (fun t₀ i t h₀ hi ht => .joins h₀ (hmap ▸ hi) (hbrought i ▸ ht))
  rw [brings_congr hbrought] at ht
  rw [hpages] at hp
  by_cases hsame : page' = page
  · subst hsame
    rw [Function.update_self] at hp
    exact ho p hp t ht
  · rw [Function.update_of_ne hsame] at hp
    exact .page hp ht

/-- The flights after a POST. -/
theorem post_cases {flight : Flight} {i : FlightId} {f : Flight}
    (hflights : s'.flights = s.flights ++ [flight]) (hf : s'.flights[i]? = some f) :
    s.flights[i]? = some f ∨ i = s.flights.length ∧ f = flight := by
  rw [hflights, List.getElem?_append] at hf
  split at hf
  · exact .inl hf
  · rename_i hle
    obtain ⟨hlt, hget⟩ := List.getElem?_eq_some_iff.mp hf
    have hone : i - s.flights.length < 1 := hlt
    have hi : i = s.flights.length :=
      Nat.le_antisymm (Nat.sub_eq_zero_iff_le.mp (Nat.lt_one_iff.mp hone)) (Nat.le_of_not_lt hle)
    exact .inr ⟨hi, by simpa using hget.symm⟩

/-- A new flight brings nothing yet. -/
theorem Carried.of_post {flight : Flight} (h : Carried s' t) (hnew : flight.token = none)
    (hjar : s'.jar = s.jar) (hflights : s'.flights = s.flights ++ [flight])
    (hpages : ∀ page p, s'.pages page = some p → s.pages page = some p ∨
      p = .awaiting s.flights.length)
    (hmap : ∀ t i, s'.inflightRefreshes t = some i → s.inflightRefreshes t = some i ∨
      i = s.flights.length) : Carried s t := by
  have hlast : s'.brought s.flights.length = none := by
    unfold State.brought
    rw [hflights, List.getElem?_concat_length]
    exact hnew
  have hbrought {i : FlightId} {t : Token} (ht : s'.brought i = some t) : s.brought i = some t := by
    obtain ⟨f, hf, hft⟩ := Option.bind_eq_some_iff.mp ht
    rcases post_cases hflights hf with hf | ⟨-, rfl⟩
    · exact Option.bind_eq_some_iff.mpr ⟨f, hf, hft⟩
    · exact absurd (hnew.symm.trans hft) (by simp)
  refine h.back (fun t ht => .jar (hjar ▸ ht)) (fun page p t hp ht => ?_)
    (fun i f t hf hside hphase => ?_) (fun t₀ i t h₀ hi ht => ?_)
  · rcases hpages page p hp with hp | rfl
    · refine .page hp ?_
      cases p with
      | sent cookies => exact ht
      | awaiting flight => exact hbrought ht
      | replied reply => cases reply <;> exact ht
    · exact absurd (hlast.symm.trans ht) (by simp)
  · rcases post_cases hflights hf with hf | ⟨-, rfl⟩
    · exact .response hf hside hphase
    · exact absurd hnew (by simp [Flight.token, hphase, Outcome.token])
  · rcases hmap t₀ i hi with hi | rfl
    · exact .joins h₀ hi (hbrought ht)
    · exact absurd (hlast.symm.trans ht) (by simp)

/-- A flight goes on, and its answer is known as before. -/
theorem Carried.of_advance {i : FlightId} {f : Flight} {p : Phase} (hc : Carried s' t)
    (h : Advanced s i f p s') (hp : ({ f with phase := p } : Flight).token = f.token)
    (hjar : ∀ t, s'.jar.refreshToken = some t → Carried s t) (hpages : s'.pages = s.pages)
    (hmap : ∀ t i, s'.inflightRefreshes t = some i → s.inflightRefreshes t = some i)
    (hphase : ∀ o, p ≠ .answered o) : Carried s t := by
  refine hc.back hjar (fun page p' t hp' ht => ?_) (fun j g t hg hside hph => ?_)
    (fun t₀ j t h₀ hj ht => .joins h₀ (hmap t₀ j hj) (h.brought hp j ▸ ht))
  · rw [brings_congr (h.brought hp)] at ht
    exact .page (hpages ▸ hp') ht
  · rcases h.cases hg with ⟨-, rfl⟩ | ⟨-, hg⟩
    · exact absurd hph (hphase _)
    · exact .response hg hside hph

/-- The API answers.  Only a token that it issues is new, and nobody has an entry for that one. -/
theorem Carried.of_answer {i : FlightId} {f : Flight} {o : Outcome} (hc : Carried s' t)
    (he : Entries s) (h : Advanced s i f (.answered o) s') (hfresh : ∀ t, o = .ok t → .issued t ∉ s.log) (hjar : s'.jar = s.jar)
    (hpages : s'.pages = s.pages) (hmap : s'.inflightRefreshes = s.inflightRefreshes) :
    Carried s t ∨ o = .ok t := by
  have hnew : ({ f with phase := .answered o } : Flight).token = o.token := rfl
  have hbrought {j : FlightId} {t : Token} (ht : s'.brought j = some t) :
      s.brought j = some t ∨ o = .ok t := by
    obtain ⟨g, hg, hgt⟩ := Option.bind_eq_some_iff.mp ht
    rcases h.cases hg with ⟨-, rfl⟩ | ⟨-, hg⟩
    · refine .inr ?_
      cases o with
      | ok t' => exact congrArg Outcome.ok (Option.some.inj hgt)
      | notOk => exact absurd hgt (by simp [hnew, Outcome.token])
      | unreachable => exact absurd hgt (by simp [hnew, Outcome.token])
    · exact .inl (Option.bind_eq_some_iff.mpr ⟨g, hg, hgt⟩)
  induction hc with
  | jar h => exact .inl (.jar (hjar ▸ h))
  | @page page p t hp ht =>
    rw [hpages] at hp
    cases p with
    | sent cookies => exact .inl (.page hp ht)
    | awaiting flight => exact (hbrought ht).imp_left (.page hp)
    | replied reply =>
      refine .inl (.page hp ?_)
      cases reply <;> exact ht
  | @response j g t hg hside hphase =>
    rcases h.cases hg with ⟨-, rfl⟩ | ⟨-, hg⟩
    · exact .inr (Phase.answered.inj hphase)
    · exact .inl (.response hg hside hphase)
  | @joins t₀ t j h₀ hj ht ih =>
    rw [hmap] at hj
    rcases ih with h₀ | ho
    · exact (hbrought ht).imp_left (.joins h₀ hj)
    · -- the new token has no entry
      obtain ⟨g, hg, hgt⟩ := he.entry t₀ j hj
      exact absurd (he.issued g (List.mem_of_getElem? hg) t₀ hgt) (hfresh t₀ ho)

/-! ## 5. What a step does -/

/-- One of the two sides has an entry for the token. -/
def State.Holds (s : State) (t : Token) : Prop := s.ProxyHolds t ∨ s.TabHolds t

/-- What a step does to entries and tokens. -/
structure Goes (s : State) (l : Label) (s' : State) : Prop where
  entries : Entries s'
  /-- nothing comes up but what is issued -/
  carried : ∀ t, Carried s' t → Carried s t ∨ .issued t ∉ s.log
  /-- entries stay, but for those that the step takes away -/
  holds : ∀ t, s.Holds t → s'.Holds t ∨ s.Drops t l
  /-- a refresh is of a token that was about, and has an entry from then on; its own side had none -/
  begun : ∀ t, s.begins l = some t → Carried s t ∧ s'.Holds t ∧ (s.Holds t → s.Crosses l)

theorem Entries.congr (h : Entries s) (hlog : s'.log = s.log) (hflights : s'.flights = s.flights)
    (hmap : s'.inflightRefreshes = s.inflightRefreshes)
    (hslot : ∀ i, s'.inflightRefresh = some i → s.inflightRefresh = some i) : Entries s' where
  entry t i hi := by
    rw [hflights]
    exact h.entry t i (hmap ▸ hi)
  proxy i f hf hside hphase := by
    rw [hmap]
    exact h.proxy i f (hflights ▸ hf) hside hphase
  slot i hi := by
    rw [hflights]
    exact h.slot i (hslot i hi)
  issued f hf t ht := by
    rw [hlog]
    exact h.issued f (hflights ▸ hf) t ht
  spent f hf t ht hr := by
    rw [hlog]
    exact h.spent f (hflights ▸ hf) t ht hr

/-- A step that is not about flights. -/
theorem Goes.quiet (h : Entries s) (hbegins : s.begins l = none) (hlog : s'.log = s.log)
    (hflights : s'.flights = s.flights) (hmap : s'.inflightRefreshes = s.inflightRefreshes)
    (hslot : s'.inflightRefresh = s.inflightRefresh) (hc : ∀ t, Carried s' t → Carried s t) :
    Goes s l s' where
  entries := h.congr hlog hflights hmap fun i hi => hslot ▸ hi
  carried t ht := .inl (hc t ht)
  holds t ht := by
    refine .inl (ht.imp ?_ ?_)
    · rintro ⟨i, f, hi, hf, hr⟩
      exact ⟨i, f, hmap ▸ hi, hflights ▸ hf, hr⟩
    · rintro ⟨i, f, hi, hf, hr⟩
      exact ⟨i, f, hslot ▸ hi, hflights ▸ hf, hr⟩
  begun t ht := absurd (hbegins.symm.trans ht) (by simp)

/-- A step of calls, clocks and cookies. -/
theorem Goes.of_eq (h : Entries s) (hbegins : s.begins l = none) (hlog : s'.log = s.log)
    (hjar : ∀ t, s'.jar.refreshToken = some t → s.jar.refreshToken = some t)
    (hpages : s'.pages = s.pages) (hflights : s'.flights = s.flights)
    (hmap : s'.inflightRefreshes = s.inflightRefreshes)
    (hslot : s'.inflightRefresh = s.inflightRefresh) : Goes s l s' := by
  refine .quiet h hbegins hlog hflights hmap hslot fun t ht => ?_
  have hbrought (i : FlightId) : s'.brought i = s.brought i := by
    unfold State.brought
    rw [hflights]
  refine ht.back (fun t ht => .jar (hjar t ht)) (fun page p t hp ht => ?_)
    (fun i f t hf => .response (hflights ▸ hf))
    (fun t₀ i t h₀ hi ht => .joins h₀ (hmap ▸ hi) (hbrought i ▸ ht))
  rw [brings_congr hbrought] at ht
  exact .page (hpages ▸ hp) ht

/-! ### A POST -/

section Post

variable {side : Side} {token : Option Token} {reaches : Bool}

/-- The flight that a POST adds. -/
def posting (side : Side) (token : Option Token) (reaches : Bool) : Flight :=
  ⟨side, token, if reaches then .posted else .answered .unreachable⟩

theorem posting_reached : (posting side token reaches).reached = reaches := by
  cases reaches <;> rfl

theorem posting_token : (posting side token reaches).token = none := by
  cases reaches <;> rfl

theorem getElem?_post {flight f : Flight} {i : FlightId}
    (hflights : s'.flights = s.flights ++ [flight]) (hf : s.flights[i]? = some f) :
    s'.flights[i]? = some f := by
  rw [hflights, List.getElem?_append_left (List.getElem?_eq_some_iff.mp hf).1]
  exact hf

theorem Entries.post (h : Entries s)
    (hflights : s'.flights = s.flights ++ [posting side token reaches])
    (hlog : ∀ e ∈ s.log, e ∈ s'.log) (htoken : ∀ t, token = some t → Entry.issued t ∈ s.log)
    (hspent : ∀ t, token = some t → reaches = true → Entry.spent t ∈ s'.log)
    (hside : side = .proxy → ∃ t, token = some t)
    (hmap : ∀ t i, s'.inflightRefreshes t = some i ↔ s.inflightRefreshes t = some i ∨
      side = .proxy ∧ token = some t ∧ i = s.flights.length)
    (hslot : ∀ i, s'.inflightRefresh = some i → s.inflightRefresh = some i ∨
      side = .tab ∧ i = s.flights.length) : Entries s' := by
  have hlast : s'.flights[s.flights.length]? = some (posting side token reaches) := by
    rw [hflights]
    exact List.getElem?_concat_length
  refine ⟨fun t i hi => ?_, fun i f hf hproxy hphase => ?_, fun i hi => ?_, fun f hf t ht => ?_,
    fun f hf t ht hr => ?_⟩
  · rcases (hmap t i).mp hi with hi | ⟨-, rfl, rfl⟩
    · obtain ⟨f, hf, hft⟩ := h.entry t i hi
      exact ⟨f, getElem?_post hflights hf, hft⟩
    · exact ⟨_, hlast, rfl⟩
  · rcases post_cases hflights hf with hf | ⟨rfl, rfl⟩
    · obtain ⟨t, ht, hi⟩ := h.proxy i f hf hproxy hphase
      exact ⟨t, ht, (hmap t i).mpr (.inl hi)⟩
    · obtain ⟨t, ht⟩ := hside hproxy
      exact ⟨t, ht, (hmap t _).mpr (.inr ⟨hproxy, ht, rfl⟩)⟩
  · rcases hslot i hi with hi | ⟨hside, rfl⟩
    · obtain ⟨f, hf, hft⟩ := h.slot i hi
      exact ⟨f, getElem?_post hflights hf, hft⟩
    · exact ⟨_, hlast, hside⟩
  · rw [hflights] at hf
    rcases List.mem_append.mp hf with hf | hf
    · exact hlog _ (h.issued f hf t ht)
    · obtain rfl := List.mem_singleton.mp hf
      exact hlog _ (htoken t ht)
  · rw [hflights] at hf
    rcases List.mem_append.mp hf with hf | hf
    · exact hlog _ (h.spent f hf t ht hr)
    · obtain rfl := List.mem_singleton.mp hf
      exact hspent t ht (posting_reached.symm.trans hr)

variable (side) in
theorem log_post (e : Entry Token) (he : e ∈ s.log) : e ∈ (s.post side token reaches).log := by
  show e ∈ if reaches then _ else _
  cases reaches with
  | false => exact he
  | true => exact List.mem_append_right _ he

variable (side) in
theorem spent_post (t : Token) (ht : token = some t) (hr : reaches = true) :
    Entry.spent t ∈ (s.post side token reaches).log := by
  subst ht hr
  exact List.mem_cons_self

end Post

/-- The proxy posts the token of a page request. -/
theorem goes_post_proxy {page : PageId} {cookies : Jar} {reaches : Bool} {token : Token}
    (hi : Inv s) (h : Entries s) (hpage : s.pages page = some (.sent cookies))
    (haccess : cookies.accessToken = false) (htoken : cookies.refreshToken = some token)
    (hmap : s.inflightRefreshes token = none)
    (hflights : s'.flights = s.flights ++ [posting .proxy (some token) reaches])
    (hlog : ∀ e ∈ s.log, e ∈ s'.log)
    (hspent : ∀ t, some token = some t → reaches = true → Entry.spent t ∈ s'.log)
    (hjar : s'.jar = s.jar)
    (hpages : s'.pages = Function.update s.pages page (some (.awaiting s.flights.length)))
    (hmap' : s'.inflightRefreshes
      = Function.update s.inflightRefreshes token (some s.flights.length))
    (hslot : s'.inflightRefresh = s.inflightRefresh) : Goes s (.arrive page reaches) s' := by
  have hcarried : Carried s token := .page hpage (by simp [State.brings, haccess, htoken])
  have hentry (t : Token) (i : FlightId) : s'.inflightRefreshes t = some i ↔
      s.inflightRefreshes t = some i ∨ Side.proxy = .proxy ∧ some token = some t ∧
        i = s.flights.length := by
    rw [hmap']
    by_cases ht : t = token
    · subst ht
      simp [hmap, eq_comm]
    · simp [Function.update_of_ne ht, Ne.symm ht]
  have hbegins := begins_arrive reaches hpage
  refine ⟨h.post hflights hlog ?_ hspent (fun _ => ⟨token, rfl⟩) hentry fun i hi => .inl (hslot ▸ hi),
    fun t ht => .inl ?_, fun t ht => .inl ?_, fun t ht => ?_⟩
  · rintro t ⟨⟩
    exact hi.held _ hcarried.held
  · refine ht.of_post posting_token hjar hflights (fun page' p hp => ?_)
      fun t i hi => ((hentry t i).mp hi).imp_right fun h => h.2.2
    rw [hpages] at hp
    by_cases hsame : page' = page
    · subst hsame
      rw [Function.update_self] at hp
      exact .inr (Option.some.inj hp).symm
    · exact .inl ((Function.update_of_ne hsame _ _).symm.trans hp)
  · refine ht.imp ?_ ?_
    · rintro ⟨i, f, hi, hf, hr⟩
      exact ⟨i, f, (hentry t i).mpr (.inl hi), getElem?_post hflights hf, hr⟩
    · rintro ⟨i, f, hi, hf, hr⟩
      exact ⟨i, f, hslot.trans hi, getElem?_post hflights hf, hr⟩
  · cases reaches with
    | false => exact absurd (hbegins.symm.trans ht) (by simp)
    | true =>
      have htok : s.begins (.arrive page true) = some token := by
        simp [hbegins, haccess, htoken, hmap, Option.filter]
      obtain rfl : token = t := Option.some.inj (htok.symm.trans ht)
      refine ⟨hcarried, .inl ⟨s.flights.length, posting .proxy (some token) true, ?_, ?_, rfl⟩, ?_⟩
      · rw [hmap', Function.update_self]
      · rw [hflights]
        exact List.getElem?_concat_length
      · rintro (⟨i, f, hi, -⟩ | htab)
        · exact absurd (hmap.symm.trans hi) (by simp)
        · exact ⟨token, htok, htab⟩

/-- A page request goes on without a POST. -/
theorem goes_page {page : PageId} {o : Option Page} (h : Entries s) (hbegins : s.begins l = none)
    (hlog : s'.log = s.log) (hjar : s'.jar = s.jar)
    (hpages : s'.pages = Function.update s.pages page o) (hflights : s'.flights = s.flights)
    (hmap : s'.inflightRefreshes = s.inflightRefreshes)
    (hslot : s'.inflightRefresh = s.inflightRefresh)
    (ho : ∀ p, o = some p → ∀ t, s.brings p = some t → Carried s t) : Goes s l s' :=
  .quiet h hbegins hlog hflights hmap hslot fun _ ht => ht.of_page hjar hpages hflights hmap ho

theorem goes_proxy {page : PageId} {cookies : Jar} {reaches : Bool} (hi : Inv s) (h : Entries s)
    (hpage : s.pages page = some (.sent cookies)) :
    Goes s (.arrive page reaches) (s.proxy page cookies reaches) := by
  have hbegins := begins_arrive reaches hpage
  unfold State.proxy
  split
  · rename_i haccess
    refine goes_page h (by simp [hbegins, haccess]) rfl rfl rfl rfl rfl rfl ?_
    rintro p ⟨⟩ t ht
    exact absurd ht (by simp [State.brings])
  · rename_i haccess
    have haccess : cookies.accessToken = false := by simpa using haccess
    split
    · rename_i hnone
      refine goes_page h (by simp [hbegins, hnone]) rfl rfl rfl rfl rfl rfl ?_
      rintro p ⟨⟩ t ht
      exact absurd ht (by simp [State.brings])
    · rename_i token htoken
      split
      · rename_i flight hmap
        refine goes_page h (by simp [hbegins, htoken, hmap, Option.filter]) rfl rfl rfl rfl rfl rfl ?_
        rintro p ⟨⟩ t ht
        exact .joins (.page hpage (by simp [State.brings, haccess, htoken])) hmap ht
      · rename_i hmap
        exact goes_post_proxy hi h hpage haccess htoken hmap rfl (log_post .proxy)
          (spent_post .proxy) rfl rfl rfl rfl

theorem goes_post_tab {call : CallId} {reaches : Bool} (hi : Inv s) (h : Entries s)
    (hcall : s.calls call = some .sent) (hempty : s.inflightRefresh = none)
    (hflights : s'.flights = s.flights ++ [posting .tab s.jar.refreshToken reaches])
    (hlog : ∀ e ∈ s.log, e ∈ s'.log)
    (hspent : ∀ t, s.jar.refreshToken = some t → reaches = true → Entry.spent t ∈ s'.log)
    (hjar : s'.jar = s.jar) (hpages : s'.pages = s.pages)
    (hmap : s'.inflightRefreshes = s.inflightRefreshes)
    (hslot : s'.inflightRefresh = some s.flights.length) :
    Goes s (.unauthorized call reaches) s' := by
  have hbegins : s.begins (.unauthorized call reaches)
      = if reaches then s.jar.refreshToken else none := by
    cases reaches <;> simp [State.begins, hcall, hempty]
  have hentry (t : Token) (i : FlightId) : s'.inflightRefreshes t = some i ↔
      s.inflightRefreshes t = some i ∨ Side.tab = .proxy ∧ s.jar.refreshToken = some t ∧
        i = s.flights.length := by
    rw [hmap]
    simp
  refine ⟨h.post hflights hlog (fun t ht => hi.held t (.jar ht)) hspent
      (fun h => absurd h (by simp)) hentry fun i hi => .inr ⟨rfl, (Option.some.inj (hslot.symm.trans hi)).symm⟩,
    fun t ht => .inl ?_, fun t ht => .inl ?_, fun t ht => ?_⟩
  · exact ht.of_post posting_token hjar hflights (fun page p hp => .inl (hpages ▸ hp))
      fun t i hi => .inl (hmap ▸ hi)
  · rcases ht with ⟨i, f, hi, hf, hr⟩ | ⟨i, f, hi, -⟩
    · exact .inl ⟨i, f, hmap ▸ hi, getElem?_post hflights hf, hr⟩
    · exact absurd (hempty.symm.trans hi) (by simp)
  · cases reaches with
    | false => exact absurd (hbegins.symm.trans ht) (by simp)
    | true =>
      have htok : s.jar.refreshToken = some t := hbegins.symm.trans ht
      refine ⟨.jar htok, .inr ⟨s.flights.length, posting .tab s.jar.refreshToken true, hslot, ?_,
        htok, rfl⟩, ?_⟩
      · rw [hflights]
        exact List.getElem?_concat_length
      · rintro (hproxy | ⟨i, f, hi, -⟩)
        · exact ⟨t, ht, hproxy⟩
        · exact absurd (hempty.symm.trans hi) (by simp)

theorem goes_refreshOnce {call : CallId} {reaches : Bool} (hi : Inv s) (h : Entries s)
    (hcall : s.calls call = some .sent) :
    Goes s (.unauthorized call reaches) (s.refreshOnce call reaches) := by
  unfold State.refreshOnce
  split
  · rename_i flight hslot
    have hbegins : s.begins (.unauthorized call reaches) = none := by
      cases reaches <;> simp [State.begins, hcall, hslot]
    exact .of_eq h hbegins rfl (fun t ht => ht) rfl rfl rfl rfl
  · rename_i hslot
    exact goes_post_tab hi h hcall hslot rfl (log_post .tab) (spent_post .tab) rfl rfl rfl rfl

/-! ### A flight goes on -/

section Advance

variable {i : FlightId} {f : Flight} {p : Phase}

/-- The flights of a refresh that the API got stay such. -/
theorem Advanced.reached (h : Advanced s i f p s')
    (hp : f.reached = true → ({ f with phase := p } : Flight).reached = true) {j : FlightId}
    {g : Flight} (hg : s.flights[j]? = some g) (hr : g.reached = true) :
    ∃ g', s'.flights[j]? = some g' ∧ g'.refreshToken = g.refreshToken ∧ g'.reached = true := by
  by_cases hj : j = i
  · subst hj
    obtain rfl := Option.some.inj (h.at_i.symm.trans hg)
    exact ⟨_, h.self, rfl, hp hr⟩
  · exact ⟨g, (h.other hj).trans hg, rfl, hr⟩

theorem Advanced.holds (h : Advanced s i f p s')
    (hp : f.reached = true → ({ f with phase := p } : Flight).reached = true)
    (hmap : s'.inflightRefreshes t = s.inflightRefreshes t)
    (hslot : s'.inflightRefresh = s.inflightRefresh) (ht : s.Holds t) : s'.Holds t := by
  rcases ht with ⟨j, g, hj, hg, hr⟩ | ⟨j, g, hj, hg, hgt, hr⟩
  · obtain ⟨g', hg', -, hr'⟩ := h.reached hp hg hr
    exact .inl ⟨j, g', hmap.trans hj, hg', hr'⟩
  · obtain ⟨g', hg', hgt', hr'⟩ := h.reached hp hg hr
    exact .inr ⟨j, g', hslot.trans hj, hg', hgt'.trans hgt, hr'⟩

/-- Entries lead where they led. -/
theorem Advanced.entries (h : Advanced s i f p s') (he : Entries s)
    (hlog : ∀ e ∈ s.log, e ∈ s'.log)
    (hp : ({ f with phase := p } : Flight).reached = true → f.reached = true)
    (hmap : ∀ t j, s'.inflightRefreshes t = some j → s.inflightRefreshes t = some j)
    (hslot : ∀ j, s'.inflightRefresh = some j → s.inflightRefresh = some j)
    (hproxy : ∀ j g, s'.flights[j]? = some g → g.side = .proxy → (∀ o, g.phase ≠ .evicted o) →
      ∃ t, g.refreshToken = some t ∧ s'.inflightRefreshes t = some j) : Entries s' where
  entry t j hj := by
    obtain ⟨g, hg, hgt⟩ := he.entry t j (hmap t j hj)
    obtain ⟨g', hg', hgt', -⟩ := h.kept hg
    exact ⟨g', hg', hgt'.trans hgt⟩
  proxy := hproxy
  slot j hj := by
    obtain ⟨g, hg, hside⟩ := he.slot j (hslot j hj)
    obtain ⟨g', hg', -, hside'⟩ := h.kept hg
    exact ⟨g', hg', hside'.trans hside⟩
  issued g hg t ht := by
    refine hlog _ ?_
    rw [h.flights] at hg
    rcases List.mem_or_eq_of_mem_set hg with hg | rfl
    · exact he.issued g hg t ht
    · exact he.issued f (List.mem_of_getElem? h.at_i) t ht
  spent g hg t ht hr := by
    refine hlog _ ?_
    rw [h.flights] at hg
    rcases List.mem_or_eq_of_mem_set hg with hg | rfl
    · exact he.spent g hg t ht hr
    · exact he.spent f (List.mem_of_getElem? h.at_i) t ht (hp hr)

/-- A flight that is not evicted yet keeps its entry. -/
theorem Advanced.proxy (h : Advanced s i f p s') (he : Entries s)
    (hphase : ∀ o, f.phase ≠ .evicted o) (hmap : s'.inflightRefreshes = s.inflightRefreshes)
    (j : FlightId) (g : Flight) (hg : s'.flights[j]? = some g) (hside : g.side = .proxy)
    (hgphase : ∀ o, g.phase ≠ .evicted o) :
    ∃ t, g.refreshToken = some t ∧ s'.inflightRefreshes t = some j := by
  rw [hmap]
  rcases h.cases hg with ⟨rfl, rfl⟩ | ⟨-, hg⟩
  · exact he.proxy j f h.at_i hside hphase
  · exact he.proxy j g hg hside hgphase

end Advance

theorem goes_answer {i : FlightId} {o : Outcome} (he : Entries s)
    (h : s.step (.answer i o) = some s') : Goes s (.answer i o) s' := by
  obtain ⟨f, hi, hposted, hmay, rfl⟩ := answer_cases h
  have hadv : Advanced s i f (.answered o)
      { s.advance i f (.answered o) with log := State.answerEntry f o ++ s.log } := ⟨hi, rfl⟩
  have hfresh (t : Token) (ho : o = .ok t) : Entry.issued t ∉ s.log := by
    subst ho
    simp only [State.mayAnswer, Bool.and_eq_true, Bool.not_eq_true', decide_eq_false_iff_not] at hmay
    exact hmay.2
  refine ⟨hadv.entries he (fun e he => List.mem_append_right _ he)
      (fun _ => by simp [Flight.reached, Flight.outcome, hposted]) (fun _ _ hj => hj)
      (fun _ hj => hj) (hadv.proxy he (by simp [hposted]) rfl),
    fun t ht => ?_, fun t ht => .inl (hadv.holds (fun _ => ?_) rfl rfl ht),
    fun t ht => absurd ht (by simp [State.begins])⟩
  · exact (ht.of_answer he hadv hfresh rfl rfl rfl).imp_right (hfresh t)
  · cases o with
    | ok token => rfl
    | notOk => rfl
    | unreachable => exact absurd hmay (by simp [State.mayAnswer])

theorem goes_settle {i : FlightId} (he : Entries s) (h : s.step (.settle i) = some s') :
    Goes s (.settle i) s' := by
  obtain ⟨f, o, jar, hi, hphase, hjar, rfl⟩ := settle_cases h
  have hadv : Advanced s i f (.settled o s.now)
      { s.advance i f (.settled o s.now) with jar := jar } := ⟨hi, rfl⟩
  have hbring : ({ f with phase := .settled o s.now } : Flight).token = f.token := by
    simp [Flight.token, hphase]
  have hreached : ({ f with phase := .settled o s.now } : Flight).reached = f.reached := by
    simp [Flight.reached, Flight.outcome, hphase]
  refine ⟨hadv.entries he (fun e he => he) hreached.symm.trans (fun _ _ hj => hj)
      (fun _ hj => hj) (hadv.proxy he (by simp [hphase]) rfl),
    fun t ht => .inl (ht.of_advance hadv hbring (fun t ht => ?_) rfl (fun t j hj => hj) (by simp)),
    fun t ht => .inl (hadv.holds hreached.trans rfl rfl ht),
    fun t ht => absurd ht (by simp [State.begins])⟩
  rcases hjar with ⟨token, hside, rfl, rfl⟩ | rfl
  · obtain rfl := Option.some.inj ht
    exact .response hi hside hphase
  · exact .jar ht

/-- The timer of flight `i` has fired: the entry that led to it is gone. -/
structure Evicted (s : State) (i : FlightId) (f : Flight) (o : Outcome) (s' : State) : Prop
    extends Advanced s i f (.evicted o) s' where
  settled : ∃ since, f.phase = .settled o since
  log : s'.log = s.log
  jar : s'.jar = s.jar
  pages : s'.pages = s.pages
  map : ∀ t j, s'.inflightRefreshes t = some j ↔ s.inflightRefreshes t = some j ∧
    ¬ (f.side = .proxy ∧ f.refreshToken = some t)
  slot : ∀ j, s'.inflightRefresh = some j ↔ s.inflightRefresh = some j ∧
    ¬ (f.side = .tab ∧ j = i)

theorem evicted_of_step {i : FlightId} (h : s.step (.evict i) = some s') :
    ∃ f o, Evicted s i f o s' := by
  obtain ⟨f, o, since, hi, hphase, -, rfl⟩ := evict_cases h
  refine ⟨f, o, ?_⟩
  unfold State.evict
  split
  · rename_i hside
    refine ⟨⟨hi, rfl⟩, ⟨since, hphase⟩, rfl, rfl, rfl, fun t j => ?_, fun j => ?_⟩
    · show (if f.refreshToken = some t then none else s.inflightRefreshes t) = some j ↔ _
      split <;> simp_all
    · show s.inflightRefresh = some j ↔ _
      simp [hside]
  · rename_i hside
    refine ⟨⟨hi, rfl⟩, ⟨since, hphase⟩, rfl, rfl, rfl, fun t j => ?_, fun j => ?_⟩
    · show s.inflightRefreshes t = some j ↔ _
      simp [hside]
    · show (if s.inflightRefresh = some i then none else s.inflightRefresh) = some j ↔ _
      rw [hside]
      split
      · rename_i hslot
        rw [hslot]
        simp [eq_comm]
      · rename_i hslot
        exact ⟨fun hj => ⟨hj, fun h => hslot (h.2 ▸ hj)⟩, fun h => h.1⟩

namespace Evicted

variable {i : FlightId} {f : Flight} {o : Outcome}

theorem reached_eq (h : Evicted s i f o s') :
    ({ f with phase := .evicted o } : Flight).reached = f.reached := by
  obtain ⟨since, hphase⟩ := h.settled
  simp [Flight.reached, Flight.outcome, hphase]

/-- The entry of a flight of the proxy leads to it until then. -/
theorem led (h : Evicted s i f o s') (he : Entries s) (hside : f.side = .proxy) {t : Token}
    (ht : f.refreshToken = some t) : s.inflightRefreshes t = some i := by
  obtain ⟨since, hphase⟩ := h.settled
  obtain ⟨t', ht', hi⟩ := he.proxy i f h.at_i hside (by simp [hphase])
  obtain rfl := Option.some.inj (ht.symm.trans ht')
  exact hi

theorem entries (h : Evicted s i f o s') (he : Entries s) : Entries s' := by
  refine h.toAdvanced.entries he (fun e he => h.log ▸ he) h.reached_eq.symm.trans
    (fun t j hj => ((h.map t j).mp hj).1) (fun j hj => ((h.slot j).mp hj).1)
    fun j g hg hside hgphase => ?_
  rcases h.toAdvanced.cases hg with ⟨-, rfl⟩ | ⟨hji, hg⟩
  · exact absurd rfl (hgphase o)
  · obtain ⟨t, ht, hj⟩ := he.proxy j g hg hside hgphase
    refine ⟨t, ht, (h.map t j).mpr ⟨hj, ?_⟩⟩
    -- the entry for that token would lead to flight `i`
    rintro ⟨hfside, hft⟩
    exact hji (Option.some.inj (hj.symm.trans (h.led he hfside hft)))

theorem holds (h : Evicted s i f o s') (he : Entries s) (ht : s.Holds t) :
    s'.Holds t ∨ s.Drops t (.evict i) := by
  rcases ht with ⟨j, g, hj, hg, hr⟩ | ⟨j, g, hj, hg, hgt, hr⟩
  · by_cases hgone : f.side = .proxy ∧ f.refreshToken = some t
    · obtain rfl := Option.some.inj (hj.symm.trans (h.led he hgone.1 hgone.2))
      obtain rfl := Option.some.inj (hg.symm.trans h.at_i)
      exact .inr ⟨g, hg, hgone.2, hr, fun htab => absurd (hgone.1.symm.trans htab) (by simp)⟩
    · obtain ⟨g', hg', -, hr'⟩ := h.toAdvanced.reached h.reached_eq.trans hg hr
      exact .inl (.inl ⟨j, g', (h.map t j).mpr ⟨hj, hgone⟩, hg', hr'⟩)
  · by_cases hgone : f.side = .tab ∧ j = i
    · obtain ⟨-, rfl⟩ := hgone
      obtain rfl := Option.some.inj (hg.symm.trans h.at_i)
      exact .inr ⟨g, hg, hgt, hr, fun _ => hj⟩
    · obtain ⟨g', hg', hgt', hr'⟩ := h.toAdvanced.reached h.reached_eq.trans hg hr
      exact .inl (.inr ⟨j, g', (h.slot j).mpr ⟨hj, hgone⟩, hg', hgt'.trans hgt, hr'⟩)

theorem carried (h : Evicted s i f o s') (ht : Carried s' t) : Carried s t := by
  obtain ⟨since, hphase⟩ := h.settled
  have hbring : ({ f with phase := .evicted o } : Flight).token = f.token := by
    simp [Flight.token, hphase]
  exact ht.of_advance h.toAdvanced hbring (fun t ht => .jar (h.jar ▸ ht)) h.pages
    (fun t j hj => ((h.map t j).mp hj).1) (by simp)

end Evicted

theorem goes_evict {i : FlightId} (he : Entries s) (h : s.step (.evict i) = some s') :
    Goes s (.evict i) s' := by
  obtain ⟨f, o, hev⟩ := evicted_of_step h
  exact ⟨hev.entries he, fun t ht => .inl (hev.carried ht), fun t ht => hev.holds he ht,
    fun t ht => absurd ht (by simp [State.begins])⟩

/-- The document is loaded anew. -/
theorem goes_reload (he : Entries s) :
    Goes s .reload { s with calls := fun _ => none, inflightRefresh := none } where
  entries := he.congr rfl rfl rfl fun i hi => absurd hi (by simp)
  carried t ht := .inl (ht.back (fun t ht => .jar ht)
    (fun page p t hp ht => .page hp (brings_congr (fun _ => rfl) p ▸ ht))
    (fun i f t hf => .response hf) fun t₀ i t h₀ hi ht => .joins h₀ hi ht)
  holds t ht := ht.elim (fun h => .inl (.inl h)) .inr
  begun t ht := absurd ht (by simp [State.begins])

theorem goes_deliver {page : PageId} (he : Entries s) (h : s.step (.deliver page) = some s') :
    Goes s (.deliver page) s' := by
  obtain ⟨reply, jar, hpage, hjar, rfl⟩ := deliver_cases h
  refine .quiet he rfl rfl rfl rfl rfl fun t ht => ?_
  refine ht.back (fun t ht => ?_) (fun page' p t hp ht => ?_)
    (fun i f t hf => .response hf) fun t₀ i t h₀ hi ht => .joins h₀ hi ht
  · rcases hjar with ⟨token, rfl, rfl⟩ | rfl
    · exact .page hpage ht
    · exact .jar ht
  · by_cases hsame : page' = page
    · subst hsame
      exact absurd hp (by simp)
    · exact .page ((Function.update_of_ne hsame _ _).symm.trans hp)
        (brings_congr (fun _ => rfl) p ▸ ht)

theorem goes_of_step (hi : Inv s) (he : Entries s) (h : s.step l = some s') : Goes s l s' := by
  cases l with
  | navigate page =>
    obtain ⟨-, rfl⟩ := navigate_cases h
    refine goes_page he rfl rfl rfl rfl rfl rfl rfl ?_
    rintro p ⟨⟩ t ht
    refine .jar ?_
    simp only [State.brings] at ht
    split at ht
    · exact absurd ht (by simp)
    · exact ht
  | arrive page reaches =>
    obtain ⟨cookies, hpage, rfl⟩ := arrive_cases h
    exact goes_proxy hi he hpage
  | reply page =>
    obtain ⟨flight, o, hpage, ho, rfl⟩ := reply_cases h
    refine goes_page he rfl rfl rfl rfl rfl rfl rfl ?_
    rintro p ⟨⟩ t ht
    obtain ⟨f, hf, hres⟩ := Option.bind_eq_some_iff.mp ho
    refine .page hpage (Option.bind_eq_some_iff.mpr ⟨f, hf, (result_token hres).trans ?_⟩)
    cases o with
    | ok token => exact ht
    | notOk => exact absurd ht (by simp [State.proxyReply, State.brings])
    | unreachable => exact absurd ht (by simp [State.proxyReply, State.brings])
  | deliver page => exact goes_deliver he h
  | apiFetch call =>
    obtain ⟨calls, rfl⟩ := apiFetch_cases h
    exact .of_eq he rfl rfl (fun _ ht => ht) rfl rfl rfl rfl
  | respond call =>
    obtain ⟨calls, rfl⟩ := respond_cases h
    exact .of_eq he rfl rfl (fun _ ht => ht) rfl rfl rfl rfl
  | unauthorized call reaches =>
    obtain ⟨hcall, rfl⟩ := unauthorized_cases h
    exact goes_refreshOnce hi he hcall
  | resume call =>
    obtain ⟨calls, rfl⟩ := resume_cases h
    exact .of_eq he rfl rfl (fun _ ht => ht) rfl rfl rfl rfl
  | answer i o => exact goes_answer he h
  | settle i => exact goes_settle he h
  | evict i => exact goes_evict he h
  | reload =>
    obtain rfl := Option.some.inj h
    exact goes_reload he
  | dropRefresh =>
    obtain rfl := Option.some.inj h
    exact .of_eq he rfl rfl (fun t ht => absurd ht (by simp)) rfl rfl rfl rfl
  | dropAccess | tick ms =>
    obtain rfl := Option.some.inj h
    exact .of_eq he rfl rfl (fun _ ht => ht) rfl rfl rfl rfl

/-! ## 6. Runs -/

/-- What was spent and is still about has an entry, and nothing was spent twice. -/
structure Sheltered (s : State) : Prop where
  inv : Inv s
  entries : Entries s
  once : s.received.Nodup
  holds : ∀ t ∈ s.received, Carried s t → s.Holds t

theorem sheltered_start (t : Token) : Sheltered (.start t) where
  inv := inv_start t
  entries := ⟨by simp [State.start], by simp [State.start], by simp [State.start],
    by simp [State.start], by simp [State.start]⟩
  once := List.nodup_nil
  holds t ht := absurd ht List.not_mem_nil

/-- What a step spends. -/
theorem received_of_step (h : s.step l = some s') :
    s'.received = (s.begins l).toList ++ s.received := by
  unfold State.received
  cases moved_of_step h with
  | quiet hbegins hlog _ _ => rw [hbegins, hlog]; rfl
  | begun token hbegins hlog _ _ _ => rw [hbegins, hlog]; rfl
  | answered f o hbegins _ hlog _ _ =>
    rw [hbegins, hlog]
    unfold State.answerEntry
    split <;> rfl

/-- **One step.** -/
theorem sheltered_step (h : Sheltered s) (hk : Kept s l) (hs : s.step l = some s') :
    Sheltered s' := by
  have hgoes := goes_of_step h.inv h.entries hs
  have hreceived := received_of_step hs
  have hstay (t : Token) (ht : t ∈ s.received) (hc : Carried s' t) : s'.Holds t := by
    rcases hgoes.carried t hc with hc | hfresh
    · rcases hgoes.holds t (h.holds t ht hc) with hh | hdrop
      · exact hh
      · exact absurd hc (hk.outlives t hdrop)
    · exact absurd (Rotation.issued_of_spents h.inv.valid ht) hfresh
  refine ⟨inv_step h.inv hs, hgoes.entries, ?_, fun t ht hc => ?_⟩
  · rw [hreceived]
    cases hb : s.begins l with
    | none => exact h.once
    | some token =>
      obtain ⟨hc, -, hcross⟩ := hgoes.begun token hb
      exact List.nodup_cons.mpr
        ⟨fun hspent => hk.apart (hcross (h.holds token hspent hc)), h.once⟩
  · rw [hreceived] at ht
    cases hb : s.begins l with
    | none =>
      rw [hb] at ht
      exact hstay t ht hc
    | some token =>
      rw [hb] at ht
      rcases List.mem_cons.mp ht with rfl | ht
      · exact (hgoes.begun t hb).2.1
      · exact hstay t ht hc

/-- **A run.** -/
theorem sheltered_run (h : Machine.Reach State.step Kept (.start t) s) : Sheltered s :=
  h.inv (sheltered_start t) fun _ _ _ hk hi hs => sheltered_step hi hk hs

/-- **In a run in which no refresh crosses the other side's and every entry outlives its token, the
refresh endpoint receives no token twice.** -/
theorem posted_once (h : Machine.Reach State.step Kept (.start t) s) : s.received.Nodup :=
  (sheltered_run h).once

/-- **In such a run every refresh begins in turn**, which is what `Rotation` makes of it. -/
theorem inTurn_of_kept (h : Machine.Reach State.step Kept (.start t) s) :
    Machine.Reach State.step State.InTurn (.start t) s := by
  induction h with
  | refl => exact .refl
  | tail hr hk hs ih =>
    have hsheltered := sheltered_step (sheltered_run hr) hk hs
    have hdisciplined := (Rotation.spent_once_iff hsheltered.inv.valid).mp hsheltered.once
    exact .tail ih ((disciplined_step hs).mp hdisciplined).1 hs

/-- Nothing is under way, so that only the token in the jar is about. -/
theorem Carried.eq_jar (h : Carried s t) (hpages : ∀ page, s.pages page = none)
    (hflights : ∀ f ∈ s.flights, ∀ o, f.phase ≠ .answered o)
    (hmap : ∀ t, s.jar.refreshToken = some t → s.inflightRefreshes t = none) :
    s.jar.refreshToken = some t := by
  induction h with
  | jar h => exact h
  | page hp _ => exact absurd ((hpages _).symm.trans hp) (by simp)
  | response hf _ hphase => exact absurd hphase (hflights _ (List.mem_of_getElem? hf) _)
  | joins _ hi _ ih => exact absurd ((hmap _ ih).symm.trans hi) (by simp)

/-! ## 7. Crossing -/

theorem entries_run {C : State → Label → Prop} (h : Machine.Reach State.step C (.start t) s) :
    Inv s ∧ Entries s := by
  refine h.inv (I := fun s => Inv s ∧ Entries s) ⟨inv_start t, (sheltered_start t).entries⟩ ?_
  rintro s l s' - ⟨hi, he⟩ hs
  exact ⟨inv_step hi hs, (goes_of_step hi he hs).entries⟩

/-- What has an entry was spent. -/
theorem received_of_holds (he : Entries s) (h : s.Holds t) : t ∈ s.received := by
  have hspent {i : FlightId} {f : Flight} (hf : s.flights[i]? = some f)
      (ht : f.refreshToken = some t) (hr : f.reached = true) : t ∈ s.received :=
    List.mem_filterMap.mpr ⟨.spent t, he.spent f (List.mem_of_getElem? hf) t ht hr, rfl⟩
  rcases h with ⟨i, f, hi, hf, hr⟩ | ⟨i, f, -, hf, ht, hr⟩
  · obtain ⟨g, hg, ht⟩ := he.entry t i hi
    obtain rfl := Option.some.inj (hf.symm.trans hg)
    exact hspent hf ht hr
  · exact hspent hf ht hr

/-- **A refresh that crosses the other side's is a second one of its token.** -/
theorem twice_of_crosses {C : State → Label → Prop}
    (h : Machine.Reach State.step C (.start t) s) (hc : s.Crosses l) (hs : s.step l = some s') :
    ¬ s'.received.Nodup := by
  obtain ⟨t', hb, hother⟩ := hc
  have hholds : s.Holds t' := by
    cases l with
    | arrive page reaches => exact .inr hother
    | unauthorized call reaches => exact .inl hother
    | _ => exact absurd hother id
  rw [received_of_step hs, hb]
  exact fun hnodup =>
    (List.nodup_cons.mp hnodup).1 (received_of_holds (entries_run h).2 hholds)

namespace Campus

/-- A check of the condition that reads entries only, for steps that take none away. -/
def calm (s : State) : Label → Bool
  | .arrive _ _ => s.inflightRefresh.isNone
  | .unauthorized _ _ => (s.jar.refreshToken.bind s.inflightRefreshes).isNone
  | .evict _ => false
  | .reload => false
  | _ => true

theorem kept_of_calm (s : State) (l : Label) (h : calm s l = true) : Kept s l := by
  constructor
  · rintro ⟨t, hb, hother⟩
    cases l with
    | arrive page reaches =>
      obtain ⟨i, f, hi, -⟩ := hother
      exact absurd ((Option.isNone_iff_eq_none.mp h).symm.trans hi) (by simp)
    | unauthorized call reaches =>
      obtain ⟨i, f, hi, -⟩ := hother
      have hjar : s.jar.refreshToken = some t := by
        cases reaches with
        | false => exact absurd hb (by simp [State.begins])
        | true =>
          simp only [State.begins] at hb
          split at hb
          · split at hb
            · exact hb
            · exact absurd hb (by simp)
          · exact absurd hb (by simp)
      have hnone := Option.isNone_iff_eq_none.mp h
      rw [hjar] at hnone
      exact absurd (hnone.symm.trans hi) (by simp)
    | _ => exact absurd hother id
  · intro t hdrop
    cases l with
    | evict i => exact absurd h (by simp [calm])
    | reload => exact absurd h (by simp [calm])
    | _ => exact absurd hdrop id

/-- The timer of a flight fires when its token is not in the jar and nothing is under way. -/
theorem kept_of_idle {s : State} {i : FlightId} {f : Flight} (hf : s.flights[i]? = some f)
    (hpages : ∀ page, s.pages page = none) (hflights : ∀ f ∈ s.flights, ∀ o, f.phase ≠ .answered o)
    (hmap : ∀ t, s.jar.refreshToken = some t → s.inflightRefreshes t = none)
    (hjar : s.jar.refreshToken ≠ f.refreshToken) : Kept s (.evict i) := by
  refine ⟨fun ⟨t, hb, _⟩ => absurd hb (by simp [State.begins]), ?_⟩
  rintro t ⟨g, hg, ht, -⟩ hc
  obtain rfl := Option.some.inj (hf.symm.trans hg)
  exact hjar ((hc.eq_jar hpages hflights hmap).trans ht.symm)

/-- A burst of two page requests is served by one refresh. -/
def burst : List Label :=
  [.dropAccess, .navigate 0, .navigate 1, .arrive 0 true, .arrive 1 true, .answer 0 (.ok 8),
    .settle 0, .reply 0, .reply 1, .deliver 1, .deliver 0, .tick 10000]

/-- Two calls of the tab are served by one refresh. -/
def calls : List Label :=
  [.apiFetch 0, .unauthorized 0 true, .apiFetch 1, .unauthorized 1 true, .answer 1 (.ok 9),
    .settle 1, .resume 1, .resume 0, .respond 0, .respond 1, .tick 250]

theorem burst_runs : (Machine.runIf State.step calm (.start 7) burst).isSome = true := by decide

def afterPages : State := (Machine.runIf State.step calm (.start 7) burst).get burst_runs

theorem afterPages_evicts : (afterPages.step (.evict 0)).isSome = true := by decide

def alone : State := (afterPages.step (.evict 0)).get afterPages_evicts

theorem calls_runs : (Machine.runIf State.step calm alone calls).isSome = true := by decide

def afterCalls : State := (Machine.runIf State.step calm alone calls).get calls_runs

theorem afterCalls_evicts : (afterCalls.step (.evict 1)).isSome = true := by decide

def atRest : State := (afterCalls.step (.evict 1)).get afterCalls_evicts

theorem again_runs : (Machine.runIf State.step calm atRest
    [.dropAccess, .navigate 2, .arrive 2 true]).isSome = true := by decide

/-- The next page request refreshes once more. -/
def again : State := (Machine.runIf State.step calm atRest
  [.dropAccess, .navigate 2, .arrive 2 true]).get again_runs

theorem no_pages {s : State} (h0 : s.pages 0 = none) (h1 : s.pages 1 = none)
    (h : ∀ page, s.pages (page + 2) = none) : ∀ page, s.pages page = none
  | 0 => h0
  | 1 => h1
  | page + 2 => h page

theorem afterPages_kept : Kept afterPages (.evict 0) := by
  have hflights : afterPages.flights = [⟨.proxy, some 7, .settled (.ok 8) 0⟩] := by decide
  refine kept_of_idle (f := _) rfl (no_pages rfl rfl fun _ => rfl) ?_ ?_ (by decide)
  · rw [hflights]
    simp
  · rintro t ⟨⟩
    rfl

theorem afterCalls_kept : Kept afterCalls (.evict 1) := by
  have hflights : afterCalls.flights = [⟨.proxy, some 7, .evicted (.ok 8)⟩,
      ⟨.tab, some 8, .settled (.ok 9) 10000⟩] := by decide
  refine kept_of_idle (f := _) rfl (no_pages rfl rfl fun _ => rfl) ?_ ?_ (by decide)
  · rw [hflights]
    simp
  · rintro t ⟨⟩
    rfl

theorem again_reached : Machine.Reach State.step Kept (.start 7) again := by
  have hpages : Machine.Reach State.step Kept (.start 7) afterPages :=
    .of_runIf kept_of_calm .refl (Option.some_get burst_runs).symm
  have halone : Machine.Reach State.step Kept (.start 7) alone :=
    hpages.tail afterPages_kept (Option.some_get afterPages_evicts).symm
  have hcalls : Machine.Reach State.step Kept (.start 7) afterCalls :=
    .of_runIf kept_of_calm halone (Option.some_get calls_runs).symm
  have hrest : Machine.Reach State.step Kept (.start 7) atRest :=
    hcalls.tail afterCalls_kept (Option.some_get afterCalls_evicts).symm
  exact .of_runIf kept_of_calm hrest (Option.some_get again_runs).symm

theorem posted_once_again : again.received = [9, 8, 7] ∧ again.received.Nodup :=
  ⟨by decide, posted_once again_reached⟩

end Campus

end Enroll.Web
