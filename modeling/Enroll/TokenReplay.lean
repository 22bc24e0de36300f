/-
# One session and its refresh tokens

Each side spends a token once for as long as its entry is there, but neither sees the other's
flights.  While a page request refreshes the session, a call of the tab that gets a 401 posts the
same token (`Campus.token_posted_twice`): to the API this is a stolen token, and it revokes the
session.

What the endpoint sees is a rotation of credentials, as in `Rotation`: nobody holds a token that was
not issued (`Inv.held`), and every answer is owed to a POST (`Inv.owed`).  What the tab and the proxy
have to do with it, their entries, timers and cookies, is in `Retention`.
-/
import Enroll.WebSession

namespace Enroll.Web

open Rotation (Entry Log spents unanswered)

/-! ## 1. Refreshes in turn -/

namespace State

/-- The token of the refresh that the step begins, if the API gets it: the proxy has no entry for
the token of the page request, or the slot of the tab is empty. -/
def begins (s : State) : Label → Option Token
  | .arrive page true =>
    match s.pages page with
    | some (.sent cookies) =>
      if cookies.accessToken then none
      else cookies.refreshToken.filter (fun token => (s.inflightRefreshes token).isNone)
    | _ => none
  | .unauthorized call true =>
    match s.calls call with
    | some .sent => if s.inflightRefresh.isNone then s.jar.refreshToken else none
    | _ => none
  | _ => none

/-- A refresh begins only if the last thing that the endpoint did was to issue its token. -/
def InTurn (s : State) (l : Label) : Prop :=
  ∀ token, s.begins l = some token → Rotation.InTurn s.log token

end State

/-! ## 2. Who holds a token -/

def Outcome.token : Outcome → Option Token
  | ok token => some token
  | _ => none

/-- The token that the answer of a flight carries. -/
def Flight.token (f : Flight) : Option Token :=
  match f.phase with
  | .posted => none
  | .answered o => o.token
  | .settled o _ => o.token
  | .evicted o => o.token

def Page.token : Page → Option Token
  | sent cookies => cookies.refreshToken
  | awaiting _ => none
  | replied (.next setCookies) => setCookies
  | replied .login => none

/-- A cookie, or a message, has the token. -/
inductive Held (s : State) (t : Token) : Prop
  | jar : s.jar.refreshToken = some t → Held s t
  | page (page : PageId) (p : Page) : s.pages page = some p → p.token = some t → Held s t
  | flight (f : Flight) : f ∈ s.flights → f.token = some t → Held s t

/-- The API owes the flight an answer that its log knows of. -/
def Flight.owed (f : Flight) : Bool := f.phase == .posted && f.refreshToken.isSome

structure Inv (s : State) : Prop where
  valid : s.log.Valid
  held : ∀ t, Held s t → .issued t ∈ s.log
  owed : s.flights.countP Flight.owed = unanswered s.log

/-! ## 3. What a step does to the tokens -/

section Steps

variable {s s' : State} {l : Label} {t : Token}

/-- A page request is put down as `p`. -/
theorem Held.of_page {page : PageId} {p : Page} (h : Held s' t) (hjar : s'.jar = s.jar)
    (hpages : s'.pages = Function.update s.pages page (some p))
    (hp : p.token = some t → Held s t) (hflights : ∀ f ∈ s'.flights, f.token = some t → Held s t) :
    Held s t := by
  cases h with
  | jar hj => exact .jar (hjar ▸ hj)
  | flight f hf ht => exact hflights f hf ht
  | page page' p' hp' ht =>
    rw [hpages] at hp'
    by_cases hsame : page' = page
    · subst hsame
      rw [Function.update_self] at hp'
      obtain rfl := Option.some.inj hp'
      exact hp ht
    · rw [Function.update_of_ne hsame] at hp'
      exact .page page' p' hp' ht

/-- The pages are as they were, and the cookies. -/
theorem Held.of_flights (h : Held s' t) (hjar : s'.jar = s.jar) (hpages : s'.pages = s.pages)
    (hflights : ∀ f ∈ s'.flights, f.token = some t → Held s t) : Held s t := by
  cases h with
  | jar hj => exact .jar (hjar ▸ hj)
  | flight f hf ht => exact hflights f hf ht
  | page page p hp ht => exact .page page p (hpages ▸ hp) ht

/-- A new flight has no token to bring. -/
theorem post_flights (side : Side) (token : Option Token) (reaches : Bool) {f : Flight}
    (hf : f ∈ (s.post side token reaches).flights) (ht : f.token = some t) : Held s t := by
  rcases List.mem_append.mp hf with hf | hf
  · exact .flight f hf ht
  · obtain rfl := List.mem_singleton.mp hf
    cases reaches <;> simp [Flight.token, Outcome.token] at ht

theorem post_owed {side : Side} {token : Option Token} {reaches : Bool} :
    (s.post side token reaches).flights.countP Flight.owed
      = s.flights.countP Flight.owed + if reaches && token.isSome then 1 else 0 := by
  cases reaches <;> cases token <;> simp [State.post, Flight.owed]

theorem advance_flights {i : FlightId} {f g : Flight} {p : Phase}
    (hg : g ∈ (s.advance i f p).flights) (ht : g.token = some t) :
    Held s t ∨ ({ f with phase := p } : Flight).token = some t := by
  rcases List.mem_or_eq_of_mem_set hg with hg | rfl
  · exact Or.inl (.flight g hg ht)
  · exact Or.inr ht

theorem advance_owed {i : FlightId} {f : Flight} {p : Phase} (hi : s.flights[i]? = some f) :
    (s.advance i f p).flights.countP Flight.owed + (if f.owed then 1 else 0)
      = s.flights.countP Flight.owed + if ({ f with phase := p } : Flight).owed then 1 else 0 := by
  obtain ⟨hlt, rfl⟩ := List.getElem?_eq_some_iff.mp hi
  unfold State.advance
  simp only
  rw [List.countP_set hlt]
  by_cases hf : s.flights[i].owed = true
  · have hpos : 0 < s.flights.countP Flight.owed :=
      List.countP_pos_iff.mpr ⟨_, List.getElem_mem hlt, hf⟩
    simp only [hf, if_true]
    omega
  · simp only [hf]
    simp

/-- What a step does: nothing about refreshes, or it begins one, or it answers one. -/
inductive Moved (s : State) (l : Label) (s' : State) : Prop
  | quiet : s.begins l = none → s'.log = s.log → (∀ t, Held s' t → Held s t) →
      s'.flights.countP Flight.owed = s.flights.countP Flight.owed → Moved s l s'
  | begun (token : Token) : s.begins l = some token → s'.log = .spent token :: s.log →
      Held s token → (∀ t, Held s' t → Held s t) →
      s'.flights.countP Flight.owed = s.flights.countP Flight.owed + 1 → Moved s l s'
  | answered (f : Flight) (o : Outcome) : s.begins l = none → s.mayAnswer f o = true →
      s'.log = State.answerEntry f o ++ s.log → (∀ t, Held s' t → Held s t ∨ o = .ok t) →
      s'.flights.countP Flight.owed + (if f.refreshToken.isSome then 1 else 0)
        = s.flights.countP Flight.owed → Moved s l s'

theorem begins_arrive {page : PageId} {cookies : Jar} (reaches : Bool)
    (hpage : s.pages page = some (.sent cookies)) : s.begins (.arrive page reaches)
      = if reaches && !cookies.accessToken then
          cookies.refreshToken.filter (fun token => (s.inflightRefreshes token).isNone)
        else none := by
  cases reaches with
  | false => rfl
  | true =>
    simp only [State.begins, hpage]
    cases cookies.accessToken <;> rfl

theorem moved_proxy {page : PageId} {cookies : Jar} {reaches : Bool}
    (hpage : s.pages page = some (.sent cookies)) :
    Moved s (.arrive page reaches) (s.proxy page cookies reaches) := by
  have hbegins := begins_arrive reaches hpage
  unfold State.proxy
  split
  · rename_i haccess
    refine .quiet (by simp [hbegins, haccess]) rfl (fun t h => ?_) rfl
    exact h.of_page rfl rfl (by simp [Page.token]) fun f hf ht => .flight f hf ht
  · rename_i haccess
    split
    · rename_i hnone
      refine .quiet (by simp [hbegins, hnone]) rfl (fun t h => ?_) rfl
      exact h.of_page rfl rfl (by simp [Page.token]) fun f hf ht => .flight f hf ht
    · rename_i token htoken
      have hheld : Held s token := .page page _ hpage htoken
      split
      · rename_i flight hmap
        refine .quiet (by simp [hbegins, htoken, hmap, Option.filter]) rfl (fun t h => ?_) rfl
        exact h.of_page rfl rfl (by simp [Page.token]) fun f hf ht => .flight f hf ht
      · rename_i hmap
        have hrest : ∀ s₁ : State, s₁.jar = s.jar →
            s₁.pages = Function.update s.pages page (some (.awaiting s.flights.length)) →
            s₁.flights = (s.post .proxy (some token) reaches).flights →
            ∀ t, Held s₁ t → Held s t :=
          fun s₁ hjar hpages hflights t h => h.of_page hjar hpages (by simp [Page.token])
            fun f hf ht => post_flights _ _ _ (hflights ▸ hf) ht
        cases reaches with
        | false => exact .quiet (by simp [hbegins]) rfl (hrest _ rfl rfl rfl) post_owed
        | true =>
          refine .begun token ?_ rfl hheld (hrest _ rfl rfl rfl) post_owed
          simp [hbegins, haccess, htoken, hmap, Option.filter]

theorem moved_refreshOnce {call : CallId} {reaches : Bool} (hcall : s.calls call = some .sent) :
    Moved s (.unauthorized call reaches) (s.refreshOnce call reaches) := by
  have hbegins : s.begins (.unauthorized call reaches)
      = if reaches && s.inflightRefresh.isNone then s.jar.refreshToken else none := by
    cases reaches <;> simp [State.begins, hcall]
  unfold State.refreshOnce
  split
  · rename_i flight hslot
    refine .quiet (by simp [hbegins, hslot]) rfl (fun t h => ?_) rfl
    exact h.of_flights rfl rfl fun f hf ht => .flight f hf ht
  · rename_i hslot
    have hrest : ∀ s₁ : State, s₁.jar = s.jar → s₁.pages = s.pages →
        s₁.flights = (s.post .tab s.jar.refreshToken reaches).flights →
        ∀ t, Held s₁ t → Held s t :=
      fun s₁ hjar hpages hflights t h => h.of_flights hjar hpages
        fun f hf ht => post_flights _ _ _ (hflights ▸ hf) ht
    cases htoken : s.jar.refreshToken with
    | none =>
      rw [htoken] at hrest
      refine .quiet (by simp [hbegins, htoken]) ?_ (hrest _ rfl rfl rfl) (post_owed.trans (by simp))
      cases reaches <;> simp [State.post]
    | some token =>
      rw [htoken] at hrest
      cases reaches with
      | false => exact .quiet (by simp [hbegins]) rfl (hrest _ rfl rfl rfl) post_owed
      | true =>
        exact .begun token (by simp [hbegins, hslot, htoken]) rfl (.jar htoken)
          (hrest _ rfl rfl rfl) post_owed

/-- A step that is not about tokens. -/
theorem Moved.of_eq (hbegins : s.begins l = none) (hlog : s'.log = s.log) (hjar : s'.jar = s.jar)
    (hpages : s'.pages = s.pages) (hflights : s'.flights = s.flights) : Moved s l s' := by
  refine .quiet hbegins hlog (fun t h => ?_) (by rw [hflights])
  exact h.of_flights hjar hpages fun f hf ht => .flight f (hflights ▸ hf) ht

/-- The outcome that a flight has brought. -/
theorem result_token {f : Flight} {o : Outcome} (h : f.result = some o) : f.token = o.token := by
  unfold Flight.result at h
  unfold Flight.token
  split at h
  · rename_i hphase
    rw [hphase, Option.some.inj h]
  · rename_i hphase
    rw [hphase, Option.some.inj h]
  · exact absurd h (by simp)

theorem held_of_result {i : FlightId} {o : Outcome}
    (h : s.flights[i]?.bind Flight.result = some o) (ht : o.token = some t) : Held s t := by
  obtain ⟨f, hi, hres⟩ := Option.bind_eq_some_iff.mp h
  exact .flight f (List.mem_of_getElem? hi) ((result_token hres).trans ht)

/-- A flight that is answered goes on to its next phase. -/
theorem held_of_advance {i : FlightId} {f : Flight} {p : Phase} (hi : s.flights[i]? = some f)
    (hp : ({ f with phase := p } : Flight).token = f.token) {g : Flight}
    (hg : g ∈ (s.advance i f p).flights) (ht : g.token = some t) : Held s t := by
  rcases advance_flights hg ht with h | h
  · exact h
  · exact .flight f (List.mem_of_getElem? hi) (hp ▸ h)

theorem owed_of_advance {i : FlightId} {f : Flight} {p : Phase} (hi : s.flights[i]? = some f)
    (hf : f.phase ≠ .posted) (hp : p ≠ .posted) :
    (s.advance i f p).flights.countP Flight.owed = s.flights.countP Flight.owed := by
  have hmove := advance_owed (p := p) hi
  simpa [Flight.owed, hf, hp] using hmove

theorem moved_answer {i : FlightId} {o : Outcome} (h : s.step (.answer i o) = some s') :
    Moved s (.answer i o) s' := by
  obtain ⟨f, hi, hposted, hmay, rfl⟩ := answer_cases h
  refine .answered f o rfl hmay rfl (fun t h => ?_) ?_
  · cases h with
    | jar hj => exact Or.inl (.jar hj)
    | page page p hp ht => exact Or.inl (.page page p hp ht)
    | flight g hg ht =>
      rcases advance_flights hg ht with h | h
      · exact Or.inl h
      · cases o with
        | ok token => exact Or.inr (congrArg Outcome.ok (Option.some.inj h))
        | notOk => exact absurd h (by simp [Flight.token, Outcome.token])
        | unreachable => exact absurd h (by simp [Flight.token, Outcome.token])
  · have hmove := advance_owed (p := .answered o) hi
    simpa [Flight.owed, hposted] using hmove

theorem moved_settle {i : FlightId} (h : s.step (.settle i) = some s') :
    Moved s (.settle i) s' := by
  obtain ⟨f, o, jar, hi, hphase, hjar, rfl⟩ := settle_cases h
  have hflights : ∀ t g, g ∈ (s.advance i f (.settled o s.now)).flights → g.token = some t →
      Held s t := fun t g => held_of_advance hi (by simp [Flight.token, hphase])
  refine .quiet rfl rfl (fun t h => ?_)
    (owed_of_advance (p := .settled o s.now) hi (by simp [hphase]) (by simp))
  cases h with
  | jar hj =>
    rcases hjar with ⟨token, -, rfl, rfl⟩ | rfl
    · have hf : f.token = some token := by simp [Flight.token, Outcome.token, hphase]
      exact .flight f (List.mem_of_getElem? hi) (hf.trans hj)
    · exact .jar hj
  | page page p hp ht => exact .page page p hp ht
  | flight g hg ht => exact hflights t g hg ht

theorem moved_evict {i : FlightId} (h : s.step (.evict i) = some s') : Moved s (.evict i) s' := by
  obtain ⟨f, o, since, hi, hphase, -, rfl⟩ := evict_cases h
  have hflights : ∀ t g, g ∈ (s.advance i f (.evicted o)).flights → g.token = some t →
      Held s t := fun t g => held_of_advance hi (by simp [Flight.token, hphase])
  have howed := owed_of_advance (p := .evicted o) hi (by simp [hphase]) (by simp)
  unfold State.evict
  split
  · exact .quiet rfl rfl (fun t h => h.of_flights rfl rfl (hflights t)) howed
  · exact .quiet rfl rfl (fun t h => h.of_flights rfl rfl (hflights t)) howed

theorem moved_deliver {page : PageId} (h : s.step (.deliver page) = some s') :
    Moved s (.deliver page) s' := by
  obtain ⟨reply, jar, hpage, hjar, rfl⟩ := deliver_cases h
  refine .quiet rfl rfl (fun t h => ?_) rfl
  cases h with
  | jar hj =>
    rcases hjar with ⟨token, rfl, rfl⟩ | rfl
    · exact .page page _ hpage hj
    · exact .jar hj
  | page page' p hp ht =>
    by_cases hsame : page' = page
    · subst hsame
      exact absurd hp (by simp)
    · exact .page page' p ((Function.update_of_ne hsame _ _).symm.trans hp) ht
  | flight g hg ht => exact .flight g hg ht

theorem moved_of_step (h : s.step l = some s') : Moved s l s' := by
  cases l with
  | navigate page =>
    obtain ⟨-, rfl⟩ := navigate_cases h
    exact .quiet rfl rfl (fun t h => h.of_page rfl rfl .jar fun f hf ht => .flight f hf ht) rfl
  | arrive page reaches =>
    obtain ⟨cookies, hpage, rfl⟩ := arrive_cases h
    exact moved_proxy hpage
  | reply page =>
    obtain ⟨flight, o, -, ho, rfl⟩ := reply_cases h
    refine .quiet rfl rfl (fun t h => h.of_page rfl rfl (fun ht => held_of_result ho ?_)
      fun f hf ht => .flight f hf ht) rfl
    cases o with
    | ok token => exact ht
    | notOk => simp [State.proxyReply, Page.token] at ht
    | unreachable => simp [State.proxyReply, Page.token] at ht
  | deliver page => exact moved_deliver h
  | apiFetch call =>
    obtain ⟨calls, rfl⟩ := apiFetch_cases h
    exact .of_eq rfl rfl rfl rfl rfl
  | respond call =>
    obtain ⟨calls, rfl⟩ := respond_cases h
    exact .of_eq rfl rfl rfl rfl rfl
  | unauthorized call reaches =>
    obtain ⟨hcall, rfl⟩ := unauthorized_cases h
    exact moved_refreshOnce hcall
  | resume call =>
    obtain ⟨calls, rfl⟩ := resume_cases h
    exact .of_eq rfl rfl rfl rfl rfl
  | answer i o => exact moved_answer h
  | settle i => exact moved_settle h
  | evict i => exact moved_evict h
  | dropRefresh =>
    obtain rfl := Option.some.inj h
    refine .quiet rfl rfl (fun t h => ?_) rfl
    cases h with
    | jar hj => exact absurd hj (by simp)
    | page page p hp ht => exact .page page p hp ht
    | flight g hg ht => exact .flight g hg ht
  | dropAccess =>
    obtain rfl := Option.some.inj h
    refine .quiet rfl rfl (fun t h => ?_) rfl
    cases h with
    | jar hj => exact .jar hj
    | page page p hp ht => exact .page page p hp ht
    | flight g hg ht => exact .flight g hg ht
  | reload | tick ms =>
    obtain rfl := Option.some.inj h
    exact .of_eq rfl rfl rfl rfl rfl

/-! ## 4. The log of a run -/

theorem inv_start (t : Token) : Inv (.start t) where
  valid := .first t
  held t' h := by
    cases h with
    | jar hj =>
      obtain rfl := Option.some.inj hj
      exact List.mem_singleton_self _
    | page page p hp ht => exact absurd hp (by simp [State.start])
    | flight f hf ht => exact absurd hf (by simp [State.start])
  owed := rfl

/-- **One step.** -/
theorem inv_step (hi : Inv s) (h : s.step l = some s') : Inv s' := by
  cases moved_of_step h with
  | quiet hbegins hlog hheld howed =>
    exact ⟨hlog ▸ hi.valid, fun t ht => hlog ▸ hi.held t (hheld t ht), by rw [howed, hlog, hi.owed]⟩
  | begun token hbegins hlog htoken hheld howed =>
    refine ⟨hlog ▸ hi.valid.spend (hi.held token htoken), fun t ht => ?_, ?_⟩
    · rw [hlog]
      exact List.mem_cons_of_mem _ (hi.held t (hheld t ht))
    · rw [howed, hlog, hi.owed]
      rfl
  | answered f o hbegins hmay hlog hheld howed =>
    rw [hi.owed] at howed
    have hissued : ∀ t, Held s' t → .issued t ∈ s.log ∨ o = .ok t :=
      fun t ht => (hheld t ht).imp_left (hi.held t)
    cases hf : f.refreshToken with
    | none =>
      have hrefused : ∀ t, o ≠ .ok t := by
        rintro t rfl
        simp [State.mayAnswer, hf] at hmay
      simp only [State.answerEntry, hf, List.nil_append] at hlog
      simp only [hf, Option.isSome_none] at howed
      refine ⟨hlog ▸ hi.valid, fun t ht => ?_, by rw [hlog]; exact howed⟩
      rw [hlog]
      exact (hissued t ht).resolve_right (hrefused t)
    | some token =>
      simp only [hf, Option.isSome_some, if_true] at howed
      have hopen : 0 < unanswered s.log := by omega
      cases o with
      | ok token' =>
        have hfresh : .issued token' ∉ s.log := by
          simpa [State.mayAnswer, hf] using hmay
        simp only [State.answerEntry, hf, List.singleton_append] at hlog
        refine ⟨hlog ▸ hi.valid.issue hopen hfresh, fun t ht => ?_, ?_⟩
        · rw [hlog]
          rcases hissued t ht with hold | hnew
          · exact List.mem_cons_of_mem _ hold
          · obtain rfl := Outcome.ok.inj hnew
            exact List.mem_cons_self
        · rw [hlog, Rotation.unanswered_issued]
          omega
      | notOk =>
        simp only [State.answerEntry, hf, List.singleton_append] at hlog
        refine ⟨hlog ▸ hi.valid.refuse hopen, fun t ht => ?_, ?_⟩
        · rw [hlog]
          exact List.mem_cons_of_mem _ ((hissued t ht).resolve_right (by simp))
        · rw [hlog, Rotation.unanswered_refused]
          omega
      | unreachable => simp [State.mayAnswer] at hmay

/-- The token of a refresh that begins is the only one that a step spends. -/
theorem disciplined_step (h : s.step l = some s') :
    Rotation.Disciplined s'.log ↔ s.InTurn l ∧ Rotation.Disciplined s.log := by
  cases moved_of_step h with
  | quiet hbegins hlog hheld howed => simp [State.InTurn, hbegins, hlog]
  | begun token hbegins hlog htoken hheld howed =>
    simp [State.InTurn, hbegins, hlog, Rotation.Disciplined]
  | answered f o hbegins hmay hlog hheld howed =>
    rw [hlog]
    unfold State.answerEntry
    split <;> simp [State.InTurn, hbegins, Rotation.Disciplined]

end Steps

namespace Campus

/-- The access cookie is gone.  A page request has begun a refresh when a call of the tab gets its
401. -/
def crossing : List Label :=
  [.dropAccess, .navigate 0, .apiFetch 0, .arrive 0 true, .unauthorized 0 true]

/-- **Both sides post one token.** -/
theorem token_posted_twice :
    ¬ ∀ (t : Token) (ls : List Label) (s : State),
      (State.start t).run ls = some s → s.received.Nodup := by
  intro h
  obtain ⟨s, hs⟩ := Option.isSome_iff_exists.mp
    (by decide : ((State.start 7).run crossing).isSome = true)
  have htwice : ((State.start 7).run crossing).map State.received = some [7, 7] := by decide
  rw [hs] at htwice
  have hnodup := h 7 crossing s hs
  rw [Option.some.inj htwice] at hnodup
  exact absurd hnodup (by decide)

end Campus

end Enroll.Web
