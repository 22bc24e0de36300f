/-
# The hourly cleanup

The hourly `expireClosedWaitlists` reads, outside of any transaction, which sections are over and
have somebody waiting, and then clears them one by one, each in a transaction of its own.  `Hourly`
runs it among all the other sessions; an error ends its loop.

When the loop gets to its end, nobody waits any more for a section that was over at the beginning,
and nobody ever will (`cleanup_is_final`).
-/
import Enroll.Closing
import Enroll.Machine
import Enroll.Waitlist

namespace Enroll

open Txn (Ctx Session Label Discipline)

variable {X : Extra} {op : Op} {c : Ctx postgres} {s : SectionId}

/-! ## 1. The job -/

/-- The query of `expireClosedWaitlists`. -/
def World.affected (w : World) : List SectionId :=
  let rows := w.db.enrollments.filter fun e => e.status == .WAITLISTED &&
    (w.db.section? e.sectionId).any fun sec =>
      decide ((w.db.ref.term sec.termId).registrationCloses < w.now)
  (rows.map Enrollment.sectionId).dedup

theorem mem_affected {w : World} : s ∈ w.affected ↔ Over s w ∧ w.db.waiting s ≠ [] := by
  unfold World.affected
  rw [List.mem_dedup]
  simp only [List.mem_map, List.mem_filter, Bool.and_eq_true, beq_iff_eq]
  constructor
  · rintro ⟨r, ⟨hr, hst, hlate⟩, rfl⟩
    obtain ⟨sec, hsec, hlt⟩ := (Option.any_eq_true _ _).mp hlate
    exact ⟨⟨sec, hsec, of_decide_eq_true hlt⟩, List.ne_nil_of_mem (mem_waiting.mpr ⟨hr, rfl, hst⟩)⟩
  · rintro ⟨⟨sec, hsec, hlate⟩, hne⟩
    obtain ⟨r, hr⟩ := List.exists_mem_of_ne_nil _ hne
    obtain ⟨hmem, rfl, hst⟩ := mem_waiting.mp hr
    exact ⟨r, ⟨hmem, hst, by rw [hsec]; exact decide_eq_true hlate⟩, rfl⟩

/-- Where the job is. -/
inductive Phase where
  | idle
  /-- with the sections `todo` still to come -/
  | between (todo : List SectionId)
  /-- in session `t`, which clears section `s` -/
  | clearing (t : Nat) (s : SectionId) (todo : List SectionId)
  deriving DecidableEq, Repr

/-- What the end of session `t'` is to the job: its own commit lets it go on, its own failure ends
it. -/
def Phase.after : Phase → Label registrar → Phase
  | clearing t s todo, .commit t' => if t' = t then between todo else clearing t s todo
  | clearing t s todo, .rollback t' => if t' = t then idle else clearing t s todo
  | clearing t s todo, .crash t' => if t' = t then idle else clearing t s todo
  | phase, _ => phase

/-- The registrar with its hourly job. -/
structure Hourly where
  sys : Sys
  phase : Phase

namespace Hourly

inductive Event where
  | db (l : Label registrar)
  /-- the hour strikes -/
  | start
  /-- the next section, in session `t` -/
  | next (t : Nat)
  | finish

def step (p : Hourly) : Event → Option Hourly
  | .db l => (p.sys.step l).map fun sys' => ⟨sys', p.phase.after l⟩
  | .start =>
    match p.phase with
    | .idle => some ⟨p.sys, .between p.sys.world.affected⟩
    | _ => none
  | .next t =>
    match p.phase with
    | .between (s :: todo) =>
      (p.sys.step (.begin t (.expireSectionWaitlist s))).map fun sys' => ⟨sys', .clearing t s todo⟩
    | _ => none
  | .finish =>
    match p.phase with
    | .between [] => some ⟨p.sys, .idle⟩
    | _ => none

/-- Nobody puts a deadline off. -/
def Kept (p : Hourly) : Event → Prop
  | .db l => NotPutOff p.sys l
  | _ => True

variable {p p' : Hourly}

/-- The job as a caller of the database: it does nothing else there than to begin its sessions. -/
theorem sys_of_step {e : Event} (hC : p.Kept e) (hs : p.step e = some p') :
    p'.sys = p.sys ∨ ∃ l, p.sys.step l = some p'.sys ∧ NotPutOff p.sys l := by
  cases e with
  | db l =>
    obtain ⟨sys', hstep, rfl⟩ := Option.map_eq_some_iff.mp hs
    exact Or.inr ⟨l, hstep, hC⟩
  | start =>
    simp only [step] at hs
    split at hs
    · exact Or.inl (congrArg sys (Option.some.inj hs)).symm
    · exact absurd hs (by simp)
  | next t =>
    simp only [step] at hs
    split at hs
    · obtain ⟨sys', hstep, rfl⟩ := Option.map_eq_some_iff.mp hs
      exact Or.inr ⟨_, hstep, trivial⟩
    · exact absurd hs (by simp)
  | finish =>
    simp only [step] at hs
    split at hs
    · exact Or.inl (congrArg sys (Option.some.inj hs)).symm
    · exact absurd hs (by simp)

end Hourly

/-! ## 2. What the job gets done -/

/-- A session goes on with its request until it ends. -/
theorem session_goes_on {sys sys' : Sys} {l : Label registrar} (hs : sys.step l = some sys')
    {t : Nat} {ses : Session registrar} (ht : sys.sessions t = some ses)
    (hl : l ≠ .commit t ∧ l ≠ .rollback t ∧ l ≠ .crash t) :
    ∃ ses', sys'.sessions t = some ses' ∧ ses'.op = ses.op := by
  by_cases hne : l.session = some t
  · cases l with
    | begin t' op =>
      obtain rfl : t' = t := Option.some.inj hne
      exact absurd ((Discipline.begin_cases hs).1.symm.trans ht) (by simp)
    | exec t' x =>
      obtain rfl : t' = t := Option.some.inj hne
      obtain ⟨ses₁, s, k, r, c', ht₁, -, -, -, ses', hop, -, -, -, rfl, -⟩ :=
        Discipline.stepExec_cases hs
      obtain rfl := Option.some.inj (ht.symm.trans ht₁)
      exact ⟨ses', Function.update_self _ _ _, hop⟩
    | commit t' => exact absurd (congrArg Label.commit (Option.some.inj hne)) hl.1
    | rollback t' => exact absurd (congrArg Label.rollback (Option.some.inj hne)) hl.2.1
    | crash t' => exact absurd (congrArg Label.crash (Option.some.inj hne)) hl.2.2
    | env e => exact absurd hne (by simp [Label.session])
  · exact ⟨ses, (Discipline.sessions_of_ne hs hne).trans ht, rfl⟩

/-- The job has section `s` still before it. -/
def Phase.Awaits (s : SectionId) : Phase → Prop
  | idle => True
  | between todo => s ∈ todo
  | clearing _ s' todo => s = s' ∨ s ∈ todo

/-- The session that clears a section goes on with that. -/
theorem Phase.clearing_of_after {phase : Phase} {l : Label registrar} {t : Nat} {s : SectionId}
    {todo : List SectionId} (h : phase.after l = .clearing t s todo) :
    phase = .clearing t s todo ∧ l ≠ .commit t ∧ l ≠ .rollback t ∧ l ≠ .crash t := by
  cases phase with
  | idle => cases l <;> cases h
  | between todo' => cases l <;> cases h
  | clearing t₁ s₁ todo₁ =>
    cases l with
    | commit t' =>
      simp only [Phase.after] at h
      split at h
      · cases h
      · rename_i hne
        cases h
        exact ⟨rfl, fun he => hne (Label.commit.inj he), by simp, by simp⟩
    | rollback t' =>
      simp only [Phase.after] at h
      split at h
      · cases h
      · rename_i hne
        cases h
        exact ⟨rfl, by simp, fun he => hne (Label.rollback.inj he), by simp⟩
    | crash t' =>
      simp only [Phase.after] at h
      split at h
      · cases h
      · rename_i hne
        cases h
        exact ⟨rfl, by simp, by simp, fun he => hne (Label.crash.inj he)⟩
    | begin t' op => cases h; exact ⟨rfl, by simp, by simp, by simp⟩
    | exec t' x => cases h; exact ⟨rfl, by simp, by simp, by simp⟩
    | env e => cases h; exact ⟨rfl, by simp, by simp, by simp⟩

/-- A section is before the job until it is cleared. -/
theorem Phase.Awaits.after {phase : Phase} {s : SectionId} (h : phase.Awaits s)
    (l : Label registrar) : (phase.after l).Awaits s ∨
      ∃ t todo, phase = .clearing t s todo ∧ l = .commit t := by
  cases phase with
  | idle => exact .inl (by cases l <;> trivial)
  | between todo => exact .inl (by cases l <;> exact h)
  | clearing t s' todo =>
    cases l with
    | commit t' =>
      simp only [Phase.after]
      split
      · rename_i ht
        rcases h with rfl | h
        · exact .inr ⟨t, todo, rfl, by rw [ht]⟩
        · exact .inl h
      · exact .inl h
    | rollback t' =>
      simp only [Phase.after]
      split
      · exact .inl trivial
      · exact .inl h
    | crash t' =>
      simp only [Phase.after]
      split
      · exact .inl trivial
      · exact .inl h
    | begin t' op => exact .inl h
    | exec t' x => exact .inl h
    | env e => exact .inl h

/-- The job is on its way to section `s`, unless the waitlist there is empty. -/
structure Clears (s : SectionId) (p : Hourly) : Prop where
  session : ∀ t s' todo, p.phase = .clearing t s' todo →
    ∃ ses, p.sys.sessions t = some ses ∧ ses.op = .expireSectionWaitlist s'
  due : p.sys.world.db.waiting s ≠ [] → p.phase.Awaits s

/-- An expiry leaves nobody waiting. -/
theorem expired_empty (hv : c.world.Valid) (h : ExpiryEnds X op s c)
    (hsec : c.world.db.section? s ≠ none) : c.view.db.waiting s = [] := by
  rcases h with ⟨-, hnone⟩ | ⟨live, turns, h⟩
  · exact absurd hnone hsec
  · have hwl : c.view.db.wl s = [] := by
      rw [h.acts hv s]
      simp [Op.action, Fifo.Action.apply]
    have hnil : byPosition (c.view.db.waiting s) = [] := List.map_eq_nil_iff.mp hwl
    refine List.eq_nil_iff_forall_not_mem.mpr fun r hr => ?_
    have hmem := mem_byPosition.mpr hr
    rw [hnil] at hmem
    exact absurd hmem List.not_mem_nil

namespace Clears

variable {C : Sys → Label registrar → Prop} {w : World} {sys₀ : Sys} {p p' : Hourly}

/-- **A step of the database keeps the job on its way.** -/
theorem db (hv : w.Valid) (ha : After C w s sys₀ p.sys) (h : Clears s p) {l : Label registrar}
    (hs : p.step (.db l) = some p') : Clears s p' := by
  obtain ⟨sys', hstep, rfl⟩ := Option.map_eq_some_iff.mp hs
  constructor
  · intro t s' todo hphase
    obtain ⟨hbefore, hends⟩ := Phase.clearing_of_after hphase
    obtain ⟨ses, ht, hop⟩ := h.session t s' todo hbefore
    obtain ⟨ses', ht', hop'⟩ := session_goes_on hstep ht hends
    exact ⟨ses', ht', hop'.trans hop⟩
  · intro hwait
    have hbefore : p.sys.world.db.waiting s ≠ [] := fun hnil => hwait (ha.empty hv hstep hnil)
    rcases (h.due hbefore).after l with hawaits | ⟨t, todo, hphase, rfl⟩
    · exact hawaits
    · -- the section that was cleared is not the one where somebody waits
      refine absurd ?_ hwait
      obtain ⟨ses, ht, hop⟩ := h.session _ _ _ hphase
      obtain ⟨ses', a, ht', hpure, rfl⟩ := Discipline.commit_cases hstep
      obtain rfl := Option.some.inj (ht.symm.trans ht')
      have hG := locks_run hv ha.reach
      have ho : Outcome Extra.none ses.op (p.sys.ctx t ses) := hG.post ht hpure
      rw [hop] at ho
      obtain ⟨sec, hsec, -⟩ := (ha.still_over hv).2
      exact expired_empty hG.inv.1 ho (fun hnone => absurd (hsec.symm.trans hnone) (by simp))

theorem step (hv : w.Valid) (ha : After C w s sys₀ p.sys) (h : Clears s p) {e : Hourly.Event}
    (hs : p.step e = some p') : Clears s p' := by
  cases e with
  | db l => exact h.db hv ha hs
  | start =>
    simp only [Hourly.step] at hs
    split at hs
    · rw [← Option.some.inj hs]
      refine ⟨fun t s' todo hphase => absurd hphase (by simp), fun hwait => ?_⟩
      exact mem_affected.mpr ⟨(ha.still_over hv).2, hwait⟩
    · exact absurd hs (by simp)
  | next t =>
    simp only [Hourly.step] at hs
    split at hs
    · rename_i s' todo hphase
      obtain ⟨sys', hstep, rfl⟩ := Option.map_eq_some_iff.mp hs
      obtain ⟨-, rfl⟩ := Discipline.begin_cases hstep
      constructor
      · intro t₁ s₁ todo₁ he
        cases he
        exact ⟨_, Function.update_self _ _ _, rfl⟩
      · intro hwait
        have hawaits := h.due hwait
        rw [hphase] at hawaits
        exact List.mem_cons.mp hawaits
    · exact absurd hs (by simp)
  | finish =>
    simp only [Hourly.step] at hs
    split at hs
    · rw [← Option.some.inj hs]
      exact ⟨fun t s' todo hphase => absurd hphase (by simp), fun _ => trivial⟩
    · exact absurd hs (by simp)

end Clears

/-- The job as it is at the deadline: not running. -/
theorem hourly_run {w : World} (hv : w.Valid)
    {p₀ p : Hourly} (h₀ : After (fun _ _ => True) w s p₀.sys p₀.sys) (hidle : p₀.phase = .idle)
    (hr : Machine.Reach Hourly.step Hourly.Kept p₀ p) :
    After (fun _ _ => True) w s p₀.sys p.sys ∧ Clears s p := by
  refine hr.inv (I := fun p => After (fun _ _ => True) w s p₀.sys p.sys ∧ Clears s p) ⟨h₀, ?_⟩ ?_
  · exact ⟨fun t s' todo hphase => absurd (hidle.symm.trans hphase) (by simp),
      fun _ => hidle ▸ trivial⟩
  · rintro p e p' hC ⟨ha, hc⟩ hs
    refine ⟨?_, hc.step hv ha hs⟩
    rcases Hourly.sys_of_step hC hs with hsame | ⟨l, hstep, hput⟩
    · exact hsame ▸ ha
    · exact ha.tail trivial hput hstep

/-- **The hourly cleanup is final.**  A section is over, nobody is under way who would join it, and
the job is not running.  Whenever the job gets to the end of its loop after that, nobody waits for
the section any more, and nobody ever will, whatever else runs. -/
theorem cleanup_is_final {w : World} (hv : w.Valid) {p₀ p p' : Hourly}
    (hreach : Txn.Sys.Reach (fun _ _ => True) (Txn.Sys.init w) p₀.sys)
    (hover : Over s p₀.sys.world)
    (hnobody : ∀ t ses, p₀.sys.sessions t = some ses → ¬ ses.op.Joins s)
    (hidle : p₀.phase = .idle) (hr : Machine.Reach Hourly.step Hourly.Kept p₀ p)
    (hend : p.phase = .between []) (hr' : Machine.Reach Hourly.step Hourly.Kept p p') :
    p'.sys.world.db.waiting s = [] := by
  have h₀ : After (fun _ _ => True) w s p₀.sys p₀.sys := ⟨hreach, hover, hnobody, .refl⟩
  have hend' : p.sys.world.db.waiting s = [] := by
    by_contra hne
    have hawaits := (hourly_run hv h₀ hidle hr).2.due hne
    rw [hend] at hawaits
    exact absurd hawaits List.not_mem_nil
  induction hr' with
  | refl => exact hend'
  | tail hr' hC hs ih =>
    have ha := (hourly_run hv h₀ hidle (hr.trans hr')).1
    rcases Hourly.sys_of_step hC hs with hsame | ⟨l, hstep, -⟩
    · exact hsame ▸ ih
    · exact ha.empty hv hstep ih

namespace Campus

/-- The job clears section 10 in session 2. -/
def cleanup : List Hourly.Event :=
  [.start, .next 2] ++ (execs 2 6 0).map .db ++ [.db (.commit 2)]

/-- Nothing but the job. -/
def byJob (_ : Hourly) : Hourly.Event → Bool
  | .db (.env _) => false
  | _ => true

theorem kept_of_byJob (p : Hourly) (e : Hourly.Event) (h : byJob p e = true) : p.Kept e := by
  cases e with
  | db l =>
    cases l with
    | env e => exact absurd h (by simp [byJob])
    | _ => trivial
  | _ => trivial

set_option maxRecDepth 4000 in
theorem cleanup_runs :
    (Machine.runIf Hourly.step byJob ⟨afterDeadline, .idle⟩ cleanup).isSome = true := by decide

def afterCleanup : Hourly :=
  (Machine.runIf Hourly.step byJob ⟨afterDeadline, .idle⟩ cleanup).get cleanup_runs

theorem cleanup_reached :
    Machine.Reach Hourly.step Hourly.Kept ⟨afterDeadline, .idle⟩ afterCleanup :=
  .of_runIf kept_of_byJob .refl (Option.some_get cleanup_runs).symm

set_option maxRecDepth 4000 in
theorem cleanup_is_final_cleaned :
    afterDeadline.world.db.waiting 10 ≠ [] ∧ afterCleanup.sys.world.db.waiting 10 = [] :=
  ⟨by decide, cleanup_is_final world_valid deadline_reached deadline_over nobody_joins rfl
    cleanup_reached (by decide) .refl⟩

end Campus

end Enroll
