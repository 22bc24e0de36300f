/-
# Queue jumping

A drop, a swap away or a larger capacity opens a seat in one transaction, and a queued job gives it
to the head of the waitlist in a later one.  In between the section is STUCK: a seat is open and
somebody waits for it.  `enroll` and `swap` compare the counter with the capacity and never look at
the waitlist, so a newcomer who locks a stuck section takes the seat
(`Campus.newcomer_jumps_the_queue`).

`no_queue_jump` is what holds: nobody jumps the queue in a run in which newcomers lock a section
only while it is not stuck.  A locked section does not change until the commit, so the commit finds
it as the lock did (`LocksUnstuck`).
-/
import Enroll.Registrar

namespace Enroll

open Txn (Ctx Session Label Discipline)

variable {X : Extra} {op : Op} {c c' : Ctx postgres}

/-! ## 1. Newcomers and stuck sections -/

/-- The section in which the request asks for a new row. -/
def Op.newcomer : Op → Option SectionId
  | enroll input _ _ => some input.sectionId
  | swap _ input _ _ => some input.targetSectionId
  | drop _ _ _ => none
  | runPromotion _ => none
  | reorder _ _ _ => none
  | expireSectionWaitlist _ => none
  | updateSection _ _ _ => none

/-- A seat is open and somebody waits for it. -/
def Stuck (db : Db) (s : SectionId) : Prop :=
  (db.section? s).any (fun sec => decide (sec.enrolledCount < sec.capacity)) = true ∧
    db.waiting s ≠ []

instance (db : Db) (s : SectionId) : Decidable (Stuck db s) := inferInstanceAs (Decidable (_ ∧ _))

theorem Stuck.same {w w' : World} {s : SectionId} (h : World.Same (.sectionRow s) w w') :
    Stuck w'.db s ↔ Stuck w.db s := by
  unfold Stuck Db.waiting
  rw [h.1, h.2]

/-- The next commit gives no seat to a newcomer while somebody waits for one. -/
def NoQueueJump (sys : Sys) : Prop :=
  ∀ t ses sys', sys.sessions t = some ses → sys.step (.commit t) = some sys' →
    ∀ r ∈ insertsOf ses.log, r.status = .ENROLLED →
      (∀ q ∈ sys.world.db.waiting r.sectionId, q.studentId ≠ r.studentId) →
        sys.world.db.waiting r.sectionId = []

/-- The section that a request for a row in it locks by its next statement. -/
def newcomerLocks (sys : Sys) (t x : Nat) : Option SectionId :=
  match sys.sessions t with
  | none => none
  | some ses =>
    match ses.prog with
    | .stmt st _ => ses.op.newcomer.filter fun s =>
        decide (Key.sectionRow s ∈ Stmt.locks st x (sys.ctx t ses).view) &&
          decide (sys.owner (.sectionRow s) ≠ some t)
    | _ => none

/-- **The step condition.**  A request for a row in a section takes the lock of the section only
while it is not stuck. -/
def LocksUnstuck (sys : Sys) : Label registrar → Prop
  | .exec t x => ∀ s ∈ newcomerLocks sys t x, ¬ Stuck sys.world.db s
  | _ => True

instance (sys : Sys) (l : Label registrar) : Decidable (LocksUnstuck sys l) :=
  match l with
  | .exec t x => inferInstanceAs (Decidable (∀ s ∈ newcomerLocks sys t x, ¬ Stuck sys.world.db s))
  | .begin _ _ => .isTrue trivial
  | .commit _ => .isTrue trivial
  | .rollback _ => .isTrue trivial
  | .crash _ => .isTrue trivial
  | .env _ => .isTrue trivial

/-- No newcomer holds a stuck section. -/
def Unstuck (sys : Sys) : Prop :=
  ∀ t ses s, sys.sessions t = some ses → ses.op.newcomer = some s →
    sys.owner (.sectionRow s) = some t → ¬ Stuck sys.world.db s

/-! ## 2. The commit -/

/-- A new ENROLLED row is in the section the request is for, whose row is locked and has a seat. -/
theorem Outcome.newcomer (h : Outcome X op c) {r : Enrollment} (hr : r ∈ insertsOf c.log)
    (hst : r.status = .ENROLLED) :
    op.newcomer = some r.sectionId ∧ ∃ sec, Locked c r.sectionId sec ∧
      sec.enrolledCount < sec.capacity := by
  cases h.newRow hr with
  | seated live x t lock seat => exact ⟨rfl, live, lock, seat⟩
  | queued x t p => exact absurd hst (by simp [queueRow, EnrollmentCreate.row])
  | moved live x t lock seat => exact ⟨rfl, live, lock, seat⟩

theorem Unstuck.noQueueJump {sys : Sys} (h : Unstuck sys) (hG : (discipline X).Good sys) :
    NoQueueJump sys := by
  intro t ses sys' ht hs r hr hst _
  obtain ⟨ses', a, ht', hp, -⟩ := Discipline.commit_cases hs
  obtain rfl : ses = ses' := Option.some.inj (ht.symm.trans ht')
  have ho : Outcome X ses.op (sys.ctx t ses) := hG.post ht hp
  obtain ⟨hop, sec, lock, hseat⟩ := ho.newcomer hr hst
  by_contra hwait
  have hrow : sys.world.db.section? r.sectionId = some sec := lock.row
  refine h t ses r.sectionId ht hop lock.held ⟨?_, hwait⟩
  rw [hrow]
  exact decide_eq_true hseat

/-! ## 3. Every run -/

/-- A session that goes on as it was, owning a section whose data are as they were. -/
theorem Unstuck.carry {sys sys' : Sys} (h : Unstuck sys) {t : Nat} {ses : Session registrar}
    {s : SectionId} (ht : sys.sessions t = some ses) (hop : ses.op.newcomer = some s)
    (ho : sys.owner (.sectionRow s) = some t)
    (hsame : World.Same (.sectionRow s) sys.world sys'.world) : ¬ Stuck sys'.world.db s := by
  rw [Stuck.same hsame]
  exact h t ses s ht hop ho

theorem Unstuck.close {sys : Sys} (h : Unstuck sys) (t : Nat) : Unstuck (sys.close t) := by
  intro t' ses s ht hop ho
  have hne : t' ≠ t := by
    rintro rfl
    simp [Txn.Sys.close] at ht
  simp only [Txn.Sys.close, ne_eq, hne, not_false_eq_true, Function.update_of_ne] at ht ho
  split at ho
  · exact absurd ho (by simp)
  · exact h t' ses s ht hop ho

/-- **Every step that meets the condition keeps newcomers off stuck sections.** -/
theorem Unstuck.step {sys sys' : Sys} {l : Label registrar} (hC : LocksUnstuck sys l)
    (h : Unstuck sys) (hG : (discipline X).Good sys) (hs : sys.step l = some sys') :
    Unstuck sys' := by
  cases l with
  | begin t op =>
    obtain ⟨hnone, rfl⟩ := Discipline.begin_cases hs
    intro t' ses s ht hop ho
    -- the new session owns nothing yet
    have hne : t' ≠ t := by
      rintro rfl
      exact hG.owned _ _ ho hnone
    simp only [ne_eq, hne, not_false_eq_true, Function.update_of_ne] at ht
    exact h t' ses s ht hop ho
  | exec t x =>
    obtain ⟨ses, st, k, r, c', ht, hp, hfree, hr, ses', hop', -, -, -, hsys, hctx⟩ :=
      Discipline.stepExec_cases hs
    obtain ⟨n, hn, hw⟩ := (hG.exec ht hp hr).1
    have hworld : sys'.world = { sys.world with seq := n } := by
      rw [← hctx] at hw
      exact hw
    intro t' ses'' s ht' hop ho
    have hsame : World.Same (.sectionRow s) sys.world sys'.world := hworld ▸ Same.seq _ _ n
    subst hsys
    by_cases hne : t' = t
    · subst hne
      obtain rfl : ses' = ses'' := by
        simpa only [Txn.Sys.keep, Function.update_self, Option.some.injEq] using ht'
      rw [hop'] at hop
      by_cases hown : sys.owner (.sectionRow s) = some t'
      · exact h.carry ht hop hown hsame
      · -- the lock has just been taken
        have hlock : Key.sectionRow s ∈ Stmt.locks st x (sys.ctx t' ses).view := by
          by_contra hno
          simp only [Txn.Sys.keep, if_neg hno] at ho
          exact hown ho
        rw [Stuck.same hsame]
        refine hC s ?_
        simp only [newcomerLocks, ht, hp, hop, Option.filter_some, Option.mem_def]
        exact if_pos (by rw [decide_eq_true hlock, decide_eq_true hown]; rfl)
    · have hother : sys.sessions t' = some ses'' := by
        simpa only [Txn.Sys.keep, Function.update_of_ne hne] using ht'
      refine h.carry hother hop ?_ hsame
      simp only [Txn.Sys.keep] at ho
      split at ho
      · exact absurd (Option.some.inj ho).symm hne
      · exact ho
  | commit t =>
    obtain ⟨ses, a, ht, hp, rfl⟩ := Discipline.commit_cases hs
    have ho : Outcome X ses.op (sys.ctx t ses) := hG.post ht hp
    have hsane : Sane (sys.ctx t ses) := ho.sane hG.inv.1
    intro t' ses' s ht' hop hown
    have hne : t' ≠ t := by
      rintro rfl
      simp [Txn.Sys.close] at ht'
    simp only [Txn.Sys.close, ne_eq, hne, not_false_eq_true, Function.update_of_ne] at ht' hown
    split at hown
    · exact absurd hown (by simp)
    · refine h.carry ht' hop hown (hsane.covered.same fun hheld => hne ?_)
      exact (Option.some.inj (hheld.symm.trans hown)).symm
  | rollback t =>
    obtain ⟨ses, e, -, -, rfl⟩ := Discipline.rollback_cases hs
    exact h.close t
  | crash t =>
    rw [Discipline.crash_cases hs]
    exact h.close t
  | env e =>
    rw [Discipline.env_cases hs]
    intro t ses s ht hop ho
    exact h.carry ht hop ho (Same.env _ _ e)

/-- **No queue jumping**, in every run in which newcomers lock no stuck section. -/
theorem no_queue_jump {w : World} (hv : w.Valid) {sys : Sys}
    (hr : Txn.Sys.Reach LocksUnstuck (Txn.Sys.init w) sys) : NoQueueJump sys := by
  have hrun := registrar_run (J := Unstuck) (Fits.none _ _)
    (fun _ _ _ hC h hG hs => h.step hC hG hs) hv trivial
    (by intro t ses s ht; simp [Txn.Sys.init] at ht) hr
  exact hrun.2.noQueueJump hrun.1

namespace Campus

/-- Student 1 leaves the seat of section 10 that student 2 waits for, and student 3 asks for it. -/
def jump : List (Label registrar) :=
  busy ++ serve 2 (.drop 100 1 (actor 1)) 7 0 ++ .begin 3 (enroll 3 10) :: execs 3 13 102

set_option maxRecDepth 4000 in
theorem jump_runs : (Txn.Sys.run (Txn.Sys.init world) jump).isSome = true := by decide

def afterJump : Sys := (Txn.Sys.run (Txn.Sys.init world) jump).get jump_runs

set_option maxRecDepth 4000 in
theorem jumper_open : (afterJump.sessions 3).isSome = true := by decide

set_option maxRecDepth 4000 in
theorem jumper_commits : (afterJump.step (.commit 3)).isSome = true := by decide

/-- The session of student 3, about to commit. -/
def jumper : Session registrar := (afterJump.sessions 3).get jumper_open

set_option maxRecDepth 4000 in
/-- **A newcomer takes the seat that student 2 waits for.** -/
theorem newcomer_jumps_the_queue :
    ¬ ∀ w : World, w.Valid → ∀ sys : Sys,
      Txn.Sys.Reach (fun _ _ => True) (Txn.Sys.init w) sys → NoQueueJump sys := by
  intro h
  have hjump := h world world_valid afterJump
    (.of_run .refl (fun _ _ _ => trivial) (Option.some_get jump_runs).symm)
  have hempty : afterJump.world.db.waiting 10 = [] := by
    refine hjump 3 jumper _ (Option.some_get jumper_open).symm
      (Option.some_get jumper_commits).symm ((seatRow 3 10).row 102 10) ?_ rfl ?_
    · decide
    · intro q hq
      have hwaiting : afterJump.world.db.waiting 10 = [(queueRow 2 10 1).row 101 10] := by decide
      have hq' : q ∈ afterJump.world.db.waiting 10 := hq
      rw [hwaiting] at hq'
      rw [List.mem_singleton.mp hq']
      decide
  exact absurd hempty (by decide)

/-- Student 1 leaves, student 2 is promoted and leaves, and student 3 is about to commit the seat. -/
def orderly : List (Label registrar) :=
  busy ++ serve 2 (.drop 100 1 (actor 1)) 7 0 ++ serve 3 (.runPromotion 10) 8 0 ++
    serve 4 (.drop 101 2 (actor 2)) 7 0 ++ .begin 5 (enroll 3 10) :: execs 5 13 102

set_option maxRecDepth 8000 in
theorem orderly_runs :
    (Txn.Sys.runIf LocksUnstuck (Txn.Sys.init world) orderly).isSome = true := by decide

def afterOrderly : Sys := (Txn.Sys.runIf LocksUnstuck (Txn.Sys.init world) orderly).get orderly_runs

set_option maxRecDepth 8000 in
theorem newcomer_open : (afterOrderly.sessions 5).isSome = true := by decide

set_option maxRecDepth 8000 in
theorem newcomer_commits : (afterOrderly.step (.commit 5)).isSome = true := by decide

/-- The session of student 3, about to commit. -/
def newcomer : Session registrar := (afterOrderly.sessions 5).get newcomer_open

set_option maxRecDepth 8000 in
/-- The seat is taken when nobody waits for it. -/
theorem no_queue_jump_orderly :
    insertsOf newcomer.log = [(seatRow 3 10).row 102 10] ∧
      afterOrderly.world.db.enrollments.map (fun r => (r.studentId, r.status))
        = [(1, .DROPPED), (2, .DROPPED)] ∧
      afterOrderly.world.db.waiting 10 = [] := by
  have hjump : NoQueueJump afterOrderly :=
    no_queue_jump world_valid (.of_runIf .refl (Option.some_get orderly_runs).symm)
  have hins : insertsOf newcomer.log = [(seatRow 3 10).row 102 10] := by decide
  refine ⟨hins, by decide, ?_⟩
  refine hjump 5 newcomer _ (Option.some_get newcomer_open).symm
    (Option.some_get newcomer_commits).symm ((seatRow 3 10).row 102 10) ?_ rfl ?_
  · rw [hins]
    exact List.mem_singleton_self _
  · show ∀ q ∈ _, _
    decide

end Campus

end Enroll
