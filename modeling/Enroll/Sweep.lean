/-
# Which sections the sweep selects

The query of `sweepPromotable` beside the guards of `runPromotion`.  They agree on every section but
those of a term whose `registrationOpens` is still ahead: a promotion run does not ask for it, and
`enroll` lets in whoever has a window of their own (`sweep_selects_iff`).  `Campus.early_missed` is a
run that leaves an open seat and a waiting student in such a section.
-/
import Enroll.PromotionRun
import Enroll.PromotionQueue

namespace Enroll

open Txn (Prog)

variable {w : World} {s : SectionId}

/-! ## 1. The query -/

/-- `EXISTS (SELECT 1 FROM "Enrollment" e WHERE e."sectionId" = s.id AND e.status = 'WAITLISTED')`. -/
def Db.hasWaiting (db : Db) (s : SectionId) : Bool :=
  db.enrollments.any fun e => e.sectionId == s && e.status == .WAITLISTED

/-- The query of `sweepPromotable`. -/
def World.stuck (w : World) : List SectionId :=
  let stuck := w.db.sections.filter fun s =>
    let t := w.db.ref.term s.termId
    decide (s.enrolledCount < s.capacity) && decide (t.registrationOpens ≤ w.now) &&
      decide (w.now ≤ t.registrationCloses) && w.db.hasWaiting s.id
  stuck.map Section.id

/-- `WaitlistService.sweepPromotable`; `redis id` says whether Redis accepts the add. -/
def sweepPromotable (w : World) (redis : SectionId → Bool) (q : Promotion.PromoteQueue) :
    Promotion.PromoteQueue :=
  Promotion.enqueueStuck (w.stuck.map fun id => (id, redis id)) q

theorem hasWaiting_iff {db : Db} : db.hasWaiting s = true ↔ db.waiting s ≠ [] := by
  constructor
  · intro h hnil
    obtain ⟨r, hr, hp⟩ := List.any_eq_true.mp h
    simp only [Bool.and_eq_true, beq_iff_eq] at hp
    have hmem : r ∈ db.waiting s := mem_waiting.mpr ⟨hr, hp⟩
    rw [hnil] at hmem
    exact absurd hmem List.not_mem_nil
  · intro h
    obtain ⟨r, hr⟩ := List.exists_mem_of_ne_nil _ h
    obtain ⟨hmem, hp⟩ := mem_waiting.mp hr
    exact List.any_eq_true.mpr ⟨r, hmem, by simp [hp]⟩

/-- A seat is open, somebody waits for it, and registration has not closed. -/
structure Open (w : World) (s : SectionId) (sec : Section) : Prop where
  row : w.db.section? s = some sec
  seat : sec.enrolledCount < sec.capacity
  waiting : w.db.waiting s ≠ []
  closes : w.now ≤ (w.db.ref.term sec.termId).registrationCloses

theorem mem_stuck (hv : w.Valid) :
    s ∈ w.stuck ↔ ∃ sec, Open w s sec ∧ (w.db.ref.term sec.termId).registrationOpens ≤ w.now := by
  unfold World.stuck
  simp only [List.mem_map, List.mem_filter, Bool.and_eq_true, decide_eq_true_eq]
  constructor
  · rintro ⟨sec, ⟨hmem, ⟨⟨hseat, hopens⟩, hcloses⟩, hwaiting⟩, rfl⟩
    have hrow : w.db.section? sec.id = some sec := Keyed.lookup_of_mem hv.db.section_id hmem
    exact ⟨sec, ⟨hrow, hseat, hasWaiting_iff.mp hwaiting, hcloses⟩, hopens⟩
  · rintro ⟨sec, h, hopens⟩
    obtain ⟨hmem, rfl⟩ := section?_mem h.row
    exact ⟨sec, ⟨hmem, ⟨⟨h.seat, hopens⟩, h.closes⟩, hasWaiting_iff.mpr h.waiting⟩, rfl⟩

/-! ## 2. The run -/

/-- A promotion run of `s`, executed in `w`, promotes somebody. -/
def Promotes (w : World) (s : SectionId) : Prop :=
  ∃ x w', (runPromotion s).transact (E := postgres) x w = some (.ok (), w') ∧
    ∃ r ∈ w.db.enrollments, r.status = .WAITLISTED ∧
      ∃ r' ∈ w'.db.enrollments, r'.id = r.id ∧ r'.status = .ENROLLED

theorem promotable_ne_nil_iff : w.promotable s ≠ [] ↔ ∃ sec, Open w s sec := by
  unfold World.promotable
  cases hs : w.db.section? s with
  | none =>
    constructor
    · exact fun h => absurd rfl h
    · rintro ⟨sec, h⟩
      exact absurd (hs.symm.trans h.row) (by simp)
  | some sec =>
    simp only
    constructor
    · intro h
      split at h
      · exact absurd rfl h
      · rename_i hopen
        have htake := mt List.take_eq_nil_iff.mpr h
        rw [not_or] at htake
        refine ⟨sec, hs, ?_, fun hnil => htake.2 ?_, Nat.le_of_not_lt hopen⟩
        · have := htake.1
          unfold Section.openSeats at this
          omega
        · rw [hnil]
          rfl
    · rintro ⟨sec', h⟩
      obtain rfl := Option.some.inj (hs.symm.trans h.row)
      rw [if_neg (Nat.not_lt_of_le h.closes)]
      refine mt List.take_eq_nil_iff.mp ?_
      rw [not_or]
      constructor
      · have := h.seat
        unfold Section.openSeats
        omega
      · intro hnil
        refine h.waiting (List.length_eq_zero_iff.mp ?_)
        rw [← length_byPosition, hnil]
        rfl

/-- **A promotion run promotes somebody exactly in an open section.** -/
theorem promotes_iff (hv : w.Valid) : Promotes w s ↔ ∃ sec, Open w s sec := by
  have hrun : ∀ x, (runPromotion s).transact (E := postgres) x w = some (.ok (), w.promoting s) :=
    fun x => Prog.transact_ok postgres_commuting (solo_runPromotion hv s)
  rw [← promotable_ne_nil_iff]
  constructor
  · rintro ⟨x, w', hw', r, hr, hst, r', hr', hid, hst'⟩ hnil
    have hsame : w.promoting s = w := by
      unfold World.promoting
      rw [hnil]
      rfl
    rw [hrun, hsame, Option.some.injEq, Prod.mk.injEq] at hw'
    obtain ⟨-, rfl⟩ := hw'
    obtain rfl := Keyed.eq_of_key_eq hv.db.enrollment_id hr' hr hid
    rw [hst] at hst'
    exact absurd hst' (by simp)
  · intro hne
    obtain ⟨sec, hopen⟩ := promotable_ne_nil_iff.mp hne
    obtain ⟨r, hr⟩ := List.exists_mem_of_ne_nil _ hne
    have hwaiting : r ∈ w.db.waiting s := by
      rw [promotable_open hopen.row (Nat.not_lt_of_le hopen.closes)] at hr
      exact mem_byPosition.mp (List.mem_of_mem_take hr)
    obtain ⟨hmem, -, hst⟩ := mem_waiting.mp hwaiting
    refine ⟨0, _, hrun 0, r, hmem, hst, promoteIn (w.promotable s) w.now r, ?_, ?_, ?_⟩
    · obtain ⟨henr, -⟩ := promoting_tables hopen.row
      rw [henr, foldl_promoted_enrollments]
      exact List.mem_map_of_mem hmem
    · unfold promoteIn
      split <;> rfl
    · rw [promoteIn, if_pos (List.mem_map_of_mem hr)]
      rfl

/-! ## 3. The comparison -/

/-- **The sweep selects the sections that a promotion run would serve, unless one of them is in a
term whose own registration has not opened.** -/
theorem sweep_selects_iff {C : Sys → Txn.Label registrar → Prop} {w₀ : World} (hv : w₀.Valid)
    {sys : Sys} (hr : Txn.Sys.Reach C (Txn.Sys.init w₀) sys) :
    (∀ s, s ∈ sys.world.stuck ↔ Promotes sys.world s) ↔
      ∀ s sec, Open sys.world s sec →
        (sys.world.db.ref.term sec.termId).registrationOpens ≤ sys.world.now := by
  have hvalid : sys.world.Valid := (locks_run hv hr).inv.1
  constructor
  · intro h s sec hopen
    obtain ⟨sec', hopen', hopens⟩ := (mem_stuck hvalid).mp
      ((h s).mpr ((promotes_iff hvalid).mpr ⟨sec, hopen⟩))
    obtain rfl := Option.some.inj (hopen.row.symm.trans hopen'.row)
    exact hopens
  · intro h s
    rw [mem_stuck hvalid, promotes_iff hvalid]
    constructor
    · rintro ⟨sec, hopen, -⟩
      exact ⟨sec, hopen⟩
    · rintro ⟨sec, hopen⟩
      exact ⟨sec, hopen, h s sec hopen⟩

namespace Campus

/-- Seniors register from the start; for the others the term opens at 100. -/
def seniorsFirst : Reference where
  users := [⟨1, [.STUDENT], some .SENIOR, none⟩, ⟨2, [.STUDENT], some .SENIOR, none⟩]
  course _ := ⟨"CS101", 3⟩
  term _ := ⟨100, 1000, 18⟩
  registrationWindows := [⟨7, .SENIOR, 0⟩]
  advisorHolds := []
  overloadApprovals := []
  coursePrerequisites := []

def early : World := { world with db := { world.db with ref := seniorsFirst } }

theorem early_valid : early.Valid := by
  refine ⟨⟨by decide, by decide, ?_, by decide, ?_⟩, ?_⟩ <;>
    · intro r hr
      exact absurd hr List.not_mem_nil

/-- Student 1 takes the seat of section 10, student 2 queues for it, student 1 gives it up. -/
def seatFreed : List (Txn.Label registrar) :=
  serve 0 (enroll 1 10) 14 100 ++ serve 1 (enroll 2 10) 15 101 ++
    serve 2 (.drop 100 1 (actor 1)) 7 0

set_option maxRecDepth 4000 in
theorem seatFreed_runs : (Txn.Sys.run (Txn.Sys.init early) seatFreed).isSome = true := by decide

def afterSeatFreed : Sys := (Txn.Sys.run (Txn.Sys.init early) seatFreed).get seatFreed_runs

theorem seatFreed_reached : Txn.Sys.Reach (fun _ _ => True) (Txn.Sys.init early) afterSeatFreed :=
  .of_run .refl (fun _ _ _ => trivial) (Option.some_get seatFreed_runs).symm

set_option maxRecDepth 4000 in
/-- **A stuck section that the sweep misses.** -/
theorem early_missed :
    ¬ ∀ (w₀ : World) (sys : Sys), w₀.Valid →
      Txn.Sys.Reach (fun _ _ => True) (Txn.Sys.init w₀) sys →
      ∀ s, s ∈ sys.world.stuck ↔ Promotes sys.world s := by
  intro h
  have hvalid : afterSeatFreed.world.Valid := (locks_run early_valid seatFreed_reached).inv.1
  have hmissed : 10 ∉ afterSeatFreed.world.stuck := by decide
  refine hmissed ((h early afterSeatFreed early_valid seatFreed_reached 10).mpr
    ((promotes_iff hvalid).mpr ⟨section10, ?_, ?_, ?_, ?_⟩)) <;> decide

theorem sweep_selects_freed :
    (∀ s, s ∈ afterSeatFreed.world.stuck ↔ Promotes afterSeatFreed.world s) ↔
      ∀ s sec, Open afterSeatFreed.world s sec →
        (afterSeatFreed.world.db.ref.term sec.termId).registrationOpens ≤ afterSeatFreed.world.now :=
  sweep_selects_iff early_valid seatFreed_reached

end Campus

end Enroll
