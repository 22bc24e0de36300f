/-
# Swap agrees with drop followed by enroll

`swap` is a second copy of `enroll` and `drop` in one transaction, with differences: it sets the
source row aside by its id where `enroll` sets aside the rows of a section, it skips two checks
within one course, and it looks for the seat before the other checks and not after them.

For a caller with one active row per course, whose active courses have their prerequisites, the
differences cancel (`swappable_iff`): `swap` commits exactly when the two requests one after the
other would end with a seat, and it leaves the same rows and the same counters (`swap_agrees`).
-/
import Enroll.Decisions

namespace Enroll

open Txn (Prog)

variable {x : EnrollmentId} {w v : World} {r : Enrollment} {s : SectionId}

/-! ## 1. The two conditions -/

/-- The student has at most one active row in each course. -/
def OneRowPerCourse (db : Db) (userId : UserId) : Prop :=
  ∀ r ∈ db.enrollments, ∀ r' ∈ db.enrollments, r.studentId = userId → r'.studentId = userId →
    r.active = true → r'.active = true →
      db.courseOf r.sectionId = db.courseOf r'.sectionId → r = r'

instance (db : Db) (userId : UserId) : Decidable (OneRowPerCourse db userId) :=
  inferInstanceAs (Decidable (∀ r ∈ db.enrollments, ∀ r' ∈ db.enrollments, _ → _))

/-- The prerequisites of every active course of the student are completed. -/
def ActivePrerequisitesMet (db : Db) (userId : UserId) : Prop :=
  ∀ r ∈ db.enrollments, r.studentId = userId → r.active = true →
    PrerequisitesMet db (db.courseOf r.sectionId) userId

instance (db : Db) (userId : UserId) : Decidable (ActivePrerequisitesMet db userId) :=
  inferInstanceAs (Decidable (∀ r ∈ db.enrollments, _ → _))

/-- Setting aside the section `s` after the departure is setting aside `r` before it. -/
theorem Departed.noDuplicate_iff (h : Departed w r v) (hv : w.Valid) (hr : r ∈ w.db.enrollments)
    {u : UserId} (course : CourseId) (hfree : NoActiveRow w.db u s) :
    NoDuplicate v.db u course (fun r' => r'.sectionId != s)
      ↔ NoDuplicate w.db u course (fun r' => r'.id != r.id) := by
  constructor
  · intro hno r' hr' hu ha hid
    obtain ⟨hr'', -⟩ := (h.active_iff hv hr).mpr ⟨hr', ha, bne_iff_ne.mp hid⟩
    have hs : (r'.sectionId != s) = true := bne_iff_ne.mpr (hfree r' hr' hu ha)
    rw [← h.courseOf]
    exact hno r' hr'' hu ha hs
  · intro hno r' hr' hu ha _
    obtain ⟨hr'', -, hid⟩ := (h.active_iff hv hr).mp ⟨hr', ha⟩
    rw [h.courseOf]
    exact hno r' hr'' hu ha (bne_iff_ne.mpr hid)

theorem Departed.prerequisitesMet_iff (h : Departed w r v) (hv : w.Valid)
    (hr : r ∈ w.db.enrollments) (ha : r.active = true) (u : UserId) (course : CourseId) :
    PrerequisitesMet v.db course u ↔ PrerequisitesMet w.db course u := by
  unfold PrerequisitesMet
  simp only [h.ref, h.completed_iff hv hr ha]

theorem Departed.scheduleFits_iff (h : Departed w r v) {sec : SectionJoin} {u : UserId}
    {rows : List Enrollment} : ScheduleFits v.db sec u rows ↔ ScheduleFits w.db sec u rows := by
  have hpattern : ∀ s, (v.db.sectionOf s).meetingPattern = (w.db.sectionOf s).meetingPattern :=
    fun s => fixed_meetingPattern (h.sectionOf_fixed s)
  have hcredits : v.db.creditsOf rows = w.db.creditsOf rows := by
    unfold Db.creditsOf
    simp only [h.ref, h.courseOf]
  have hcap : creditCap v.db.ref sec u = creditCap w.db.ref sec u := by rw [h.ref]
  constructor
  · exact fun hfit =>
      ⟨fun r' hr' => (hpattern _) ▸ hfit.time r' hr', hcredits ▸ hcap ▸ hfit.credits⟩
  · intro hfit
    refine ⟨fun r' hr' => ?_, ?_⟩
    · rw [hpattern]
      exact hfit.time r' hr'
    · rw [hcredits, hcap]
      exact hfit.credits

/-- Within its own course, a row stands in nobody's way but its own. -/
theorem noDuplicate_of_same (hr : r ∈ w.db.enrollments) (ha : r.active = true)
    (hone : OneRowPerCourse w.db r.studentId) :
    NoDuplicate w.db r.studentId (w.db.courseOf r.sectionId) (fun r' => r'.id != r.id) := by
  intro r' hr' hu ha' hid hc
  have heq : r' = r := hone r' hr' r hr hu rfl ha' ha hc
  exact bne_iff_ne.mp hid (congrArg Enrollment.id heq)

/-- **Swap lets the student through exactly when a drop does, and then enroll does.** -/
theorem swappable_iff (hv : w.Valid) (hr : r ∈ w.db.enrollments) (ha : r.active = true)
    (hother : s ≠ r.sectionId) (hfree : NoActiveRow w.db r.studentId s)
    (hone : OneRowPerCourse w.db r.studentId) (hmet : ActivePrerequisitesMet w.db r.studentId)
    (hleft : Departed w r v) {row : Section} :
    Swappable w r s row ↔ SeatCounted w.db r ∧ Enrollable v s r.studentId row := by
  have hjoin : v.db.joinSection row = w.db.joinSection row := by
    unfold Db.joinSection
    rw [hleft.ref]
  have htarget : v.db.section? s = w.db.section? s := hleft.section? hother
  have hdup := hleft.noDuplicate_iff hv hr row.courseId hfree
  have hpre := hleft.prerequisitesMet_iff hv hr ha r.studentId row.courseId
  have hrows := hleft.activeRows (t := row.termId) hfree
  constructor
  · intro h
    refine ⟨h.counted, htarget.trans h.target, ?_, ?_, ?_, ?_, h.seat⟩
    · rw [hjoin, hleft.ref, hleft.now]
      exact h.registration
    · -- the check that `swap` skips within one course
      refine hdup.mpr ?_
      by_cases hsame : w.db.courseOf r.sectionId = row.courseId
      · exact hsame ▸ noDuplicate_of_same hr ha hone
      · exact h.duplicate hsame
    · refine hpre.mpr ?_
      by_cases hsame : w.db.courseOf r.sectionId = row.courseId
      · exact hsame ▸ hmet r hr rfl ha
      · exact h.prerequisites hsame
    · rw [hjoin, hrows]
      exact hleft.scheduleFits_iff.mpr h.schedule
  · rintro ⟨hcounted, h⟩
    refine ⟨htarget.symm.trans h.target, ?_, h.seat, fun _ => hdup.mp h.duplicate,
      fun _ => hpre.mp h.prerequisites, ?_, hcounted⟩
    · have hopen := h.registration
      rw [hjoin, hleft.ref, hleft.now] at hopen
      exact hopen
    · have hfits := hleft.scheduleFits_iff.mp h.schedule
      rw [hjoin, hrows] at hfits
      exact hfits

/-! ## 2. The two requests -/

/-- The student has a seat in the section. -/
def SeatIn (db : Db) (userId : UserId) (sectionId : SectionId) : Prop :=
  ∃ r ∈ db.enrollments, r.studentId = userId ∧ r.sectionId = sectionId ∧ r.status = .ENROLLED

/-- `drop`, and then `enroll` if the drop committed, each as its own transaction; `x` is the uuid
that is drawn. -/
def dropThenEnroll (x : EnrollmentId) (enrollmentId : EnrollmentId) (sectionId : SectionId)
    (userId : UserId) (actor : RequestActor) (w : World) :
    Option (Except Failure FreedSeat × World) :=
  match (drop enrollmentId userId actor).transact x w with
  | none => none
  | some (.error e, w₁) => some (.error e, w₁)
  | some (.ok freed, w₁) =>
    match (enroll ⟨sectionId⟩ userId actor).transact x w₁ with
    | none => none
    | some (_, w₂) => some (.ok freed, w₂)

/-- How a swap that ended in `w'` compares with the two requests, which ended in `w₂`. -/
structure SwapAgrees (w : World) (r : Enrollment) (sectionId : SectionId)
    (out : Except Failure FreedSeat) (w' : World) (freed : Except Failure FreedSeat) (w₂ : World) :
    Prop where
  /-- it commits exactly when they end with a seat in the target -/
  commits : (∃ f, out = .ok f) ↔ SeatIn w₂.db r.studentId sectionId
  /-- then it leaves the same rows -/
  enrollments : ∀ f, out = .ok f → w'.db.enrollments = w₂.db.enrollments
  /-- and the same counters -/
  sections : ∀ f, out = .ok f → w'.db.sections = w₂.db.sections
  /-- and enqueues a promotion for the same section -/
  freed : ∀ f, out = .ok f → ∃ d, freed = .ok d ∧ f.freedSeatSectionId = d.freedSeatSectionId
  /-- else it leaves everything as it was -/
  unchanged : ∀ e, out = .error e → w'.db = w.db

theorem not_seatIn_of_free {db : Db} {u : UserId} (h : NoActiveRow db u s) : ¬ SeatIn db u s := by
  rintro ⟨r', hr', hu, hs, hst⟩
  exact h r' hr' hu (by simp [Enrollment.active, hst, EnrollmentStatus.active]) hs

/-- A swap that failed agrees with requests that ended without a seat. -/
theorem SwapAgrees.of_error {e : Failure} {w' w₂ : World} {freed : Except Failure FreedSeat}
    (hdb : w'.db = w.db) (hno : ¬ SeatIn w₂.db r.studentId s) :
    SwapAgrees w r s (.error e) w' freed w₂ where
  commits := ⟨fun ⟨_, h⟩ => absurd h (by simp), fun h => absurd h hno⟩
  enrollments := by simp
  sections := by simp
  freed := by simp
  unchanged _ _ := hdb

theorem drop_valid (hv : w.Valid) {id : EnrollmentId} {u : UserId} {actor : RequestActor}
    {f : FreedSeat} (h : (drop id u actor).solo x w = some (.ok f, v)) : v.Valid := by
  have hbody : (Op.drop id u actor).body.solo x w = some (.ok (.freed f), v) :=
    Prog.solo_bind_ok h
  exact valid_of_transact hv (Prog.transact_ok postgres_commuting hbody)

/-- Where `enroll` ends once it is committed or undone: a seat exactly when there was one to be
had. -/
theorem enroll_seats (hfree : NoActiveRow v.db r.studentId s) {actor : RequestActor}
    (h : (enroll ⟨s⟩ r.studentId actor).Yields x (EnrollEnds v x s r.studentId) v) :
    ∃ out v₂, (enroll ⟨s⟩ r.studentId actor).transact x v = some (out, v₂) ∧
      (SeatIn v₂.db r.studentId s ↔ ∃ row, Enrollable v s r.studentId row) ∧
      ((∃ row, Enrollable v s r.studentId row) →
        v₂.db.enrollments = (v.seating x s r.studentId).db.enrollments ∧
          v₂.db.sections = (v.seating x s r.studentId).db.sections) := by
  obtain ⟨out, v₂, hout, hQ⟩ := transact_of_yields h
  refine ⟨out, v₂, hout, ?_⟩
  cases out with
  | error e =>
    obtain ⟨hdb, _, hno⟩ := hQ
    rw [hdb]
    exact ⟨⟨fun hin => absurd hin (not_seatIn_of_free hfree), fun hyes => absurd hyes hno⟩,
      fun hyes => absurd hyes hno⟩
  | ok a =>
    rcases hQ with ⟨hyes, hrows, hcounters⟩ | ⟨hno, position, hrows⟩
    · refine ⟨⟨fun _ => hyes, fun _ => ?_⟩, fun _ => ⟨hrows, hcounters⟩⟩
      refine ⟨(seatRow r.studentId s).row x v.now, ?_, rfl, rfl, rfl⟩
      rw [hrows]
      exact List.mem_append_right _ (List.mem_singleton.mpr rfl)
    · refine ⟨⟨fun hin => ?_, fun hyes => absurd hyes hno⟩, fun hyes => absurd hyes hno⟩
      obtain ⟨r', hr', hu, hs, hst⟩ := hin
      rw [hrows] at hr'
      rcases List.mem_append.mp hr' with hr' | hr'
      · exact absurd ⟨r', hr', hu, hs, hst⟩ (not_seatIn_of_free hfree)
      · rw [List.mem_singleton.mp hr'] at hst
        exact absurd hst (by simp [queueRow, EnrollmentCreate.row])

/-- Two departures of one row are followed by the same seats. -/
theorem Departed.seating_eq {v' : World} (h : Departed w r v) (h' : Departed w r v') {u : UserId} :
    (v.seating x s u).db.enrollments = (v'.seating x s u).db.enrollments ∧
      (v.seating x s u).db.sections = (v'.seating x s u).db.sections := by
  have hrows : v.db.enrollments = v'.db.enrollments := h.enrollments.trans h'.enrollments.symm
  have hcounters : v.db.sections = v'.db.sections := h.sections.trans h'.sections.symm
  have hnow : v.now = v'.now := h.now.trans h'.now.symm
  constructor
  · calc (v.seating x s u).db.enrollments
        = v.db.enrollments ++ [(seatRow u s).row x v.now] := rfl
      _ = v'.db.enrollments ++ [(seatRow u s).row x v'.now] := by rw [hrows, hnow]
  · calc (v.seating x s u).db.sections
        = patchSections s (counter 1) v.db.sections := rfl
      _ = patchSections s (counter 1) v'.db.sections := by rw [hcounters]

/-- **Swap agrees with drop followed by enroll.** -/
theorem swap_agrees (hv : w.Valid) (hx : w.db.hasEnrollment x = false)
    (hr : r ∈ w.db.enrollments) (ha : r.active = true) (hother : s ≠ r.sectionId)
    (hfree : NoActiveRow w.db r.studentId s) (hone : OneRowPerCourse w.db r.studentId)
    (hmet : ActivePrerequisitesMet w.db r.studentId) (actor : RequestActor) :
    ∃ out w' freed w₂,
      (swap r.id ⟨s⟩ r.studentId actor).transact x w = some (out, w') ∧
      dropThenEnroll x r.id s r.studentId actor w = some (freed, w₂) ∧
      SwapAgrees w r s out w' freed w₂ := by
  obtain ⟨out, w', hswap, hout⟩ :=
    transact_of_yields (swap_yields hv hr ha hx hother hfree actor)
  obtain ⟨dropped, v, hdrop, hd⟩ := drop_yields (x := x) hv hr ha r.studentId actor
  cases dropped with
  | error e =>
    -- the counter of the source has no seat to give back, for either
    obtain ⟨n, hn⟩ := transact_fails hdrop
    have hno : ¬ ∃ row, Swappable w r s row := fun ⟨_, h⟩ => hd h.counted
    refine ⟨out, w', .error e, { w with seq := n }, hswap, ?_, ?_⟩
    · simp only [dropThenEnroll, hn]
    · cases out with
      | ok f => exact absurd hout.1 hno
      | error e' => exact .of_error hout.1 (not_seatIn_of_free hfree)
  | ok d =>
    obtain ⟨hcounted, hleft, hfreed⟩ := hd
    have hdropped := Prog.transact_ok postgres_commuting hdrop
    have hfree' := hleft.noActiveRow hv hr hfree
    obtain ⟨out₂, w₂, henroll, hseat, htables⟩ := enroll_seats hfree'
      (enroll_yields (drop_valid hv hdrop) ((hleft.hasEnrollment x).trans hx) hfree' actor)
    have hiff : (∃ row, Swappable w r s row) ↔ ∃ row, Enrollable v s r.studentId row := by
      refine exists_congr fun row => ?_
      rw [swappable_iff hv hr ha hother hfree hone hmet hleft]
      exact ⟨fun h => h.2, fun h => ⟨hcounted, h⟩⟩
    refine ⟨out, w', .ok d, w₂, hswap, ?_, ?_⟩
    · simp only [dropThenEnroll, hdropped, henroll]
    · cases out with
      | error e =>
        obtain ⟨hdb, _, hno⟩ := hout
        exact .of_error hdb fun h => hno (hiff.mpr (hseat.mp h))
      | ok f =>
        obtain ⟨hyes, hfreed', v', hleft', hrows, hcounters⟩ := hout
        have hsame := hleft'.seating_eq hleft (x := x) (s := s) (u := r.studentId)
        have htables := htables (hiff.mp hyes)
        refine ⟨⟨fun _ => hseat.mpr (hiff.mp hyes), fun _ => ⟨f, rfl⟩⟩, fun _ _ => ?_,
          fun _ _ => ?_, fun f' hf => ⟨d, rfl, ?_⟩, fun _ h => absurd h (by simp)⟩
        · exact (hrows.trans hsame.1).trans htables.1.symm
        · exact (hcounters.trans hsame.2).trans htables.2.symm
        · rw [← Except.ok.inj hf]
          exact hfreed'.trans hfreed.symm

namespace Campus

/-- Two courses with a prerequisite, and the section in which it was completed. -/
def midTermSections : List Section :=
  [⟨10, "001", 5, 7, "MWF 9:00-9:50", 1, 1, none⟩, ⟨12, "001", 6, 7, "TR 9:00-9:50", 1, 0, none⟩,
    ⟨13, "001", 4, 6, "MWF 9:00-9:50", 1, 1, none⟩,
    ⟨14, "001", 8, 7, "MWF 11:00-11:50", 1, 0, none⟩]

/-- Student 1 has a seat in section 10, waits for section 12, and has completed course 4. -/
def midTerm : World where
  db :=
    { ref := { reference with coursePrerequisites := [⟨6, 4⟩, ⟨8, 4⟩] }
      sections := midTermSections
      enrollments := [⟨100, 1, 10, .ENROLLED, none, 8, none, none, 8⟩,
        ⟨101, 1, 12, .WAITLISTED, some 1, 9, none, none, 9⟩,
        ⟨102, 1, 13, .COMPLETED, none, 1, none, some 5, 1⟩]
      notifications := []
      auditOutbox := [] }
  now := 10
  seq := 0

theorem midTerm_valid : midTerm.Valid :=
  ⟨⟨by decide, by decide, by decide, by decide, by decide⟩, fun _ h => absurd h List.not_mem_nil⟩

/-- The seat of student 1. -/
def midTermSeat : Enrollment := ⟨100, 1, 10, .ENROLLED, none, 8, none, none, 8⟩

theorem swap_agrees_midTerm :
    ∃ out w' freed w₂,
      (swap 100 ⟨14⟩ 1 (actor 1)).transact (E := postgres) 103 midTerm = some (out, w') ∧
      dropThenEnroll 103 100 14 1 (actor 1) midTerm = some (freed, w₂) ∧
      SwapAgrees midTerm midTermSeat 14 out w' freed w₂ :=
  swap_agrees (r := midTermSeat) midTerm_valid (by decide) (by decide) (by decide) (by decide)
    (by decide) (by decide) (by decide) (actor 1)

set_option maxRecDepth 4000 in
example : ((swap 100 ⟨14⟩ 1 (actor 1)).transact (E := postgres) 103 midTerm).any
    (fun r => r.1.isOk) = true := by decide

end Campus

end Enroll
