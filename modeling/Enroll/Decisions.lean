/-
# What the checks decide

`Checks` says what a check establishes for the world it commits to.  Here is the other half, for a
request that is served alone: each check goes on EXACTLY when its condition is true, and the
condition is a statement about the tables (`RegistrationOpen`, `PrerequisitesMet`, `ScheduleFits`).
So whether `swap` commits (`Swappable`) and whether `enroll` finds a seat (`Enrollable`) are
conditions on the tables too (`swap_yields`, `enroll_yields`).
-/
import Enroll.Alone

namespace Enroll

open Txn (Prog)

variable {x : Nat} {v : World}

/-! ## 1. Registration -/

/-- When registration opens for a student of this standing. -/
def effectiveOpens (ref : Reference) (sec : SectionJoin) (standing : Option ClassStanding) : Time :=
  ((standing.bind fun c => ref.registrationWindows.find? fun w =>
    w.termId == sec.sec.termId && w.classStanding == c).map
      RegistrationWindow.opensAt).getD sec.term.registrationOpens

/-- No advisor holds the student back. -/
def Unheld (ref : Reference) (userId : UserId) : Prop :=
  ref.advisorHolds.find? (fun h => h.studentId == userId && h.releasedAt.isNone) = none

/-- The student may register in the term of `sec` now. -/
structure RegistrationOpen (ref : Reference) (now : Time) (sec : SectionJoin) (userId : UserId) :
    Prop where
  notClosed : now ≤ sec.term.registrationCloses
  student : ∃ student, ref.users.find? (fun u => u.id == userId) = some student ∧
    effectiveOpens ref sec student.classStanding ≤ now
  unheld : Unheld ref userId

theorem openGate_decides {sec : SectionJoin} {userId : UserId} {now : Time}
    {standing : Option ClassStanding} {window : Option RegistrationWindow} :
    (openGate sec userId now standing window).Checks x
      ((window.map RegistrationWindow.opensAt).getD sec.term.registrationOpens ≤ now ∧
        Unheld v.db.ref userId) v := by
  refine (Prog.checks_throwIf.congr Nat.not_lt).and fun _ => ?_
  refine yields_query ?_
  cases h : (Query.advisorHoldFindFirst userId).eval v with
  | none => exact Prog.yields_pure ⟨h, rfl⟩
  | some hold => exact Prog.yields_throw fun hno => absurd (h.symm.trans hno) (by simp)

theorem registrationGate_decides {sec : SectionJoin} {userId : UserId} {closed : String} :
    (registrationGate sec userId closed).Checks x
      (RegistrationOpen v.db.ref v.now sec userId) v := by
  refine yields_query ?_
  refine Prog.Checks.bind Prog.checks_throwIf
    (fun hc e v' h => hc (Nat.not_lt.mpr h.notClosed)) fun hclosed => ?_
  refine yields_query (Prog.yields_bind (Prog.yields_orThrow (fun hnone h => ?_)
    fun student hstudent => ?_))
  · obtain ⟨student, hstudent, -⟩ := h.student
    exact absurd (hnone.symm.trans hstudent) (by simp)
  · -- the window that is read is the one of `effectiveOpens`
    have hgate (window : Option RegistrationWindow)
        (hw : (window.map RegistrationWindow.opensAt).getD sec.term.registrationOpens
          = effectiveOpens v.db.ref sec student.classStanding) :
        (openGate sec userId v.now student.classStanding window).Checks x
          (RegistrationOpen v.db.ref v.now sec userId) v := by
      refine openGate_decides.congr ?_
      rw [hw]
      constructor
      · exact fun h => ⟨Nat.not_lt.mp hclosed, ⟨student, hstudent, h.1⟩, h.2⟩
      · intro h
        obtain ⟨student', hstudent', hopens⟩ := h.student
        obtain rfl : student = student' := Option.some.inj (hstudent.symm.trans hstudent')
        exact ⟨hopens, h.unheld⟩
    refine Prog.yields_bind ?_
    cases hst : student.classStanding with
    | none => exact Prog.yields_pure (hst ▸ hgate none (by rw [hst]; rfl))
    | some standing =>
      refine Prog.yields_of_solo (solo_query _) (hst ▸ hgate _ ?_)
      rw [hst]
      rfl

/-! ## 2. Prerequisites -/

/-- The student has completed every prerequisite of the course. -/
def PrerequisitesMet (db : Db) (courseId : CourseId) (userId : UserId) : Prop :=
  ∀ p ∈ db.ref.coursePrerequisites, p.courseId = courseId → Completed db userId p.prerequisiteId

instance (db : Db) (userId : UserId) (courseId : CourseId) :
    Decidable (Completed db userId courseId) :=
  inferInstanceAs (Decidable (∃ r ∈ db.enrollments, _ ∧ _))

instance (db : Db) (courseId : CourseId) (userId : UserId) :
    Decidable (PrerequisitesMet db courseId userId) :=
  inferInstanceAs (Decidable (∀ p ∈ db.ref.coursePrerequisites, _ → _))

theorem completed_iff {db : Db} {userId : UserId} {courseId : CourseId} :
    courseId ∈ ((db.select { studentId := some userId, status := some [.COMPLETED] }).map
      db.joinEnrollment).map (fun r => r.sec.courseId) ↔ Completed db userId courseId := by
  unfold Completed Db.select
  simp only [List.map_map, List.mem_map, List.mem_filter, EnrollmentWhere.matches, Option.all_some,
    Option.all_none, Bool.and_true, Bool.and_eq_true, beq_iff_eq, List.contains_eq_mem,
    List.mem_singleton, decide_eq_true_eq, Function.comp]
  constructor
  · rintro ⟨r, ⟨hmem, hu, hst⟩, hc⟩
    exact ⟨r, hmem, hu.symm, hst, hc⟩
  · rintro ⟨r, hmem, hu, hst, hc⟩
    exact ⟨r, ⟨hmem, hu.symm, hst⟩, hc⟩

theorem prerequisiteGate_decides {courseId : CourseId} {userId : UserId} {message : String} :
    (prerequisiteGate courseId userId message).Checks x
      (PrerequisitesMet v.db courseId userId) v := by
  have hlisted : ∀ c, c ∈ (Query.coursePrerequisiteFindMany courseId).eval v ↔
      ∃ p ∈ v.db.ref.coursePrerequisites, p.courseId = courseId ∧ p.prerequisiteId = c := by
    intro c
    simp [Query.eval, and_assoc]
  refine yields_query ?_
  generalize (Query.coursePrerequisiteFindMany courseId).eval v = prereqs at hlisted ⊢
  refine Prog.yields_ite (fun _ => yields_query ?_) fun hnone => ?_
  · refine Prog.checks_throwIf.congr ?_
    rw [Nat.not_lt, Nat.le_zero, List.length_eq_zero_iff, List.filter_eq_nil_iff]
    constructor
    · intro h p hp hc
      have hin := h p.prerequisiteId ((hlisted _).mpr ⟨p, hp, hc, rfl⟩)
      rw [Bool.not_eq_true', Bool.not_eq_false, List.contains_iff_mem] at hin
      exact completed_iff.mp hin
    · intro h c hc
      obtain ⟨p, hp, hcourse, rfl⟩ := (hlisted c).mp hc
      rw [Bool.not_eq_true', Bool.not_eq_false, List.contains_iff_mem]
      exact completed_iff.mpr (h p hp hcourse)
  · refine Prog.yields_pure ⟨fun p hp hc => absurd ?_ hnone, rfl⟩
    exact List.length_pos_of_mem ((hlisted _).mpr ⟨p, hp, hc, rfl⟩)

/-! ## 3. Time and credits -/

/-- No meeting of `sec` overlaps one of `rows`, and the credits stay within the cap. -/
structure ScheduleFits (db : Db) (sec : SectionJoin) (userId : UserId) (rows : List Enrollment) :
    Prop where
  time : ∀ r ∈ rows, hasTimeConflict sec.sec.meetingPattern
    (db.sectionOf r.sectionId).meetingPattern = false
  credits : db.creditsOf rows + sec.course.credits ≤ creditCap db.ref sec userId

theorem timeConflictGate_decides {pattern : String} {existing : List EnrollmentJoin} :
    (timeConflictGate pattern existing).Checks x
      (∀ e ∈ existing, hasTimeConflict pattern e.sec.meetingPattern = false) v := by
  unfold timeConflictGate
  split
  · rename_i e hfound
    refine Prog.yields_throw fun h => ?_
    have hconflict := List.find?_some hfound
    rw [h e (List.mem_of_find?_eq_some hfound)] at hconflict
    exact absurd hconflict (by simp)
  · rename_i hnone
    refine Prog.yields_pure ⟨fun e he => ?_, rfl⟩
    simpa using List.find?_eq_none.mp hnone e he

theorem creditGate_decides {sec : SectionJoin} {userId : UserId} {existing : List EnrollmentJoin} :
    (creditGate sec userId existing).Checks x
      (creditSum existing + sec.course.credits ≤ creditCap v.db.ref sec userId) v :=
  yields_query (Prog.checks_throwIf.congr Int.not_lt)

theorem scheduleGate_decides {sec : SectionJoin} {userId : UserId} {rows : List Enrollment}
    {existing : List EnrollmentJoin} (hrows : existing = rows.map v.db.joinEnrollment) :
    (scheduleGate sec userId existing).Checks x (ScheduleFits v.db sec userId rows) v := by
  subst hrows
  refine (timeConflictGate_decides.and fun _ => creditGate_decides).congr ?_
  rw [List.forall_mem_map, creditSum_rows]
  exact ⟨fun h => ⟨h.1, h.2⟩, fun h => ⟨h.time, h.credits⟩⟩

/-! ## 4. Enroll -/

/-- The student has no active row in the course among those that `keep` keeps. -/
def NoDuplicate (db : Db) (userId : UserId) (courseId : CourseId) (keep : Enrollment → Bool) :
    Prop :=
  ∀ r ∈ db.enrollments, r.studentId = userId → r.active = true → keep r = true →
    db.courseOf r.sectionId ≠ courseId

theorem matches_sameCourseElsewhere {db : Db} {u : UserId} {course : CourseId} {s : SectionId}
    {r : Enrollment} : (sameCourseElsewhere u course s).matches db r = true ↔
      r.studentId = u ∧ r.active = true ∧ db.courseOf r.sectionId = course ∧
        (r.sectionId != s) = true := by
  simp only [EnrollmentWhere.matches, sameCourseElsewhere, Option.all_some, Option.all_none,
    Bool.and_true, activeStatuses_contains, Bool.and_eq_true, beq_iff_eq, bne_iff_ne,
    Enrollment.active, and_assoc, eq_comm (a := u), eq_comm (a := course), ne_comm (a := s)]

theorem matches_sameCourseBeside {db : Db} {u : UserId} {course : CourseId} {id : EnrollmentId}
    {r : Enrollment} : (sameCourseBeside u course id).matches db r = true ↔
      r.studentId = u ∧ r.active = true ∧ db.courseOf r.sectionId = course ∧
        (r.id != id) = true := by
  simp only [EnrollmentWhere.matches, sameCourseBeside, Option.all_some, Option.all_none,
    Bool.and_true, activeStatuses_contains, Bool.and_eq_true, beq_iff_eq, bne_iff_ne,
    Enrollment.active, and_assoc, eq_comm (a := u), eq_comm (a := course), ne_comm (a := id)]

/-- The check for a duplicate, whose `where` is about the rows that `keep` keeps. -/
theorem duplicate_decides {w : EnrollmentWhere} {userId : UserId} {courseId : CourseId}
    {keep : Enrollment → Bool} {e : Failure}
    (hw : ∀ r, w.matches v.db r = true ↔ r.studentId = userId ∧ r.active = true ∧
      v.db.courseOf r.sectionId = courseId ∧ keep r = true) :
    (Prog.throwIf ((Query.enrollmentFindFirst w).eval v).isSome e : Tx Unit).Checks x
      (NoDuplicate v.db userId courseId keep) v := by
  refine Prog.checks_throwIf.congr ?_
  simp only [Query.eval, Option.isSome_map, List.isSome_head?, Db.select, ne_eq, not_not,
    List.filter_eq_nil_iff]
  constructor
  · exact fun h r hr hu ha hk hc => h r hr ((hw r).mpr ⟨hu, ha, hc, hk⟩)
  · intro h r hr hm
    obtain ⟨hu, ha, hc, hk⟩ := (hw r).mp hm
    exact h r hr hu ha hk hc

/-- `enroll` would seat the student in the section `row`. -/
structure Enrollable (v : World) (sectionId : SectionId) (userId : UserId) (row : Section) :
    Prop where
  target : v.db.section? sectionId = some row
  registration : RegistrationOpen v.db.ref v.now (v.db.joinSection row) userId
  duplicate : NoDuplicate v.db userId row.courseId (fun r => r.sectionId != sectionId)
  prerequisites : PrerequisitesMet v.db row.courseId userId
  schedule : ScheduleFits v.db (v.db.joinSection row) userId
    (v.db.activeRows userId row.termId (fun r => r.sectionId != sectionId))
  seat : row.enrolledCount < row.capacity

theorem enrollEligibility_decides {row : Section} {sectionId : SectionId} {userId : UserId} :
    (enrollEligibility (v.db.joinSection row) ⟨sectionId⟩ userId).Checks x
      (NoDuplicate v.db userId row.courseId (fun r => r.sectionId != sectionId) ∧
        PrerequisitesMet v.db row.courseId userId ∧
        ScheduleFits v.db (v.db.joinSection row) userId
          (v.db.activeRows userId row.termId (fun r => r.sectionId != sectionId))) v := by
  refine yields_query ((duplicate_decides fun r => matches_sameCourseElsewhere).and fun _ => ?_)
  refine prerequisiteGate_decides.and fun _ => yields_query ?_
  exact scheduleGate_decides (activeInTerm_elsewhere v)

/-- A seat in `sectionId` can be written down for the student, under the uuid `x`. -/
structure Seatable (v : World) (x : EnrollmentId) (sectionId : SectionId) (userId : UserId)
    (row : Section) : Prop where
  unused : v.db.hasEnrollment x = false
  target : v.db.section? sectionId = some row
  user : v.db.hasUser userId = true
  free : v.db.activePairTaken x userId sectionId = false
  counted : 0 ≤ row.enrolledCount

/-- The student has no active row in the section. -/
def NoActiveRow (db : Db) (userId : UserId) (sectionId : SectionId) : Prop :=
  ∀ r ∈ db.enrollments, r.studentId = userId → r.active = true → r.sectionId ≠ sectionId

instance (db : Db) (userId : UserId) (sectionId : SectionId) :
    Decidable (NoActiveRow db userId sectionId) :=
  inferInstanceAs (Decidable (∀ r ∈ db.enrollments, _ → _))

theorem findActive_none {sectionId : SectionId} {userId : UserId} :
    (Query.enrollmentFindFirst
      { studentId := some userId, sectionId := some sectionId,
        status := some activeStatuses }).eval v = none ↔ NoActiveRow v.db userId sectionId := by
  simp only [Query.eval, Option.map_eq_none_iff, List.head?_eq_none_iff, Db.select,
    List.filter_eq_nil_iff, EnrollmentWhere.matches, Option.all_some, Option.all_none,
    Bool.and_true, activeStatuses_contains, Bool.and_eq_true, beq_iff_eq]
  constructor
  · exact fun h r hr hu ha hs => h r hr ⟨⟨hu.symm, hs.symm⟩, ha⟩
  · exact fun h r hr hm => h r hr hm.1.1.symm hm.2 hm.1.2.symm

theorem activePairTaken_of_free {db : Db} {x : EnrollmentId} {u : UserId} {s : SectionId}
    (h : NoActiveRow db u s) : db.activePairTaken x u s = false := by
  refine activePairTaken_of_none (fun r hr ha hu => ?_) x
  obtain ⟨hmem, hs⟩ := mem_rowsOf.mp hr
  exact h r hmem hu ha hs

theorem RegistrationOpen.hasUser {db : Db} {now : Time} {sec : SectionJoin} {userId : UserId}
    (h : RegistrationOpen db.ref now sec userId) : db.hasUser userId = true := by
  obtain ⟨student, hstudent, -⟩ := h.student
  have hid := List.find?_some hstudent
  exact List.any_eq_true.mpr ⟨student, List.mem_of_find?_eq_some hstudent, hid⟩

/-- The view after a row of status ENROLLED was inserted and the counter went up. -/
def World.seating (v : World) (x : EnrollmentId) (sectionId : SectionId) (userId : UserId) :
    World :=
  (Write.sectionPatch sectionId (counter 1)).apply
    ((Write.enrollmentInsert ((seatRow userId sectionId).row x v.now)).apply v)

theorem Seatable.create {sectionId : SectionId} {userId : UserId} {row : Section}
    (h : Seatable v x sectionId userId row) :
    (Tx.enrollmentCreate (seatRow userId sectionId)).solo x v
      = some (.ok ((seatRow userId sectionId).row x v.now),
          (Write.enrollmentInsert ((seatRow userId sectionId).row x v.now)).apply v) :=
  solo_enrollmentCreate h.unused (by simp [seatRow, h.target]) h.user h.free

theorem Seatable.count {sectionId : SectionId} {userId : UserId} {row : Section}
    (h : Seatable v x sectionId userId row) (seat : row.enrolledCount < row.capacity) :
    (Tx.sectionUpdate sectionId (counter 1)).solo x
        ((Write.enrollmentInsert ((seatRow userId sectionId).row x v.now)).apply v)
      = some (.ok (v.db.joinSection ((counter 1).patch row)), v.seating x sectionId userId) := by
  have hcheck : ((counter 1).patch row).checkSeats = true := by
    have := h.counted
    exact checkSeats_counter (by omega) (by omega)
  exact solo_sectionUpdate h.target hcheck

/-- How `enroll` ends: with a seat, exactly when there is one for the student; else in the queue, or
with an error. -/
def EnrollEnds (v : World) (x : EnrollmentId) (sectionId : SectionId) (userId : UserId) :
    Except Failure EnrollmentResultDto → World → Prop
  | .ok _, v' =>
    ((∃ row, Enrollable v sectionId userId row) ∧
      v'.db.enrollments = (v.seating x sectionId userId).db.enrollments ∧
      v'.db.sections = (v.seating x sectionId userId).db.sections) ∨
    ((¬ ∃ row, Enrollable v sectionId userId row) ∧ ∃ position,
      v'.db.enrollments = v.db.enrollments ++ [(queueRow userId sectionId position).row x v.now])
  | .error _, _ => ¬ ∃ row, Enrollable v sectionId userId row

/-- The waitlist of the section takes one more row. -/
def WaitlistRoom (db : Db) (row : Section) (sectionId : SectionId) : Prop :=
  ∀ cap, row.waitlistCap = some cap → ((db.waiting sectionId).length : Int) < cap

theorem waitlistCapGate_decides {live : SectionJoin} {sectionId : SectionId} :
    (waitlistCapGate live ⟨sectionId⟩).Checks x (WaitlistRoom v.db live.sec sectionId) v := by
  unfold waitlistCapGate
  cases hcap : live.sec.waitlistCap with
  | none => exact Prog.yields_pure ⟨fun cap h => absurd (hcap.symm.trans h) (by simp), rfl⟩
  | some cap =>
    refine yields_query (Prog.checks_throwIf.congr ?_)
    simp only [Query.eval, select_waiting, Int.not_le]
    constructor
    · intro h cap' hcap'
      obtain rfl : cap = cap' := Option.some.inj (hcap.symm.trans hcap')
      exact h
    · exact fun h => h cap hcap

theorem joinWaitlist_yields {live : SectionJoin} {sectionId : SectionId} {userId : UserId}
    {actor : RequestActor} {row : Section} (h : Seatable v x sectionId userId row) :
    (joinWaitlist live ⟨sectionId⟩ userId actor).Yields x
      (Prog.Granted (WaitlistRoom v.db live.sec sectionId) fun _ v' => ∃ position,
        v'.db.enrollments
          = v.db.enrollments ++ [(queueRow userId sectionId position).row x v.now]) v := by
  refine waitlistCapGate_decides.bind (fun hno _ _ => hno) fun hroom => ?_
  have hposition : ∃ position, (assignPosition sectionId).solo x v = some (.ok position, v) :=
    ⟨_, solo_query_bind _ _⟩
  obtain ⟨position, hposition⟩ := hposition
  refine Prog.yields_bind_ok hposition ?_
  have hcreate : (Tx.enrollmentCreate (queueRow userId sectionId position)).solo x v
      = some (.ok ((queueRow userId sectionId position).row x v.now),
          (Write.enrollmentInsert ((queueRow userId sectionId position).row x v.now)).apply v) :=
    solo_enrollmentCreate h.unused (by simp [queueRow, h.target]) h.user h.free
  refine Prog.yields_bind_ok hcreate (yields_query ?_)
  exact Prog.yields_bind_ok (solo_recordEvent _) (Prog.yields_pure ⟨hroom, position, rfl⟩)

theorem takeSeat_yields {sectionId : SectionId} {userId : UserId} {actor : RequestActor}
    {row : Section} (h : Seatable v x sectionId userId row)
    (seat : row.enrolledCount < row.capacity)
    {Q : Except Failure EnrollmentResultDto → World → Prop}
    (hQ : ∀ a p, Q (.ok a) ((v.seating x sectionId userId).audited p)) :
    (takeSeat ⟨sectionId⟩ userId actor).Yields x Q v := by
  refine Prog.yields_bind_ok h.create (Prog.yields_bind_ok (h.count seat) ?_)
  exact Prog.yields_bind_ok (solo_recordEvent _) (Prog.yields_pure (hQ _ _))

/-- **What `enroll` does for a student with no active row in the section.** -/
theorem enroll_yields (hv : v.Valid) {sectionId : SectionId} {userId : UserId}
    (hx : v.db.hasEnrollment x = false) (hfree : NoActiveRow v.db userId sectionId)
    (actor : RequestActor) :
    (enroll ⟨sectionId⟩ userId actor).Yields x (EnrollEnds v x sectionId userId) v := by
  refine yields_query (Prog.yields_bind (Prog.yields_orThrow (fun hnone h => ?_)
    fun sec hsec => ?_))
  · obtain ⟨row, h⟩ := h
    exact absurd (Option.map_eq_none_iff.mp hnone) (by simp [h.target])
  obtain ⟨row, hrow, rfl⟩ := Option.map_eq_some_iff.mp hsec
  -- whoever is enrollable is so for this row
  have honly : (∃ row', Enrollable v sectionId userId row') →
      Enrollable v sectionId userId row := by
    rintro ⟨row', h⟩
    obtain rfl : row = row' := Option.some.inj (hrow.symm.trans h.target)
    exact h
  refine registrationGate_decides.bind (fun hno e v' h => hno (honly h).registration)
    fun hopen => ?_
  refine Prog.yields_bind_ok (solo_sectionForUpdate _) ?_
  rw [hrow]
  refine Prog.yields_bind_ok (Prog.solo_pure _) (yields_query ?_)
  rw [findActive_none.mpr hfree]
  refine enrollEligibility_decides.bind (fun hno e v' h => ?_) fun hchecks => ?_
  · exact hno ⟨(honly h).duplicate, (honly h).prerequisites, (honly h).schedule⟩
  have hseat : Seatable v x sectionId userId row :=
    ⟨hx, hrow, hopen.hasUser, activePairTaken_of_free hfree,
      (hv.db.seats row (section?_mem hrow).1).1⟩
  refine Prog.yields_ite (fun seat => ?_) fun full => ?_
  · refine takeSeat_yields hseat seat fun a p => Or.inl ⟨⟨row, ?_⟩, rfl, rfl⟩
    exact ⟨hrow, hopen, hchecks.1, hchecks.2.1, hchecks.2.2, seat⟩
  · have hno : ¬ ∃ row, Enrollable v sectionId userId row := fun h => full (honly h).seat
    obtain ⟨r, v', hr, hQ⟩ := joinWaitlist_yields hseat
    refine Prog.yields_of_solo hr ?_
    cases r with
    | ok a => exact Or.inr ⟨hno, hQ.2⟩
    | error e => exact hno

/-! ## 5. Drop -/

variable {w : World} {r : Enrollment}

/-- The view after `r` has left its section. -/
structure Departed (w : World) (r : Enrollment) (v : World) : Prop where
  now : v.now = w.now
  ref : v.db.ref = w.db.ref
  enrollments : v.db.enrollments = patchEnrollments r.id (departure w.now) w.db.enrollments
  sections : v.db.sections = if r.status = .ENROLLED
    then patchSections r.sectionId (counter (-1)) w.db.sections else w.db.sections

/-- The seat of `r`, if it has one, is among those that its section counts. -/
def SeatCounted (db : Db) (r : Enrollment) : Prop :=
  r.status = .ENROLLED → ∀ sec, db.section? r.sectionId = some sec → 0 < sec.enrolledCount

/-- The section whose waitlist moves up. -/
def freedSeat (r : Enrollment) : Option SectionId :=
  if r.status = .ENROLLED then some r.sectionId else none

/-- Counting a seat down, where the section has its old counter. -/
theorem decrement_yields (hv : w.Valid) (hr : r ∈ w.db.enrollments) (henr : r.status = .ENROLLED) :
    (Tx.sectionUpdate r.sectionId (counter (-1))).Yields x
      (Prog.Granted (SeatCounted w.db r) fun _ v' => Departed w r v')
      ((Write.enrollmentPatch r.id (departure w.now)).apply w) := by
  obtain ⟨sec, hsec⟩ := Option.ne_none_iff_exists'.mp (hv.db.section_fkey r hr)
  have hseats := hv.db.seats sec (section?_mem hsec).1
  have hiff : SeatCounted w.db r ↔ 0 < sec.enrolledCount := by
    constructor
    · exact fun h => h henr sec hsec
    · intro h _ sec' hsec'
      obtain rfl : sec = sec' := Option.some.inj (hsec.symm.trans hsec')
      exact h
  by_cases hcount : 0 < sec.enrolledCount
  · refine Prog.yields_of_solo (solo_sectionUpdate hsec (checkSeats_counter (by omega) (by omega)))
      ⟨hiff.mpr hcount, rfl, rfl, rfl, ?_⟩
    rw [if_pos henr]
    rfl
  · refine Prog.yields_of_solo (solo_sectionUpdate_refused hsec ?_) fun h => hcount (hiff.mp h)
    rw [counter_patch_checkSeats, decide_eq_false_iff_not]
    omega

theorem departed_of_queued (henr : r.status ≠ .ENROLLED) :
    Departed w r ((Write.enrollmentPatch r.id (departure w.now)).apply w) :=
  ⟨rfl, rfl, rfl, by rw [if_neg henr]; rfl⟩

theorem releaseSeat_yields (hv : w.Valid) (hr : r ∈ w.db.enrollments) :
    (releaseSeat (r.status == .ENROLLED) r.sectionId).Yields x
      (Prog.Granted (SeatCounted w.db r) fun _ v' => Departed w r v')
      ((Write.enrollmentPatch r.id (departure w.now)).apply w) := by
  unfold releaseSeat
  by_cases henr : r.status = .ENROLLED
  · rw [if_pos (by simp [henr])]
    exact (decrement_yields hv hr henr).bind_granted (fun hno _ _ h => hno h)
      fun hyes _ _ hleft => Prog.yields_pure ⟨hyes, hleft⟩
  · rw [if_neg (by simp [henr])]
    exact Prog.yields_of_solo (solo_query _) ⟨fun h => absurd h henr, departed_of_queued henr⟩

theorem vacate_yields (hv : w.Valid) (hr : r ∈ w.db.enrollments) :
    (vacate (r.status == .ENROLLED) r.sectionId).Yields x
      (Prog.Granted (SeatCounted w.db r) fun _ v' => Departed w r v')
      ((Write.enrollmentPatch r.id (departure w.now)).apply w) := by
  unfold vacate
  by_cases henr : r.status = .ENROLLED
  · rw [if_pos (by simp [henr])]
    exact (decrement_yields hv hr henr).bind_granted (fun hno _ _ h => hno h)
      fun hyes _ _ hleft => Prog.yields_pure ⟨hyes, hleft⟩
  · rw [if_neg (by simp [henr])]
    exact Prog.yields_pure ⟨fun h => absurd h henr, departed_of_queued henr⟩

/-- The row is there to be left. -/
theorem solo_departure (hv : w.Valid) (hr : r ∈ w.db.enrollments) (ha : r.active = true) :
    (Tx.enrollmentUpdate r.id (departure w.now)).solo x w
      = some (.ok ((departure w.now).patch r),
          (Write.enrollmentPatch r.id (departure w.now)).apply w) :=
  solo_enrollmentUpdate (hv.db.enrollment?_of_mem hr) (Or.inl ha)

/-- What a look-up of the row finds. -/
theorem found_of_mem (hv : w.Valid) (hr : r ∈ w.db.enrollments) :
    (Query.enrollmentFindUnique r.id).eval w = some (w.db.joinEnrollment r) := by
  simp [Query.eval, hv.db.enrollment?_of_mem hr]

/-- The check that the row is active goes through. -/
theorem yields_of_active {α : Type} {e : Failure} {f : Unit → Tx α}
    {Q : Except Failure α → World → Prop} (ha : r.active = true) (h : (f ()).Yields x Q v) :
    (Prog.throwIf (!(w.db.joinEnrollment r).row.active) e >>= f).Yields x Q v := by
  refine Prog.checks_throwIf.bind (fun hno => absurd ?_ hno) fun _ => h
  simp [Db.joinEnrollment, ha]

/-- **What `drop` does with an active row.** -/
theorem drop_yields (hv : w.Valid) (hr : r ∈ w.db.enrollments) (ha : r.active = true)
    (userId : UserId) (actor : RequestActor) :
    (drop r.id userId actor).Yields x (Prog.Granted (SeatCounted w.db r) fun f v' =>
      Departed w r v' ∧ f.freedSeatSectionId = freedSeat r) w := by
  refine yields_query ?_
  rw [found_of_mem hv hr]
  refine Prog.yields_bind_ok (Prog.solo_pure _) (Prog.yields_bind_ok (solo_sectionForUpdate _) ?_)
  refine yields_query ?_
  rw [found_of_mem hv hr]
  refine Prog.yields_bind_ok (Prog.solo_pure _) (yields_of_active ha (yields_query ?_))
  refine Prog.yields_bind_ok
    (solo_enrollmentUpdateMany (hv.db.enrollment?_of_mem hr) (Or.inl ha)) ?_
  refine Prog.yields_bind (Prog.yields_throwIf (fun h => absurd h (by simp)) fun _ => ?_)
  refine (releaseSeat_yields hv hr).bind_granted (fun hno _ _ h => hno h) fun hyes sec v₁ hv₁ => ?_
  refine Prog.yields_bind_ok (solo_recordEvent _) (Prog.yields_pure ⟨hyes, ?_, ?_⟩)
  · exact ⟨hv₁.now, hv₁.ref, hv₁.enrollments, hv₁.sections⟩
  · unfold freedSeat
    simp [Db.joinEnrollment]

/-! ## 6. What a departure leaves as it was -/

namespace Departed

theorem section?_eq (h : Departed w r v) (s : SectionId) :
    v.db.section? s = (w.db.section? s).map fun sec =>
      if r.status = .ENROLLED ∧ s = r.sectionId then (counter (-1)).patch sec else sec := by
  have hsections := h.sections
  unfold Db.section?
  by_cases henr : r.status = .ENROLLED
  · rw [if_pos henr, patchSections] at hsections
    rw [hsections, Keyed.lookup_update (f := (counter (-1)).patch) fun _ => rfl]
    simp only [henr, true_and]
  · rw [if_neg henr] at hsections
    simp [hsections, henr]

theorem section? (h : Departed w r v) {s : SectionId} (hs : s ≠ r.sectionId) :
    v.db.section? s = w.db.section? s := by
  rw [h.section?_eq]
  simp [hs]

theorem sectionOf_fixed (h : Departed w r v) (s : SectionId) :
    (v.db.sectionOf s).fixed = (w.db.sectionOf s).fixed := by
  unfold Db.sectionOf
  rw [h.section?_eq]
  cases w.db.section? s with
  | none => rfl
  | some sec =>
    rw [Option.map_some, Option.getD_some, Option.getD_some]
    split
    · exact section_patch_fixed _ sec
    · rfl

theorem courseOf (h : Departed w r v) (s : SectionId) : v.db.courseOf s = w.db.courseOf s :=
  fixed_courseId (h.sectionOf_fixed s)

theorem termOf (h : Departed w r v) (s : SectionId) : v.db.termOf s = w.db.termOf s :=
  fixed_termId (h.sectionOf_fixed s)

theorem hasEnrollment (h : Departed w r v) (x : EnrollmentId) :
    v.db.hasEnrollment x = w.db.hasEnrollment x := by
  unfold Db.hasEnrollment
  rw [h.enrollments]
  exact Keyed.any_update (f := (departure w.now).patch) (fun _ => rfl) r.id w.db.enrollments

/-- A row other than `r`, or `r` as it left. -/
theorem mem_iff (h : Departed w r v) (hv : w.Valid) (hr : r ∈ w.db.enrollments) {r' : Enrollment} :
    r' ∈ v.db.enrollments ↔
      (r' ∈ w.db.enrollments ∧ r'.id ≠ r.id) ∨ r' = (departure w.now).patch r := by
  rw [h.enrollments, patchEnrollments, Keyed.mem_update]
  constructor
  · rintro ⟨r₀, hr₀, rfl⟩
    split
    · rename_i he
      rw [Keyed.eq_of_key_eq hv.db.enrollment_id hr₀ hr he]
      exact Or.inr rfl
    · exact Or.inl ⟨hr₀, ‹_›⟩
  · rintro (⟨hr', hne⟩ | rfl)
    · exact ⟨r', hr', (if_neg hne).symm⟩
    · exact ⟨r, hr, (if_pos rfl).symm⟩

/-- The active rows are those of before, without `r`. -/
theorem active_iff (h : Departed w r v) (hv : w.Valid) (hr : r ∈ w.db.enrollments)
    {r' : Enrollment} : r' ∈ v.db.enrollments ∧ r'.active = true ↔
      r' ∈ w.db.enrollments ∧ r'.active = true ∧ r'.id ≠ r.id := by
  rw [h.mem_iff hv hr]
  constructor
  · rintro ⟨⟨hr', hne⟩ | rfl, ha⟩
    · exact ⟨hr', ha, hne⟩
    · exact absurd ha (by simp [departure, EnrollmentData.patch, Enrollment.active,
        EnrollmentStatus.active])
  · rintro ⟨hr', ha, hne⟩
    exact ⟨Or.inl ⟨hr', hne⟩, ha⟩

theorem noActiveRow (h : Departed w r v) (hv : w.Valid) (hr : r ∈ w.db.enrollments) {u : UserId}
    {s : SectionId} (hfree : NoActiveRow w.db u s) : NoActiveRow v.db u s := by
  intro r' hr' hu ha
  obtain ⟨hmem, -, -⟩ := (h.active_iff hv hr).mp ⟨hr', ha⟩
  exact hfree r' hmem hu ha

/-- The rows of a check, where one request sets aside a section and the other sets aside `r`. -/
theorem activeRows (h : Departed w r v) {u : UserId} {t : TermId} {s : SectionId}
    (hfree : NoActiveRow w.db u s) :
    v.db.activeRows u t (fun r' => r'.sectionId != s)
      = w.db.activeRows u t (fun r' => r'.id != r.id) := by
  unfold Db.activeRows
  rw [h.enrollments, patchEnrollments, Keyed.filter_update_of_false]
  · refine List.filter_congr fun r' hr' => ?_
    rw [h.termOf]
    by_cases hu : r'.studentId = u
    · by_cases ha : r'.active = true
      · simp [hu, ha, hfree r' hr' hu ha, bne, beq_eq_decide]
      · simp [ha]
    · simp [beq_false_of_ne hu]
  · intro r' _ _
    simp [departure, EnrollmentData.patch, Enrollment.active, EnrollmentStatus.active]

theorem completed_iff (h : Departed w r v) (hv : w.Valid) (hr : r ∈ w.db.enrollments)
    (ha : r.active = true) {u : UserId} {course : CourseId} :
    Completed v.db u course ↔ Completed w.db u course := by
  have hne : ∀ r' : Enrollment, r'.status = .COMPLETED → r'.active = false := by
    intro r' hst
    simp [Enrollment.active, hst, EnrollmentStatus.active]
  constructor
  · rintro ⟨r', hr', hu, hst, hc⟩
    rw [h.courseOf] at hc
    rcases (h.mem_iff hv hr).mp hr' with ⟨hmem, -⟩ | rfl
    · exact ⟨r', hmem, hu, hst, hc⟩
    · exact absurd hst (by simp [departure, EnrollmentData.patch])
  · rintro ⟨r', hr', hu, hst, hc⟩
    refine ⟨r', (h.mem_iff hv hr).mpr (Or.inl ⟨hr', fun he => ?_⟩), hu, hst, ?_⟩
    · rw [Keyed.eq_of_key_eq hv.db.enrollment_id hr' hr he] at hst
      exact absurd ((hne r hst).symm.trans ha) (by simp)
    · rw [h.courseOf]
      exact hc

end Departed

/-! ## 7. Swap -/

/-- `swap` would move the student from `r` to the section `row`. -/
structure Swappable (w : World) (r : Enrollment) (targetSectionId : SectionId) (row : Section) :
    Prop where
  target : w.db.section? targetSectionId = some row
  registration : RegistrationOpen w.db.ref w.now (w.db.joinSection row) r.studentId
  seat : row.enrolledCount < row.capacity
  duplicate : w.db.courseOf r.sectionId ≠ row.courseId →
    NoDuplicate w.db r.studentId row.courseId (fun r' => r'.id != r.id)
  prerequisites : w.db.courseOf r.sectionId ≠ row.courseId →
    PrerequisitesMet w.db row.courseId r.studentId
  schedule : ScheduleFits w.db (w.db.joinSection row) r.studentId
    (w.db.activeRows r.studentId row.termId (fun r' => r'.id != r.id))
  counted : SeatCounted w.db r

theorem crossCourseGate_decides {userId : UserId} {row : Section} :
    (crossCourseGate r.id (w.db.joinEnrollment r) (w.db.joinSection row) userId).Checks x
      (w.db.courseOf r.sectionId ≠ row.courseId →
        NoDuplicate w.db userId row.courseId (fun r' => r'.id != r.id) ∧
          PrerequisitesMet w.db row.courseId userId) w := by
  refine Prog.yields_ite (fun hsame => ?_) fun hother => ?_
  · exact Prog.yields_pure ⟨fun hne => absurd hsame hne, rfl⟩
  · refine Prog.Checks.congr (yields_query ((duplicate_decides fun r' =>
      matches_sameCourseBeside).and fun _ => prerequisiteGate_decides)) ?_
    exact ⟨fun h _ => h, fun h => h hother⟩

theorem swapEligibility_decides {userId : UserId} {row : Section} :
    (swapEligibility r.id (w.db.joinEnrollment r) (w.db.joinSection row) userId).Checks x
      ((w.db.courseOf r.sectionId ≠ row.courseId →
        NoDuplicate w.db userId row.courseId (fun r' => r'.id != r.id) ∧
          PrerequisitesMet w.db row.courseId userId) ∧
        ScheduleFits w.db (w.db.joinSection row) userId
          (w.db.activeRows userId row.termId (fun r' => r'.id != r.id))) w := by
  exact crossCourseGate_decides.and fun _ =>
    yields_query (scheduleGate_decides (activeInTerm_beside w))

theorem solo_lockBoth (a b : SectionId) : (lockBoth a b).solo x w = some (.ok (), w) := by
  unfold lockBoth
  rw [Prog.solo_bind_ok (solo_sectionForUpdate _), Prog.solo_bind_ok (solo_sectionForUpdate _)]
  rfl

/-- What `swap` commits: `r` has left, and the student has a seat in the target. -/
def SwapEndsIn (w : World) (r : Enrollment) (x : EnrollmentId) (targetSectionId : SectionId)
    (f : FreedSeat) (v' : World) : Prop :=
  f.freedSeatSectionId = freedSeat r ∧ ∃ v, Departed w r v ∧
    v'.db.enrollments = (v.seating x targetSectionId r.studentId).db.enrollments ∧
    v'.db.sections = (v.seating x targetSectionId r.studentId).db.sections

theorem swapExecute_yields (hv : w.Valid) (hr : r ∈ w.db.enrollments) (ha : r.active = true)
    (hx : w.db.hasEnrollment x = false) {targetSectionId : SectionId} {row : Section}
    (hother : targetSectionId ≠ r.sectionId) (hrow : w.db.section? targetSectionId = some row)
    (seat : row.enrolledCount < row.capacity) (huser : w.db.hasUser r.studentId = true)
    (hfree : NoActiveRow w.db r.studentId targetSectionId) (actor : RequestActor) :
    (swapExecute r.id (w.db.joinEnrollment r) r ⟨targetSectionId⟩ r.studentId actor).Yields x
      (Prog.Granted (SeatCounted w.db r) (SwapEndsIn w r x targetSectionId)) w := by
  refine yields_query (Prog.yields_bind_ok (solo_departure hv hr ha) ?_)
  refine (vacate_yields hv hr).bind_granted (fun hno _ _ h => hno h) fun hyes _ v hleft => ?_
  have hfree' := hleft.noActiveRow hv hr hfree
  have hseat : Seatable v x targetSectionId r.studentId row := by
    refine ⟨(hleft.hasEnrollment x).trans hx, (hleft.section? hother).trans hrow, ?_,
      activePairTaken_of_free hfree', (hv.db.seats row (section?_mem hrow).1).1⟩
    unfold Db.hasUser
    rw [hleft.ref]
    exact huser
  refine Prog.yields_bind_ok hseat.create (Prog.yields_bind_ok (hseat.count seat) ?_)
  refine Prog.yields_bind_ok (solo_recordEvent _) (Prog.yields_pure ⟨hyes, ?_, v, hleft, rfl, rfl⟩)
  unfold freedSeat
  simp [Db.joinEnrollment]

/-- The part of `swap` for two different sections. -/
theorem swapInto_yields (hv : w.Valid) (hr : r ∈ w.db.enrollments) (ha : r.active = true)
    (hx : w.db.hasEnrollment x = false) {targetSectionId : SectionId}
    (hother : targetSectionId ≠ r.sectionId)
    (hfree : NoActiveRow w.db r.studentId targetSectionId) (actor : RequestActor) :
    (swapInto r.id (w.db.joinEnrollment r) ⟨targetSectionId⟩ r.studentId actor).Yields x
      (Prog.Granted (∃ row, Swappable w r targetSectionId row)
        (SwapEndsIn w r x targetSectionId)) w := by
  refine yields_query (Prog.yields_bind (Prog.yields_orThrow (fun hnone h => ?_)
    fun target htarget => ?_))
  · obtain ⟨row, h⟩ := h
    exact absurd (Option.map_eq_none_iff.mp hnone) (by simp [h.target])
  obtain ⟨row, hrow, rfl⟩ := Option.map_eq_some_iff.mp htarget
  -- whatever is swappable is so for this row
  have honly : (∃ row', Swappable w r targetSectionId row') →
      Swappable w r targetSectionId row := by
    rintro ⟨row', h⟩
    obtain rfl : row = row' := Option.some.inj (hrow.symm.trans h.target)
    exact h
  refine registrationGate_decides.bind (fun hno e v' h => hno (honly h).registration)
    fun hopen => ?_
  refine Prog.yields_bind_ok (solo_lockBoth _ _) (yields_query ?_)
  rw [found_of_mem hv hr]
  have hreread : (some (w.db.joinEnrollment r)).filter (fun e => e.row.active)
      = some (w.db.joinEnrollment r) := by
    simp [Option.filter, Db.joinEnrollment, ha]
  rw [hreread]
  refine Prog.yields_bind_ok (Prog.solo_pure _) (yields_query ?_)
  have hlocked : (Query.sectionFindUnique targetSectionId).eval w
      = some (w.db.joinSection row) := htarget
  rw [hlocked]
  refine Prog.yields_bind (Prog.yields_orThrow (fun hnone h => ?_) fun live hlive => ?_)
  · have hseat := (honly h).seat
    simp [Option.filter, Db.joinSection, hseat] at hnone
  obtain ⟨hjoin, hseat⟩ := Option.filter_eq_some_iff.mp hlive
  obtain rfl := Option.some.inj hjoin
  have seat : row.enrolledCount < row.capacity := of_decide_eq_true hseat
  refine swapEligibility_decides.bind (fun hno e v' h => hno ⟨fun hne => ?_, (honly h).schedule⟩)
    fun hchecks => ?_
  · exact ⟨(honly h).duplicate hne, (honly h).prerequisites hne⟩
  obtain ⟨out, v', hout, hQ⟩ := swapExecute_yields hv hr ha hx hother hrow seat
    hopen.hasUser hfree actor
  refine Prog.yields_of_solo hout ?_
  cases out with
  | ok f =>
    refine ⟨⟨row, hrow, hopen, seat, ?_, ?_, hchecks.2, hQ.1⟩, hQ.2⟩
    · exact fun hne => (hchecks.1 hne).1
    · exact fun hne => (hchecks.1 hne).2
  | error e => exact fun h => hQ (honly h).counted

/-- **What `swap` does with an active row of the caller, for another section.** -/
theorem swap_yields (hv : w.Valid) (hr : r ∈ w.db.enrollments) (ha : r.active = true)
    (hx : w.db.hasEnrollment x = false) {targetSectionId : SectionId}
    (hother : targetSectionId ≠ r.sectionId)
    (hfree : NoActiveRow w.db r.studentId targetSectionId) (actor : RequestActor) :
    (swap r.id ⟨targetSectionId⟩ r.studentId actor).Yields x
      (Prog.Granted (∃ row, Swappable w r targetSectionId row)
        (SwapEndsIn w r x targetSectionId)) w := by
  refine yields_query ?_
  rw [found_of_mem hv hr]
  refine Prog.yields_bind_ok (Prog.solo_pure _) (yields_of_active ha ?_)
  refine Prog.yields_ite (fun hsame => absurd hsame.symm hother) fun _ => ?_
  exact swapInto_yields hv hr ha hx hother hfree actor

end Enroll
