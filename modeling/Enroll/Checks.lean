/-
# What the checks establish

Specifications of the checks that `enroll` and `swap` share.  A check reads the database at one
moment, and the transaction goes on for a while; so what it establishes is stated of an EARLIER
context (`Earlier`), and it is for the properties that need it to say why it still holds at the
commit.  What is read under a row lock does hold at the commit (`Locked.later`).
-/
import Enroll.Locking

namespace Enroll

open Txn (Ctx Prog Forward wp wp_bind)

variable {X : Extra} {op : Op} {c c' c'' : Ctx postgres}

/-! ## 1. Moments of a transaction -/

/-- The transaction owns the row lock of section `s`, whose row is `sec`. -/
structure Locked (c : Ctx postgres) (s : SectionId) (sec : Section) : Prop where
  held : c.held (.sectionRow s)
  row : c.world.db.section? s = some sec

theorem Locked.later {s : SectionId} {sec : Section} (h : Locked c s sec) (hl : Later X op c c') :
    Locked c' s sec :=
  ⟨hl.held _ h.held, (Later.section? hl h.held).trans h.row⟩

theorem Locked.seats {s : SectionId} {sec : Section} (h : Locked c s sec) (hv : c.world.Valid) :
    0 ≤ sec.enrolledCount ∧ sec.enrolledCount ≤ sec.capacity :=
  hv.db.seats sec (section?_mem h.row).1

/-- `P` was true at some moment of the transaction. -/
def Earlier (X : Extra) (op : Op) (P : Ctx postgres → Prop) (c : Ctx postgres) : Prop :=
  ∃ c₁, Later X op c₁ c ∧ P c₁

theorem Earlier.later {P : Ctx postgres → Prop} (h : Earlier X op P c) (hl : Later X op c c') :
    Earlier X op P c' := by
  obtain ⟨c₁, h₁, hP⟩ := h
  exact ⟨c₁, h₁.trans hl, hP⟩

theorem Later.refl (hv : c.world.Valid) (hi : X.inv c.world) : Later X op c c :=
  Forward.of_rely (w := c.world) (Others.refl hv hi)

/-- Now is a moment too, once a statement has been run. -/
theorem Earlier.now {P : Ctx postgres → Prop} (hl : Later X op c c') (h : P c') :
    Earlier X op P c' := ⟨c', Later.refl hl.rely.valid hl.rely.inv, h⟩

theorem view_of_log_nil (h : c.log = []) : c.view = c.world := by
  unfold Ctx.view
  rw [h]
  rfl

theorem seen_of_log_nil (h : c.log = []) : seen c c' = c'.world := by
  unfold seen
  rw [h]
  rfl

theorem Quiet.log_nil (h : Quiet X op c c') (hl : c.log = []) : c'.log = [] := h.log.trans hl

/-! ## 2. Registration -/

section Gates

variable {Q : Except Failure Unit → Ctx postgres → Prop}

theorem wp_openGate {sec : SectionJoin} {userId : UserId} {now : Time}
    {standing : Option ClassStanding} {window : Option RegistrationWindow}
    (hok : ∀ c', Quiet X op c c' → Q (.ok ()) c')
    (herr : ∀ c' e, Q (.error (.http e)) c') :
    wp (Others X op) DrawsOnly (openGate sec userId now standing window) Q c := by
  refine wp_bind (Txn.wp_throwIf (fun _ => herr _ _) fun _ => ?_)
  refine wp_bind (wp_query fun c₁ h₁ _ => ?_)
  cases (Query.advisorHoldFindFirst userId).eval c₁.view with
  | none => exact hok _ h₁
  | some hold => exact herr _ _

theorem wp_registrationGate {sec : SectionJoin} {userId : UserId} {closed : String}
    (hok : ∀ c', Quiet X op c c' → Q (.ok ()) c')
    (herr : ∀ c' e, Q (.error (.http e)) c') :
    wp (Others X op) DrawsOnly (registrationGate sec userId closed) Q c := by
  refine wp_bind (wp_query fun c₁ h₁ _ => ?_)
  refine wp_bind (Txn.wp_throwIf (fun _ => herr _ _) fun _ => ?_)
  refine wp_bind (wp_query fun c₂ h₂ _ => ?_)
  refine wp_bind (Txn.wp_orThrow (fun _ => herr _ _) fun student _ => ?_)
  refine wp_bind ?_
  cases student.classStanding with
  | none => exact wp_openGate (fun c' h => hok c' ((h₁.trans h₂).trans h)) herr
  | some standing =>
    refine wp_query fun c₃ h₃ _ => ?_
    exact wp_openGate (fun c' h => hok c' (((h₁.trans h₂).trans h₃).trans h)) herr

end Gates

/-! ## 3. Prerequisites -/

/-- The student has completed the course. -/
def Completed (db : Db) (userId : UserId) (courseId : CourseId) : Prop :=
  ∃ r ∈ db.enrollments, r.studentId = userId ∧ r.status = .COMPLETED ∧
    db.courseOf r.sectionId = courseId

/-- What is completed stays completed. -/
theorem Completed.grows {w w' : World} (h : Grows w w') {u : UserId} {course : CourseId}
    (hc : Completed w.db u course) : Completed w'.db u course := by
  obtain ⟨r, hr, hu, hst, hcourse⟩ := hc
  obtain ⟨r', hr', -, -, -, hsame⟩ := h.rows r hr
  have he : r' = r := hsame (by simp [Enrollment.active, hst, EnrollmentStatus.active])
  subst he
  exact ⟨r', hr', hu, hst, (h.courseOf _).trans hcourse⟩

/-- Every prerequisite that the course had at the check is completed by now. -/
def PrerequisitesChecked (X : Extra) (op : Op) (courseId : CourseId) (userId : UserId)
    (c : Ctx postgres) : Prop :=
  Earlier X op (fun c₁ => ∀ p ∈ c₁.world.db.ref.coursePrerequisites, p.courseId = courseId →
    Completed c.world.db userId p.prerequisiteId) c

theorem PrerequisitesChecked.later {courseId : CourseId} {userId : UserId}
    (h : PrerequisitesChecked X op courseId userId c) (hl : Later X op c c') :
    PrerequisitesChecked X op courseId userId c' := by
  obtain ⟨c₁, h₁, hp⟩ := h
  exact ⟨c₁, h₁.trans hl, fun p hp' hc => (hp p hp' hc).grows hl.rely.grows⟩

section Gates

variable {Q : Except Failure Unit → Ctx postgres → Prop}

theorem wp_prerequisiteGate {courseId : CourseId} {userId : UserId} {message : String}
    (hlog : c.log = [])
    (hok : ∀ c', Quiet X op c c' → PrerequisitesChecked X op courseId userId c' → Q (.ok ()) c')
    (herr : ∀ c' e, Q (.error (.http e)) c') :
    wp (Others X op) DrawsOnly (prerequisiteGate courseId userId message) Q c := by
  refine wp_bind (wp_query fun c₁ h₁ _ => ?_)
  have hv₁ : c₁.view = c₁.world := view_of_log_nil (h₁.log_nil hlog)
  rw [hv₁]
  -- a prerequisite of the course is in the list the first query returns
  have hlisted : ∀ p ∈ c₁.world.db.ref.coursePrerequisites, p.courseId = courseId →
      p.prerequisiteId ∈ (Query.coursePrerequisiteFindMany courseId).eval c₁.world := by
    intro p hp hc
    exact List.mem_map_of_mem (List.mem_filter.mpr ⟨hp, by simpa using hc⟩)
  generalize (Query.coursePrerequisiteFindMany courseId).eval c₁.world = prereqs at hlisted ⊢
  show wp _ _ (if prereqs.length > 0 then _ else _) Q c₁
  split
  · refine wp_bind (wp_query fun c₂ h₂ _ => ?_)
    have hv₂ : c₂.view = c₂.world := view_of_log_nil (h₂.log_nil (h₁.log_nil hlog))
    rw [hv₂]
    refine Txn.wp_throwIf (fun _ => herr _ _) fun hmissing => ?_
    refine hok c₂ (h₁.trans h₂) ⟨c₁, h₂.later, fun p hp hc => ?_⟩
    have hin : p.prerequisiteId ∈ ((Query.enrollmentFindMany
        { studentId := some userId, status := some [.COMPLETED] }).eval c₂.world).map
          (fun r => r.sec.courseId) := by
      by_contra hno
      refine hmissing (List.length_pos_of_mem (List.mem_filter.mpr ⟨hlisted p hp hc, ?_⟩))
      simpa [List.contains_iff_mem] using hno
    obtain ⟨e, he, hcourse⟩ := List.mem_map.mp hin
    obtain ⟨r, hr, rfl⟩ := List.mem_map.mp he
    obtain ⟨hmem, hmatch⟩ := List.mem_filter.mp hr
    simp only [EnrollmentWhere.matches, Option.all_some, Option.all_none, Bool.and_true,
      Bool.and_eq_true, beq_iff_eq, List.contains_eq_mem, List.mem_singleton,
      decide_eq_true_eq] at hmatch
    exact ⟨r, hmem, hmatch.1.symm, hmatch.2, hcourse⟩
  · rename_i hnone
    refine hok c₁ h₁ (Earlier.now h₁.later fun p hp hc => ?_)
    exact absurd (List.length_pos_of_mem (hlisted p hp hc)) hnone

/-! ## 4. Time and credits -/

theorem wp_timeConflictGate {pattern : String} {existing : List EnrollmentJoin}
    (hok : (∀ e ∈ existing, hasTimeConflict pattern e.sec.meetingPattern = false) → Q (.ok ()) c)
    (herr : ∀ c' e, Q (.error (.http e)) c') :
    wp (Others X op) DrawsOnly (timeConflictGate pattern existing) Q c := by
  unfold timeConflictGate
  split
  · exact herr _ _
  · rename_i hnone
    refine hok fun e he => ?_
    simpa using List.find?_eq_none.mp hnone e he

/-- The cap on the credits of a student in the term of `sec`. -/
def creditCap (ref : Reference) (sec : SectionJoin) (userId : UserId) : Int :=
  ((ref.overloadApprovals.find? (fun o => o.studentId == userId && o.termId == sec.sec.termId)).map
    OverloadApproval.maxCredits).getD sec.term.maxCredits

theorem wp_creditGate {sec : SectionJoin} {userId : UserId} {existing : List EnrollmentJoin}
    (hlog : c.log = [])
    (hok : ∀ c', Quiet X op c c' →
      creditSum existing + sec.course.credits ≤ creditCap c'.world.db.ref sec userId →
      Q (.ok ()) c')
    (herr : ∀ c' e, Q (.error (.http e)) c') :
    wp (Others X op) DrawsOnly (creditGate sec userId existing) Q c := by
  refine wp_bind (wp_query fun c₁ h₁ _ => ?_)
  have hv₁ : c₁.view = c₁.world := view_of_log_nil (h₁.log_nil hlog)
  rw [hv₁]
  refine Txn.wp_throwIf (fun _ => herr _ _) fun hle => hok c₁ h₁ ?_
  exact Int.not_lt.mp hle

end Gates

/-- The active rows of a student in a term that `keep` keeps. -/
def Db.activeRows (db : Db) (userId : UserId) (termId : TermId) (keep : Enrollment → Bool) :
    List Enrollment :=
  db.enrollments.filter fun r =>
    r.studentId == userId && r.active && db.termOf r.sectionId == termId && keep r

/-- The credits of some rows. -/
def Db.creditsOf (db : Db) (rows : List Enrollment) : Int :=
  rows.foldr (fun r n => (db.ref.course (db.courseOf r.sectionId)).credits + n) 0

theorem creditSum_rows (db : Db) (rows : List Enrollment) :
    creditSum (rows.map db.joinEnrollment) = db.creditsOf rows := by
  unfold creditSum
  have acc : ∀ (l : List Enrollment) (n : Int),
      (l.map db.joinEnrollment).foldl (fun sum e => sum + e.course.credits) n
        = n + db.creditsOf l := by
    intro l
    induction l with
    | nil => exact fun n => (Int.add_zero n).symm
    | cons r l ih =>
      intro n
      rw [List.map_cons, List.foldl_cons, ih, Int.add_assoc]
      rfl
  rw [acc, Int.zero_add]

/-- The student's rows that `keep` keeps leave room for `sec`: no meeting of `sec` overlaps one of
theirs, and the credits stay within the cap (which is read a little later). -/
def ScheduleChecked (X : Extra) (op : Op) (sec : SectionJoin) (userId : UserId)
    (keep : Enrollment → Bool) (c : Ctx postgres) : Prop :=
  Earlier X op (fun c₁ =>
    (∀ r ∈ c₁.world.db.activeRows userId sec.sec.termId keep,
      hasTimeConflict sec.sec.meetingPattern
        (c₁.world.db.sectionOf r.sectionId).meetingPattern = false) ∧
    ∃ c₂, Later X op c₁ c₂ ∧ Later X op c₂ c ∧
      c₁.world.db.creditsOf (c₁.world.db.activeRows userId sec.sec.termId keep)
        + sec.course.credits ≤ creditCap c₂.world.db.ref sec userId) c

theorem ScheduleChecked.later {sec : SectionJoin} {userId : UserId} {keep : Enrollment → Bool}
    (h : ScheduleChecked X op sec userId keep c) (hl : Later X op c c') :
    ScheduleChecked X op sec userId keep c' := by
  obtain ⟨c₁, h₁, htime, c₂, h₁₂, h₂, hcredits⟩ := h
  exact ⟨c₁, h₁.trans hl, htime, c₂, h₁₂, h₂.trans hl, hcredits⟩

/-- The student's rows are read at `c`, and the checks run on them. -/
theorem wp_scheduleGate {sec : SectionJoin} {userId : UserId} {keep : Enrollment → Bool}
    {existing : List EnrollmentJoin} {Q : Except Failure Unit → Ctx postgres → Prop}
    (hlog : c.log = [])
    (hrows : existing = (c.world.db.activeRows userId sec.sec.termId keep).map
      c.world.db.joinEnrollment)
    (hok : ∀ c', Quiet X op c c' → ScheduleChecked X op sec userId keep c' → Q (.ok ()) c')
    (herr : ∀ c' e, Q (.error (.http e)) c') :
    wp (Others X op) DrawsOnly (scheduleGate sec userId existing) Q c := by
  subst hrows
  refine wp_bind (wp_timeConflictGate (fun htime => ?_) herr)
  refine wp_creditGate hlog (fun c₁ h₁ hcredits => ?_) herr
  rw [List.forall_mem_map] at htime
  rw [creditSum_rows] at hcredits
  exact hok c₁ h₁ ⟨c, h₁.later, htime, c₁, h₁.later,
    Later.refl h₁.later.rely.valid h₁.later.rely.inv, hcredits⟩

/-- What the first read of a section returned, at that moment. -/
def SectionRead (X : Extra) (op : Op) (s : SectionId) (sec : SectionJoin) (c : Ctx postgres) :
    Prop :=
  Earlier X op (fun c₁ =>
    ∃ row, c₁.world.db.section? s = some row ∧ sec = c₁.world.db.joinSection row) c

/-- What was read of a section stands, up to its counter and limits. -/
theorem SectionRead.fixed {s : SectionId} {sec : SectionJoin} (h : SectionRead X op s sec c) :
    (c.world.db.sectionOf s).fixed = sec.sec.fixed := by
  obtain ⟨c₁, hl, row, hrow, rfl⟩ := h
  rw [hl.rely.grows.sectionOf_fixed, Db.sectionOf, hrow]
  rfl

theorem SectionRead.termOf {s : SectionId} {sec : SectionJoin} (h : SectionRead X op s sec c) :
    c.world.db.termOf s = sec.sec.termId := fixed_termId h.fixed

theorem SectionRead.courseOf {s : SectionId} {sec : SectionJoin} (h : SectionRead X op s sec c) :
    c.world.db.courseOf s = sec.sec.courseId := fixed_courseId h.fixed

end Enroll
