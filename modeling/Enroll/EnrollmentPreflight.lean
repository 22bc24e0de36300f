/-
# The enrollment preflight

`EnrollmentPreflight`, the dialog of the catalog page that goes through the rules of `enroll` before
it offers an enrollment, and the inputs that `CatalogPage` gives it.

The dialog applies four rules as `enroll` does: holds, prerequisites, times and seats
(`offers_iff`).  The fifth it applies to other numbers.  `enroll` adds the credits of the ENROLLED and
WAITLISTED rows in the section's term and compares with the student's cap; the dialog adds those of
the ENROLLED rows in the term of the profile, and compares with 18.  So an offer is kept exactly when
that makes no difference (`preflight_sound_iff`), and a place in a queue is enough for a difference
(`Campus.offered_over_cap`).
-/
import Enroll.CatalogPages
import Enroll.StudentPages
import Enroll.Timetable
import Mathlib.Data.Fintype.EquivFin

namespace Enroll

open Txn (Prog)

/-! ## 1. The dialog -/

/-- `parseMeetingPattern` of the web app. -/
def Web.parseMeetingPattern (pattern : String) : List TimeSlot :=
  if pattern = "" then [] else Enroll.parseMeetingPattern pattern

/-- `hasTimeConflict` of the web app. -/
def Web.hasTimeConflict (patternA patternB : String) : Bool :=
  (Web.parseMeetingPattern patternA).any fun a =>
    (Web.parseMeetingPattern patternB).any fun b => slotsOverlap a b

theorem Web.parseMeetingPattern_eq (pattern : String) :
    Web.parseMeetingPattern pattern = Enroll.parseMeetingPattern pattern := by
  unfold Web.parseMeetingPattern
  split
  · rename_i h
    subst h
    rfl
  · rfl

theorem Web.hasTimeConflict_eq (patternA patternB : String) :
    Web.hasTimeConflict patternA patternB = Enroll.hasTimeConflict patternA patternB := by
  unfold Web.hasTimeConflict Enroll.hasTimeConflict
  rw [Web.parseMeetingPattern_eq, Web.parseMeetingPattern_eq]

structure PreflightProps where
  course : CourseListItem
  sec : SectionDto
  enrolledCredits : Int
  enrollments : List MyEnrollment
  holds : List StudentProfileHold
  detail : CourseDetailDto

namespace PreflightProps

variable (p : PreflightProps)

def activeSchedules : List String :=
  (p.enrollments.filter fun e => e.status == .ENROLLED || e.status == .WAITLISTED).map
    fun e => e.sec.meetingPattern

def completedCodes : List String :=
  (p.enrollments.filter fun e => e.status == .COMPLETED).map fun e => e.course.code

def isTimeConflict : Bool :=
  p.activeSchedules.any fun active => Web.hasTimeConflict p.sec.meetingPattern active

def isPrereqMissing : Bool :=
  decide (p.detail.prerequisites.length > 0) &&
    !p.detail.prerequisites.all fun q => p.completedCodes.contains q.code

def creditsAfter : Int := p.enrolledCredits + p.course.credits

def creditCapRisk : Bool := p.creditsAfter > 18

def isFull : Bool := p.sec.capacity - p.sec.enrolledCount ≤ 0

def hasHold : Bool := p.holds.length > 0

def waitlistFull : Bool := p.sec.waitlistCap.any fun cap => (p.sec.waitlistCount : Int) ≥ cap

def canEnroll : Bool :=
  !p.isTimeConflict && !p.isPrereqMissing && !p.creditCapRisk && !p.isFull && !p.hasHold

def canWaitlist : Bool :=
  !p.isTimeConflict && !p.isPrereqMissing && !p.creditCapRisk && p.isFull && !p.waitlistFull &&
    !p.hasHold

end PreflightProps

/-- What the dialog shows; an item is the texts of its spans. -/
structure PreflightDialog where
  heading : String
  subheading : String
  items : List (List String)
  button : Option String
  deriving DecidableEq, Repr

/-- One rule of the list: a tick and a text when it is met. -/
def ruleItem (broken : Bool) (brokenText metText : String) : List String :=
  if broken then [brokenText] else ["✓", metText]

/-- `EnrollmentPreflight`. -/
def enrollmentPreflight (p : PreflightProps) (submitting : Bool) : PreflightDialog where
  heading := if p.canEnroll then "Enrollment preflight" else "Cannot enroll"
  subheading := s!"{p.course.code} · Section {p.sec.sectionNumber}"
  items :=
    [["✓", "Registration window open"],
     ruleItem p.hasHold "✕ Advisor hold on record" "No advisor hold",
     ruleItem p.isPrereqMissing "✕ Prerequisites missing" "Prerequisites satisfied",
     ruleItem p.isTimeConflict "✕ Time conflict with existing schedule" "No time conflict",
     ruleItem p.creditCapRisk s!"✕ Exceeds credit cap: {p.creditsAfter} / 18"
       s!"Credit cap OK: {p.creditsAfter} / 18",
     if p.isFull then
       if p.waitlistFull then ["✕ Section and waitlist are full"]
       else ["! Section is full, waitlist available"]
     else ["✓", "Seat available"]]
  button :=
    if p.canEnroll || p.canWaitlist then
      some (if submitting then "Processing..."
        else if p.canEnroll then "Confirm enrollment" else "Join waitlist")
    else none

/-- The dialog has a button to enroll or to join the waitlist with. -/
def PreflightProps.Offers (p : PreflightProps) : Prop :=
  (enrollmentPreflight p false).button = some "Confirm enrollment" ∨
    (enrollmentPreflight p false).button = some "Join waitlist"

theorem offers_iff_can (p : PreflightProps) :
    p.Offers ↔ p.canEnroll = true ∨ p.canWaitlist = true := by
  unfold PreflightProps.Offers enrollmentPreflight
  cases p.canEnroll <;> cases p.canWaitlist <;> simp

/-- It has one when no rule of the list is broken; a full section may have a waitlist. -/
theorem offers_iff_rules (p : PreflightProps) :
    p.Offers ↔ p.hasHold = false ∧ p.isPrereqMissing = false ∧ p.isTimeConflict = false ∧
      (p.isFull = false ∨ p.waitlistFull = false) ∧ p.creditCapRisk = false := by
  rw [offers_iff_can]
  unfold PreflightProps.canEnroll PreflightProps.canWaitlist
  cases p.isFull <;> simp <;> tauto

/-! ## 2. The page -/

section

variable (o : Sorter) (w : World) (records : Records w.db)

/-- What the page gives the dialog: `profile?.currentTerm?.enrolledCredits ?? 0`,
`profile?.holds ?? []`, and the first page of the student's enrollments. -/
def catalogPreflight (userId : UserId) (course : CourseListItem) (detail : CourseDetailDto)
    (sec : SectionDto) : PreflightProps :=
  -- `.catch(() => null)`
  let profile := (profile o w records userId).toOption
  { course := course
    sec := sec
    enrolledCredits := ((profile.bind StudentProfile.currentTerm).map
      StudentProfileTerm.enrolledCredits).getD 0
    enrollments := listMine o w records userId defaultQuery
    holds := (profile.map StudentProfile.holds).getD []
    detail := detail }

/-- The credits that the page counts: of the ENROLLED rows in the term of the profile. -/
def shownCredits (userId : UserId) : Int :=
  ((profileTerm o w records).map fun t => creditSum (statusInTerm w userId t.id .ENROLLED)).getD 0

end

/-! ## 3. What the dialog decides -/

/-- The rules that the dialog and `enroll` share. -/
structure SharedRulesMet (w : World) (row : Section) (userId : UserId) : Prop where
  unheld : Unheld w.db.ref userId
  prerequisites : PrerequisitesMet w.db row.courseId userId
  time : ∀ r ∈ w.db.enrollments, r.studentId = userId → r.active = true →
    hasTimeConflict row.meetingPattern (w.db.sectionOf r.sectionId).meetingPattern = false
  room : row.enrolledCount < row.capacity ∨ WaitlistRoom w.db row row.id

variable {x : Nat} {o : Sorter} {w : World} {records : Records w.db} {userId : UserId}
  {course : CourseListItem} {detail : CourseDetailDto} {s : SectionDto} {row : Section}
  {id : CourseId} {viewer : Option CourseViewer} {termId : Option TermId}

/-- The page of a user. -/
theorem catalogPreflight_eq (huser : w.db.hasUser userId = true) :
    catalogPreflight o w records userId course detail s =
      { course := course
        sec := s
        enrolledCredits := shownCredits o w records userId
        enrollments := listMine o w records userId defaultQuery
        holds := (activeHolds o w records userId).map (profileHold w records)
        detail := detail } := by
  obtain ⟨user, hmem, hid⟩ := List.any_eq_true.mp huser
  have hfound : ((Query.userFindUnique userId).eval w).isSome = true :=
    List.find?_isSome.mpr ⟨user, hmem, hid⟩
  obtain ⟨student, hstudent⟩ := Option.isSome_iff_exists.mp hfound
  unfold catalogPreflight profile shownCredits
  rw [hstudent]
  simp only [Except.toOption, Option.bind_some, Option.map_some, Option.getD_some, Option.map_map]
  rfl

theorem enrolled_or_waitlisted (r : Enrollment) :
    (r.status == .ENROLLED || r.status == .WAITLISTED) = r.active := by
  unfold Enrollment.active
  cases r.status <;> rfl

/-- The patterns that the dialog compares with are those of the student's active rows. -/
theorem mem_activeSchedules (hrows : (w.db.rowsOfStudent userId).length ≤ 100) {pattern : String} :
    pattern ∈ (catalogPreflight o w records userId course detail s).activeSchedules ↔
      ∃ r ∈ w.db.enrollments, r.studentId = userId ∧ r.active = true ∧
        (w.db.sectionOf r.sectionId).meetingPattern = pattern := by
  obtain ⟨rows, ranks, hlist, hmem⟩ := listMine_eq o records hrows
  have henrollments : (catalogPreflight o w records userId course detail s).enrollments
      = rows.map (myEnrollment w records ranks) := hlist
  unfold PreflightProps.activeSchedules
  rw [henrollments, List.mem_map]
  constructor
  · rintro ⟨e, he, rfl⟩
    obtain ⟨he, hactive⟩ := List.mem_filter.mp he
    obtain ⟨r, hr, rfl⟩ := List.mem_map.mp he
    obtain ⟨hr, hu⟩ := (hmem r).mp hr
    exact ⟨r, hr, hu, (enrolled_or_waitlisted r).symm.trans hactive, rfl⟩
  · rintro ⟨r, hr, hu, ha, rfl⟩
    refine ⟨_, List.mem_filter.mpr ⟨List.mem_map.mpr ⟨r, (hmem r).mpr ⟨hr, hu⟩, rfl⟩, ?_⟩, rfl⟩
    exact (enrolled_or_waitlisted r).trans ha

theorem not_isTimeConflict (hrows : (w.db.rowsOfStudent userId).length ≤ 100)
    (hrow : ShownSection w.db id s row) :
    (catalogPreflight o w records userId course detail s).isTimeConflict = false ↔
      ∀ r ∈ w.db.enrollments, r.studentId = userId → r.active = true →
        hasTimeConflict row.meetingPattern (w.db.sectionOf r.sectionId).meetingPattern = false := by
  have hpattern : (catalogPreflight o w records userId course detail s).sec.meetingPattern
      = row.meetingPattern := hrow.meetingPattern
  unfold PreflightProps.isTimeConflict
  simp only [List.any_eq_false, mem_activeSchedules hrows, hpattern, Web.hasTimeConflict_eq,
    Bool.not_eq_true]
  constructor
  · exact fun h r hr hu ha => h _ ⟨r, hr, hu, ha, rfl⟩
  · rintro h pattern ⟨r, hr, hu, ha, rfl⟩
    exact h r hr hu ha

/-- The codes that the dialog takes for completed are those of the completed courses. -/
theorem mem_completedCodes (hrows : (w.db.rowsOfStudent userId).length ≤ 100) {code : String} :
    code ∈ (catalogPreflight o w records userId course detail s).completedCodes ↔
      ∃ c, Completed w.db userId c ∧ (w.db.ref.course c).code = code := by
  obtain ⟨rows, ranks, hlist, hmem⟩ := listMine_eq o records hrows
  have henrollments : (catalogPreflight o w records userId course detail s).enrollments
      = rows.map (myEnrollment w records ranks) := hlist
  unfold PreflightProps.completedCodes
  rw [henrollments, List.mem_map]
  constructor
  · rintro ⟨e, he, rfl⟩
    obtain ⟨he, hcompleted⟩ := List.mem_filter.mp he
    obtain ⟨r, hr, rfl⟩ := List.mem_map.mp he
    obtain ⟨hr, hu⟩ := (hmem r).mp hr
    exact ⟨_, ⟨r, hr, hu, eq_of_beq hcompleted, rfl⟩, rfl⟩
  · rintro ⟨c, ⟨r, hr, hu, hst, rfl⟩, rfl⟩
    refine ⟨_, List.mem_filter.mpr ⟨List.mem_map.mpr ⟨r, (hmem r).mpr ⟨hr, hu⟩, rfl⟩, ?_⟩, rfl⟩
    exact beq_iff_eq.mpr hst

/-- A completed course is in the table. -/
theorem Completed.mem_course (hv : w.Valid) (records : Records w.db) {c : CourseId}
    (h : Completed w.db userId c) : c ∈ records.course.map CourseDetails.id := by
  obtain ⟨r, hr, -, -, rfl⟩ := h
  obtain ⟨sec, hsec⟩ := Option.ne_none_iff_exists'.mp (hv.db.section_fkey r hr)
  have hcourse : w.db.courseOf r.sectionId = sec.courseId := by
    unfold Db.courseOf Db.sectionOf
    rw [hsec]
    rfl
  exact hcourse ▸ records.section_fkey sec (section?_mem hsec).1

theorem not_isPrereqMissing (hv : w.Valid) (hrows : (w.db.rowsOfStudent userId).length ≤ 100)
    (hdetail : getCourse o w records id viewer termId = .ok detail) :
    (catalogPreflight o w records userId course detail s).isPrereqMissing = false ↔
      PrerequisitesMet w.db id userId := by
  have hprerequisites : (catalogPreflight o w records userId course detail s).detail.prerequisites
      = ((Query.coursePrerequisiteFindMany id).eval w).map (prerequisiteRef w records) :=
    shownPrerequisites hdetail
  have hall : (catalogPreflight o w records userId course detail s).isPrereqMissing = false ↔
      ∀ q ∈ (catalogPreflight o w records userId course detail s).detail.prerequisites,
        q.code ∈ (catalogPreflight o w records userId course detail s).completedCodes := by
    unfold PreflightProps.isPrereqMissing
    simp only [Bool.and_eq_false_iff, decide_eq_false_iff_not, Bool.not_eq_false', List.all_eq_true,
      List.contains_iff_mem]
    constructor
    · rintro (hnone | hall) q hq
      · exact absurd (List.length_pos_of_mem hq) hnone
      · exact hall q hq
    · exact Or.inr
  rw [hall, hprerequisites, List.forall_mem_map]
  simp only [Query.eval, List.forall_mem_map, List.mem_filter, beq_iff_eq, and_imp,
    mem_completedCodes hrows]
  refine forall_congr' fun q => forall_congr' fun hq => imp_congr_right fun _ => ?_
  constructor
  · rintro ⟨c, hc, hcode⟩
    exact records.code_inj (hc.mem_course hv records) (records.prerequisite_fkey q hq) hcode ▸ hc
  · exact fun hc => ⟨_, hc, rfl⟩

theorem not_hasHold (huser : w.db.hasUser userId = true) :
    (catalogPreflight o w records userId course detail s).hasHold = false ↔
      Unheld w.db.ref userId := by
  rw [catalogPreflight_eq huser, ← @activeHolds_eq_nil o w records userId]
  unfold PreflightProps.hasHold
  simp [List.length_pos_iff]

theorem room_iff (hrow : ShownSection w.db id s row) :
    (catalogPreflight o w records userId course detail s).isFull = false ∨
        (catalogPreflight o w records userId course detail s).waitlistFull = false ↔
      row.enrolledCount < row.capacity ∨ WaitlistRoom w.db row row.id := by
  refine or_congr ?_ ?_
  · unfold PreflightProps.isFull catalogPreflight
    rw [hrow.capacity, hrow.enrolledCount, decide_eq_false_iff_not]
    omega
  · unfold PreflightProps.waitlistFull catalogPreflight WaitlistRoom
    rw [hrow.waitlistCap, hrow.waitlistCount]
    cases row.waitlistCap <;> simp

/-- **When the dialog offers an enrollment.** -/
theorem offers_iff (hv : w.Valid) (huser : w.db.hasUser userId = true)
    (hrows : (w.db.rowsOfStudent userId).length ≤ 100)
    (hdetail : getCourse o w records id viewer termId = .ok detail)
    (hrow : ShownSection w.db id s row) :
    (catalogPreflight o w records userId course detail s).Offers ↔
      SharedRulesMet w row userId ∧ shownCredits o w records userId + course.credits ≤ 18 := by
  have hcredits : (catalogPreflight o w records userId course detail s).creditCapRisk = false ↔
      shownCredits o w records userId + course.credits ≤ 18 := by
    rw [catalogPreflight_eq huser]
    unfold PreflightProps.creditCapRisk PreflightProps.creditsAfter
    simp
  rw [offers_iff_rules, not_hasHold huser, not_isPrereqMissing hv hrows hdetail,
    not_isTimeConflict hrows hrow, room_iff hrow, hcredits]
  constructor
  · rintro ⟨hheld, hprerequisites, htime, hroom, hle⟩
    exact ⟨⟨hheld, hrow.courseId ▸ hprerequisites, htime, hroom⟩, hle⟩
  · rintro ⟨h, hle⟩
    exact ⟨h.unheld, hrow.courseId ▸ h.prerequisites, h.time, h.room, hle⟩

/-! ## 4. What enroll refuses -/

def Failure.code : Failure → Option FailureCode
  | .http e => e.code
  | .db _ => none

/-- The codes of the rules that the dialog lists. -/
def preflightCodes : List FailureCode :=
  [.ADVISOR_HOLD, .PREREQUISITE_NOT_MET, .TIME_CONFLICT, .CREDIT_LIMIT_EXCEEDED, .SECTION_FULL]

/-- A request was refused over a rule that the dialog lists. -/
def RefusedOverRule {α : Type} : Except Failure α → Prop
  | .ok _ => False
  | .error e => ∃ code ∈ preflightCodes, e.code = some code

theorem not_refusedOverRule {α : Type} {status : HttpStatus} {code : FailureCode} {message : String}
    (h : code ∉ preflightCodes) :
    ¬RefusedOverRule (.error (.http ⟨status, some code, message⟩) : Except Failure α) := by
  rintro ⟨code', hmem, heq⟩
  obtain rfl : code = code' := Option.some.inj heq
  exact h hmem

theorem not_refused_registrationGate {v : World} {sec : SectionJoin} {closed : String}
    (hheld : Unheld v.db.ref userId) :
    (registrationGate sec userId closed).Yields x (fun out _ => ¬RefusedOverRule out) v := by
  refine yields_query (Prog.yields_bind (Prog.yields_throwIf
    (fun _ => not_refusedOverRule (by decide)) fun _ => ?_))
  refine yields_query (Prog.yields_bind (Prog.yields_orThrow
    (fun _ => not_refusedOverRule (by decide)) fun student _ => ?_))
  have hgate (standing : Option ClassStanding) (window : Option RegistrationWindow) :
      (openGate sec userId v.now standing window).Yields x
        (fun out _ => ¬RefusedOverRule out) v := by
    refine Prog.yields_bind (Prog.yields_throwIf (fun _ => not_refusedOverRule (by decide))
      fun _ => yields_query ?_)
    have hnone : (Query.advisorHoldFindFirst userId).eval v = none := hheld
    rw [hnone]
    exact Prog.yields_pure id
  refine Prog.yields_bind ?_
  cases student.classStanding with
  | none => exact Prog.yields_pure (hgate none none)
  | some standing => exact Prog.yields_of_solo (solo_query _) (hgate (some standing) _)

/-- The credits of the student's rows in the section's term and of the section exceed the cap. -/
def OverCap (db : Db) (row : Section) (userId : UserId) : Prop :=
  creditCap db.ref (db.joinSection row) userId <
    db.creditsOf (db.activeRows userId row.termId (fun r => r.sectionId != row.id)) +
      (db.ref.course row.courseId).credits

instance (db : Db) (row : Section) (userId : UserId) : Decidable (OverCap db row userId) :=
  inferInstanceAs (Decidable (_ < _))

/-- With the shared rules met, the checks of `enroll` stop at a duplicate or at the credits. -/
theorem enrollEligibility_refuses {v : World} (h : SharedRulesMet v row userId) :
    (enrollEligibility (v.db.joinSection row) ⟨row.id⟩ userId).Yields x
      (fun out v' => match out with
        | .ok _ => v' = v ∧ ¬OverCap v.db row userId
        | .error e => RefusedOverRule (.error e : Except Failure Unit) ↔
          NoDuplicate v.db userId row.courseId (fun r => r.sectionId != row.id) ∧
            OverCap v.db row userId) v := by
  have hduplicate : (Prog.throwIf ((Query.enrollmentFindFirst
        (sameCourseElsewhere userId row.courseId row.id)).eval v).isSome
      (conflict .DUPLICATE_COURSE "You are already enrolled in another section of this course.") :
        Tx Unit).Checks x
      (NoDuplicate v.db userId row.courseId (fun r => r.sectionId != row.id)) v :=
    duplicate_decides fun r => matches_sameCourseElsewhere
  refine yields_query (Prog.yields_bind (Prog.yields_throwIf (fun hc => ?_) fun hc => ?_))
  · refine iff_of_false (not_refusedOverRule (by decide)) fun hno => ?_
    exact hduplicate.throwIf_iff.mp hno.1 hc
  · have hno := hduplicate.throwIf_iff.mpr hc
    refine prerequisiteGate_decides.bind (fun hmissing => absurd h.prerequisites hmissing) fun _ => ?_
    refine yields_query ?_
    have helsewhere := activeInTerm_elsewhere v (u := userId) (t := row.termId) (s := row.id)
    rw [show (v.db.joinSection row).sec.termId = row.termId from rfl, helsewhere]
    refine timeConflictGate_decides.bind (fun hconflict => absurd ?_ hconflict) fun _ => ?_
    · intro e he
      obtain ⟨r, hr, rfl⟩ := List.mem_map.mp he
      obtain ⟨hmem, hu, ha, -, -⟩ := mem_activeRows.mp hr
      exact h.time r hmem hu ha
    · have hsum := creditSum_rows v.db
        (v.db.activeRows userId row.termId (fun r => r.sectionId != row.id))
      refine yields_query (Prog.yields_throwIf (fun hover => ?_) fun hle => ⟨rfl, ?_⟩)
      · rw [hsum] at hover
        exact iff_of_true ⟨.CREDIT_LIMIT_EXCEEDED, by decide, rfl⟩ ⟨hno, hover⟩
      · rw [hsum] at hle
        exact hle

theorem not_refused_alreadyActive {v : World} (live : SectionJoin) (input : EnrollDto)
    (active : Enrollment) :
    (alreadyActive live input active).Yields x (fun out _ => ¬RefusedOverRule out) v := by
  unfold alreadyActive
  split
  · exact yields_query (Prog.yields_pure id)
  · exact Prog.yields_pure id

/-- A seat is taken or the queue is joined, and neither is refused over a rule. -/
theorem not_refused_seating {v : World}
    (hroom : row.enrolledCount < row.capacity ∨ WaitlistRoom v.db row row.id)
    (hseat : Seatable v x row.id userId row) (actor : RequestActor) :
    (if row.enrolledCount < row.capacity then takeSeat ⟨row.id⟩ userId actor
      else joinWaitlist (v.db.joinSection row) ⟨row.id⟩ userId actor).Yields x
        (fun out _ => ¬RefusedOverRule out) v := by
  refine Prog.yields_ite (fun seat => ?_) fun full => ?_
  · exact takeSeat_yields hseat seat fun a p => id
  · refine (joinWaitlist_yields hseat).imp ?_
    rintro (e | a) v' hdone
    · exact absurd (hroom.resolve_left full) hdone
    · exact id

/-- **What `enroll` refuses when the shared rules are met**: nothing but more credits than the cap,
and those only if it gets as far as the credits. -/
theorem enroll_refuses {v : World} (hv : v.Valid) (h : SharedRulesMet v row userId)
    (hrow : row ∈ v.db.sections) (hx : v.db.hasEnrollment x = false) (actor : RequestActor) :
    (enroll ⟨row.id⟩ userId actor).Yields x (fun out _ => RefusedOverRule out ↔
      RegistrationOpen v.db.ref v.now (v.db.joinSection row) userId ∧
        NoActiveRow v.db userId row.id ∧
        NoDuplicate v.db userId row.courseId (fun r => r.sectionId != row.id) ∧
        OverCap v.db row userId) v := by
  have hfound : v.db.section? row.id = some row := Keyed.lookup_of_mem hv.db.section_id hrow
  have hsec : (v.db.section? row.id).map v.db.joinSection = some (v.db.joinSection row) := by
    rw [hfound]
    rfl
  refine yields_query ?_
  rw [show (Query.sectionFindUnique row.id).eval v = some (v.db.joinSection row) from hsec]
  refine Prog.yields_bind_ok (Prog.solo_pure _) ?_
  refine Prog.yields_bind ((Prog.Yields.both registrationGate_decides
    (not_refused_registrationGate h.unheld)).imp ?_)
  rintro (e | a) v' ⟨hopen, hgate⟩
  · exact iff_of_false hgate fun hno => hopen hno.1
  obtain ⟨hopen, hv'⟩ := hopen
  rw [hv']
  refine Prog.yields_bind_ok (solo_sectionForUpdate _) ?_
  rw [hsec]
  refine Prog.yields_bind_ok (Prog.solo_pure _) (yields_query ?_)
  cases hactive : (Query.enrollmentFindFirst
    { studentId := some userId, sectionId := some row.id, status := some activeStatuses }).eval v with
  | some active =>
    refine (not_refused_alreadyActive _ _ _).imp fun out _ hout => iff_of_false hout fun hno => ?_
    exact absurd ((findActive_none.mpr hno.2.1).symm.trans hactive) (by simp)
  | none =>
    have hfree : NoActiveRow v.db userId row.id := findActive_none.mp hactive
    refine Prog.yields_bind ((enrollEligibility_refuses h).imp ?_)
    rintro (e | a) v' helig
    · exact helig.trans ⟨fun hno => ⟨hopen, hfree, hno⟩, fun hno => hno.2.2⟩
    obtain ⟨hv', hcap⟩ := helig
    rw [hv']
    have hseat : Seatable v x row.id userId row :=
      ⟨hx, hfound, hopen.hasUser, activePairTaken_of_free hfree, (hv.db.seats row hrow).1⟩
    exact (not_refused_seating h.room hseat actor).imp fun out _ hout =>
      iff_of_false hout fun hno => hcap hno.2.2.2

/-! ## 5. Whether an offer is kept -/

/-- The code of the error that a request ended with. -/
def failureCode {α : Type} : Option (Except Failure α × World) → Option FailureCode
  | some (.error e, _) => e.code
  | _ => none

/-- `enroll`, under an unused uuid and with nobody else about, fails with the code. -/
def EnrollFails (w : World) (sectionId : SectionId) (userId : UserId) (actor : RequestActor)
    (code : FailureCode) : Prop :=
  ∃ x, w.db.hasEnrollment x = false ∧
    failureCode ((enroll ⟨sectionId⟩ userId actor).transact x w) = some code

theorem exists_unused (db : Db) : ∃ x, db.hasEnrollment x = false := by
  obtain ⟨x, hx⟩ := Infinite.exists_notMem_finset (db.enrollments.map Enrollment.id).toFinset
  refine ⟨x, List.any_eq_false.mpr fun r hr he => hx (List.mem_toFinset.mpr ?_)⟩
  exact List.mem_map.mpr ⟨r, hr, eq_of_beq he⟩

theorem enrollFails_iff (hv : w.Valid) (h : SharedRulesMet w row userId)
    (hrow : row ∈ w.db.sections) (actor : RequestActor) :
    (∃ code ∈ preflightCodes, EnrollFails w row.id userId actor code) ↔
      RegistrationOpen w.db.ref w.now (w.db.joinSection row) userId ∧
        NoActiveRow w.db userId row.id ∧
        NoDuplicate w.db userId row.courseId (fun r => r.sectionId != row.id) ∧
        OverCap w.db row userId := by
  constructor
  · rintro ⟨code, hcode, x, hx, hfails⟩
    obtain ⟨out, v', hout, hQ⟩ := transact_of_yields (enroll_refuses hv h hrow hx actor)
    rw [hout] at hfails
    cases out with
    | ok a => exact absurd hfails (by simp [failureCode])
    | error e =>
      obtain ⟨-, -, hiff⟩ := hQ
      exact hiff.mp ⟨code, hcode, hfails⟩
  · intro hno
    obtain ⟨x, hx⟩ := exists_unused w.db
    obtain ⟨out, v', hout, hQ⟩ := transact_of_yields (enroll_refuses hv h hrow hx actor)
    cases out with
    | ok a => exact absurd (hQ.mpr hno) id
    | error e =>
      obtain ⟨-, -, hiff⟩ := hQ
      obtain ⟨code, hcode, he⟩ := hiff.mpr hno
      refine ⟨code, hcode, x, hx, ?_⟩
      rw [hout]
      exact he

/-- A student whom `enroll` takes as far as the credits, and whose credits as the page counts them
leave room under 18 for the course, has room for it under the cap. -/
def CreditsCovered (o : Sorter) (w : World) (records : Records w.db) (row : Section)
    (userId : UserId) : Prop :=
  SharedRulesMet w row userId →
    RegistrationOpen w.db.ref w.now (w.db.joinSection row) userId →
    NoActiveRow w.db userId row.id →
    NoDuplicate w.db userId row.courseId (fun r => r.sectionId != row.id) →
    shownCredits o w records userId + (w.db.ref.course row.courseId).credits ≤ 18 →
    ¬OverCap w.db row userId

theorem ShownSection.sectionOf (hv : w.Valid) (h : ShownSection w.db id s row) :
    w.db.sectionOf s.id = row := by
  have hfound : w.db.section? row.id = some row := Keyed.lookup_of_mem hv.db.section_id h.mem
  unfold Db.sectionOf
  rw [h.id, hfound]
  rfl

/-- **An offer of the dialog is kept exactly when the credits are covered.** -/
theorem preflight_sound_iff (hv : w.Valid) (huser : w.db.hasUser userId = true)
    (hrows : (w.db.rowsOfStudent userId).length ≤ 100)
    (hdetail : getCourse o w records id viewer termId = .ok detail) (hs : s ∈ detail.sections)
    (hcourse : course.credits = detail.credits) (actor : RequestActor) :
    ((catalogPreflight o w records userId course detail s).Offers →
        ∀ code ∈ preflightCodes, ¬EnrollFails w s.id userId actor code) ↔
      CreditsCovered o w records (w.db.sectionOf s.id) userId := by
  obtain ⟨row, hrow⟩ := shownSection hdetail hs
  have hcredits : course.credits = (w.db.ref.course row.courseId).credits := by
    obtain ⟨c, -, rfl, t, rfl⟩ := getCourse_ok hdetail
    rw [hcourse, hrow.courseId]
    rfl
  rw [offers_iff hv huser hrows hdetail hrow, hcredits]
  rw [hrow.sectionOf hv, hrow.id]
  constructor
  · intro hkept hshared hopen hfree hno hshown hover
    obtain ⟨code, hcode, hfails⟩ := (enrollFails_iff hv hshared hrow.mem actor).mpr
      ⟨hopen, hfree, hno, hover⟩
    exact hkept ⟨hshared, hshown⟩ code hcode hfails
  · rintro hcovered ⟨hshared, hshown⟩ code hcode hfails
    obtain ⟨hopen, hfree, hno, hover⟩ :=
      (enrollFails_iff hv hshared hrow.mem actor).mp ⟨code, hcode, hfails⟩
    exact hcovered hshared hopen hfree hno hshown hover

namespace Campus

/-- Rows that tie stay as they stand in the table. -/
def inserting : Sorter where
  sort le rows := rows.insertionSort fun a b => le a b = true
  answer := by
    intro α le ho rows
    have : Std.Total fun a b => le a b = true := ⟨fun a b => by simpa using ho.total a b⟩
    have : IsTrans α fun a b => le a b = true := ⟨ho.trans⟩
    exact ⟨List.perm_insertionSort _ _, List.pairwise_insertionSort _ _⟩

def courses : CourseId → Course
  | 1 => ⟨"CS301", 5⟩
  | 2 => ⟨"MATH240", 5⟩
  | 3 => ⟨"PHYS210", 5⟩
  | 4 => ⟨"HIST110", 3⟩
  | _ => ⟨"ENGL120", 3⟩

def weekday : List Section :=
  [⟨21, "001", 1, 7, "M 9:00-11:45", 30, 1, none⟩, ⟨22, "001", 2, 7, "T 9:00-11:45", 30, 1, none⟩,
    ⟨23, "001", 3, 7, "W 9:00-11:45", 30, 1, none⟩, ⟨24, "001", 4, 7, "R 9:00-11:45", 1, 1, none⟩,
    ⟨25, "001", 5, 7, "F 9:00-11:45", 30, 0, none⟩]

def seatIn (id : EnrollmentId) (u : UserId) (s : SectionId) : Enrollment :=
  ⟨id, u, s, .ENROLLED, none, 5, none, none, 5⟩

/-- Student 1 has 15 credits, and the rows that are given; student 2 has the seat in section 24. -/
def fullLoad (rows : List Enrollment) : World where
  db := ⟨{ reference with course := courses }, weekday,
    [seatIn 201 1 21, seatIn 202 1 22, seatIn 203 1 23, seatIn 204 2 24] ++ rows, [], []⟩
  now := 10
  seq := 0

def registry (rows : List Enrollment) : Records (fullLoad rows).db where
  term := [⟨7, .FALL, 2026, 2000⟩]
  course := [⟨1, "Compilers", none⟩, ⟨2, "Analysis", none⟩, ⟨3, "Mechanics", none⟩,
    ⟨4, "Antiquity", none⟩, ⟨5, "Poetry", none⟩]
  sec _ := ⟨"Staff", "101"⟩
  advisorHold := []
  user _ := ⟨"Ada", "Byron", "ada@enroll.test"⟩
  collation := byChar
  advisorHold_rows := rfl
  course_id := by simp only [List.map]; decide
  course_code := by
    have h : (([1, 2, 3, 4, 5] : List CourseId).map fun c => (courses c).code).Nodup := by decide
    exact h
  section_fkey := by
    have h : ∀ s ∈ weekday, s.courseId ∈ [1, 2, 3, 4, 5] := by decide
    exact h
  prerequisite_fkey := fun p hp => absurd hp List.not_mem_nil

/-- Student 1, with three courses and a place in a queue. -/
def waitlisted : World := fullLoad [⟨205, 1, 24, .WAITLISTED, some 1, 6, none, none, 6⟩]

theorem waitlisted_valid : waitlisted.Valid := by
  refine ⟨⟨by decide, by decide, by decide, by decide, by decide⟩, ?_⟩
  exact fun e he => absurd he List.not_mem_nil

/-- The poetry course as the API shows it to student 1. -/
def poetry (rows : List Enrollment) : CourseDetailDto :=
  courseDetail inserting (fullLoad rows) (registry rows) ⟨5, "Poetry", none⟩ (some ⟨1, true⟩) 7

theorem poetry_found (rows : List Enrollment) :
    getCourse inserting (fullLoad rows) (registry rows) 5 (some ⟨1, true⟩) none
      = .ok (poetry rows) := rfl

def poetryItem : CourseListItem := ⟨⟨5, "ENGL120", "Poetry", 3⟩, 1, 30, 0⟩

def poetrySection : SectionDto :=
  ⟨25, "001", "Staff", "F 9:00-11:45", "101", 30, 0, 30, 0, none, some none⟩

/-- 15 credits and 3 on a waitlist: with the course the dialog counts 18, `enroll` 21. -/
theorem offered_over_cap : waitlisted.Valid ∧
    (∃ detail, getCourse inserting waitlisted (registry _) 5 (some ⟨1, true⟩) none = .ok detail ∧
      poetrySection ∈ detail.sections ∧
      (catalogPreflight inserting waitlisted (registry _) 1 poetryItem detail poetrySection).Offers) ∧
    EnrollFails waitlisted 25 1 (actor 1) .CREDIT_LIMIT_EXCEEDED := by
  refine ⟨waitlisted_valid, ⟨_, poetry_found _, by decide +kernel, Or.inl (by decide +kernel)⟩, 300,
    by decide, ?_⟩
  decide +kernel

/-- Without the place in the queue the course fits. -/
theorem preflight_sound_fitting :
    preflightCodes.Forall fun code => ¬EnrollFails (fullLoad []) 25 1 (actor 1) code := by
  have hv : (fullLoad []).Valid := by
    refine ⟨⟨by decide, by decide, by decide, by decide, by decide⟩, ?_⟩
    exact fun e he => absurd he List.not_mem_nil
  have hkept : (catalogPreflight inserting (fullLoad []) (registry []) 1 poetryItem (poetry [])
      poetrySection).Offers →
        ∀ code ∈ preflightCodes, ¬EnrollFails (fullLoad []) 25 1 (actor 1) code :=
    (preflight_sound_iff hv (by decide) (by decide) (poetry_found []) (by decide +kernel) rfl
      (actor 1)).mpr fun _ _ _ _ _ => by decide +kernel
  exact List.forall_iff_forall_mem.mpr (hkept (Or.inl (by decide +kernel)))

end Campus

end Enroll
