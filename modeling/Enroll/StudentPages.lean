/-
# What a student is shown of the database

`AuthService.profile`, `EnrollmentService.listMine` and `CoursesService.getCourse`, the reads that
the catalog page is made from.  They read columns that no registration request reads, which stand in
a structure of their own (`Records`).

An `ORDER BY` that leaves ties leaves the database a choice, so its sort is a parameter (`Sorter`).
-/
import Enroll.CoursesService
import Enroll.Decisions
import Enroll.Ownership
import Enroll.Ranks

namespace Enroll

open Paging (Answer Order slice)

/-! ## 1. Columns that only pages read -/

inductive Season where
  | FALL | WINTER | SPRING | SUMMER
  deriving DecidableEq, Repr

def Season.value : Season → String
  | FALL => "FALL"
  | WINTER => "WINTER"
  | SPRING => "SPRING"
  | SUMMER => "SUMMER"

structure TermDetails where
  id : TermId
  season : Season
  year : Nat
  startDate : Time
  deriving DecidableEq, Repr

structure CourseDetails where
  id : CourseId
  title : String
  description : Option String
  deriving DecidableEq, Repr

structure SectionDetails where
  instructorName : String
  room : String
  deriving DecidableEq, Repr

structure HoldRow extends AdvisorHold where
  id : Nat
  advisorId : UserId
  createdAt : Time
  deriving DecidableEq, Repr

structure Person where
  firstName : String
  lastName : String
  email : String
  deriving DecidableEq, Repr

/-- The other columns of the tables of `db`.  Sections and users are reached through foreign keys
only. -/
structure Records (db : Db) where
  term : List TermDetails
  course : List CourseDetails
  sec : SectionId → SectionDetails
  advisorHold : List HoldRow
  user : UserId → Person
  collation : Collation
  /-- `AdvisorHold` is one table. -/
  advisorHold_rows : advisorHold.map HoldRow.toAdvisorHold = db.ref.advisorHolds
  /-- `Course_pkey` -/
  course_id : (course.map CourseDetails.id).Nodup
  /-- `Course_code_key` -/
  course_code : (course.map fun c => (db.ref.course c.id).code).Nodup
  /-- `Section_courseId_fkey` -/
  section_fkey : ∀ s ∈ db.sections, s.courseId ∈ course.map CourseDetails.id
  /-- `CoursePrerequisite_prerequisiteId_fkey` -/
  prerequisite_fkey : ∀ p ∈ db.ref.coursePrerequisites,
    p.prerequisiteId ∈ course.map CourseDetails.id

/-- How the database sorts. -/
structure Sorter where
  sort : {α : Type} → (α → α → Bool) → List α → List α
  answer : ∀ {α : Type} {le : α → α → Bool}, Order le → ∀ rows, Answer le rows (sort le rows)

/-- `orderBy: { column: 'asc' }` on a column of type `DateTime`. -/
def ascending {α : Type} (column : α → Time) (a b : α) : Bool := column a ≤ column b

/-- `orderBy: { column: 'desc' }`. -/
def descending {α : Type} (column : α → Time) (a b : α) : Bool := column b ≤ column a

theorem order_descending {α : Type} (column : α → Time) : Order (descending column) where
  trans := by
    intro a b c hab hbc
    simp only [descending, decide_eq_true_eq] at hab hbc ⊢
    exact hbc.trans hab
  total := by
    intro a b
    simp only [descending, Bool.or_eq_true, decide_eq_true_eq]
    exact Nat.le_total _ _

theorem Sorter.mem_sort (o : Sorter) {α : Type} {le : α → α → Bool} (ho : Order le) {rows : List α}
    {a : α} : a ∈ o.sort le rows ↔ a ∈ rows := (o.answer ho rows).1.mem_iff

/-! ## 2. AuthService.profile -/

structure StudentProfileAdvisor where
  id : UserId
  firstName : String
  lastName : String
  email : String
  deriving DecidableEq, Repr

structure StudentProfileHold where
  id : Nat
  reason : String
  advisorName : String
  createdAt : String
  deriving DecidableEq, Repr

structure StudentProfileTerm where
  id : TermId
  name : String
  enrolledCredits : Int
  enrolledCourses : Nat
  waitlistedCourses : Nat
  maxCredits : Int
  overloadMaxCredits : Option Int
  deriving DecidableEq, Repr

structure StudentProfile where
  classStanding : Option ClassStanding
  advisor : Option StudentProfileAdvisor
  currentTerm : Option StudentProfileTerm
  holds : List StudentProfileHold
  completedCredits : Int
  deriving DecidableEq, Repr

section

variable (o : Sorter) (w : World) (records : Records w.db)

/-- `advisorHold.findMany({ where: { studentId, releasedAt: null }, orderBy: { createdAt: 'desc' } })`. -/
def activeHolds (userId : UserId) : List HoldRow :=
  o.sort (descending HoldRow.createdAt)
    (records.advisorHold.filter fun h => h.studentId == userId && h.releasedAt.isNone)

def profileHold (h : HoldRow) : StudentProfileHold where
  id := h.id
  reason := h.reason
  advisorName := (records.user h.advisorId).firstName ++ " " ++ (records.user h.advisorId).lastName
  createdAt := toISOString h.createdAt

/-- Current term: of those whose registration has not closed, the one that starts first. -/
def profileTerm : Option TermDetails :=
  (o.sort (ascending TermDetails.startDate)
    (records.term.filter fun t => w.now ≤ (w.db.ref.term t.id).registrationCloses)).head?

/-- `${term.season.charAt(0)}${term.season.slice(1).toLowerCase()} ${term.year}`. -/
def TermDetails.name (t : TermDetails) : String :=
  String.ofList (t.season.value.toList.take 1 ++ (t.season.value.toList.drop 1).map Char.toLower)
    ++ " " ++ toString t.year

/-- The student's rows of one status in a term. -/
def statusInTerm (userId : UserId) (termId : TermId) (status : EnrollmentStatus) :
    List EnrollmentJoin :=
  ((w.db.select (activeInTerm userId termId)).map w.db.joinEnrollment).filter
    fun e => e.row.status == status

def currentTerm (userId : UserId) (term : TermDetails) : StudentProfileTerm where
  id := term.id
  name := term.name
  enrolledCredits := creditSum (statusInTerm w userId term.id .ENROLLED)
  enrolledCourses := (statusInTerm w userId term.id .ENROLLED).length
  waitlistedCourses := (statusInTerm w userId term.id .WAITLISTED).length
  maxCredits := (w.db.ref.term term.id).maxCredits
  overloadMaxCredits := ((Query.overloadApprovalFindUnique userId term.id).eval w).map
    OverloadApproval.maxCredits

def profileAdvisor (advisorId : UserId) : StudentProfileAdvisor where
  id := advisorId
  firstName := (records.user advisorId).firstName
  lastName := (records.user advisorId).lastName
  email := (records.user advisorId).email

/-- `AuthService.profile`. -/
def profile (userId : UserId) : Except HttpException StudentProfile :=
  match (Query.userFindUnique userId).eval w with
  | none => .error unauthorized
  | some user => .ok
    { classStanding := user.classStanding
      advisor := user.advisorId.map (profileAdvisor w records)
      currentTerm := (profileTerm o w records).map (currentTerm w userId)
      holds := (activeHolds o w records userId).map (profileHold w records)
      completedCredits := creditSum
        ((w.db.select { studentId := some userId, status := some [.COMPLETED] }).map
          w.db.joinEnrollment) }

end

variable {o : Sorter} {w : World} {records : Records w.db} {userId : UserId}

/-- The profile shows no hold exactly when there is none. -/
theorem activeHolds_eq_nil :
    activeHolds o w records userId = [] ↔ Unheld w.db.ref userId := by
  unfold Unheld
  rw [← records.advisorHold_rows, List.find?_eq_none, List.forall_mem_map,
    List.eq_nil_iff_forall_not_mem]
  unfold activeHolds
  constructor
  · intro hnil h hh hheld
    refine hnil h ((o.mem_sort (order_descending _)).mpr (List.mem_filter.mpr ⟨hh, hheld⟩))
  · intro hnone h hmem
    obtain ⟨hh, hheld⟩ := List.mem_filter.mp ((o.mem_sort (order_descending _)).mp hmem)
    exact hnone h hh hheld

/-! ## 3. EnrollmentService.listMine -/

/-- A query that has passed validation. -/
structure ListMyEnrollmentsQuery where
  status : Option (List EnrollmentStatus)
  page : Nat
  limit : Nat
  bounds : 1 ≤ page ∧ 1 ≤ limit ∧ limit ≤ 200

theorem default_bounds : 1 ≤ 1 ∧ 1 ≤ 100 ∧ 100 ≤ 200 := by decide

/-- The query of a request without parameters. -/
def defaultQuery : ListMyEnrollmentsQuery := ⟨none, 1, 100, default_bounds⟩

/-- The title of a course, which is in the table. -/
def Records.title {db : Db} (records : Records db) (id : CourseId) : String :=
  ((records.course.find? fun c => c.id == id).map CourseDetails.title).getD ""

section

variable (o : Sorter) (w : World) (records : Records w.db)

/-- What `computeRanks` is asked for: the rows with a place in a queue. -/
def rankRequest (r : Enrollment) : Option RankRequest :=
  match r.status, r.waitlistPosition with
  | .WAITLISTED, some position => some ⟨r.id, r.sectionId, position⟩
  | _, _ => none

def myEnrollmentSection (s : Section) : MyEnrollmentSection where
  id := s.id
  sectionNumber := s.sectionNumber
  instructorName := (records.sec s.id).instructorName
  meetingPattern := s.meetingPattern
  room := (records.sec s.id).room

def myEnrollmentCourse (id : CourseId) : MyEnrollmentCourse where
  id := id
  code := (w.db.ref.course id).code
  title := records.title id
  credits := (w.db.ref.course id).credits

def myEnrollment (ranks : EnrollmentId → Option Nat) (r : Enrollment) : MyEnrollment where
  id := r.id
  status := r.status
  enrolledAt := r.enrolledAt
  waitlistPosition := ranks r.id
  sec := myEnrollmentSection w records (w.db.sectionOf r.sectionId)
  course := myEnrollmentCourse w records (w.db.courseOf r.sectionId)

/-- `EnrollmentService.listMine`. -/
def listMine (studentId : UserId) (query : ListMyEnrollmentsQuery) : List MyEnrollment :=
  let rows := slice ((query.page - 1) * query.limit) query.limit
    (o.sort (descending Enrollment.enrolledAt)
      (w.db.select { studentId := some studentId, status := query.status }))
  rows.map (myEnrollment w records (computeRanks w.db (rows.filterMap rankRequest)))

end

/-- The student's rows. -/
def Db.rowsOfStudent (db : Db) (studentId : UserId) : List Enrollment :=
  db.select { studentId := some studentId }

theorem mem_rowsOfStudent {db : Db} {u : UserId} {r : Enrollment} :
    r ∈ db.rowsOfStudent u ↔ r ∈ db.enrollments ∧ r.studentId = u := by
  simp [Db.rowsOfStudent, Db.select, EnrollmentWhere.matches, eq_comm (a := u)]

/-- The first page has every row, of a student with no more than it holds. -/
theorem listMine_eq (o : Sorter) (records : Records w.db)
    (hrows : (w.db.rowsOfStudent userId).length ≤ 100) :
    ∃ (rows : List Enrollment) (ranks : EnrollmentId → Option Nat),
      listMine o w records userId defaultQuery = rows.map (myEnrollment w records ranks) ∧
        ∀ r, r ∈ rows ↔ r ∈ w.db.enrollments ∧ r.studentId = userId := by
  obtain ⟨hperm, -⟩ := o.answer (order_descending Enrollment.enrolledAt) (w.db.rowsOfStudent userId)
  have hslice : slice 0 100 (o.sort (descending Enrollment.enrolledAt) (w.db.rowsOfStudent userId))
      = o.sort (descending Enrollment.enrolledAt) (w.db.rowsOfStudent userId) :=
    List.take_of_length_le (hperm.length_eq.trans_le hrows)
  refine ⟨_, _, rfl, fun r => ?_⟩
  rw [← mem_rowsOfStudent, ← hperm.mem_iff]
  exact iff_of_eq (congrArg (r ∈ ·) hslice)

/-! ## 4. CoursesService.getCourse -/

/-- Who is looking at the course detail. -/
structure CourseViewer where
  userId : UserId
  isStudent : Bool
  deriving DecidableEq, Repr

structure ViewerEnrollmentDto where
  enrollmentId : EnrollmentId
  status : EnrollmentStatus
  waitlistPosition : Option Nat
  deriving DecidableEq, Repr

structure SectionDto where
  id : SectionId
  sectionNumber : String
  instructorName : String
  meetingPattern : String
  room : String
  capacity : Int
  enrolledCount : Int
  seatsAvailable : Int
  waitlistCount : Nat
  waitlistCap : Option Int
  /-- `none`: the key is absent; `some none`: null -/
  viewerEnrollment : Option (Option ViewerEnrollmentDto)
  deriving DecidableEq, Repr

structure CoursePrerequisiteRef where
  id : CourseId
  code : String
  title : String
  deriving DecidableEq, Repr

structure CourseDetailDto where
  id : CourseId
  code : String
  title : String
  description : Option String
  credits : Int
  sections : List SectionDto
  prerequisites : List CoursePrerequisiteRef
  deriving DecidableEq, Repr

/-- VIEWER_STATUS_PRECEDENCE. -/
def viewerStatusPrecedence : List EnrollmentStatus := [.ENROLLED, .WAITLISTED, .COMPLETED]

section

variable (o : Sorter) (w : World) (records : Records w.db)

def TermDetails.row (ref : Reference) (t : TermDetails) : TermRow where
  id := t.id
  registrationOpens := (ref.term t.id).registrationOpens
  registrationCloses := (ref.term t.id).registrationCloses
  startDate := t.startDate

/-- `CoursesService.resolveActiveTermId`: of the open terms, the one that starts last. -/
def activeTermId : Except HttpException TermId :=
  match (o.sort (descending TermDetails.startDate)
    (records.term.filter fun t => (t.row w.db.ref).isOpen w.now)).head? with
  | some term => .ok term.id
  | none => .error ⟨.notFound, none,
      "No term is currently open for registration. Pass an explicit termId."⟩

/-- `CoursesService.countWaitlisted`; `groupBy` has a group for each section with such rows. -/
def countWaitlisted (sectionIds : List SectionId) : SectionId → Option Nat :=
  let grouped := (sectionIds.filter fun s => (w.db.waiting s).length > 0).map
    fun s => (s, (w.db.waiting s).length)
  Keyed.setEach Prod.fst (fun g => some g.2) grouped

/-- One turn of the loop that fills `best`. -/
def placeBest (best : List Enrollment) (row : Enrollment) : List Enrollment :=
  match best.find? fun b => b.sectionId == row.sectionId with
  | none => best ++ [row]
  | some current =>
    if viewerStatusPrecedence.idxOf row.status < viewerStatusPrecedence.idxOf current.status then
      best.map fun b => if b.sectionId = row.sectionId then row else b
    else best

/-- `CoursesService.resolveViewerEnrollments`; the result is a `Map`. -/
def resolveViewerEnrollments (userId : UserId) (sectionIds : List SectionId) :
    SectionId → Option ViewerEnrollmentDto :=
  let rows := o.sort (descending Enrollment.enrolledAt)
    ((w.db.select { studentId := some userId, status := some viewerStatusPrecedence }).filter
      fun r => sectionIds.contains r.sectionId)
  let best := rows.foldl placeBest []
  let ranks := computeRanks w.db (best.filterMap rankRequest)
  fun sectionId => (best.find? fun b => b.sectionId == sectionId).map fun row =>
    ⟨row.id, row.status, ranks row.id⟩

def sectionDto (waitlistCounts : SectionId → Option Nat)
    (viewerBySection : Option (SectionId → Option ViewerEnrollmentDto)) (s : Section) :
    SectionDto where
  id := s.id
  sectionNumber := s.sectionNumber
  instructorName := (records.sec s.id).instructorName
  meetingPattern := s.meetingPattern
  room := (records.sec s.id).room
  capacity := s.capacity
  enrolledCount := s.enrolledCount
  seatsAvailable := max 0 (s.capacity - s.enrolledCount)
  waitlistCount := (waitlistCounts s.id).getD 0
  waitlistCap := s.waitlistCap
  viewerEnrollment := viewerBySection.map fun m => m s.id

def prerequisiteRef (id : CourseId) : CoursePrerequisiteRef where
  id := id
  code := (w.db.ref.course id).code
  title := records.title id

/-- `orderBy: { sectionNumber: 'asc' }` among the sections of the course in the term. -/
def courseSections (id : CourseId) (termId : TermId) : List Section :=
  o.sort (fun a b => records.collation.le a.sectionNumber b.sectionNumber)
    (w.db.sections.filter fun s => s.courseId == id && s.termId == termId)

/-- The response, once the course is found. -/
def courseDetail (course : CourseDetails) (viewer : Option CourseViewer) (termId : TermId) :
    CourseDetailDto :=
  let sections := courseSections o w records course.id termId
  let sectionIds := sections.map Section.id
  let waitlistCounts := countWaitlisted w sectionIds
  let viewerBySection :=
    (viewer.filter fun v => v.isStudent && decide (sectionIds.length > 0)).map
      fun v => resolveViewerEnrollments o w v.userId sectionIds
  { id := course.id
    code := (w.db.ref.course course.id).code
    title := course.title
    description := course.description
    credits := (w.db.ref.course course.id).credits
    sections := sections.map (sectionDto w records waitlistCounts viewerBySection)
    prerequisites := ((Query.coursePrerequisiteFindMany course.id).eval w).map
      (prerequisiteRef w records) }

/-- `termId ?? (await this.resolveActiveTermId())`. -/
def courseTermId : Option TermId → Except HttpException TermId
  | some termId => .ok termId
  | none => activeTermId o w records

/-- `CoursesService.getCourse`. -/
def getCourse (id : CourseId) (viewer : Option CourseViewer) (termId : Option TermId) :
    Except HttpException CourseDetailDto := do
  let activeTermId ← courseTermId o w records termId
  match records.course.find? fun c => c.id == id with
  | none => .error ⟨.notFound, none, s!"Course {id} not found"⟩
  | some course => .ok (courseDetail o w records course viewer activeTermId)

end

theorem countWaitlisted_getD {sectionIds : List SectionId} {s : SectionId} (hs : s ∈ sectionIds) :
    (countWaitlisted w sectionIds s).getD 0 = (w.db.waiting s).length := by
  unfold countWaitlisted
  by_cases hpos : 0 < (w.db.waiting s).length
  · rw [@Keyed.setEach_eq _ _ _ _ _ _ _ s (w.db.waiting s).length]
    · rfl
    · exact ⟨(s, _), List.mem_map.mpr ⟨s, List.mem_filter.mpr ⟨hs, decide_eq_true hpos⟩, rfl⟩, rfl⟩
    · rintro g hg rfl
      obtain ⟨s', -, rfl⟩ := List.mem_map.mp hg
      rfl
  · rw [Keyed.setEach_none]
    · exact (Nat.eq_zero_of_not_pos hpos).symm
    · rintro g hg rfl
      obtain ⟨s', hs', rfl⟩ := List.mem_map.mp hg
      exact hpos (of_decide_eq_true (List.mem_filter.mp hs').2)

/-- What `getCourse` found. -/
theorem getCourse_ok {id : CourseId} {viewer : Option CourseViewer} {termId : Option TermId}
    {detail : CourseDetailDto} (h : getCourse o w records id viewer termId = .ok detail) :
    ∃ course ∈ records.course, course.id = id ∧
      ∃ t, detail = courseDetail o w records course viewer t := by
  unfold getCourse at h
  cases hterm : courseTermId o w records termId with
  | error e => exact absurd h (by simp [hterm, bind, Except.bind])
  | ok t =>
    simp only [hterm, bind, Except.bind] at h
    cases hfound : records.course.find? (fun c => c.id == id) with
    | none => exact absurd h (by simp [hfound])
    | some course =>
      simp only [hfound, Except.ok.injEq] at h
      have hid := List.find?_some hfound
      exact ⟨course, List.mem_of_find?_eq_some hfound, by simpa using hid, t, h.symm⟩

/-- A section that is shown, and the row it was made from. -/
structure ShownSection (db : Db) (id : CourseId) (s : SectionDto) (row : Section) : Prop where
  mem : row ∈ db.sections
  courseId : row.courseId = id
  id : s.id = row.id
  meetingPattern : s.meetingPattern = row.meetingPattern
  capacity : s.capacity = row.capacity
  enrolledCount : s.enrolledCount = row.enrolledCount
  waitlistCap : s.waitlistCap = row.waitlistCap
  waitlistCount : s.waitlistCount = (db.waiting row.id).length

theorem shownSection {id : CourseId} {viewer : Option CourseViewer} {termId : Option TermId}
    {detail : CourseDetailDto} (h : getCourse o w records id viewer termId = .ok detail)
    {s : SectionDto} (hs : s ∈ detail.sections) : ∃ row, ShownSection w.db id s row := by
  obtain ⟨course, -, rfl, t, rfl⟩ := getCourse_ok h
  obtain ⟨row, hrow, rfl⟩ := List.mem_map.mp hs
  have horder : Order (fun a b : Section => records.collation.le a.sectionNumber b.sectionNumber) :=
    ⟨fun _ _ _ => records.collation.order.trans _ _ _, fun _ _ => records.collation.order.total _ _⟩
  obtain ⟨hmem, hwhere⟩ := List.mem_filter.mp ((o.mem_sort horder).mp hrow)
  simp only [Bool.and_eq_true, beq_iff_eq] at hwhere
  exact ⟨row, hmem, hwhere.1, rfl, rfl, rfl, rfl, rfl,
    countWaitlisted_getD (List.mem_map.mpr ⟨row, hrow, rfl⟩)⟩

/-- The prerequisites that are shown. -/
theorem shownPrerequisites {id : CourseId} {viewer : Option CourseViewer} {termId : Option TermId}
    {detail : CourseDetailDto} (h : getCourse o w records id viewer termId = .ok detail) :
    detail.prerequisites = ((Query.coursePrerequisiteFindMany id).eval w).map
      (prerequisiteRef w records) := by
  obtain ⟨course, -, rfl, t, rfl⟩ := getCourse_ok h
  rfl

/-- A code belongs to one course. -/
theorem Records.code_inj {db : Db} (records : Records db) {c c' : CourseId}
    (hc : c ∈ records.course.map CourseDetails.id) (hc' : c' ∈ records.course.map CourseDetails.id)
    (h : (db.ref.course c).code = (db.ref.course c').code) : c = c' := by
  obtain ⟨a, ha, rfl⟩ := List.mem_map.mp hc
  obtain ⟨b, hb, rfl⟩ := List.mem_map.mp hc'
  rw [List.inj_on_of_nodup_map records.course_code ha hb h]

end Enroll
