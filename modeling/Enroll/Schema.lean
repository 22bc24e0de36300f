/-
# The data model

The Prisma schema, table by table, with the columns that the modelled code reads or writes.
Rows are records, a table is the list of its rows in storage order, and the constraints of the
migrations (primary keys, foreign keys, the `CHECK` on `Section`, the partial unique index on
`Enrollment`) are the fields of `Db.Valid`.

Ids are opaque: uuids are natural numbers here, compared only for equality, except that
`Section` ids are locked in ascending order.  A request names them by texts, which are taken to be
spelled as the database spells them; what becomes of other spellings is in `SpelledIds`.  Times are
milliseconds since the epoch.  Courses and terms are reached through foreign keys only, so they are
total functions of their ids.
-/
import Enroll.Keyed

namespace Enroll

abbrev UserId := Nat
abbrev CourseId := Nat
abbrev TermId := Nat
abbrev SectionId := Nat
abbrev EnrollmentId := Nat
abbrev OutboxId := Nat
abbrev Time := Nat

/-! ## 1. Enumerations -/

inductive Role where
  | STUDENT | ADVISOR | ADMIN
  deriving DecidableEq, Repr

inductive EnrollmentStatus where
  | ENROLLED | DROPPED | WAITLISTED | COMPLETED
  deriving DecidableEq, Repr

/-- The value as text, as it stands in messages. -/
def EnrollmentStatus.text : EnrollmentStatus → String
  | ENROLLED => "ENROLLED"
  | DROPPED => "DROPPED"
  | WAITLISTED => "WAITLISTED"
  | COMPLETED => "COMPLETED"

/-- `status IN ('ENROLLED', 'WAITLISTED')`. -/
def EnrollmentStatus.active : EnrollmentStatus → Bool
  | ENROLLED => true
  | WAITLISTED => true
  | DROPPED => false
  | COMPLETED => false

inductive ClassStanding where
  | FRESHMAN | SOPHOMORE | JUNIOR | SENIOR
  deriving DecidableEq, Repr

/-- `classStanding.toLowerCase()`. -/
def ClassStanding.toLowerCase : ClassStanding → String
  | FRESHMAN => "freshman"
  | SOPHOMORE => "sophomore"
  | JUNIOR => "junior"
  | SENIOR => "senior"

inductive AuditAction where
  | ENROLLMENT_CREATED | ENROLLMENT_DROPPED | ENROLLMENT_WAITLISTED | ENROLLMENT_WAITLIST_LEFT
  | ENROLLMENT_PROMOTED | ENROLLMENT_WAITLIST_EXPIRED | SECTION_UPDATED | WAITLIST_REORDERED
  | ENROLLMENT_SWAPPED
  deriving DecidableEq, Repr

inductive NotificationType where
  | WAITLIST_PROMOTED | WAITLIST_EXPIRED
  deriving DecidableEq, Repr

/-! ## 2. Reference data

What the registration operations only read. -/

structure User where
  id : UserId
  roles : List Role
  classStanding : Option ClassStanding
  advisorId : Option UserId
  deriving DecidableEq, Repr

structure Term where
  registrationOpens : Time
  registrationCloses : Time
  maxCredits : Int
  deriving DecidableEq, Repr, Inhabited

structure Course where
  code : String
  credits : Int
  deriving DecidableEq, Repr, Inhabited

structure RegistrationWindow where
  termId : TermId
  classStanding : ClassStanding
  opensAt : Time
  deriving DecidableEq, Repr

structure AdvisorHold where
  studentId : UserId
  reason : String
  releasedAt : Option Time
  deriving DecidableEq, Repr

structure OverloadApproval where
  studentId : UserId
  termId : TermId
  maxCredits : Int
  deriving DecidableEq, Repr

structure CoursePrerequisite where
  courseId : CourseId
  prerequisiteId : CourseId
  deriving DecidableEq, Repr

structure Reference where
  users : List User
  course : CourseId → Course
  term : TermId → Term
  registrationWindows : List RegistrationWindow
  advisorHolds : List AdvisorHold
  overloadApprovals : List OverloadApproval
  coursePrerequisites : List CoursePrerequisite

/-! ## 3. The tables the operations write -/

structure Section where
  id : SectionId
  sectionNumber : String
  courseId : CourseId
  termId : TermId
  meetingPattern : String
  capacity : Int
  enrolledCount : Int
  /-- `none` = unlimited -/
  waitlistCap : Option Int
  deriving DecidableEq, Repr, Inhabited

structure Enrollment where
  id : EnrollmentId
  studentId : UserId
  sectionId : SectionId
  status : EnrollmentStatus
  waitlistPosition : Option Int
  enrolledAt : Time
  droppedAt : Option Time
  completedAt : Option Time
  createdAt : Time
  deriving DecidableEq, Repr

/-- A student holds a seat or a place in the queue. -/
def Enrollment.active (r : Enrollment) : Bool := r.status.active

def Enrollment.enrolled (r : Enrollment) : Bool := r.status == .ENROLLED

def Enrollment.waitlisted (r : Enrollment) : Bool := r.status == .WAITLISTED

structure NotificationPayload where
  enrollmentId : EnrollmentId
  sectionId : SectionId
  courseId : Option CourseId
  deriving DecidableEq, Repr

structure Notification where
  userId : UserId
  type : NotificationType
  title : String
  body : String
  payload : NotificationPayload
  createdAt : Time
  deriving DecidableEq, Repr

/-- `targetType` and `targetId` of an audit row. -/
inductive AuditTarget where
  | enrollmentTarget (id : EnrollmentId)
  | sectionTarget (id : SectionId)
  deriving DecidableEq, Repr

/-- A `before` or `after` object: the keys the code writes, `none` where the key is absent.
`waitlistPosition` and `waitlistCap` may be present and null. -/
structure AuditFields where
  enrollmentId : Option EnrollmentId := none
  sectionId : Option SectionId := none
  status : Option EnrollmentStatus := none
  waitlistPosition : Option (Option Int) := none
  orderedEnrollmentIds : Option (List EnrollmentId) := none
  capacity : Option Int := none
  waitlistCap : Option (Option Int) := none
  deriving DecidableEq, Repr

structure AuditMetadata where
  reason : Option String := none
  deriving DecidableEq, Repr

structure AuditPayload where
  before : Option AuditFields
  after : Option AuditFields
  metadata : AuditMetadata
  deriving DecidableEq, Repr

structure AuditActor where
  userId : Option UserId
  ipAddress : Option String
  userAgent : Option String
  deriving DecidableEq, Repr

structure AuditOutbox where
  id : OutboxId
  action : AuditAction
  actor : AuditActor
  target : AuditTarget
  payload : AuditPayload
  createdAt : Time
  drainedAt : Option Time
  deriving DecidableEq, Repr

/-! ## 4. The database -/

/-- The tables. -/
structure Db where
  ref : Reference
  sections : List Section
  enrollments : List Enrollment
  notifications : List Notification
  auditOutbox : List AuditOutbox

namespace Db

variable (db : Db)

def section? (s : SectionId) : Option Section := Keyed.lookup Section.id s db.sections

/-- The section a row's foreign key points to. -/
def sectionOf (s : SectionId) : Section := (db.section? s).getD default

def courseOf (s : SectionId) : CourseId := (db.sectionOf s).courseId

def termOf (s : SectionId) : TermId := (db.sectionOf s).termId

def enrollment? (id : EnrollmentId) : Option Enrollment :=
  Keyed.lookup Enrollment.id id db.enrollments

/-- The rows of one section, in storage order. -/
def rowsOf (s : SectionId) : List Enrollment :=
  db.enrollments.filter (fun r => r.sectionId == s)

/-- The WAITLISTED rows of one section, in storage order. -/
def waiting (s : SectionId) : List Enrollment := (db.rowsOf s).filter Enrollment.waitlisted

/-- The constraints of the schema and its migrations. -/
structure Valid (db : Db) : Prop where
  /-- `Section_pkey` -/
  section_id : (db.sections.map Section.id).Nodup
  /-- `Enrollment_pkey` -/
  enrollment_id : (db.enrollments.map Enrollment.id).Nodup
  /-- `Enrollment_sectionId_fkey` -/
  section_fkey : ∀ r ∈ db.enrollments, db.section? r.sectionId ≠ none
  /-- `Section_enrolledCount_le_capacity` -/
  seats : ∀ s ∈ db.sections, 0 ≤ s.enrolledCount ∧ s.enrolledCount ≤ s.capacity
  /-- `enrollment_one_active_per_student_section` -/
  one_active : ∀ r ∈ db.enrollments, ∀ r' ∈ db.enrollments, r.active → r'.active →
    r.studentId = r'.studentId → r.sectionId = r'.sectionId → r = r'

end Db

/-- The committed tables, the clock, and the last id drawn from `AuditOutbox_id_seq`. -/
structure World where
  db : Db
  now : Time
  seq : OutboxId

/-- The tables obey the schema, and every outbox id was drawn from the sequence. -/
structure World.Valid (w : World) : Prop where
  db : w.db.Valid
  outbox_seq : ∀ e ∈ w.db.auditOutbox, e.id ≤ w.seq

/-! ## 5. Failures -/

inductive HttpStatus where
  | badRequest | unauthorized | forbidden | notFound | conflict
  deriving DecidableEq, Repr

inductive FailureCode where
  | SECTION_FULL | ALREADY_DROPPED | REGISTRATION_CLOSED | SECTION_NOT_FOUND | STUDENT_NOT_FOUND
  | PREREQUISITE_NOT_MET | TIME_CONFLICT | DUPLICATE_COURSE | REGISTRATION_NOT_OPEN | ADVISOR_HOLD
  | CREDIT_LIMIT_EXCEEDED | SWAP_TARGET_FULL | WAITLIST_CHANGED | NO_FIELDS
  | CAPACITY_BELOW_ENROLLED
  deriving DecidableEq, Repr

structure HttpException where
  status : HttpStatus
  code : Option FailureCode
  message : String
  deriving DecidableEq, Repr

/-- Errors raised by the database itself. -/
inductive DbError where
  /-- 23505 on the partial unique index -/
  | uniqueViolation
  /-- 23514 on `Section_enrolledCount_le_capacity` -/
  | checkViolation
  /-- 23503 on `Enrollment_studentId_fkey` or `Enrollment_sectionId_fkey` -/
  | foreignKeyViolation
  /-- P2025: `update` of a row that is not there -/
  | recordNotFound
  deriving DecidableEq, Repr

inductive Failure where
  | http (e : HttpException)
  | db (e : DbError)
  deriving DecidableEq, Repr

def badRequest (code : FailureCode) (message : String) : Failure :=
  .http ⟨.badRequest, some code, message⟩

def conflict (code : FailureCode) (message : String) : Failure :=
  .http ⟨.conflict, some code, message⟩

def notFound (code : FailureCode) (message : String) : Failure :=
  .http ⟨.notFound, some code, message⟩

/-- `new NotFoundException('Enrollment not found.')`. -/
def enrollmentNotFound : Failure := .http ⟨.notFound, none, "Enrollment not found."⟩

/-! ## 6. Dates -/

/-- `n` in decimal, padded with zeros to `w` digits. -/
def padStart (w n : Nat) : String :=
  let s := toString n
  String.ofList (List.replicate (w - s.length) '0') ++ s

/-- `new Date(t).toISOString()`. -/
def toISOString (t : Time) : String :=
  let z := t / 86400000 + 719468
  let ms := t % 86400000
  -- days since 0000-03-01, split into 400-year eras
  let doe := z % 146097
  let yoe := (doe - doe / 1460 + doe / 36524 - doe / 146096) / 365
  let doy := doe - (365 * yoe + yoe / 4 - yoe / 100)
  let mp := (5 * doy + 2) / 153
  let day := doy - (153 * mp + 2) / 5 + 1
  let month := if mp < 10 then mp + 3 else mp - 9
  let year := yoe + z / 146097 * 400 + (if month ≤ 2 then 1 else 0)
  let yearText := if year ≤ 9999 then padStart 4 year else "+" ++ padStart 6 year
  yearText ++ "-" ++ padStart 2 month ++ "-" ++ padStart 2 day ++ "T" ++
    padStart 2 (ms / 3600000) ++ ":" ++ padStart 2 (ms / 60000 % 60) ++ ":" ++
    padStart 2 (ms / 1000 % 60) ++ "." ++ padStart 3 (ms % 1000) ++ "Z"

example : toISOString 1714296568123 = "2024-04-28T09:29:28.123Z" := by decide

end Enroll
