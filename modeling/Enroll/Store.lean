/-
# Statements

The Prisma calls and raw queries that the registration services issue, as the statements of one
`Txn.Engine`.  `Query` are the reads; `Stmt` adds the row lock and the writes.  `where` objects
are data (`EnrollmentWhere`), and so are `data` objects (`EnrollmentData`, `SectionData`), so a
service method below reads like its source.

Postgres runs every statement of a READ COMMITTED transaction on the latest committed state plus
the transaction's own writes, which is the engine's view.  A row that another open transaction
has locked or written makes the statement wait (`locks`); `FOR UPDATE` on a row that does not
exist locks nothing.
-/
import Enroll.Txn.Program
import Enroll.Schema

namespace Enroll

/-! ## 1. Joined rows -/

/-- A section with the course and term its foreign keys point to. -/
structure SectionJoin where
  sec : Section
  course : Course
  term : Term
  deriving DecidableEq, Repr

/-- An enrollment with its section and course. -/
structure EnrollmentJoin where
  row : Enrollment
  sec : Section
  course : Course
  deriving DecidableEq, Repr

namespace Db

def joinSection (db : Db) (s : Section) : SectionJoin :=
  ⟨s, db.ref.course s.courseId, db.ref.term s.termId⟩

def joinEnrollment (db : Db) (r : Enrollment) : EnrollmentJoin :=
  ⟨r, db.sectionOf r.sectionId, db.ref.course (db.courseOf r.sectionId)⟩

end Db

/-! ## 2. Filters and orders -/

/-- A Prisma `where` on `Enrollment`; absent keys do not filter. -/
structure EnrollmentWhere where
  studentId : Option UserId := none
  sectionId : Option SectionId := none
  /-- `status: { in: [..] }`, or `status: x` as a singleton -/
  status : Option (List EnrollmentStatus) := none
  /-- `waitlistPosition: { lte }` -/
  waitlistPositionLte : Option Int := none
  /-- `section: { courseId }` -/
  courseId : Option CourseId := none
  /-- `section: { termId }` -/
  termId : Option TermId := none
  /-- `NOT: { sectionId }` -/
  notSectionId : Option SectionId := none
  /-- `NOT: { id }` -/
  notId : Option EnrollmentId := none
  deriving DecidableEq, Repr

def EnrollmentWhere.matches (w : EnrollmentWhere) (db : Db) (r : Enrollment) : Bool :=
  w.studentId.all (· == r.studentId) && w.sectionId.all (· == r.sectionId) &&
    w.status.all (fun l => l.contains r.status) &&
    w.waitlistPositionLte.all (fun n => r.waitlistPosition.any (· ≤ n)) &&
    w.courseId.all (· == db.courseOf r.sectionId) && w.termId.all (· == db.termOf r.sectionId) &&
    w.notSectionId.all (· != r.sectionId) && w.notId.all (· != r.id)

/-- Ascending order on a nullable column: nulls come last. -/
def positionLe : Option Int → Option Int → Bool
  | _, none => true
  | none, some _ => false
  | some a, some b => a ≤ b

/-- `orderBy: { waitlistPosition: 'asc' }`. -/
def byPosition (rows : List Enrollment) : List Enrollment :=
  rows.insertionSort (fun a b => positionLe a.waitlistPosition b.waitlistPosition)

/-- `_max: { waitlistPosition }`: nulls do not count. -/
def maxPosition (rows : List Enrollment) : Option Int :=
  (rows.filterMap Enrollment.waitlistPosition).max?

namespace Db

def select (db : Db) (w : EnrollmentWhere) : List Enrollment := db.enrollments.filter (w.matches db)

end Db

/-! ## 3. Reads -/

inductive Query where
  /-- `new Date()` -/
  | now
  | sectionFindUnique (id : SectionId)
  | userFindUnique (id : UserId)
  | registrationWindowFindUnique (termId : TermId) (classStanding : ClassStanding)
  /-- `where: { studentId, releasedAt: null }` -/
  | advisorHoldFindFirst (studentId : UserId)
  | enrollmentFindUnique (id : EnrollmentId)
  | enrollmentFindFirst (w : EnrollmentWhere)
  | enrollmentFindMany (w : EnrollmentWhere)
  | enrollmentFindManyByPosition (w : EnrollmentWhere)
  | enrollmentCount (w : EnrollmentWhere)
  | enrollmentMaxPosition (w : EnrollmentWhere)
  | coursePrerequisiteFindMany (courseId : CourseId)
  | overloadApprovalFindUnique (studentId : UserId) (termId : TermId)
  deriving DecidableEq, Repr

namespace Query

abbrev Res : Query → Type
  | now => Time
  | sectionFindUnique _ => Option SectionJoin
  | userFindUnique _ => Option User
  | registrationWindowFindUnique _ _ => Option RegistrationWindow
  | advisorHoldFindFirst _ => Option AdvisorHold
  | enrollmentFindUnique _ => Option EnrollmentJoin
  | enrollmentFindFirst _ => Option EnrollmentJoin
  | enrollmentFindMany _ => List EnrollmentJoin
  | enrollmentFindManyByPosition _ => List EnrollmentJoin
  | enrollmentCount _ => Nat
  | enrollmentMaxPosition _ => Option Int
  | coursePrerequisiteFindMany _ => List CourseId
  | overloadApprovalFindUnique _ _ => Option OverloadApproval

def eval : (q : Query) → World → q.Res
  | now, v => v.now
  | sectionFindUnique id, v => (v.db.section? id).map v.db.joinSection
  | userFindUnique id, v => v.db.ref.users.find? (fun u => u.id == id)
  | registrationWindowFindUnique t c, v =>
    v.db.ref.registrationWindows.find? (fun x => x.termId == t && x.classStanding == c)
  | advisorHoldFindFirst u, v =>
    v.db.ref.advisorHolds.find? (fun h => h.studentId == u && h.releasedAt.isNone)
  | enrollmentFindUnique id, v => (v.db.enrollment? id).map v.db.joinEnrollment
  | enrollmentFindFirst w, v => ((v.db.select w).head?).map v.db.joinEnrollment
  | enrollmentFindMany w, v => (v.db.select w).map v.db.joinEnrollment
  | enrollmentFindManyByPosition w, v => (byPosition (v.db.select w)).map v.db.joinEnrollment
  | enrollmentCount w, v => (v.db.select w).length
  | enrollmentMaxPosition w, v => maxPosition (v.db.select w)
  | coursePrerequisiteFindMany c, v =>
    (v.db.ref.coursePrerequisites.filter (fun p => p.courseId == c)).map
      CoursePrerequisite.prerequisiteId
  | overloadApprovalFindUnique u t, v =>
    v.db.ref.overloadApprovals.find? (fun o => o.studentId == u && o.termId == t)

end Query

/-! ## 4. Writes -/

/-- `enrollment.create`: the columns given, the rest by default. -/
structure EnrollmentCreate where
  studentId : UserId
  sectionId : SectionId
  status : EnrollmentStatus
  waitlistPosition : Option Int := none
  deriving DecidableEq, Repr

/-- `enrollment.update`: absent columns stay. -/
structure EnrollmentData where
  status : Option EnrollmentStatus := none
  enrolledAt : Option Time := none
  droppedAt : Option Time := none
  waitlistPosition : Option (Option Int) := none
  deriving DecidableEq, Repr

def EnrollmentData.patch (d : EnrollmentData) (r : Enrollment) : Enrollment :=
  { r with
    status := d.status.getD r.status
    enrolledAt := d.enrolledAt.getD r.enrolledAt
    droppedAt := d.droppedAt.orElse (fun _ => r.droppedAt)
    waitlistPosition := d.waitlistPosition.getD r.waitlistPosition }

inductive CounterWrite where
  | increment (n : Int)
  | set (n : Int)
  deriving DecidableEq, Repr

/-- `section.update`: absent columns stay. -/
structure SectionData where
  enrolledCount : Option CounterWrite := none
  capacity : Option Int := none
  waitlistCap : Option (Option Int) := none
  deriving DecidableEq, Repr

def SectionData.patch (d : SectionData) (s : Section) : Section :=
  { s with
    enrolledCount := match d.enrolledCount with
      | none => s.enrolledCount
      | some (.increment n) => s.enrolledCount + n
      | some (.set n) => n
    capacity := d.capacity.getD s.capacity
    waitlistCap := d.waitlistCap.getD s.waitlistCap }

structure NotificationCreate where
  userId : UserId
  type : NotificationType
  title : String
  body : String
  payload : NotificationPayload
  deriving DecidableEq, Repr

/-- `RecordEventParams`. -/
structure RecordEventParams where
  action : AuditAction
  actor : AuditActor
  target : AuditTarget
  before : Option AuditFields
  after : Option AuditFields
  metadata : AuditMetadata := {}
  deriving DecidableEq, Repr

/-- A buffered write. -/
inductive Write where
  | enrollmentInsert (row : Enrollment)
  | enrollmentPatch (id : EnrollmentId) (data : EnrollmentData)
  | sectionPatch (id : SectionId) (data : SectionData)
  | notificationInsert (row : Notification)
  | auditInsert (row : AuditOutbox)
  deriving DecidableEq, Repr

/-- `UPDATE .. WHERE id = ..`. -/
def patchEnrollments (id : EnrollmentId) (d : EnrollmentData) (rows : List Enrollment) :
    List Enrollment :=
  Keyed.update Enrollment.id id d.patch rows

def patchSections (id : SectionId) (d : SectionData) (rows : List Section) : List Section :=
  Keyed.update Section.id id d.patch rows

def Write.onDb (db : Db) : Write → Db
  | enrollmentInsert r => { db with enrollments := db.enrollments ++ [r] }
  | enrollmentPatch id d => { db with enrollments := patchEnrollments id d db.enrollments }
  | sectionPatch id d => { db with sections := patchSections id d db.sections }
  | notificationInsert n => { db with notifications := db.notifications ++ [n] }
  | auditInsert e => { db with auditOutbox := db.auditOutbox ++ [e] }

def Write.apply (w : World) (wr : Write) : World := { w with db := wr.onDb w.db }

/-- What a lock is taken on: a section row, an enrollment row, an entry of the partial unique
index. -/
inductive Key where
  | sectionRow (id : SectionId)
  | enrollmentRow (id : EnrollmentId)
  | activePair (studentId : UserId) (sectionId : SectionId)
  deriving DecidableEq, Repr

inductive Stmt where
  | read (q : Query)
  /-- `SELECT .. FROM "Section" .. WHERE id = .. FOR UPDATE` -/
  | sectionForUpdate (id : SectionId)
  | enrollmentCreate (d : EnrollmentCreate)
  | enrollmentUpdate (id : EnrollmentId) (d : EnrollmentData)
  /-- `updateMany({ where: { id, status } })` -/
  | enrollmentUpdateMany (id : EnrollmentId) (status : EnrollmentStatus) (d : EnrollmentData)
  | sectionUpdate (id : SectionId) (d : SectionData)
  | notificationCreate (d : NotificationCreate)
  | auditOutboxCreate (p : RecordEventParams)
  deriving DecidableEq, Repr

namespace Stmt

abbrev Res : Stmt → Type
  | read q => q.Res
  | sectionForUpdate _ => Option SectionJoin
  | enrollmentCreate _ => Enrollment
  | enrollmentUpdate _ _ => Enrollment
  | enrollmentUpdateMany _ _ _ => Nat
  | sectionUpdate _ _ => SectionJoin
  | notificationCreate _ => Unit
  | auditOutboxCreate _ => Unit

end Stmt

/-- The row that `enrollment.create` inserts under the fresh uuid `id`. -/
def EnrollmentCreate.row (d : EnrollmentCreate) (id : EnrollmentId) (now : Time) : Enrollment where
  id := id
  studentId := d.studentId
  sectionId := d.sectionId
  status := d.status
  waitlistPosition := d.waitlistPosition
  enrolledAt := now
  droppedAt := none
  completedAt := none
  createdAt := now

def NotificationCreate.row (d : NotificationCreate) (now : Time) : Notification :=
  ⟨d.userId, d.type, d.title, d.body, d.payload, now⟩

/-- The row that `AuditService.recordEvent` inserts. -/
def RecordEventParams.row (p : RecordEventParams) (id : OutboxId) (now : Time) : AuditOutbox where
  id := id
  action := p.action
  actor := p.actor
  target := p.target
  payload := ⟨p.before, p.after, p.metadata⟩
  createdAt := now
  drainedAt := none

@[simp] theorem RecordEventParams.row_id (p : RecordEventParams) (id : OutboxId) (now : Time) :
    (p.row id now).id = id := rfl

namespace Db

/-- Another active row of the same student in the same section is in the index. -/
def activePairTaken (db : Db) (id : EnrollmentId) (studentId : UserId) (sectionId : SectionId) :
    Bool :=
  db.enrollments.any fun r =>
    r.id != id && r.active && r.studentId == studentId && r.sectionId == sectionId

def hasEnrollment (db : Db) (id : EnrollmentId) : Bool := db.enrollments.any (fun r => r.id == id)

def hasUser (db : Db) (id : UserId) : Bool := db.ref.users.any (fun u => u.id == id)

end Db

/-- The `CHECK` of migration `20260429000000_enrollment_constraints`. -/
def Section.checkSeats (s : Section) : Bool :=
  decide (0 ≤ s.enrolledCount ∧ s.enrolledCount ≤ s.capacity)

/-- A statement on the view `v`; `x` is the uuid drawn if the statement draws one. -/
def Stmt.exec (s : Stmt) (x : Nat) (v : World) : Option (Except Failure (s.Res × List Write)) :=
  match s with
  | read q => some (.ok (q.eval v, []))
  | sectionForUpdate id => some (.ok ((v.db.section? id).map v.db.joinSection, []))
  | enrollmentCreate d =>
    -- a drawn uuid is new
    if v.db.hasEnrollment x then none
    else if (v.db.section? d.sectionId).isNone || !v.db.hasUser d.studentId then
      some (.error (.db .foreignKeyViolation))
    else if d.status.active && v.db.activePairTaken x d.studentId d.sectionId then
      some (.error (.db .uniqueViolation))
    else some (.ok (d.row x v.now, [.enrollmentInsert (d.row x v.now)]))
  | enrollmentUpdate id d =>
    match v.db.enrollment? id with
    | none => some (.error (.db .recordNotFound))
    | some r =>
      if (d.patch r).active && !r.active && v.db.activePairTaken id r.studentId r.sectionId then
        some (.error (.db .uniqueViolation))
      else some (.ok (d.patch r, [.enrollmentPatch id d]))
  | enrollmentUpdateMany id st d =>
    match v.db.enrollment? id with
    | none => some (.ok (0, []))
    | some r =>
      if r.status = st then
        if (d.patch r).active && !r.active && v.db.activePairTaken id r.studentId r.sectionId then
          some (.error (.db .uniqueViolation))
        else some (.ok (1, [.enrollmentPatch id d]))
      else some (.ok (0, []))
  | sectionUpdate id d =>
    match v.db.section? id with
    | none => some (.error (.db .recordNotFound))
    | some s =>
      if (d.patch s).checkSeats then
        some (.ok (v.db.joinSection (d.patch s), [.sectionPatch id d]))
      else some (.error (.db .checkViolation))
  | notificationCreate d => some (.ok ((), [.notificationInsert (d.row v.now)]))
  | auditOutboxCreate p => some (.ok ((), [.auditInsert (p.row (v.seq + 1) v.now)]))

/-- The row locks a statement waits for and keeps. -/
def Stmt.locks (s : Stmt) (x : Nat) (v : World) : List Key :=
  match s with
  | read _ => []
  | sectionForUpdate id => if (v.db.section? id).isSome then [.sectionRow id] else []
  | enrollmentCreate d =>
    .enrollmentRow x :: if d.status.active then [.activePair d.studentId d.sectionId] else []
  | enrollmentUpdate id _ => if v.db.hasEnrollment id then [.enrollmentRow id] else []
  | enrollmentUpdateMany id st _ =>
    if (v.db.enrollment? id).any (fun r => r.status == st) then [.enrollmentRow id] else []
  | sectionUpdate id _ => if (v.db.section? id).isSome then [.sectionRow id] else []
  | notificationCreate _ => []
  | auditOutboxCreate _ => []

/-- `nextval` is not undone by a rollback. -/
def Stmt.effect (s : Stmt) (w : World) : World :=
  match s with
  | auditOutboxCreate _ => { w with seq := w.seq + 1 }
  | _ => w

/-- Changes that no modelled transaction makes: time passes, staff edit the reference data. -/
inductive EnvChange where
  | tick (ms : Nat)
  | reference (r : Reference)

def World.env (w : World) : EnvChange → World
  | .tick ms => { w with now := w.now + ms }
  | .reference r => { w with db := { w.db with ref := r } }

/-- Postgres as the services see it. -/
abbrev postgres : Txn.Engine where
  World := World
  Write := Write
  Key := Key
  Stmt := Stmt
  Res := Stmt.Res
  Input := Nat
  Env := EnvChange
  Err := Failure
  decKey := inferInstance
  apply := Write.apply
  env := World.env
  exec := Stmt.exec
  locks := Stmt.locks
  effect := fun s _ w => s.effect w

/-! ## 5. Transactions -/

/-- The body of a `prisma.$transaction`. -/
abbrev Tx (α : Type) := Txn.Prog postgres α

namespace Tx

def query (q : Query) : Tx q.Res := .lift (E := postgres) (.read q)

def now : Tx Time := query .now

def sectionFindUnique (id : SectionId) : Tx (Option SectionJoin) := query (.sectionFindUnique id)

def userFindUnique (id : UserId) : Tx (Option User) := query (.userFindUnique id)

def registrationWindowFindUnique (t : TermId) (c : ClassStanding) :
    Tx (Option RegistrationWindow) := query (.registrationWindowFindUnique t c)

def advisorHoldFindFirst (u : UserId) : Tx (Option AdvisorHold) := query (.advisorHoldFindFirst u)

def enrollmentFindUnique (id : EnrollmentId) : Tx (Option EnrollmentJoin) :=
  query (.enrollmentFindUnique id)

def enrollmentFindFirst (w : EnrollmentWhere) : Tx (Option EnrollmentJoin) :=
  query (.enrollmentFindFirst w)

def enrollmentFindMany (w : EnrollmentWhere) : Tx (List EnrollmentJoin) :=
  query (.enrollmentFindMany w)

def enrollmentFindManyByPosition (w : EnrollmentWhere) : Tx (List EnrollmentJoin) :=
  query (.enrollmentFindManyByPosition w)

def enrollmentCount (w : EnrollmentWhere) : Tx Nat := query (.enrollmentCount w)

def enrollmentMaxPosition (w : EnrollmentWhere) : Tx (Option Int) :=
  query (.enrollmentMaxPosition w)

def coursePrerequisiteFindMany (c : CourseId) : Tx (List CourseId) :=
  query (.coursePrerequisiteFindMany c)

def overloadApprovalFindUnique (u : UserId) (t : TermId) : Tx (Option OverloadApproval) :=
  query (.overloadApprovalFindUnique u t)

def sectionForUpdate (id : SectionId) : Tx (Option SectionJoin) :=
  .lift (E := postgres) (.sectionForUpdate id)

def enrollmentCreate (d : EnrollmentCreate) : Tx Enrollment :=
  .lift (E := postgres) (.enrollmentCreate d)

def enrollmentUpdate (id : EnrollmentId) (d : EnrollmentData) : Tx Enrollment :=
  .lift (E := postgres) (.enrollmentUpdate id d)

def enrollmentUpdateMany (id : EnrollmentId) (status : EnrollmentStatus) (d : EnrollmentData) :
    Tx Nat := .lift (E := postgres) (.enrollmentUpdateMany id status d)

def sectionUpdate (id : SectionId) (d : SectionData) : Tx SectionJoin :=
  .lift (E := postgres) (.sectionUpdate id d)

/-- `NotificationsService.createInTx`. -/
def createInTx (d : NotificationCreate) : Tx Unit :=
  .lift (E := postgres) (.notificationCreate d)

/-- `AuditService.recordEvent`. -/
def recordEvent (p : RecordEventParams) : Tx Unit := .lift (E := postgres) (.auditOutboxCreate p)

end Tx

end Enroll
