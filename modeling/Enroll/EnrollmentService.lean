/-
# Enroll, drop and swap

`EnrollmentService`, method by method, as programs of statements.  The bodies follow the source's
numbered steps; the checks that `enroll` and `swap` both carry are one definition with the
member's own values as parameters (`registrationGate`, `prerequisiteGate`, `creditGate`).

Left out are the Prometheus counters and the logger, which no result depends on, and the job that
is enqueued after the commit: `drop` and `swap` return the section it is for
(`freedSeatSectionId`).
-/
import Enroll.Store
import Enroll.TimeConflict

namespace Enroll

open Txn (Prog)

/-! ## 1. Requests and results -/

structure RequestActor where
  userId : UserId
  ipAddress : Option String
  userAgent : Option String
  deriving DecidableEq, Repr

def RequestActor.audit (a : RequestActor) : AuditActor := ⟨some a.userId, a.ipAddress, a.userAgent⟩

/-- `{ userId, ipAddress: actor.ipAddress, userAgent: actor.userAgent }`. -/
def RequestActor.auditAs (a : RequestActor) (userId : UserId) : AuditActor :=
  ⟨some userId, a.ipAddress, a.userAgent⟩

structure EnrollDto where
  sectionId : SectionId
  deriving DecidableEq, Repr

structure SwapDto where
  targetSectionId : SectionId
  deriving DecidableEq, Repr

structure EnrollmentResultDto where
  id : EnrollmentId
  studentId : UserId
  sectionId : SectionId
  status : EnrollmentStatus
  enrolledAt : Time
  waitlistPosition : Option Nat := none
  sectionEnrolledCount : Int
  sectionCapacity : Int
  droppedAt : Option Time := none
  deriving DecidableEq, Repr

/-- What the transaction of `drop` and `swap` returns. -/
structure FreedSeat where
  result : EnrollmentResultDto
  freedSeatSectionId : Option SectionId
  deriving DecidableEq, Repr

/-! ## 2. Ranks and positions

The three helpers of `WaitlistService` that `enroll` calls inside its transaction. -/

/-- `WaitlistService.assignPosition`. -/
def assignPosition (sectionId : SectionId) : Tx Int := do
  let max ← Tx.enrollmentMaxPosition
    { sectionId := some sectionId, status := some [.WAITLISTED] }
  pure (max.getD 0 + 1)

/-- `WaitlistService.computeRank`. -/
def computeRank (sectionId : SectionId) (waitlistPosition : Int) : Tx Nat :=
  Tx.enrollmentCount
    { sectionId := some sectionId, status := some [.WAITLISTED],
      waitlistPositionLte := some waitlistPosition }

/-! ## 3. Checks shared by enroll and swap -/

/-- The student's own window, if the term has one for their standing. -/
def registrationWindow (termId : TermId) : Option ClassStanding → Tx (Option RegistrationWindow)
  | some standing => Tx.registrationWindowFindUnique termId standing
  | none => pure none

def registrationNotOpen (standing : Option ClassStanding) (opens : Time) : Failure :=
  badRequest .REGISTRATION_NOT_OPEN <|
    match standing with
    | some c => s!"Registration for {c.toLowerCase}s opens {toISOString opens}."
    | none => s!"Registration opens {toISOString opens}."

/-- The student's window is open and no advisor holds the student back. -/
def openGate (sec : SectionJoin) (userId : UserId) (now : Time)
    (standing : Option ClassStanding) (window : Option RegistrationWindow) : Tx Unit := do
  let effectiveOpens := (window.map RegistrationWindow.opensAt).getD sec.term.registrationOpens
  Prog.throwIf (now < effectiveOpens) (registrationNotOpen standing effectiveOpens)
  let hold ← Tx.advisorHoldFindFirst userId
  match hold with
  | some h =>
    Prog.throw (badRequest .ADVISOR_HOLD s!"Registration blocked by advisor hold: {h.reason}")
  | none => pure ()

/-- Steps 1 to 2c: the term is not closed, the student exists, the window is open, no hold. -/
def registrationGate (sec : SectionJoin) (userId : UserId) (closed : String) : Tx Unit := do
  let now ← Tx.now
  Prog.throwIf (sec.term.registrationCloses < now) (badRequest .REGISTRATION_CLOSED closed)
  let found ← Tx.userFindUnique userId
  let student ← Prog.orThrow found (notFound .STUDENT_NOT_FOUND "Student does not exist.")
  let window ← registrationWindow sec.sec.termId student.classStanding
  openGate sec userId now student.classStanding window

/-- Every prerequisite of the course is the course of a COMPLETED row of the student. -/
def prerequisiteGate (courseId : CourseId) (userId : UserId) (message : String) : Tx Unit := do
  let prereqs ← Tx.coursePrerequisiteFindMany courseId
  if prereqs.length > 0 then
    let completedRows ← Tx.enrollmentFindMany
      { studentId := some userId, status := some [.COMPLETED] }
    let completed := completedRows.map (fun r => r.sec.courseId)
    let missing := prereqs.filter (fun p => !completed.contains p)
    Prog.throwIf (missing.length > 0) (badRequest .PREREQUISITE_NOT_MET message)
  else pure ()

/-- The first section of `existing` that meets when `pattern` does stops the request. -/
def timeConflictGate (pattern : String) (existing : List EnrollmentJoin) : Tx Unit :=
  match existing.find? (fun e => hasTimeConflict pattern e.sec.meetingPattern) with
  | some e =>
    Prog.throw (conflict .TIME_CONFLICT
      s!"Schedule conflict with {e.course.code} section {e.sec.sectionNumber}.")
  | none => pure ()

/-- `existing.reduce((sum, e) => sum + e.section.course.credits, 0)`. -/
def creditSum (existing : List EnrollmentJoin) : Int :=
  existing.foldl (fun sum e => sum + e.course.credits) 0

/-- The credits of `existing` and of `sec` together stay within the student's cap. -/
def creditGate (sec : SectionJoin) (userId : UserId) (existing : List EnrollmentJoin) :
    Tx Unit := do
  let currentCredits := creditSum existing
  let overload ← Tx.overloadApprovalFindUnique userId sec.sec.termId
  let creditCap := (overload.map OverloadApproval.maxCredits).getD sec.term.maxCredits
  let proposed := currentCredits + sec.course.credits
  Prog.throwIf (proposed > creditCap) (badRequest .CREDIT_LIMIT_EXCEEDED
    s!"Adding {sec.course.credits} credits would bring you to {proposed}, exceeding the {creditCap} credit limit.")

/-- The new section fits beside `existing`: no meeting overlaps, the credits suffice. -/
def scheduleGate (sec : SectionJoin) (userId : UserId) (existing : List EnrollmentJoin) :
    Tx Unit := do
  timeConflictGate sec.sec.meetingPattern existing
  creditGate sec userId existing

def activeStatuses : List EnrollmentStatus := [.ENROLLED, .WAITLISTED]

/-- `where` of the student's active rows in one term. -/
def activeInTerm (userId : UserId) (termId : TermId) : EnrollmentWhere :=
  { studentId := some userId, status := some activeStatuses, termId := some termId }

/-! ## 4. Enroll -/

/-- A repeat request converges on the row the student already holds. -/
def alreadyActive (live : SectionJoin) (input : EnrollDto) (active : Enrollment) :
    Tx EnrollmentResultDto :=
  let result : EnrollmentResultDto :=
    { id := active.id, studentId := active.studentId, sectionId := active.sectionId
      status := active.status, enrolledAt := active.enrolledAt
      sectionEnrolledCount := live.sec.enrolledCount, sectionCapacity := live.sec.capacity }
  match active.status, active.waitlistPosition with
  | .WAITLISTED, some position => do
    let rank ← computeRank input.sectionId position
    pure { result with waitlistPosition := some rank }
  | _, _ => pure result

/-- `where` of an active row in another section of the course. -/
def sameCourseElsewhere (userId : UserId) (courseId : CourseId) (sectionId : SectionId) :
    EnrollmentWhere :=
  { studentId := some userId, status := some activeStatuses, courseId := some courseId,
    notSectionId := some sectionId }

/-- Same-course duplicate, prerequisites, time conflicts, credit limit. -/
def enrollEligibility (sec : SectionJoin) (input : EnrollDto) (userId : UserId) : Tx Unit := do
  let sameCourse ← Tx.enrollmentFindFirst
    (sameCourseElsewhere userId sec.sec.courseId input.sectionId)
  Prog.throwIf sameCourse.isSome (conflict .DUPLICATE_COURSE
    "You are already enrolled in another section of this course.")
  prerequisiteGate sec.sec.courseId userId "You have not completed all prerequisite courses."
  let myActive ← Tx.enrollmentFindMany (activeInTerm userId sec.sec.termId)
  scheduleGate sec userId (myActive.filter (fun e => e.row.sectionId != input.sectionId))

/-- `data` of the row that takes a seat. -/
def seatRow (userId : UserId) (sectionId : SectionId) : EnrollmentCreate :=
  { studentId := userId, sectionId := sectionId, status := .ENROLLED }

/-- `{ enrolledCount: { increment: n } }`. -/
def counter (n : Int) : SectionData := { enrolledCount := some (.increment n) }

/-- The audit row of a seat taken. -/
def createdEvent (userId : UserId) (actor : RequestActor) (enrollment : Enrollment) :
    RecordEventParams :=
  { action := .ENROLLMENT_CREATED, actor := actor.auditAs userId
    target := .enrollmentTarget enrollment.id, before := none
    after := some { sectionId := some enrollment.sectionId, status := some enrollment.status } }

/-- Seat available means enroll. -/
def takeSeat (input : EnrollDto) (userId : UserId) (actor : RequestActor) :
    Tx EnrollmentResultDto := do
  let enrollment ← Tx.enrollmentCreate (seatRow userId input.sectionId)
  let updated ← Tx.sectionUpdate input.sectionId (counter 1)
  Tx.recordEvent (createdEvent userId actor enrollment)
  pure
    { id := enrollment.id, studentId := enrollment.studentId, sectionId := enrollment.sectionId
      status := enrollment.status, enrolledAt := enrollment.enrolledAt
      sectionEnrolledCount := updated.sec.enrolledCount, sectionCapacity := updated.sec.capacity }

/-- `SECTION_FULL` means no seat and no waitlist space. -/
def waitlistCapGate (live : SectionJoin) (input : EnrollDto) : Tx Unit :=
  match live.sec.waitlistCap with
  | none => pure ()
  | some cap => do
    let waiting ← Tx.enrollmentCount
      { sectionId := some input.sectionId, status := some [.WAITLISTED] }
    Prog.throwIf ((waiting : Int) ≥ cap) (conflict .SECTION_FULL
      "Section and its waitlist are full.")

/-- `data` of the row that joins the waitlist. -/
def queueRow (userId : UserId) (sectionId : SectionId) (position : Int) : EnrollmentCreate :=
  { studentId := userId, sectionId := sectionId, status := .WAITLISTED,
    waitlistPosition := some position }

/-- The audit row of a place in the queue. -/
def waitlistedEvent (userId : UserId) (actor : RequestActor) (enrollment : Enrollment)
    (position : Int) : RecordEventParams :=
  { action := .ENROLLMENT_WAITLISTED, actor := actor.auditAs userId
    target := .enrollmentTarget enrollment.id, before := none
    after := some
      { sectionId := some enrollment.sectionId, status := some enrollment.status
        waitlistPosition := some (some position) } }

/-- Section full: a row at the next sparse position. -/
def joinWaitlist (live : SectionJoin) (input : EnrollDto) (userId : UserId)
    (actor : RequestActor) : Tx EnrollmentResultDto := do
  waitlistCapGate live input
  let position ← assignPosition input.sectionId
  let enrollment ← Tx.enrollmentCreate (queueRow userId input.sectionId position)
  let rank ← computeRank input.sectionId position
  Tx.recordEvent (waitlistedEvent userId actor enrollment position)
  pure
    { id := enrollment.id, studentId := enrollment.studentId, sectionId := enrollment.sectionId
      status := enrollment.status, enrolledAt := enrollment.enrolledAt
      sectionEnrolledCount := live.sec.enrolledCount, sectionCapacity := live.sec.capacity
      waitlistPosition := some rank }

/-- `EnrollmentService.enroll`. -/
def enroll (input : EnrollDto) (userId : UserId) (actor : RequestActor) :
    Tx EnrollmentResultDto := do
  let found ← Tx.sectionFindUnique input.sectionId
  let sec ← Prog.orThrow found (notFound .SECTION_NOT_FOUND "Section does not exist.")
  registrationGate sec userId "Registration has closed for the section's term."
  -- 3. Take the row lock and re-read seats.
  let locked ← Tx.sectionForUpdate input.sectionId
  let live ← Prog.orThrow locked
    (notFound .SECTION_NOT_FOUND "Section disappeared mid-enrollment.")
  let active ← Tx.enrollmentFindFirst
    { studentId := some userId, sectionId := some input.sectionId, status := some activeStatuses }
  match active with
  | some row => alreadyActive live input row.row
  | none =>
    enrollEligibility sec input userId
    if live.sec.enrolledCount < live.sec.capacity then takeSeat input userId actor
    else joinWaitlist live input userId actor

/-! ## 5. Drop -/

/-- The columns of a departure. -/
def departure (droppedAt : Time) : EnrollmentData :=
  { status := some .DROPPED, droppedAt := some droppedAt, waitlistPosition := some none }

/-- The audit row of a drop: a seat given up, or a place in the queue. -/
def dropEvent (actor : RequestActor) (current : Enrollment) : RecordEventParams :=
  if current.status = .ENROLLED then
    { action := .ENROLLMENT_DROPPED, actor := actor.audit, target := .enrollmentTarget current.id
      before := some { sectionId := some current.sectionId, status := some current.status }
      after := some { sectionId := some current.sectionId, status := some .DROPPED } }
  else
    { action := .ENROLLMENT_WAITLIST_LEFT, actor := actor.audit
      target := .enrollmentTarget current.id
      before := some
        { status := some current.status, waitlistPosition := some current.waitlistPosition }
      after := some { status := some .DROPPED } }

/-- The counter goes down when a seat was freed; otherwise the section is only read. -/
def releaseSeat (freedSeat : Bool) (sectionId : SectionId) : Tx (Option SectionJoin) :=
  if freedSeat then do
    let updated ← Tx.sectionUpdate sectionId (counter (-1))
    pure (some updated)
  else Tx.sectionFindUnique sectionId

/-- `EnrollmentService.drop`; `userId` is not used by the source either. -/
def drop (enrollmentId : EnrollmentId) (_userId : UserId) (actor : RequestActor) :
    Tx FreedSeat := do
  let found ← Tx.enrollmentFindUnique enrollmentId
  let enrollment ← Prog.orThrow found enrollmentNotFound
  let _ ← Tx.sectionForUpdate enrollment.row.sectionId
  -- Authoritative status read under the lock.
  let reread ← Tx.enrollmentFindUnique enrollmentId
  let current ← Prog.orThrow reread enrollmentNotFound
  Prog.throwIf (!current.row.active) (badRequest .ALREADY_DROPPED
    s!"Cannot drop an enrollment in status {current.row.status.text}.")
  let fromStatus := current.row.status
  let droppedAt ← Tx.now
  let transitioned ← Tx.enrollmentUpdateMany enrollmentId fromStatus (departure droppedAt)
  Prog.throwIf (transitioned = 0) (conflict .ALREADY_DROPPED
    "This enrollment was already dropped.")
  let freedSeat := fromStatus == .ENROLLED
  let sec ← releaseSeat freedSeat current.row.sectionId
  Tx.recordEvent (dropEvent actor current.row)
  pure
    { result :=
        { id := current.row.id, studentId := current.row.studentId
          sectionId := current.row.sectionId, status := .DROPPED
          enrolledAt := current.row.enrolledAt, droppedAt := some droppedAt
          sectionEnrolledCount := (sec.map (fun s => s.sec.enrolledCount)).getD 0
          sectionCapacity := (sec.map (fun s => s.sec.capacity)).getD 0 }
      freedSeatSectionId := if freedSeat then some current.row.sectionId else none }

/-! ## 6. Swap -/

/-- Swapping to the same section is a no-op. -/
def swapSame (source : EnrollmentJoin) : Tx FreedSeat := do
  let sec ← Tx.sectionFindUnique source.row.sectionId
  pure
    { result :=
        { id := source.row.id, studentId := source.row.studentId
          sectionId := source.row.sectionId, status := source.row.status
          enrolledAt := source.row.enrolledAt
          sectionEnrolledCount := (sec.map (fun s => s.sec.enrolledCount)).getD 0
          sectionCapacity := (sec.map (fun s => s.sec.capacity)).getD 0 }
      freedSeatSectionId := none }

/-- `SELECT .. WHERE id IN (a, b) ORDER BY id FOR UPDATE`: one lock, then the other. -/
def lockBoth (a b : SectionId) : Tx Unit := do
  let _ ← Tx.sectionForUpdate (min a b)
  let _ ← Tx.sectionForUpdate (max a b)
  pure ()

/-- `where` of an active row in the target course beside the source row. -/
def sameCourseBeside (userId : UserId) (courseId : CourseId) (enrollmentId : EnrollmentId) :
    EnrollmentWhere :=
  { studentId := some userId, status := some activeStatuses, courseId := some courseId,
    notId := some enrollmentId }

/-- Duplicate and prerequisite checks, skipped within one course. -/
def crossCourseGate (enrollmentId : EnrollmentId) (source : EnrollmentJoin)
    (target : SectionJoin) (userId : UserId) : Tx Unit :=
  if source.sec.courseId = target.sec.courseId then pure ()
  else do
    let dup ← Tx.enrollmentFindFirst
      (sameCourseBeside userId target.sec.courseId enrollmentId)
    Prog.throwIf dup.isSome (conflict .DUPLICATE_COURSE
      "You are already enrolled in another section of the target course.")
    prerequisiteGate target.sec.courseId userId
      "You have not completed all prerequisite courses for the target section."

/-- Step 5: the checks against the target, with the source row set aside. -/
def swapEligibility (enrollmentId : EnrollmentId) (source : EnrollmentJoin)
    (target : SectionJoin) (userId : UserId) : Tx Unit := do
  crossCourseGate enrollmentId source target userId
  let myActive ← Tx.enrollmentFindMany
    { activeInTerm userId target.sec.termId with notId := some enrollmentId }
  scheduleGate target userId myActive

/-- The source's seat is given up if it was one. -/
def vacate (wasEnrolled : Bool) (sectionId : SectionId) : Tx Unit :=
  if wasEnrolled then do
    let _ ← Tx.sectionUpdate sectionId (counter (-1))
    pure ()
  else pure ()

/-- The audit row of a swap. -/
def swappedEvent (userId : UserId) (actor : RequestActor) (source lockedSource : Enrollment)
    (newEnrollment : Enrollment) : RecordEventParams :=
  { action := .ENROLLMENT_SWAPPED, actor := actor.auditAs userId
    target := .enrollmentTarget newEnrollment.id
    before := some
      { enrollmentId := some source.id, sectionId := some source.sectionId
        status := some lockedSource.status }
    after := some
      { enrollmentId := some newEnrollment.id, sectionId := some newEnrollment.sectionId
        status := some newEnrollment.status } }

/-- Step 6. -/
def swapExecute (enrollmentId : EnrollmentId) (source : EnrollmentJoin)
    (lockedSource : Enrollment) (input : SwapDto) (userId : UserId) (actor : RequestActor) :
    Tx FreedSeat := do
  let wasEnrolled := lockedSource.status == .ENROLLED
  let droppedAt ← Tx.now
  let _ ← Tx.enrollmentUpdate enrollmentId (departure droppedAt)
  vacate wasEnrolled source.row.sectionId
  let newEnrollment ← Tx.enrollmentCreate (seatRow userId input.targetSectionId)
  let updatedTarget ← Tx.sectionUpdate input.targetSectionId (counter 1)
  Tx.recordEvent (swappedEvent userId actor source.row lockedSource newEnrollment)
  pure
    { result :=
        { id := newEnrollment.id, studentId := newEnrollment.studentId
          sectionId := newEnrollment.sectionId, status := newEnrollment.status
          enrolledAt := newEnrollment.enrolledAt
          sectionEnrolledCount := updatedTarget.sec.enrolledCount
          sectionCapacity := updatedTarget.sec.capacity }
      freedSeatSectionId := if wasEnrolled then some source.row.sectionId else none }

/-- The part of `swap` for two different sections. -/
def swapInto (enrollmentId : EnrollmentId) (source : EnrollmentJoin) (input : SwapDto)
    (userId : UserId) (actor : RequestActor) : Tx FreedSeat := do
  let found ← Tx.sectionFindUnique input.targetSectionId
  let target ← Prog.orThrow found
    (notFound .SECTION_NOT_FOUND "Target section does not exist.")
  registrationGate target userId "Registration has closed for the target section's term."
  -- 4. Lock both sections in a consistent order to avoid deadlocks.
  lockBoth source.row.sectionId input.targetSectionId
  let reread ← Tx.enrollmentFindUnique enrollmentId
  let lockedSource ← Prog.orThrow (reread.filter (fun e => e.row.active))
    (badRequest .ALREADY_DROPPED "Source enrollment is no longer active.")
  let lockedTarget ← Tx.sectionFindUnique input.targetSectionId
  let _ ← Prog.orThrow
    (lockedTarget.filter (fun s => decide (s.sec.enrolledCount < s.sec.capacity)))
    (conflict .SWAP_TARGET_FULL "The target section has no available seats.")
  swapEligibility enrollmentId source target userId
  swapExecute enrollmentId source lockedSource.row input userId actor

/-- `EnrollmentService.swap`. -/
def swap (enrollmentId : EnrollmentId) (input : SwapDto) (userId : UserId)
    (actor : RequestActor) : Tx FreedSeat := do
  let found ← Tx.enrollmentFindUnique enrollmentId
  let source ← Prog.orThrow found enrollmentNotFound
  Prog.throwIf (!source.row.active) (badRequest .ALREADY_DROPPED
    s!"Cannot swap an enrollment in status {source.row.status.text}.")
  if source.row.sectionId = input.targetSectionId then swapSame source
  else swapInto enrollmentId source input userId actor

end Enroll
