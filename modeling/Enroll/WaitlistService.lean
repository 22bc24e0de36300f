/-
# Promotion, reorder and expiry

The transactions of `WaitlistService` and `SectionsService.update`, and the service that the
whole API is to its database: one request type with a program for each request.

A promotion job may run for any section at any time, and so may the expiry of a section's
waitlist (the hourly job picks sections whose term has closed, then expires them one transaction
each).
-/
import Enroll.EnrollmentService
import Enroll.Txn.System

namespace Enroll

open Txn (Prog)

/-! ## 1. Reorder -/

/-- The body of `PATCH /sections/:id/waitlist`; the DTO's `@ArrayUnique` is `unique`. -/
structure ReorderWaitlistDto where
  orderedEnrollmentIds : List EnrollmentId
  unique : orderedEnrollmentIds.Nodup

/-- `currentSet.size === submittedSet.size && currentIds.every((id) => submittedSet.has(id))`. -/
def sameMembers (currentIds submitted : List EnrollmentId) : Bool :=
  currentIds.dedup.length == submitted.dedup.length && currentIds.all (submitted.contains ·)

/-- `{ waitlistPosition: i + 1 }`. -/
def placeAt (i : Nat) : EnrollmentData := { waitlistPosition := some (some (i + 1 : Nat)) }

/-- `update({ where: { id }, data: { waitlistPosition: i + 1 } })`. -/
def renumber (p : EnrollmentId × Nat) : Tx Unit := do
  let _ ← Tx.enrollmentUpdate p.1 (placeAt p.2)
  pure ()

/-- The audit row of a reorder. -/
def reorderedEvent (sectionId : SectionId) (actor : RequestActor)
    (currentIds submitted : List EnrollmentId) : RecordEventParams :=
  { action := .WAITLIST_REORDERED, actor := actor.audit, target := .sectionTarget sectionId
    before := some { orderedEnrollmentIds := some currentIds }
    after := some { orderedEnrollmentIds := some submitted } }

/-- The submitted order replaces the current one, if it lists the same rows. -/
def replaceOrder (sectionId : SectionId) (dto : ReorderWaitlistDto) (actor : RequestActor)
    (currentIds : List EnrollmentId) : Tx Unit := do
  Prog.throwIf (!sameMembers currentIds dto.orderedEnrollmentIds) (conflict .WAITLIST_CHANGED
    "The waitlist changed since it was loaded. Reload and try again.")
  Prog.each dto.orderedEnrollmentIds.zipIdx renumber
  Tx.recordEvent (reorderedEvent sectionId actor currentIds dto.orderedEnrollmentIds)

/-- `WaitlistService.reorder`, the transaction. -/
def reorder (sectionId : SectionId) (dto : ReorderWaitlistDto) (actor : RequestActor) :
    Tx Unit := do
  let locked ← Tx.sectionForUpdate sectionId
  let _ ← Prog.orThrow locked (notFound .SECTION_NOT_FOUND "Section does not exist.")
  let current ← Tx.enrollmentFindManyByPosition
    { sectionId := some sectionId, status := some [.WAITLISTED] }
  replaceOrder sectionId dto actor (current.map (fun c => c.row.id))

/-! ## 2. Promotion -/

/-- The actor of a background job. -/
def systemActor : AuditActor := ⟨none, none, none⟩

/-- The columns of a promotion. -/
def promotion (enrolledAt : Time) : EnrollmentData :=
  { status := some .ENROLLED, enrolledAt := some enrolledAt, waitlistPosition := some none }

/-- The message to a promoted student. -/
def promotedNotice (sec : SectionJoin) (updated : Enrollment) : NotificationCreate :=
  { userId := updated.studentId, type := .WAITLIST_PROMOTED
    title := "You were enrolled from the waitlist"
    body := s!"A seat opened in {sec.course.code} section {sec.sec.sectionNumber} and you were enrolled automatically."
    payload :=
      { enrollmentId := updated.id, sectionId := updated.sectionId
        courseId := some sec.sec.courseId } }

/-- The audit row of a promotion. -/
def promotedEvent (next updated : Enrollment) : RecordEventParams :=
  { action := .ENROLLMENT_PROMOTED, actor := systemActor, target := .enrollmentTarget updated.id
    before := some
      { status := some .WAITLISTED, waitlistPosition := some next.waitlistPosition }
    after := some { status := some .ENROLLED, sectionId := some updated.sectionId } }

/-- One turn of the promotion loop, for the row at the head of the waitlist. -/
def promote (sec : SectionJoin) (next : Enrollment) : Tx Unit := do
  let enrolledAt ← Tx.now
  let updated ← Tx.enrollmentUpdate next.id (promotion enrolledAt)
  Tx.createInTx (promotedNotice sec updated)
  Tx.recordEvent (promotedEvent next updated)

/-- `findFirst({ where: { sectionId, status: WAITLISTED }, orderBy: { waitlistPosition: 'asc' } })`. -/
def waitlistHead (sectionId : SectionId) : Tx (Option EnrollmentJoin) := do
  let rows ← Tx.enrollmentFindManyByPosition
    { sectionId := some sectionId, status := some [.WAITLISTED] }
  pure rows.head?

/-- The promotion loop: `while (count < sec.capacity) { .. }`.  Every turn takes a seat, so
`turns` is the number of open seats it starts with. -/
def promoteLoop (sec : SectionJoin) (sectionId : SectionId) :
    (turns : Nat) → (count : Int) → (promoted : Nat) → Tx (Int × Nat)
  | 0, count, promoted => pure (count, promoted)
  | turns + 1, count, promoted =>
    if count < sec.sec.capacity then do
      let next ← waitlistHead sectionId
      match next with
      | none => pure (count, promoted)
      | some head => do
        promote sec head.row
        promoteLoop sec sectionId turns (count + 1) (promoted + 1)
    else pure (count, promoted)

/-- `{ enrolledCount: count }`. -/
def counterSet (count : Int) : SectionData := { enrolledCount := some (.set count) }

/-- The counter is written back once, as the value the loop ended with. -/
def storeCount (sectionId : SectionId) (count : Int) (promoted : Nat) : Tx Unit :=
  if promoted > 0 then do
    let _ ← Tx.sectionUpdate sectionId (counterSet count)
    pure ()
  else pure ()

/-- The body of `runPromotion` once the section is locked. -/
def promoteLocked (sec : SectionJoin) (sectionId : SectionId) : Tx Unit := do
  let now ← Tx.now
  if sec.term.registrationCloses < now then pure ()
  else do
    let seats := (sec.sec.capacity - sec.sec.enrolledCount).toNat
    let done ← promoteLoop sec sectionId seats sec.sec.enrolledCount 0
    storeCount sectionId done.1 done.2

/-- `WaitlistService.runPromotion`. -/
def runPromotion (sectionId : SectionId) : Tx Unit := do
  let locked ← Tx.sectionForUpdate sectionId
  match locked with
  | none => pure ()
  | some sec => promoteLocked sec sectionId

/-! ## 3. Expiry -/

/-- The audit row of an expiry. -/
def expiredEvent (row : Enrollment) : RecordEventParams :=
  { action := .ENROLLMENT_WAITLIST_EXPIRED, actor := systemActor, target := .enrollmentTarget row.id
    before := some
      { status := some .WAITLISTED, waitlistPosition := some row.waitlistPosition }
    after := some { status := some .DROPPED }
    metadata := { reason := some "REGISTRATION_CLOSED" } }

/-- The message to a student whose wait is over. -/
def expiredNotice (sectionId : SectionId) (row : Enrollment) : NotificationCreate :=
  { userId := row.studentId, type := .WAITLIST_EXPIRED
    title := "Your waitlist spot expired"
    body := "Registration closed before a seat opened, so you were removed from the waitlist."
    payload := { enrollmentId := row.id, sectionId := sectionId, courseId := none } }

/-- One row of an expired waitlist. -/
def expireRow (sectionId : SectionId) (row : Enrollment) : Tx Unit := do
  let droppedAt ← Tx.now
  let _ ← Tx.enrollmentUpdate row.id (departure droppedAt)
  Tx.recordEvent (expiredEvent row)
  Tx.createInTx (expiredNotice sectionId row)

/-- `WaitlistService.expireSectionWaitlist`. -/
def expireSectionWaitlist (sectionId : SectionId) : Tx Unit := do
  let locked ← Tx.sectionForUpdate sectionId
  match locked with
  | none => pure ()
  | some _ => do
    let rows ← Tx.enrollmentFindMany
      { sectionId := some sectionId, status := some [.WAITLISTED] }
    Prog.each (rows.map EnrollmentJoin.row) (expireRow sectionId)

/-! ## 4. Section updates -/

/-- The body of `PATCH /sections/:id`.  Outer `none`: the key is absent; `some none`: null, which
`@IsOptional` lets through.  `@Min` is the two proofs. -/
structure UpdateSectionDto where
  capacity : Option (Option Int)
  waitlistCap : Option (Option Int)
  capacity_min : ∀ n, capacity = some (some n) → 1 ≤ n
  waitlistCap_min : ∀ n, waitlistCap = some (some n) → 0 ≤ n

structure SectionSummaryDto where
  id : SectionId
  sectionNumber : String
  courseId : CourseId
  courseCode : String
  capacity : Int
  enrolledCount : Int
  seatsAvailable : Int
  waitlistCount : Nat
  waitlistCap : Option Int
  deriving DecidableEq, Repr

/-- `SectionsService.toSummary`. -/
def toSummary (s : SectionJoin) (waitlistCount : Nat) : SectionSummaryDto where
  id := s.sec.id
  sectionNumber := s.sec.sectionNumber
  courseId := s.sec.courseId
  courseCode := s.course.code
  capacity := s.sec.capacity
  enrolledCount := s.sec.enrolledCount
  seatsAvailable := max 0 (s.sec.capacity - s.sec.enrolledCount)
  waitlistCount := waitlistCount
  waitlistCap := s.sec.waitlistCap

/-- What the transaction of `update` returns. -/
structure SectionUpdated where
  summary : SectionSummaryDto
  capacityIncreased : Bool
  deriving DecidableEq, Repr

/-- `{ capacity, waitlistCap }`. -/
def limits (capacity : Int) (waitlistCap : Option Int) : SectionData :=
  { capacity := some capacity, waitlistCap := some waitlistCap }

/-- The audit row of a section update. -/
def sectionUpdatedEvent (sectionId : SectionId) (actor : RequestActor) (current : Section)
    (capacity : Int) (waitlistCap : Option Int) : RecordEventParams :=
  { action := .SECTION_UPDATED, actor := actor.audit, target := .sectionTarget sectionId
    before := some
      { capacity := some current.capacity, waitlistCap := some current.waitlistCap }
    after := some { capacity := some capacity, waitlistCap := some waitlistCap } }

/-- `SectionsService.update`. -/
def updateSection (sectionId : SectionId) (dto : UpdateSectionDto) (actor : RequestActor) :
    Tx SectionUpdated := do
  Prog.throwIf (dto.capacity.isNone ∧ dto.waitlistCap.isNone) (badRequest .NO_FIELDS
    "Provide capacity, waitlistCap, or both.")
  let locked ← Tx.sectionForUpdate sectionId
  let current ← Prog.orThrow locked (notFound .SECTION_NOT_FOUND "Section does not exist.")
  let newCapacity := (dto.capacity.getD none).getD current.sec.capacity
  Prog.throwIf (newCapacity < current.sec.enrolledCount) (badRequest .CAPACITY_BELOW_ENROLLED
    s!"Capacity {newCapacity} is below the {current.sec.enrolledCount} students already enrolled.")
  let newWaitlistCap := dto.waitlistCap.getD current.sec.waitlistCap
  let updated ← Tx.sectionUpdate sectionId (limits newCapacity newWaitlistCap)
  Tx.recordEvent (sectionUpdatedEvent sectionId actor current.sec newCapacity newWaitlistCap)
  let waitlistCount ← Tx.enrollmentCount
    { sectionId := some sectionId, status := some [.WAITLISTED] }
  pure ⟨toSummary updated waitlistCount, newCapacity > current.sec.capacity⟩

/-! ## 5. The service -/

inductive Op where
  | enroll (input : EnrollDto) (userId : UserId) (actor : RequestActor)
  | drop (enrollmentId : EnrollmentId) (userId : UserId) (actor : RequestActor)
  | swap (enrollmentId : EnrollmentId) (input : SwapDto) (userId : UserId) (actor : RequestActor)
  | runPromotion (sectionId : SectionId)
  | reorder (sectionId : SectionId) (dto : ReorderWaitlistDto) (actor : RequestActor)
  | expireSectionWaitlist (sectionId : SectionId)
  | updateSection (sectionId : SectionId) (dto : UpdateSectionDto) (actor : RequestActor)

inductive Out where
  | enrollment (r : EnrollmentResultDto)
  | freed (f : FreedSeat)
  | done
  | updated (s : SectionUpdated)

/-- The transaction of each request. -/
def Op.body : Op → Tx Out
  | enroll input userId actor => do
    let r ← Enroll.enroll input userId actor
    pure (.enrollment r)
  | drop enrollmentId userId actor => do
    let f ← Enroll.drop enrollmentId userId actor
    pure (.freed f)
  | swap enrollmentId input userId actor => do
    let f ← Enroll.swap enrollmentId input userId actor
    pure (.freed f)
  | runPromotion sectionId => do
    Enroll.runPromotion sectionId
    pure .done
  | reorder sectionId dto actor => do
    Enroll.reorder sectionId dto actor
    pure .done
  | expireSectionWaitlist sectionId => do
    Enroll.expireSectionWaitlist sectionId
    pure .done
  | updateSection sectionId dto actor => do
    let s ← Enroll.updateSection sectionId dto actor
    pure (.updated s)

/-- The registration API on its database. -/
abbrev registrar : Txn.Service postgres where
  Op := Op
  Out := Out
  body := Op.body

/-- The database with any number of open registration transactions. -/
abbrev Sys := Txn.Sys registrar

end Enroll
