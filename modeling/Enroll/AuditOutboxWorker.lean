/-
# Draining the audit outbox

`AuditOutboxWorker.drain` and `RetentionWorker.purgeDrainedOutbox` as programs over two stores, the
`AuditOutbox` table and the `audit_events` collection.  Every statement is committed at once; any
of them may fail, before or after it took effect, and a worker may die between any two.

`drain` begins with two guards, `SchedulerGate` and the `inFlight` flag of its process.  All they do
is to skip a tick, so there is nothing of them here: a tick begins whenever it likes, and any number
of them run at once.

`insertMany` is what Mongo promises of it: the unique index on `outboxId`, with `ordered: false` an
attempt at every document, and errors that say which were refused.  When the connection is lost
instead, any of the documents may have been stored.
-/
import Enroll.Schema
import Enroll.Txn.Autocommit

namespace Enroll.Audit

open Txn (Engine Prog Service)

/-! ## 1. Documents -/

structure EventActor where
  userId : Option UserId
  roles : List Role
  ipAddress : Option String
  userAgent : Option String
  deriving DecidableEq, Repr

/-- `AuditEventDoc`. -/
structure AuditEventDoc where
  outboxId : String
  occurredAt : String
  txCommittedAt : String
  actor : EventActor
  action : AuditAction
  target : AuditTarget
  before : Option AuditFields
  after : Option AuditFields
  metadata : AuditMetadata
  deriving DecidableEq, Repr

def outboxRowToAuditEvent (row : AuditOutbox) : AuditEventDoc where
  outboxId := toString row.id
  occurredAt := toISOString row.createdAt
  txCommittedAt := toISOString row.createdAt
  actor := ⟨row.actor.userId, [], row.actor.ipAddress, row.actor.userAgent⟩
  action := row.action
  target := row.target
  before := row.payload.before
  after := row.payload.after
  metadata := row.payload.metadata

/-! ## 2. The stores -/

/-- `committed` is a ghost: every outbox row that was ever committed, as it was then. -/
structure World where
  outbox : List AuditOutbox
  auditEvents : List AuditEventDoc
  now : Time
  committed : List AuditOutbox

/-- A row is committed, under an id that the sequence has not given out before. -/
def World.commitRow (w : World) (row : AuditOutbox) : World :=
  if w.committed.any (fun r => r.id == row.id) then w
  else
    { w with
      outbox := w.outbox ++ [{ row with drainedAt := none }]
      committed := w.committed ++ [{ row with drainedAt := none }] }

/-- What happens besides the workers: time passes, and a transaction commits some rows. -/
inductive EnvChange where
  | tick (ms : Nat)
  | commit (rows : List AuditOutbox)

def World.env (w : World) : EnvChange → World
  | .tick ms => { w with now := w.now + ms }
  | .commit rows => rows.foldl World.commitRow w

def DUPLICATE_KEY : Nat := 11000

/-- What becomes of one document of a batch. -/
inductive Fate where
  /-- it gets to the unique index -/
  | attempted
  /-- it is refused, with an error that is not about a duplicate -/
  | refused (code : Nat)
  /-- it never gets to the server -/
  | skipped
  deriving DecidableEq, Repr

/-- `insertMany`: the collection afterwards, and the code of every write error. -/
def insertDocs : List (AuditEventDoc × Fate) → List AuditEventDoc → List AuditEventDoc × List Nat
  | [], docs => (docs, [])
  | (d, .attempted) :: t, docs =>
    if docs.any (fun e => e.outboxId == d.outboxId) then
      let r := insertDocs t docs
      (r.1, DUPLICATE_KEY :: r.2)
    else insertDocs t (docs ++ [d])
  | (_, .refused code) :: t, docs =>
    let r := insertDocs t docs
    (r.1, code :: r.2)
  | (_, .skipped) :: t, docs => insertDocs t docs

/-- How the driver reports write errors: a list, or a bare one. -/
inductive WriteErrors where
  | many (codes : List Nat)
  | one (code : Option Nat)
  deriving DecidableEq, Repr

/-- What `insertMany` returns or throws. -/
inductive InsertManyResult where
  | inserted (insertedCount : Nat)
  /-- `MongoBulkWriteError` -/
  | bulkWriteError (writeErrors : WriteErrors) (insertedCount : Nat)
  /-- any other error, such as a lost connection -/
  | otherError
  deriving DecidableEq, Repr

/-- What the outside chooses when a statement runs. -/
inductive Input where
  /-- the statement succeeds -/
  | ok
  /-- it fails without having done anything -/
  | fails
  /-- it takes effect, but its caller sees an error -/
  | unheard
  /-- whether Mongo is connected -/
  | ready (database : Bool)
  /-- `insertMany` gets an answer; with `bare` a single error comes without its list, and with
  `concern` the write concern has failed as well -/
  | bulk (fates : List Fate) (bare concern : Bool)
  /-- `insertMany` gets no answer -/
  | lost (fates : List Fate)
  deriving DecidableEq, Repr

/-- The answer to a bulk write with the errors `codes`. -/
def bulkResult (codes : List Nat) (insertedCount : Nat) (bare concern : Bool) : InsertManyResult :=
  match codes, bare, concern with
  | [], _, false => .inserted insertedCount
  | [], true, true => .bulkWriteError (.one none) insertedCount
  | [code], true, _ => .bulkWriteError (.one (some code)) insertedCount
  | codes, _, _ => .bulkWriteError (.many codes) insertedCount

inductive Stmt where
  /-- `findFirst({ where: { drainedAt: null }, orderBy: { id: 'asc' } })` -/
  | findFirstUndrained
  /-- `mongo.isReady()` -/
  | isReady
  /-- `findMany({ where: { drainedAt: null }, take, orderBy: { id: 'asc' } })` -/
  | findManyUndrained (take : Nat)
  /-- `insertMany(docs, { ordered: false })` -/
  | insertMany (docs : List AuditEventDoc)
  /-- `new Date()` -/
  | now
  /-- `updateMany({ where: { id: { in: ids } }, data: { drainedAt } })` -/
  | updateManyDrained (ids : List OutboxId) (drainedAt : Time)
  /-- `deleteMany({ where: { drainedAt: { not: null, lt: cutoff } } })` -/
  | deleteManyDrained (cutoff : Time)
  deriving DecidableEq, Repr

/-- The rows still to be drained, by ascending id. -/
def World.undrained (w : World) : List AuditOutbox :=
  (w.outbox.filter (fun r => r.drainedAt.isNone)).insertionSort (fun a b => a.id ≤ b.id)

/-- The row is drained, and was so before `cutoff`. -/
def drainedBefore (cutoff : Time) (r : AuditOutbox) : Bool := r.drainedAt.any (· < cutoff)

/-- Every document has a fate, and one with an answer was not skipped and not taken for a
duplicate. -/
def Fates (docs : List AuditEventDoc) (fates : List Fate) (answered : Bool) : Bool :=
  fates.length == docs.length &&
    (!answered || fates.all (fun f => f != .skipped && f != .refused DUPLICATE_KEY))

namespace Stmt

def Res : Stmt → Type
  | findFirstUndrained => Option Time
  | isReady => Bool
  | findManyUndrained _ => List AuditOutbox
  | insertMany _ => InsertManyResult
  | now => Time
  | updateManyDrained _ _ => Nat
  | deleteManyDrained _ => Nat

/-- What a statement returns.  An error ends the tick, which catches and logs it. -/
def exec (s : Stmt) (x : Input) (w : World) : Option (Except Unit (s.Res × List Empty)) :=
  match s, x with
  | insertMany docs, .bulk fates bare concern =>
    if Fates docs fates true then
      let r := insertDocs (docs.zip fates) w.auditEvents
      some (.ok (bulkResult r.2 (r.1.length - w.auditEvents.length) bare concern, []))
    else none
  | insertMany docs, .lost fates =>
    if Fates docs fates false then some (.ok (InsertManyResult.otherError, [])) else none
  | insertMany _, _ => none
  | isReady, .ready database => some (.ok (database, []))
  | isReady, _ => none
  | now, _ => some (.ok (w.now, []))
  | findFirstUndrained, .ok => some (.ok ((w.undrained.head?).map AuditOutbox.createdAt, []))
  | findManyUndrained n, .ok => some (.ok (w.undrained.take n, []))
  | updateManyDrained ids _, .ok => some (.ok (w.outbox.countP (fun r => ids.contains r.id), []))
  | deleteManyDrained cutoff, .ok => some (.ok (w.outbox.countP (drainedBefore cutoff), []))
  | _, .fails => some (.error ())
  | _, .unheard => some (.error ())
  | _, _ => none

/-- What a statement does. -/
def effect (s : Stmt) (x : Input) (w : World) : World :=
  match s, x with
  | insertMany docs, .bulk fates _ _ =>
    { w with auditEvents := (insertDocs (docs.zip fates) w.auditEvents).1 }
  | insertMany docs, .lost fates =>
    { w with auditEvents := (insertDocs (docs.zip fates) w.auditEvents).1 }
  | updateManyDrained _ _, .fails => w
  | updateManyDrained ids drainedAt, _ =>
    { w with
      outbox := w.outbox.map fun r =>
        if ids.contains r.id then { r with drainedAt := some drainedAt } else r }
  | deleteManyDrained _, .fails => w
  | deleteManyDrained cutoff, _ =>
    { w with outbox := w.outbox.filter (fun r => !drainedBefore cutoff r) }
  | _, _ => w

end Stmt

/-- Postgres and Mongo, one statement at a time. -/
abbrev auditStore : Engine where
  World := World
  Write := Empty
  Key := Empty
  Stmt := Stmt
  Res := Stmt.Res
  Input := Input
  Env := EnvChange
  Err := Unit
  decKey := inferInstance
  apply w _ := w
  env := World.env
  exec := Stmt.exec
  locks _ _ _ := []
  effect := Stmt.effect

instance : Txn.Autocommit auditStore :=
  ⟨inferInstanceAs (IsEmpty Empty), inferInstanceAs (IsEmpty Empty)⟩

/-- A program of the workers. -/
abbrev Job (α : Type) : Type := Prog auditStore α

namespace Job

def findFirstUndrained : Job (Option Time) := .lift (E := auditStore) Stmt.findFirstUndrained

def isReady : Job Bool := .lift (E := auditStore) Stmt.isReady

def findManyUndrained (take : Nat) : Job (List AuditOutbox) :=
  .lift (E := auditStore) (.findManyUndrained take)

def insertMany (docs : List AuditEventDoc) : Job InsertManyResult :=
  .lift (E := auditStore) (.insertMany docs)

def now : Job Time := .lift (E := auditStore) Stmt.now

def updateManyDrained (ids : List OutboxId) (drainedAt : Time) : Job Nat :=
  .lift (E := auditStore) (.updateManyDrained ids drainedAt)

def deleteManyDrained (cutoff : Time) : Job Nat :=
  .lift (E := auditStore) (.deleteManyDrained cutoff)

end Job

/-! ## 3. The workers -/

def BATCH_SIZE : Nat := 200

def OUTBOX_RETENTION_DAYS : Nat := 30

/-- The gauge that it sets is left out. -/
def recordLag : Job Unit := do
  let _ ← Job.findFirstUndrained
  pure ()

/-- `Array.isArray(writeErrors) ? writeErrors : [writeErrors]`. -/
def WriteErrors.list : WriteErrors → List (Option Nat)
  | many codes => codes.map some
  | one code => [code]

/-- A bulk write failed, and every error was a duplicate key. -/
def isDuplicateKeyOnly : InsertManyResult → Bool
  | .inserted _ => false
  | .bulkWriteError writeErrors _ =>
    writeErrors.list.length > 0 && writeErrors.list.all (· == some DUPLICATE_KEY)
  | .otherError => false

/-- `insertMany` returned, or what it threw is about duplicates only. -/
def delivered (r : InsertManyResult) : Bool :=
  match r with
  | .inserted _ => true
  | r => isDuplicateKeyOnly r

def markDrained (ids : List OutboxId) : Job Unit := do
  let drainedAt ← Job.now
  let _ ← Job.updateManyDrained ids drainedAt
  pure ()

/-- `drain` with the batch it has read. -/
def deliver (batch : List AuditOutbox) : Job Unit :=
  if batch.isEmpty then pure ()
  else do
    let docs := batch.map outboxRowToAuditEvent
    let result ← Job.insertMany docs
    if delivered result then markDrained (batch.map AuditOutbox.id) else pure ()

/-- `drain` once Mongo is known to be there. -/
def drainBatch : Job Unit := do
  let batch ← Job.findManyUndrained BATCH_SIZE
  deliver batch

def drain : Job Unit := do
  recordLag
  let ready ← Job.isReady
  if ready then drainBatch else pure ()

/-- `daysAgo(OUTBOX_RETENTION_DAYS)` at the time `now`.  No row was drained before the epoch. -/
def outboxCutoff (now : Time) : Time := now - OUTBOX_RETENTION_DAYS * 24 * 60 * 60 * 1000

def purgeDrainedOutbox : Job Nat := do
  let now ← Job.now
  Job.deleteManyDrained (outboxCutoff now)

inductive Op where
  | drain
  | purgeDrainedOutbox
  deriving DecidableEq, Repr

def Op.body : Op → Job Unit
  | drain => Audit.drain
  | purgeDrainedOutbox => do
    let _ ← Audit.purgeDrainedOutbox
    pure ()

/-- The workers. -/
abbrev auditWorkers : Service auditStore := ⟨Op, Unit, Op.body⟩

abbrev Sys := Txn.Sys auditWorkers

end Enroll.Audit
