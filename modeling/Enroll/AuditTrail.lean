/-
# The audit trail from end to end

The registrar's transactions commit outbox rows; drainers copy them to Mongo and purges delete them,
with failures and crashes on either side.  `Trail` runs both: a commit of the registrar puts its
rows, under their ids, into the outbox that the workers see.  No transaction of the registrar reads
the outbox, so on its side the rows stay where they are.

The two halves fit together because no id is drawn twice.  So the rows of the outbox that have no
document yet and the documents of Mongo are, without gap or repetition, the rows of the audit log
(`audit_trail_complete`), and the replay of that log by id gives the tables as they are.  From any
state a drainer that is left alone gets to where Mongo alone has the whole trail
(`audit_trail_settles`).
-/
import Enroll.AuditDelivery
import Enroll.AuditLog
import Enroll.Machine
import Enroll.OutboxIds
import Enroll.Txn.Script

namespace Enroll.Audit

open Txn (Discipline Label Prog)

/-! ## 1. The workers' world -/

section Workers

variable {w : World}

/-- A statement of the workers commits no rows, and no row gets into the outbox by one. -/
theorem effect_keeps (s : Stmt) (x : Input) (w : World) :
    (s.effect x w).committed = w.committed ∧
      ((s.effect x w).outbox.map AuditOutbox.id).Sublist (w.outbox.map AuditOutbox.id) := by
  have hmark (ids : List OutboxId) (t : Time) :
      ((w.outbox.map fun r => if ids.contains r.id then { r with drainedAt := some t } else r).map
        AuditOutbox.id).Sublist (w.outbox.map AuditOutbox.id) := by
    have hsame : (AuditOutbox.id ∘ fun r : AuditOutbox =>
        if ids.contains r.id then { r with drainedAt := some t } else r) = AuditOutbox.id := by
      funext r
      show AuditOutbox.id (if ids.contains r.id then { r with drainedAt := some t } else r) = r.id
      split <;> rfl
    rw [List.map_map, hsame]
  cases s with
  | updateManyDrained ids t =>
    cases x with
    | fails => exact ⟨rfl, .refl _⟩
    | _ => exact ⟨rfl, hmark ids t⟩
  | deleteManyDrained cutoff =>
    cases x with
    | fails => exact ⟨rfl, .refl _⟩
    | _ => exact ⟨rfl, List.filter_sublist.map _⟩
  | _ => cases x <;> exact ⟨rfl, .refl _⟩

/-- The rows of a commit, under ids that are new. -/
theorem commit_rows {rows : List AuditOutbox}
    (h : (w.committed.map AuditOutbox.id ++ rows.map AuditOutbox.id).Nodup) :
    w.env (.commit rows) = { w with
      outbox := w.outbox ++ rows.map undrained
      committed := w.committed ++ rows.map undrained } := by
  show rows.foldl World.commitRow w = _
  induction rows generalizing w with
  | nil => simp
  | cons row rows ih =>
    have hnew : ¬ w.committed.any (fun r => r.id == row.id) = true := by
      rw [List.any_eq_true]
      rintro ⟨r, hr, he⟩
      exact List.disjoint_of_nodup_append h (List.mem_map_of_mem hr)
        ((beq_iff_eq.mp he).symm ▸ List.mem_cons_self)
    have hrow : w.commitRow row = { w with
        outbox := w.outbox ++ [undrained row], committed := w.committed ++ [undrained row] } :=
      if_neg hnew
    rw [List.foldl_cons, hrow, ih]
    · simp
    · rw [List.map_append, List.append_assoc]
      exact h

/-- The rows of the outbox that have no document yet. -/
def World.pending (w : World) : List AuditOutbox :=
  w.outbox.filter fun r => !w.auditEvents.any (fun d => d.outboxId == toString r.id)

/-- The document of a row is there exactly when one with its key is. -/
theorem Delivered.any_key (h : Delivered w) {r : AuditOutbox} (hr : undrained r ∈ w.committed) :
    w.auditEvents.any (fun d => d.outboxId == toString r.id) = true ↔
      outboxRowToAuditEvent r ∈ w.auditEvents := by
  rw [List.any_eq_true]
  constructor
  · rintro ⟨d, hd, he⟩
    have hdoc : d = outboxRowToAuditEvent (undrained r) := h.doc_of_key hr hd (beq_iff_eq.mp he)
    exact (show outboxRowToAuditEvent (undrained r) = outboxRowToAuditEvent r from rfl) ▸ hdoc ▸ hd
  · exact fun hd => ⟨_, hd, beq_iff_eq.mpr rfl⟩

/-- **Documents and pending rows are the committed rows**, each once. -/
theorem Delivered.accounts (h : Delivered w) (hids : (w.outbox.map AuditOutbox.id).Nodup) :
    (w.auditEvents ++ w.pending.map outboxRowToAuditEvent).Perm
      (w.committed.map outboxRowToAuditEvent) := by
  -- rows with different ids have documents with different keys
  have hdocs {rows : List AuditOutbox} (hrows : (rows.map AuditOutbox.id).Nodup) :
      (rows.map outboxRowToAuditEvent).Nodup := by
    refine List.Nodup.of_map AuditEventDoc.outboxId ?_
    have hkeys : ((rows.map AuditOutbox.id).map Nat.repr).Nodup :=
      hrows.map fun _ _ he => Nat.repr_injective he
    rw [List.map_map] at hkeys ⊢
    exact hkeys
  refine (List.perm_ext_iff_of_nodup ?_ (hdocs h.ids)).mpr fun d => ?_
  · refine h.single.of_map.append (hdocs (hids.sublist (List.filter_sublist.map _))) ?_
    intro d hd hd'
    obtain ⟨r, hr, rfl⟩ := List.mem_map.mp hd'
    obtain ⟨hout, hnone⟩ := List.mem_filter.mp hr
    rw [(h.any_key (h.rows r hout)).mpr hd] at hnone
    exact absurd hnone (by simp)
  · rw [List.mem_append, List.mem_map, List.mem_map]
    constructor
    · rintro (hd | ⟨r, hr, rfl⟩)
      · exact h.sourced d hd
      · exact ⟨undrained r, h.rows r (List.mem_of_mem_filter hr), rfl⟩
    · rintro ⟨r, hr, rfl⟩
      by_cases hd : outboxRowToAuditEvent r ∈ w.auditEvents
      · exact Or.inl hd
      · obtain ⟨r', hr', rfl⟩ := (h.kept r hr).resolve_right hd
        refine Or.inr ⟨r', List.mem_filter.mpr ⟨hr', ?_⟩, rfl⟩
        rw [Bool.not_eq_true', ← Bool.not_eq_true]
        exact fun hany => hd ((h.any_key hr).mp hany)

/-- Once every row is marked, none is pending. -/
theorem Delivered.pending_nil (h : Delivered w) (hrest : ∀ r ∈ w.outbox, r.drainedAt ≠ none) :
    w.pending = [] := by
  refine List.filter_eq_nil_iff.mpr fun r hr => ?_
  rw [(h.any_key (h.rows r hr)).mpr (h.drained r hr (hrest r hr))]
  simp

theorem delivered_run {C : Sys → Label auditWorkers → Prop} {now : Time} {sys : Sys}
    (hr : Txn.Sys.Reach C (Txn.Sys.init (World.empty now)) sys) : Delivered sys.world :=
  (Discipline.Reach.good (J := fun _ => True) delivering_sound
    (fun _ _ _ _ _ _ _ => trivial) hr (Discipline.good_init (empty_delivered now)) trivial).1.inv

end Workers

/-! ## 2. Registrar and workers -/

structure Trail where
  sys : Enroll.Sys
  audit : Sys

namespace Trail

/-- Nobody is connected, and nothing was ever audited. -/
def init (w : Enroll.World) (now : Time) : Trail :=
  ⟨Txn.Sys.init w, Txn.Sys.init (World.empty now)⟩

inductive Event where
  | db (l : Label registrar)
  | worker (l : Label auditWorkers)

/-- The rows that a step of the registrar has committed. -/
def added (sys sys' : Enroll.Sys) : List AuditOutbox :=
  sys'.world.db.auditOutbox.drop sys.world.db.auditOutbox.length

/-- The rows of the workers' world come from the registrar, and not by a label of its own. -/
def fromOutside : Label auditWorkers → Bool
  | .env (.commit _) => true
  | _ => false

def step (p : Trail) : Event → Option Trail
  | .db l => (p.sys.step l).map fun sys' =>
      ⟨sys', { p.audit with world := p.audit.world.env (.commit (added p.sys sys')) }⟩
  | .worker l =>
    if fromOutside l then none else (p.audit.step l).map fun audit' => ⟨p.sys, audit'⟩

variable {p p' : Trail}

theorem db_cases {l : Label registrar} (h : p.step (.db l) = some p') :
    ∃ sys', p.sys.step l = some sys' ∧
      p' = ⟨sys', { p.audit with world := p.audit.world.env (.commit (added p.sys sys')) }⟩ := by
  obtain ⟨sys', hs, rfl⟩ := Option.map_eq_some_iff.mp h
  exact ⟨sys', hs, rfl⟩

theorem worker_cases {l : Label auditWorkers} (h : p.step (.worker l) = some p') :
    fromOutside l = false ∧ ∃ audit', p.audit.step l = some audit' ∧ p' = ⟨p.sys, audit'⟩ := by
  simp only [step] at h
  split at h
  · exact absurd h (by simp)
  · obtain ⟨audit', hs, rfl⟩ := Option.map_eq_some_iff.mp h
    exact ⟨Bool.eq_false_iff.mpr ‹_›, audit', hs, rfl⟩

end Trail

/-- Each half runs as it does alone, and what the registrar has committed is what the workers have
been given. -/
structure Linked (w : Enroll.World) (now : Time) (p : Trail) : Prop where
  sys : Txn.Sys.Reach (fun _ _ => True) (Txn.Sys.init w) p.sys
  audit : Txn.Sys.Reach (fun _ _ => True) (Txn.Sys.init (World.empty now)) p.audit
  rows : p.audit.world.committed = p.sys.world.db.auditOutbox.map undrained
  ids : (p.audit.world.outbox.map AuditOutbox.id).Nodup

theorem map_undrained_id (rows : List AuditOutbox) :
    (rows.map undrained).map AuditOutbox.id = rows.map AuditOutbox.id := by
  rw [List.map_map]
  rfl

namespace Linked

variable {w : Enroll.World} {now : Time} {p p' : Trail}

theorem init (hempty : w.db.auditOutbox = []) : Linked w now (.init w now) where
  sys := .refl
  audit := .refl
  rows := (congrArg (List.map undrained) hempty).symm
  ids := List.nodup_nil

/-- A step of the registrar. -/
theorem db (hv : w.Valid) (hempty : w.db.auditOutbox = []) (h : Linked w now p)
    {l : Label registrar} (hs : p.step (.db l) = some p') : Linked w now p' := by
  obtain ⟨sys', hstep, rfl⟩ := Trail.db_cases hs
  have hreach : Txn.Sys.Reach (fun _ _ => True) (Txn.Sys.init w) sys' := h.sys.tail trivial hstep
  obtain ⟨rows, hrows⟩ := (grows_of_step (locks_run hv h.sys) hstep).outbox
  have hadded : Trail.added p.sys sys' = rows := by
    unfold Trail.added
    rw [← hrows]
    exact List.drop_left
  -- the ids of the new rows are new to the workers too
  have hids : (p.audit.world.committed.map AuditOutbox.id ++ rows.map AuditOutbox.id).Nodup := by
    rw [h.rows, map_undrained_id, ← List.map_append, hrows]
    exact (distinct_run hempty hreach).nodup none
  have hworld := commit_rows hids
  refine ⟨hreach, h.audit.tail (l := .env (.commit _)) trivial rfl, ?_, ?_⟩
  · rw [hadded, hworld]
    show p.audit.world.committed ++ rows.map undrained = sys'.world.db.auditOutbox.map undrained
    rw [h.rows, ← List.map_append, hrows]
  · rw [hadded, hworld]
    show ((p.audit.world.outbox ++ rows.map undrained).map AuditOutbox.id).Nodup
    rw [List.map_append, map_undrained_id]
    refine h.ids.append (List.Nodup.of_append_right hids) ?_
    intro id hid hid'
    obtain ⟨r, hr, rfl⟩ := List.mem_map.mp hid
    exact List.disjoint_of_nodup_append hids
      (List.mem_map_of_mem ((delivered_run h.audit).rows r hr)) hid'

/-- A step of the workers. -/
theorem worker (h : Linked w now p) {l : Label auditWorkers} (hs : p.step (.worker l) = some p') :
    Linked w now p' := by
  obtain ⟨hl, audit', hstep, rfl⟩ := Trail.worker_cases hs
  have hkeeps : audit'.world.committed = p.audit.world.committed ∧
      (audit'.world.outbox.map AuditOutbox.id).Sublist
        (p.audit.world.outbox.map AuditOutbox.id) := by
    rcases Txn.Accord.world_cases hstep with
      hw | ⟨t, x, ses, s, k, out, -, -, -, -, hw⟩ | ⟨e, rfl, hw⟩
    · rw [hw]
      exact ⟨rfl, .refl _⟩
    · rw [hw]
      exact effect_keeps s x _
    · cases e with
      | tick ms =>
        rw [hw]
        exact ⟨rfl, .refl _⟩
      | commit rows => exact absurd hl (by simp [Trail.fromOutside])
  exact ⟨h.sys, h.audit.tail trivial hstep, hkeeps.1.trans h.rows, h.ids.sublist hkeeps.2⟩

theorem run (hv : w.Valid) (hempty : w.db.auditOutbox = []) {C : Trail → Trail.Event → Prop}
    (hr : Machine.Reach Trail.step C (.init w now) p) : Linked w now p :=
  hr.inv (init hempty) fun _ e _ _ h hs => by
    cases e with
    | db l => exact h.db hv hempty hs
    | worker l => exact h.worker hs

end Linked

/-! ## 3. The whole trail -/

/-- The log tells the history of the tables all the time. -/
theorem told_run {w : Enroll.World} (hv : w.Valid) (hempty : w.db.auditOutbox = [])
    {sys : Enroll.Sys} (hr : Txn.Sys.Reach (fun _ _ => True) (Txn.Sys.init w) sys) :
    Told w.db.tables sys.world.db.auditOutbox sys.world.db := by
  have hi : Audited 0 w := by
    refine ⟨Nat.zero_le _, ?_, ?_⟩ <;> unfold Db.auditSince <;> rw [hempty] <;>
      exact fun _ he => absurd he List.not_mem_nil
  have htold : Told w.db.tables (w.db.auditSince 0) w.db := by
    unfold Db.auditSince
    rw [hempty]
    exact ⟨sectioned_tables, fun _ he => absurd he List.not_mem_nil, fun _ => List.Pairwise.nil,
      rfl, fun l e r hes => absurd hes (by simp)⟩
  exact (registrar_run (J := fun sys => Told w.db.tables (sys.world.db.auditSince 0) sys.world.db)
    (audited_fits _ _ _) (fun _ _ _ _ hJ hG hs => hJ.step hG hs) hv hi htold hr).2

namespace Linked

variable {w : Enroll.World} {now : Time} {p : Trail}

/-- The documents and the pending rows are the log. -/
theorem accounts (h : Linked w now p) :
    (p.audit.world.auditEvents ++ p.audit.world.pending.map outboxRowToAuditEvent).Perm
      (p.sys.world.db.auditOutbox.map outboxRowToAuditEvent) := by
  have hdocs : p.audit.world.committed.map outboxRowToAuditEvent
      = p.sys.world.db.auditOutbox.map outboxRowToAuditEvent := by
    rw [h.rows, List.map_map]
    rfl
  exact hdocs ▸ (delivered_run h.audit).accounts h.ids

/-- At rest the documents are the log. -/
theorem at_rest (h : Linked w now p) (hrest : ∀ r ∈ p.audit.world.outbox, r.drainedAt ≠ none) :
    p.audit.world.auditEvents.Perm (p.sys.world.db.auditOutbox.map outboxRowToAuditEvent) := by
  have hperm := h.accounts
  rw [(delivered_run h.audit).pending_nil hrest, List.map_nil, List.append_nil] at hperm
  exact hperm

end Linked

/-- **Nothing of the audit trail is ever missing.**  However the transactions of the registrar, the
drainers and the purges interleave, fail and die: the documents, with the rows of the outbox that
have no document, are the rows of a log that replays to the tables as they are, each once; and the
documents alone are, as soon as every row left in the outbox is marked. -/
theorem audit_trail_complete {C : Trail → Trail.Event → Prop} {w : Enroll.World} (hv : w.Valid)
    (hempty : w.db.auditOutbox = []) {now : Time} {p : Trail}
    (hr : Machine.Reach Trail.step C (.init w now) p) :
    ∃ rows, Faithful w.db.tables rows p.sys.world.db ∧ (rows.map AuditOutbox.id).Nodup ∧
      (p.audit.world.auditEvents ++ p.audit.world.pending.map outboxRowToAuditEvent).Perm
        (rows.map outboxRowToAuditEvent) ∧
      ((∀ r ∈ p.audit.world.outbox, r.drainedAt ≠ none) →
        p.audit.world.auditEvents.Perm (rows.map outboxRowToAuditEvent)) := by
  have h := Linked.run hv hempty hr
  exact ⟨_, (told_run hv hempty h.sys).faithful, (distinct_run hempty h.sys).nodup none, h.accounts,
    h.at_rest⟩

namespace Campus

open Enroll.Campus (world world_valid busy)

/-- Two enrolls have been committed; a drainer stores the document of the first, Mongo refuses the
second, and the drainer dies. -/
def interrupted : List Trail.Event :=
  busy.map .db ++ [.begin 0 .drain, .exec 0 .ok, .exec 0 (.ready true), .exec 0 .ok,
    .exec 0 (.bulk [.attempted, .refused 50] false false), .crash 0].map .worker

set_option maxRecDepth 4000 in
theorem interrupted_runs :
    (Machine.runIf Trail.step (fun _ _ => true) (.init world 10) interrupted).isSome = true := by
  decide

def afterInterrupted : Trail :=
  (Machine.runIf Trail.step (fun _ _ => true) (.init world 10) interrupted).get interrupted_runs

theorem interrupted_reached :
    Machine.Reach Trail.step (fun _ _ => True) (.init world 10) afterInterrupted :=
  .of_runIf (fun _ _ _ => trivial) .refl (Option.some_get interrupted_runs).symm

set_option maxRecDepth 4000 in
theorem audit_trail_complete_interrupted :
    (afterInterrupted.audit.world.auditEvents.map AuditEventDoc.outboxId = ["1"] ∧
      afterInterrupted.audit.world.pending.map AuditOutbox.id = [2]) ∧
    ∃ rows, Faithful world.db.tables rows afterInterrupted.sys.world.db ∧
      (rows.map AuditOutbox.id).Nodup ∧ (afterInterrupted.audit.world.auditEvents ++
        afterInterrupted.audit.world.pending.map outboxRowToAuditEvent).Perm
          (rows.map outboxRowToAuditEvent) ∧
      ((∀ r ∈ afterInterrupted.audit.world.outbox, r.drainedAt ≠ none) →
        afterInterrupted.audit.world.auditEvents.Perm (rows.map outboxRowToAuditEvent)) :=
  ⟨⟨by decide, by decide⟩, audit_trail_complete world_valid rfl interrupted_reached⟩

end Campus

/-! ## 4. Catching up -/

section CatchingUp

variable {w : World}

/-- The batch that a drain reads. -/
def World.batch (w : World) : List AuditOutbox := w.undrained.take BATCH_SIZE

theorem insertDocs_attempt_all (docs events : List AuditEventDoc) :
    ∀ code ∈ (insertDocs (docs.zip (docs.map fun _ => Fate.attempted)) events).2,
      code = DUPLICATE_KEY := by
  induction docs generalizing events with
  | nil => exact fun _ h => absurd h List.not_mem_nil
  | cons d docs ih =>
    rw [List.map_cons, List.zip_cons_cons]
    unfold insertDocs
    split
    · intro code h
      rcases List.mem_cons.mp h with rfl | h
      · rfl
      · exact ih _ code h
    · exact ih _

theorem delivered_of_duplicates {codes : List Nat} {n : Nat} (h : ∀ code ∈ codes, code = DUPLICATE_KEY) :
    delivered (bulkResult codes n false false) = true := by
  cases codes with
  | nil => rfl
  | cons code codes =>
    have hall : ((code :: codes).map some).all (fun o => o == some DUPLICATE_KEY) = true := by
      rw [List.all_eq_true]
      intro o ho
      obtain ⟨code', hc, rfl⟩ := List.mem_map.mp ho
      rw [h code' hc]
      rfl
    have hres : bulkResult (code :: codes) n false false
        = .bulkWriteError (.many (code :: codes)) n := by
      cases codes <;> rfl
    rw [hres]
    simp only [delivered, isDuplicateKeyOnly, WriteErrors.list, hall]
    rfl

/-- What the outside answers to the delivery of the batch when all goes well. -/
def World.answers (w : World) : List Input :=
  [.bulk (w.batch.map fun _ => .attempted) false false, .ok, .ok]

/-- The batch, delivered and marked. -/
def World.drainOnce (w : World) : World :=
  { w with
    auditEvents := (insertDocs ((w.batch.map outboxRowToAuditEvent).zip
      (w.batch.map fun _ => Fate.attempted)) w.auditEvents).1
    outbox := w.outbox.map fun r =>
      if (w.batch.map AuditOutbox.id).contains r.id then { r with drainedAt := some w.now } else r }

theorem deliver_script (h : w.batch.isEmpty = false) :
    (deliver w.batch).script w.answers w = some ((), w.drainOnce) := by
  have hfates : (w.batch.map fun _ => Fate.attempted)
      = (w.batch.map outboxRowToAuditEvent).map fun _ => Fate.attempted := by
    rw [List.map_map]
    rfl
  have hanswered : Fates (w.batch.map outboxRowToAuditEvent) (w.batch.map fun _ => Fate.attempted)
      true = true := by
    simp [Fates]
  have hdelivered : ∀ n, delivered (bulkResult (insertDocs ((w.batch.map outboxRowToAuditEvent).zip
      (w.batch.map fun _ => Fate.attempted)) w.auditEvents).2 n false false) = true := by
    intro n
    rw [hfates]
    exact delivered_of_duplicates (insertDocs_attempt_all _ _)
  have hexec : auditStore.exec (Stmt.insertMany (w.batch.map outboxRowToAuditEvent))
      (.bulk (w.batch.map fun _ => .attempted) false false) w = some (.ok
        (bulkResult (insertDocs ((w.batch.map outboxRowToAuditEvent).zip
          (w.batch.map fun _ => Fate.attempted)) w.auditEvents).2 _ false false, [])) :=
    if_pos hanswered
  unfold deliver World.answers
  rw [h]
  refine (Prog.script_lift hexec).trans ?_
  rw [hdelivered, if_pos rfl]
  rfl

theorem drain_script (h : w.batch.isEmpty = false) :
    drain.script ([.ok, .ready true, .ok] ++ w.answers) w = some ((), w.drainOnce) :=
  deliver_script h

/-- The rows that are still to be drained. -/
def World.backlog (w : World) : Nat := w.outbox.countP fun r => r.drainedAt.isNone

theorem rest_of_batch (h : w.batch.isEmpty = true) : ∀ r ∈ w.outbox, r.drainedAt ≠ none := by
  intro r hr hnone
  have hmem : r ∈ w.undrained := (List.perm_insertionSort _ _).mem_iff.mpr
    (List.mem_filter.mpr ⟨hr, by rw [hnone]; rfl⟩)
  have hnil : w.undrained = [] := by
    have hlen : (w.undrained.take BATCH_SIZE).length = 0 :=
      congrArg List.length (List.isEmpty_iff.mp h)
    rw [List.length_take] at hlen
    exact List.length_eq_zero_iff.mp ((Nat.min_eq_zero_iff.mp hlen).resolve_left (by decide))
  rw [hnil] at hmem
  exact absurd hmem List.not_mem_nil

/-- **A drain that goes through makes the backlog shorter.** -/
theorem backlog_drainOnce (h : w.batch.isEmpty = false) : w.drainOnce.backlog < w.backlog := by
  have hne : w.batch ≠ [] := fun hnil => absurd (h ▸ List.isEmpty_iff.mpr hnil) (by simp)
  obtain ⟨r, hr⟩ := List.exists_mem_of_ne_nil _ hne
  obtain ⟨hout, hnone⟩ := List.mem_filter.mp
    ((List.perm_insertionSort _ _).mem_iff.mp (List.mem_of_mem_take hr))
  -- whatever is still to be drained afterwards was so before
  have hmono (l : List AuditOutbox) : (l.map fun r : AuditOutbox =>
      if (w.batch.map AuditOutbox.id).contains r.id then { r with drainedAt := some w.now }
        else r).countP (fun r => r.drainedAt.isNone) ≤ l.countP fun r => r.drainedAt.isNone := by
    rw [List.countP_map]
    refine List.countP_mono_left fun r _ hr => ?_
    simp only [Function.comp] at hr
    split at hr
    · exact absurd hr (by simp)
    · exact hr
  obtain ⟨l, l', hsplit⟩ := List.append_of_mem hout
  have hmarked : (w.batch.map AuditOutbox.id).contains r.id = true :=
    List.contains_iff_mem.mpr (List.mem_map_of_mem hr)
  unfold World.backlog World.drainOnce
  rw [hsplit]
  simp only [List.map_append, List.map_cons, List.countP_append, List.countP_cons, hmarked, if_true,
    hnone]
  have := hmono l
  have := hmono l'
  simp only [Option.isNone_some, Bool.false_eq_true, if_false]
  omega

/-- A worker that is left alone gets the outbox drained. -/
theorem settles {sys : Sys} {t : Nat} (ht : sys.sessions t = none) :
    ∃ sys', Txn.Sys.Reach (fun _ l => l.session = some t) sys sys' ∧
      ∀ r ∈ sys'.world.outbox, r.drainedAt ≠ none := by
  obtain ⟨n, hn⟩ : ∃ n, sys.world.backlog ≤ n := ⟨_, Nat.le_refl _⟩
  induction n generalizing sys with
  | zero =>
    cases hb : sys.world.batch.isEmpty with
    | true => exact ⟨sys, .refl, rest_of_batch hb⟩
    | false =>
      have := backlog_drainOnce hb
      omega
  | succ n ih =>
    cases hb : sys.world.batch.isEmpty with
    | true => exact ⟨sys, .refl, rest_of_batch hb⟩
    | false =>
      have hscript : (auditWorkers.body .drain).script ([.ok, .ready true, .ok] ++ sys.world.answers)
          sys.world = some ((), sys.world.drainOnce) := drain_script hb
      obtain ⟨sys₁, hr₁, hw₁, hses₁⟩ := Txn.Sys.script_runs ht hscript
      have hless := backlog_drainOnce hb
      rw [← hw₁] at hless
      obtain ⟨sys', hr', hrest⟩ := ih (hses₁ ▸ ht) (by omega)
      exact ⟨sys', hr₁.trans hr', hrest⟩

end CatchingUp

/-- A step of the worker in session `t`. -/
def ByWorker (t : Nat) (_ : Trail) (e : Trail.Event) : Prop :=
  ∃ l, e = .worker l ∧ l.session = some t

theorem Trail.workers_run {p : Trail} {t : Nat} {audit : Sys}
    (h : Txn.Sys.Reach (fun _ l => l.session = some t) p.audit audit) :
    Machine.Reach Trail.step (ByWorker t) p ⟨p.sys, audit⟩ := by
  induction h with
  | refl => exact .refl
  | tail _ hl hs ih =>
    rename_i audit audit' l _
    have hinside : fromOutside l = false := by
      cases l with
      | env e => exact absurd hl (by simp [Label.session])
      | _ => rfl
    refine ih.tail ⟨l, rfl, hl⟩ ?_
    simp only [Trail.step, hinside, hs, Bool.false_eq_true, if_false, Option.map_some]

/-- **The trail can always be completed**: from every state a worker that is left alone, with Mongo
up, gets to one in which Mongo has the whole history of the tables. -/
theorem audit_trail_settles {C : Trail → Trail.Event → Prop} {w : Enroll.World} (hv : w.Valid)
    (hempty : w.db.auditOutbox = []) {now : Time} {p : Trail}
    (hr : Machine.Reach Trail.step C (.init w now) p) {t : Nat} (ht : p.audit.sessions t = none) :
    ∃ p', Machine.Reach Trail.step (ByWorker t) p p' ∧ p'.sys = p.sys ∧
      ∃ rows, Faithful w.db.tables rows p.sys.world.db ∧
        p'.audit.world.auditEvents.Perm (rows.map outboxRowToAuditEvent) := by
  obtain ⟨audit, hrun, hrest⟩ := settles ht
  have hreach := Trail.workers_run hrun
  have hwhole : Machine.Reach Trail.step (fun _ _ => True) (.init w now) ⟨p.sys, audit⟩ :=
    (hr.mono fun _ _ _ => trivial).trans (hreach.mono fun _ _ _ => trivial)
  have h := Linked.run hv hempty hwhole
  exact ⟨_, hreach, rfl, _, (told_run hv hempty h.sys).faithful, h.at_rest hrest⟩

namespace Campus

open Enroll.Campus (world world_valid)

set_option maxRecDepth 4000 in
theorem audit_trail_settles_interrupted :
    ∃ p', Machine.Reach Trail.step (ByWorker 1) afterInterrupted p' ∧
      p'.sys = afterInterrupted.sys ∧
      ∃ rows, Faithful world.db.tables rows afterInterrupted.sys.world.db ∧
        p'.audit.world.auditEvents.Perm (rows.map outboxRowToAuditEvent) :=
  audit_trail_settles world_valid rfl interrupted_reached (by decide)

end Campus

end Enroll.Audit
