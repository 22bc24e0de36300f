/-
# Requests served one at a time

The statements of `Store` under `Prog.solo`: a read goes on with what it reads, a write goes on in
the view that has it.  Nothing a statement does at once disturbs the writes (`postgres_commuting`),
so a request that is served alone commits the last view, and one that fails leaves the tables as
they were (`transact_fails`).
-/
import Enroll.Registrar
import Enroll.Txn.Solo

namespace Enroll

open Txn (Prog)

variable {α : Type} {x : Nat} {v w : World}

/-! ## 1. Transactions -/

theorem postgres_commuting : Prog.Commuting postgres := by
  intro s x w wr
  cases s <;> rfl

/-- **A request that fails leaves the tables and the clock as they were.** -/
theorem transact_fails {p : Tx α} {e : Failure} (h : p.solo x w = some (.error e, v)) :
    ∃ n, p.transact x w = some (.error e, { w with seq := n }) := by
  obtain ⟨w', hw', n, rfl⟩ := Prog.transact_error (P := fun w' => ∃ n, w' = { w with seq := n })
    (fun s w' hw' => by
      obtain ⟨n, rfl⟩ := hw'
      cases s with
      | auditOutboxCreate p => exact ⟨n + 1, rfl⟩
      | read q => exact ⟨n, rfl⟩
      | sectionForUpdate id => exact ⟨n, rfl⟩
      | enrollmentCreate d => exact ⟨n, rfl⟩
      | enrollmentUpdate id d => exact ⟨n, rfl⟩
      | enrollmentUpdateMany id st d => exact ⟨n, rfl⟩
      | sectionUpdate id d => exact ⟨n, rfl⟩
      | notificationCreate d => exact ⟨n, rfl⟩)
    postgres_commuting ⟨w.seq, rfl⟩ h
  exact ⟨n, hw'⟩

/-- One transaction, from where its run ends. -/
theorem transact_of_yields {p : Tx α} {Q : Except Failure α → World → Prop}
    (h : p.Yields x Q w) : ∃ out v', p.transact x w = some (out, v') ∧
      match out with
      | .ok a => Q (.ok a) v'
      | .error e => v'.db = w.db ∧ ∃ v'', Q (.error e) v'' := by
  obtain ⟨out, v', hout, hQ⟩ := h
  cases out with
  | ok a => exact ⟨.ok a, v', Prog.transact_ok postgres_commuting hout, hQ⟩
  | error e =>
    obtain ⟨n, hn⟩ := transact_fails hout
    exact ⟨.error e, { w with seq := n }, hn, rfl, v', hQ⟩

/-- A request that is served alone is a run of the registrar. -/
theorem transact_reached {op : Op} {r : Except Failure Out} (h : op.body.transact x w = some (r, v)) :
    ∃ sys : Sys, Txn.Sys.Reach (fun _ _ => True) (Txn.Sys.init w) sys ∧ sys.world = v := by
  obtain ⟨ls, hr⟩ := Txn.transact_runs (S := registrar) (Txn.Sys.init w) 0 rfl
    (fun _ => rfl) h
  exact ⟨_, .of_run .refl (fun _ _ _ => trivial) hr, rfl⟩

theorem valid_of_transact {op : Op} {r : Except Failure Out} (hv : w.Valid)
    (h : op.body.transact x w = some (r, v)) : v.Valid := by
  obtain ⟨sys, hr, rfl⟩ := transact_reached h
  exact (locks_run hv hr).inv.1

/-! ## 2. One equation for each statement -/

theorem solo_stmt (s : Stmt) {r : s.Res} (ws : List Write)
    (h : s.exec x v = some (.ok (r, ws))) :
    (Prog.lift (E := postgres) s).solo x v = some (.ok r, s.effect (applyLog ws v)) :=
  Prog.solo_lift_ok h

theorem solo_query (q : Query) : (Tx.query q).solo x v = some (.ok (q.eval v), v) :=
  solo_stmt (.read q) [] rfl

theorem solo_query_bind (q : Query) (f : q.Res → Tx α) :
    (Tx.query q >>= f).solo x v = (f (q.eval v)).solo x v := Prog.solo_bind_ok (solo_query q)

/-- A read, in front of what is done with the result. -/
theorem yields_query {q : Query} {f : q.Res → Tx α} {Q : Except Failure α → World → Prop}
    (h : (f (q.eval v)).Yields x Q v) : (Tx.query q >>= f).Yields x Q v :=
  Prog.yields_bind_ok (solo_query q) h

theorem solo_sectionForUpdate (s : SectionId) :
    (Tx.sectionForUpdate s).solo x v
      = some (.ok ((v.db.section? s).map v.db.joinSection), v) :=
  solo_stmt (.sectionForUpdate s) [] rfl

/-- An update that does not put the row back into play. -/
theorem solo_enrollmentUpdate {id : EnrollmentId} {d : EnrollmentData} {r : Enrollment}
    (hr : v.db.enrollment? id = some r) (hact : r.active = true ∨ (d.patch r).active = false) :
    (Tx.enrollmentUpdate id d).solo x v
      = some (.ok (d.patch r), (Write.enrollmentPatch id d).apply v) := by
  refine solo_stmt (.enrollmentUpdate id d) [.enrollmentPatch id d] ?_
  have hno : ((d.patch r).active && !r.active && v.db.activePairTaken id r.studentId r.sectionId)
      = false := by
    rcases hact with h | h <;> simp [h]
  simp only [Stmt.exec, hr, hno]
  rfl

/-- The update of a row that still has the status the caller saw. -/
theorem solo_enrollmentUpdateMany {id : EnrollmentId} {d : EnrollmentData} {r : Enrollment}
    (hr : v.db.enrollment? id = some r) (hact : r.active = true ∨ (d.patch r).active = false) :
    (Tx.enrollmentUpdateMany id r.status d).solo x v
      = some (.ok 1, (Write.enrollmentPatch id d).apply v) := by
  refine solo_stmt (.enrollmentUpdateMany id r.status d) [.enrollmentPatch id d] ?_
  have hno : ((d.patch r).active && !r.active && v.db.activePairTaken id r.studentId r.sectionId)
      = false := by
    rcases hact with h | h <;> simp [h]
  simp only [Stmt.exec, hr, hno]
  rfl

/-- A new row under an unused uuid, whose student and section are there and whose place in the
index is free. -/
theorem solo_enrollmentCreate {d : EnrollmentCreate} (hx : v.db.hasEnrollment x = false)
    (hs : v.db.section? d.sectionId ≠ none) (hu : v.db.hasUser d.studentId = true)
    (hfree : v.db.activePairTaken x d.studentId d.sectionId = false) :
    (Tx.enrollmentCreate d).solo x v
      = some (.ok (d.row x v.now), (Write.enrollmentInsert (d.row x v.now)).apply v) := by
  refine solo_stmt (.enrollmentCreate d) [.enrollmentInsert (d.row x v.now)] ?_
  have hfkey : ((v.db.section? d.sectionId).isNone || !v.db.hasUser d.studentId) = false := by
    simp [hu, Option.isSome_iff_ne_none.mpr hs]
  simp only [Stmt.exec, hx, hfkey, hfree, Bool.and_false]
  rfl

/-- An update of a counter within the `CHECK`. -/
theorem solo_sectionUpdate {s : SectionId} {d : SectionData} {sec : Section}
    (hs : v.db.section? s = some sec) (hc : (d.patch sec).checkSeats = true) :
    (Tx.sectionUpdate s d).solo x v
      = some (.ok (v.db.joinSection (d.patch sec)), (Write.sectionPatch s d).apply v) := by
  refine solo_stmt (.sectionUpdate s d) [.sectionPatch s d] ?_
  simp only [Stmt.exec, hs, hc, if_true]

/-- An update of a counter that the `CHECK` refuses. -/
theorem solo_sectionUpdate_refused {s : SectionId} {d : SectionData} {sec : Section}
    (hs : v.db.section? s = some sec) (hc : (d.patch sec).checkSeats = false) :
    (Tx.sectionUpdate s d).solo x v = some (.error (.db .checkViolation), v) := by
  unfold Tx.sectionUpdate Prog.lift Prog.solo
  simp only [Stmt.exec, hs, hc, Bool.false_eq_true, if_false]
  rfl

theorem solo_createInTx (d : NotificationCreate) :
    (Tx.createInTx d).solo x v
      = some (.ok (), (Write.notificationInsert (d.row v.now)).apply v) :=
  solo_stmt (.notificationCreate d) [.notificationInsert (d.row v.now)] rfl

/-- The view with one more outbox row. -/
def World.audited (v : World) (p : RecordEventParams) : World :=
  { (Write.auditInsert (p.row (v.seq + 1) v.now)).apply v with seq := v.seq + 1 }

theorem solo_recordEvent (p : RecordEventParams) :
    (Tx.recordEvent p).solo x v = some (.ok (), v.audited p) :=
  solo_stmt (.auditOutboxCreate p) [.auditInsert (p.row (v.seq + 1) v.now)] rfl

end Enroll
