/-
# What a registration transaction relies on

Between two of its statements a registration transaction relies on this (`Others.rely`): the
database obeys its schema, every key it holds protects what it protects (`World.Same`), and
nothing that is final has been undone (`Grows`).  A property of runs that needs the others to
behave in some further way adds it as an `Extra`; the specifications of the service methods are
proved once, for every `Extra`.

The second half has one rule for each statement.  A rule hands over the later context `c'` in
which the program goes on, that `c'` is `Forward` from `c`, and what the statement did.
-/
import Enroll.Frame
import Enroll.WaitlistService
import Enroll.Txn.Rely

namespace Enroll

open Txn (Ctx Forward Monotone wp)

/-! ## 1. The rely -/

/-- A further condition on what the other transactions do. -/
structure Extra where
  inv : World → Prop
  holds : Op → Ctx postgres → World → Prop
  inv_seq : ∀ w n, w.seq ≤ n → inv w → inv { w with seq := n }
  refl : ∀ op c, inv c.world → holds op c c.world
  trans : ∀ op c w w', holds op c w → holds op (c.at' w) w' → holds op c w'
  anti : ∀ op (c c' : Ctx postgres) w, c.world = c'.world → c.log <+: c'.log →
    (∀ k, c.held k → c'.held k) → c.trace <+: c'.trace → holds op c' w → holds op c w
  seq : ∀ op (c : Ctx postgres) n, c.world.seq ≤ n → inv c.world →
    holds op c { c.world with seq := n }

/-- No further condition. -/
def Extra.none : Extra where
  inv _ := True
  holds _ _ _ := True
  inv_seq _ _ _ h := h
  refl _ _ h := h
  trans _ _ _ _ _ h := h
  anti _ _ _ _ _ _ _ _ h := h
  seq _ _ _ _ h := h

/-- An invariant of the committed world, and nothing more to rely on. -/
def Extra.ofInv (P : World → Prop) (h : ∀ w n, w.seq ≤ n → P w → P { w with seq := n }) : Extra where
  inv := P
  holds _ _ _ := True
  inv_seq := h
  refl _ _ _ := trivial
  trans _ _ _ _ _ _ := trivial
  anti _ _ _ _ _ _ _ _ _ := trivial
  seq _ _ _ _ _ := trivial

/-- The world may become `w` while the transaction of `op` is at `c`. -/
structure Others (X : Extra) (op : Op) (c : Ctx postgres) (w : World) : Prop where
  valid : w.Valid
  inv : X.inv w
  same : ∀ k, c.held k → World.Same k c.world w
  grows : Grows c.world w
  extra : X.holds op c w

variable {X : Extra} {op : Op} {c c' : Ctx postgres}

theorem Others.refl (hv : c.world.Valid) (hi : X.inv c.world) : Others X op c c.world :=
  ⟨hv, hi, fun k _ => World.Same.refl k _, Grows.refl _, X.refl op c hi⟩

theorem Others.trans {w w' : World} (h : Others X op c w) (h' : Others X op (c.at' w) w') :
    Others X op c w' where
  valid := h'.valid
  inv := h'.inv
  same k hk := (h.same k hk).trans (h'.same k hk)
  grows := h.grows.trans h'.grows
  extra := X.trans op c w w' h.extra h'.extra

theorem others_monotone : Monotone (Others X op) where
  trans _ _ _ := Others.trans
  anti c c' w hw hl hh ht h :=
    ⟨h.valid, h.inv, fun k hk => by rw [hw]; exact h.same k (hh k hk), by rw [hw]; exact h.grows,
      X.anti op c c' w hw hl hh ht h.extra⟩

/-- `nextval` on the audit sequence is all a statement does at once. -/
def DrawsOnly (c : Ctx postgres) (w : World) : Prop :=
  ∃ n, c.world.seq ≤ n ∧ w = { c.world with seq := n }

theorem DrawsOnly.none : DrawsOnly c c.world := ⟨c.world.seq, Nat.le_refl _, rfl⟩

theorem World.Valid.seq {w : World} (h : w.Valid) {n : OutboxId} (hn : w.seq ≤ n) :
    World.Valid { w with seq := n } :=
  ⟨h.db, fun e he => Nat.le_trans (h.outbox_seq e he) hn⟩

theorem Same.seq (k : Key) (w : World) (n : OutboxId) : World.Same k w { w with seq := n } := by
  cases k <;> simp [World.Same]

theorem Grows.seq_bump (w : World) {n : OutboxId} (hn : w.seq ≤ n) :
    Grows w { w with seq := n } :=
  { Grows.refl w with seq := hn }

/-- Drawing from the sequence is something everybody can live with. -/
theorem DrawsOnly.others {w : World} (hv : c.world.Valid) (hi : X.inv c.world)
    (h : DrawsOnly c w) : Others X op c w := by
  obtain ⟨n, hn, rfl⟩ := h
  exact ⟨hv.seq hn, X.inv_seq _ _ hn hi, fun k _ => Same.seq k _ n, Grows.seq_bump _ hn,
    X.seq op c n hn hi⟩

/-- A later point of a transaction. -/
abbrev Later (X : Extra) (op : Op) (c c' : Ctx postgres) : Prop := Forward (Others X op) c c'

theorem Later.trans {c'' : Ctx postgres} (h : Later X op c c') (h' : Later X op c' c'') :
    Later X op c c'' := Forward.trans others_monotone h h'

/-- A later point that has written and locked nothing more. -/
structure Quiet (X : Extra) (op : Op) (c c' : Ctx postgres) : Prop where
  later : Later X op c c'
  log : c'.log = c.log
  held : c'.held = c.held

theorem Quiet.trans {c'' : Ctx postgres} (h : Quiet X op c c') (h' : Quiet X op c' c'') :
    Quiet X op c c'' :=
  ⟨h.later.trans h'.later, h'.log.trans h.log, h'.held.trans h.held⟩

theorem Quiet.of_others {w : World} (h : Others X op c w) : Quiet X op c (c.at' w) :=
  ⟨Forward.of_rely h, rfl, rfl⟩

/-! ## 2. What survives on the way -/

theorem Forward.same (h : Later X op c c') {k : Key} (hk : c.held k) :
    World.Same k c.world c'.world := h.rely.same k hk

theorem Later.section? (h : Later X op c c') {s : SectionId} (hs : c.held (.sectionRow s)) :
    c'.world.db.section? s = c.world.db.section? s := (Forward.same h hs).1

theorem Later.rowsOf (h : Later X op c c') {s : SectionId} (hs : c.held (.sectionRow s)) :
    c'.world.db.rowsOf s = c.world.db.rowsOf s := (Forward.same h hs).2

theorem Later.waiting (h : Later X op c c') {s : SectionId} (hs : c.held (.sectionRow s)) :
    c'.world.db.waiting s = c.world.db.waiting s := by
  unfold Db.waiting
  rw [Later.rowsOf h hs]

theorem Later.hasEnrollment (h : Later X op c c') {x : EnrollmentId}
    (hx : c.held (.enrollmentRow x)) :
    c'.world.db.hasEnrollment x = c.world.db.hasEnrollment x := Forward.same h hx

/-! ## 3. One rule for each statement -/

section Rules

/-- A read: the result is what the query says of the view of the later context. -/
theorem wp_query {q : Query} {Q : Except Failure q.Res → Ctx postgres → Prop}
    (h : ∀ c', Quiet X op c c' → Stmt.read q ∈ c'.trace → Q (.ok (q.eval c'.view)) c') :
    wp (Others X op) DrawsOnly (Tx.query q) Q c := by
  refine Txn.wp_lift fun w hw x r c' hr => ?_
  simp only [Ctx.run, Stmt.exec, Option.some.injEq, Prod.mk.injEq] at hr
  obtain ⟨rfl, rfl⟩ := hr
  refine ⟨DrawsOnly.none, ?_⟩
  have hview : ((c.at' w).after (E := postgres) (Stmt.read q) x []).view = (c.at' w).view := by
    simp [Ctx.view, Ctx.after, Stmt.effect]
  rw [← hview]
  refine h _ ⟨⟨?_, ?_, ?_, hw⟩, ?_, ?_⟩ ?_
  · simp [Ctx.after]
  · exact fun k hk => Or.inl hk
  · exact List.prefix_append _ _
  · simp [Ctx.after]
  · funext k
    simp [Ctx.after, Stmt.locks]
  · simp [Ctx.after]

/-- `SELECT .. FOR UPDATE` of a section row. -/
theorem wp_sectionForUpdate {s : SectionId}
    {Q : Except Failure (Option SectionJoin) → Ctx postgres → Prop}
    (h : ∀ c', Later X op c c' → c'.log = c.log →
      ((c'.view.db.section? s).isSome → c'.held (.sectionRow s)) →
      Stmt.sectionForUpdate s ∈ c'.trace →
      Q (.ok ((c'.view.db.section? s).map c'.view.db.joinSection)) c') :
    wp (Others X op) DrawsOnly (Tx.sectionForUpdate s) Q c := by
  refine Txn.wp_lift fun w hw x r c' hr => ?_
  simp only [Ctx.run, Stmt.exec, Option.some.injEq, Prod.mk.injEq] at hr
  obtain ⟨rfl, rfl⟩ := hr
  refine ⟨DrawsOnly.none, ?_⟩
  have hview : ((c.at' w).after (E := postgres) (Stmt.sectionForUpdate s) x []).view
      = (c.at' w).view := by
    simp [Ctx.view, Ctx.after, Stmt.effect]
  rw [← hview]
  refine h _ ⟨?_, fun k hk => Or.inl hk, List.prefix_append _ _, hw⟩ ?_ ?_ ?_
  · simp [Ctx.after]
  · simp [Ctx.after]
  · intro hs
    rw [hview] at hs
    refine Or.inr ?_
    simp [Stmt.locks, hs]
  · simp [Ctx.after]

/-- The view a statement ran on: the world it left behind under the log it started with. -/
abbrev seen (c c' : Ctx postgres) : World := applyLog c.log c'.world

/-- `enrollment.create`. -/
theorem wp_enrollmentCreate {d : EnrollmentCreate}
    {Q : Except Failure Enrollment → Ctx postgres → Prop}
    (hok : ∀ c' x t, Later X op c c' → c'.log = c.log ++ [.enrollmentInsert (d.row x t)] →
      c'.held (.enrollmentRow x) → (seen c c').db.hasEnrollment x = false →
      (d.status.active = true →
        (seen c c').db.activePairTaken x d.studentId d.sectionId = false) →
      Q (.ok (d.row x t)) c')
    (hfk : ∀ c', Later X op c c' → Q (.error (.db .foreignKeyViolation)) c')
    (huniq : ∀ c' x, Later X op c c' →
      (seen c c').db.activePairTaken x d.studentId d.sectionId = true →
      Q (.error (.db .uniqueViolation)) c') :
    wp (Others X op) DrawsOnly (Tx.enrollmentCreate d) Q c := by
  refine Txn.wp_lift fun w hw x r c' hr => ?_
  have hlater : ∀ ws, Later X op c
      ((c.at' w).after (E := postgres) (Stmt.enrollmentCreate d) x ws) := fun ws =>
    ⟨List.prefix_append _ _, fun k hk => Or.inl hk, List.prefix_append _ _, hw⟩
  simp only [Ctx.run, Stmt.exec] at hr
  split at hr
  · exact absurd hr (by simp)
  · rename_i e he
    split at he
    · exact absurd he (by simp)
    · split at he
      · simp only [Option.some.injEq, Except.error.injEq, Prod.mk.injEq] at he hr
        subst he
        obtain ⟨rfl, rfl⟩ := hr
        exact ⟨DrawsOnly.none, hfk _ (hlater _)⟩
      · split at he
        · rename_i hact
          simp only [Option.some.injEq, Except.error.injEq, Prod.mk.injEq] at he hr
          subst he
          obtain ⟨rfl, rfl⟩ := hr
          rw [Bool.and_eq_true] at hact
          exact ⟨DrawsOnly.none, huniq _ x (hlater _) hact.2⟩
        · exact absurd he (by simp)
  · rename_i row ws he
    split at he
    · exact absurd he (by simp)
    · rename_i hfresh
      split at he
      · exact absurd he (by simp)
      · split at he
        · exact absurd he (by simp)
        · rename_i hact
          simp only [Option.some.injEq, Except.ok.injEq, Prod.mk.injEq] at he hr
          obtain ⟨rfl, rfl⟩ := he
          obtain ⟨rfl, rfl⟩ := hr
          refine ⟨DrawsOnly.none, hok _ x _ (hlater _) rfl (Or.inr ?_) ?_ ?_⟩
          · simp [Stmt.locks]
          · exact Bool.eq_false_iff.mpr hfresh
          · intro ha
            refine Bool.eq_false_iff.mpr fun ht => hact ?_
            rw [ha, Bool.true_and]
            exact ht

/-- `enrollment.update`. -/
theorem wp_enrollmentUpdate {id : EnrollmentId} {d : EnrollmentData}
    {Q : Except Failure Enrollment → Ctx postgres → Prop}
    (hok : ∀ c' r, Later X op c c' → c'.log = c.log ++ [.enrollmentPatch id d] →
      (seen c c').db.enrollment? id = some r → Q (.ok (d.patch r)) c')
    (hnone : ∀ c', Later X op c c' → (seen c c').db.enrollment? id = none →
      Q (.error (.db .recordNotFound)) c')
    (huniq : ∀ c' r, Later X op c c' → (seen c c').db.enrollment? id = some r →
      r.active = false → (d.patch r).active = true → Q (.error (.db .uniqueViolation)) c') :
    wp (Others X op) DrawsOnly (Tx.enrollmentUpdate id d) Q c := by
  refine Txn.wp_lift fun w hw x r c' hr => ?_
  have hlater : ∀ ws, Later X op c
      ((c.at' w).after (E := postgres) (Stmt.enrollmentUpdate id d) x ws) := fun ws =>
    ⟨List.prefix_append _ _, fun k hk => Or.inl hk, List.prefix_append _ _, hw⟩
  simp only [Ctx.run, Stmt.exec] at hr
  cases hrow : (c.at' w).view.db.enrollment? id with
  | none =>
    rw [hrow] at hr
    simp only [Option.some.injEq, Prod.mk.injEq] at hr
    obtain ⟨rfl, rfl⟩ := hr
    exact ⟨DrawsOnly.none, hnone _ (hlater _) hrow⟩
  | some row =>
    rw [hrow] at hr
    simp only at hr
    by_cases hu : ((d.patch row).active && !row.active
        && (c.at' w).view.db.activePairTaken id row.studentId row.sectionId) = true
    · rw [if_pos hu] at hr
      simp only [Option.some.injEq, Prod.mk.injEq] at hr
      obtain ⟨rfl, rfl⟩ := hr
      simp only [Bool.and_eq_true, Bool.not_eq_true'] at hu
      exact ⟨DrawsOnly.none, huniq _ row (hlater _) hrow hu.1.2 hu.1.1⟩
    · rw [if_neg hu] at hr
      simp only [Option.some.injEq, Prod.mk.injEq] at hr
      obtain ⟨rfl, rfl⟩ := hr
      exact ⟨DrawsOnly.none, hok _ row (hlater _) rfl hrow⟩

/-- `enrollment.updateMany` by id and status: one row or none. -/
theorem wp_enrollmentUpdateMany {id : EnrollmentId} {st : EnrollmentStatus} {d : EnrollmentData}
    {Q : Except Failure Nat → Ctx postgres → Prop}
    (hone : ∀ c' r, Later X op c c' → c'.log = c.log ++ [.enrollmentPatch id d] →
      (seen c c').db.enrollment? id = some r → r.status = st → Q (.ok 1) c')
    (hzero : ∀ c', Quiet X op c c' →
      (∀ r, (seen c c').db.enrollment? id = some r → r.status ≠ st) → Q (.ok 0) c')
    (huniq : ∀ c' r, Later X op c c' → (seen c c').db.enrollment? id = some r →
      r.active = false → (d.patch r).active = true → Q (.error (.db .uniqueViolation)) c') :
    wp (Others X op) DrawsOnly (Tx.enrollmentUpdateMany id st d) Q c := by
  refine Txn.wp_lift fun w hw x r c' hr => ?_
  have hlater : ∀ ws, Later X op c
      ((c.at' w).after (E := postgres) (Stmt.enrollmentUpdateMany id st d) x ws) := fun ws =>
    ⟨List.prefix_append _ _, fun k hk => Or.inl hk, List.prefix_append _ _, hw⟩
  have hquiet : (∀ r, (c.at' w).view.db.enrollment? id = some r → r.status ≠ st) →
      Quiet X op c ((c.at' w).after (E := postgres) (Stmt.enrollmentUpdateMany id st d) x []) := by
    intro hno
    refine ⟨hlater _, by simp [Ctx.after], ?_⟩
    funext k
    have hany : (((c.at' w).view.db.enrollment? id).any fun r => r.status == st) = false := by
      cases hrow : (c.at' w).view.db.enrollment? id with
      | none => rfl
      | some row => simpa using hno row hrow
    simp [Ctx.after, Stmt.locks, hany]
  simp only [Ctx.run, Stmt.exec] at hr
  cases hrow : (c.at' w).view.db.enrollment? id with
  | none =>
    rw [hrow] at hr
    simp only [Option.some.injEq, Prod.mk.injEq] at hr
    obtain ⟨rfl, rfl⟩ := hr
    have hno : ∀ r, (c.at' w).view.db.enrollment? id = some r → r.status ≠ st := by
      rw [hrow]; simp
    exact ⟨DrawsOnly.none, hzero _ (hquiet hno) hno⟩
  | some row =>
    rw [hrow] at hr
    simp only at hr
    by_cases hst : row.status = st
    · rw [if_pos hst] at hr
      by_cases hu : ((d.patch row).active && !row.active
          && (c.at' w).view.db.activePairTaken id row.studentId row.sectionId) = true
      · rw [if_pos hu] at hr
        simp only [Option.some.injEq, Prod.mk.injEq] at hr
        obtain ⟨rfl, rfl⟩ := hr
        simp only [Bool.and_eq_true, Bool.not_eq_true'] at hu
        exact ⟨DrawsOnly.none, huniq _ row (hlater _) hrow hu.1.2 hu.1.1⟩
      · rw [if_neg hu] at hr
        simp only [Option.some.injEq, Prod.mk.injEq] at hr
        obtain ⟨rfl, rfl⟩ := hr
        exact ⟨DrawsOnly.none, hone _ row (hlater _) rfl hrow hst⟩
    · rw [if_neg hst] at hr
      simp only [Option.some.injEq, Prod.mk.injEq] at hr
      obtain ⟨rfl, rfl⟩ := hr
      have hno : ∀ r, (c.at' w).view.db.enrollment? id = some r → r.status ≠ st := by
        rw [hrow]
        rintro r ⟨⟩
        exact hst
      exact ⟨DrawsOnly.none, hzero _ (hquiet hno) hno⟩

/-- `section.update`, under the `CHECK`. -/
theorem wp_sectionUpdate {s : SectionId} {d : SectionData}
    {Q : Except Failure SectionJoin → Ctx postgres → Prop}
    (hok : ∀ c' sec, Later X op c c' → c'.log = c.log ++ [.sectionPatch s d] →
      (seen c c').db.section? s = some sec → (d.patch sec).checkSeats = true →
      Q (.ok ((seen c c').db.joinSection (d.patch sec))) c')
    (hnone : ∀ c', Later X op c c' → (seen c c').db.section? s = none →
      Q (.error (.db .recordNotFound)) c')
    (hcheck : ∀ c' sec, Later X op c c' → (seen c c').db.section? s = some sec →
      (d.patch sec).checkSeats = false → Q (.error (.db .checkViolation)) c') :
    wp (Others X op) DrawsOnly (Tx.sectionUpdate s d) Q c := by
  refine Txn.wp_lift fun w hw x r c' hr => ?_
  have hlater : ∀ ws, Later X op c
      ((c.at' w).after (E := postgres) (Stmt.sectionUpdate s d) x ws) := fun ws =>
    ⟨List.prefix_append _ _, fun k hk => Or.inl hk, List.prefix_append _ _, hw⟩
  simp only [Ctx.run, Stmt.exec] at hr
  cases hsec : (c.at' w).view.db.section? s with
  | none =>
    rw [hsec] at hr
    simp only [Option.some.injEq, Prod.mk.injEq] at hr
    obtain ⟨rfl, rfl⟩ := hr
    exact ⟨DrawsOnly.none, hnone _ (hlater _) hsec⟩
  | some sec =>
    rw [hsec] at hr
    simp only at hr
    by_cases hc : (d.patch sec).checkSeats = true
    · rw [if_pos hc] at hr
      simp only [Option.some.injEq, Prod.mk.injEq] at hr
      obtain ⟨rfl, rfl⟩ := hr
      exact ⟨DrawsOnly.none, hok _ sec (hlater _) rfl hsec hc⟩
    · rw [if_neg hc] at hr
      simp only [Option.some.injEq, Prod.mk.injEq] at hr
      obtain ⟨rfl, rfl⟩ := hr
      exact ⟨DrawsOnly.none, hcheck _ sec (hlater _) hsec (Bool.eq_false_iff.mpr hc)⟩

/-- `notification.create`. -/
theorem wp_createInTx {d : NotificationCreate} {Q : Except Failure Unit → Ctx postgres → Prop}
    (h : ∀ c' t, Later X op c c' → c'.log = c.log ++ [.notificationInsert (d.row t)] →
      Q (.ok ()) c') :
    wp (Others X op) DrawsOnly (Tx.createInTx d) Q c := by
  refine Txn.wp_lift fun w hw x r c' hr => ?_
  simp only [Ctx.run, Stmt.exec, Option.some.injEq, Prod.mk.injEq] at hr
  obtain ⟨rfl, rfl⟩ := hr
  exact ⟨DrawsOnly.none, h _ _
    ⟨List.prefix_append _ _, fun k hk => Or.inl hk, List.prefix_append _ _, hw⟩ rfl⟩

/-- `auditOutbox.create`: the id is drawn in `c₁`, before anything else can happen. -/
theorem wp_recordEvent {p : RecordEventParams} {Q : Except Failure Unit → Ctx postgres → Prop}
    (h : ∀ c₁ c', Quiet X op c c₁ → Later X op c₁ c' →
      c'.log = c.log ++ [.auditInsert (p.row (c₁.world.seq + 1) c₁.world.now)] →
      c'.world.seq = c₁.world.seq + 1 → Q (.ok ()) c') :
    wp (Others X op) DrawsOnly (Tx.recordEvent p) Q c := by
  refine Txn.wp_lift fun w hw x r c' hr => ?_
  simp only [Ctx.run, Stmt.exec, Option.some.injEq, Prod.mk.injEq] at hr
  obtain ⟨rfl, rfl⟩ := hr
  have hdraw : DrawsOnly (c.at' w)
      ((c.at' w).after (E := postgres) (Stmt.auditOutboxCreate p) x
        [.auditInsert (p.row ((c.at' w).view.seq + 1) (c.at' w).view.now)]).world :=
    ⟨w.seq + 1, Nat.le_succ _, rfl⟩
  refine ⟨hdraw, h (c.at' w) _ (Quiet.of_others hw) ⟨?_, ?_, ?_, ?_⟩ ?_ rfl⟩
  · exact List.prefix_append _ _
  · exact fun k hk => Or.inl hk
  · exact List.prefix_append _ _
  · exact hdraw.others hw.valid hw.inv
  · have hseq : (c.at' w).view.seq = w.seq := applyLog_seq c.log w
    have hnow : (c.at' w).view.now = w.now := applyLog_now c.log w
    simp [Ctx.after, hseq, hnow]

end Rules

end Enroll
