/-
# One caller at a time

`solo x p v` runs a program to its end from the view `v`, with nobody else about and `x` for every
choice of the outside.  The writes are applied as they are made, so a run is computed by rewriting,
one equation for each way to build a program.  `Yields` says where a run ends, with one rule for
each, and `Checks` that a program is a check, which writes nothing and goes on exactly when
something is true.

`transact` is the same run as a transaction: the writes are applied when it ends, or not at all.
Where what a statement does at once does not disturb the writes (`Commuting`), a run that ends well
commits the last view of `solo` (`transact_ok`), and a transaction is a run of the system that
nobody else is connected to (`transact_runs`).
-/
import Enroll.Txn.Rely

namespace Txn

variable {E : Engine} {α β : Type}

namespace Prog

/-! ## 1. The run -/

/-- `none`: some statement does not take `x`. -/
def solo (x : E.Input) : Prog E α → E.World → Option (Except E.Err α × E.World)
  | pure a, v => some (.ok a, v)
  | throw e, v => some (.error e, v)
  | stmt s k, v =>
    match E.exec s x v with
    | none => none
    | some (.error e) => some (.error e, E.effect s x v)
    | some (.ok (r, ws)) => (k r).solo x (E.effect s x (ws.foldl E.apply v))

/-- What comes after a run: an error skips it. -/
def thenSolo (x : E.Input) (f : α → Prog E β) :
    Except E.Err α × E.World → Option (Except E.Err β × E.World)
  | (.ok a, v) => (f a).solo x v
  | (.error e, v) => some (.error e, v)

section Equations

variable {x : E.Input} {v : E.World}

@[simp] theorem solo_pure (a : α) : (Pure.pure a : Prog E α).solo x v = some (.ok a, v) := rfl

@[simp] theorem solo_throw (e : E.Err) :
    (Prog.throw e : Prog E α).solo x v = some (.error e, v) := rfl

/-- **Sequencing.** -/
theorem solo_bind (p : Prog E α) (f : α → Prog E β) :
    (p >>= f).solo x v = (p.solo x v).bind (thenSolo x f) := by
  induction p generalizing v with
  | pure a => rfl
  | throw e => rfl
  | stmt s k ih =>
    have hbind : (stmt s k >>= f).solo x v = (stmt s fun r => k r >>= f).solo x v := rfl
    rw [hbind]
    unfold solo
    cases hx : E.exec s x v with
    | none => rfl
    | some r =>
      cases r with
      | error e => rfl
      | ok r => exact ih r.1

theorem solo_bind_ok {p : Prog E α} {f : α → Prog E β} {a : α} {v' : E.World}
    (h : p.solo x v = some (.ok a, v')) : (p >>= f).solo x v = (f a).solo x v' := by
  rw [solo_bind, h]
  rfl

theorem solo_bind_error {p : Prog E α} {f : α → Prog E β} {e : E.Err} {v' : E.World}
    (h : p.solo x v = some (.error e, v')) : (p >>= f).solo x v = some (.error e, v') := by
  rw [solo_bind, h]
  rfl

/-- A statement that succeeds. -/
theorem solo_lift_ok {s : E.Stmt} {r : E.Res s} {ws : List E.Write}
    (h : E.exec s x v = some (.ok (r, ws))) :
    (lift s).solo x v = some (.ok r, E.effect s x (ws.foldl E.apply v)) := by
  unfold lift solo
  rw [h]
  rfl

/-- What a statement that is run alone did. -/
theorem solo_lift_inv {s : E.Stmt} {r : Except E.Err (E.Res s)} {v' : E.World}
    (h : (lift s).solo x v = some (r, v')) :
    (∃ e, E.exec s x v = some (.error e) ∧ r = .error e ∧ v' = E.effect s x v) ∨
      ∃ a ws, E.exec s x v = some (.ok (a, ws)) ∧ r = .ok a ∧
        v' = E.effect s x (ws.foldl E.apply v) := by
  unfold lift solo at h
  cases hx : E.exec s x v with
  | none => simp [hx] at h
  | some out =>
    cases out with
    | error e =>
      simp only [hx, Option.some.injEq, Prod.mk.injEq] at h
      exact Or.inl ⟨e, rfl, h.1.symm, h.2.symm⟩
    | ok out =>
      simp only [hx, solo, Option.some.injEq, Prod.mk.injEq] at h
      exact Or.inr ⟨out.1, out.2, rfl, h.1.symm, h.2.symm⟩

theorem solo_throwIf_inv {c : Prop} [Decidable c] {e : E.Err} {r : Except E.Err Unit}
    {v' : E.World} (h : (throwIf c e).solo x v = some (r, v')) :
    v' = v ∧ (c ∧ r = .error e ∨ ¬c ∧ r = .ok ()) := by
  unfold throwIf at h
  split at h
  · obtain ⟨rfl, rfl⟩ := Prod.mk.inj (Option.some.inj h)
    exact ⟨rfl, Or.inl ⟨‹c›, rfl⟩⟩
  · obtain ⟨rfl, rfl⟩ := Prod.mk.inj (Option.some.inj h)
    exact ⟨rfl, Or.inr ⟨‹¬c›, rfl⟩⟩

theorem solo_orThrow_inv {o : Option α} {e : E.Err} {r : Except E.Err α} {v' : E.World}
    (h : (orThrow o e).solo x v = some (r, v')) :
    v' = v ∧ (o = none ∧ r = .error e ∨ ∃ a, o = some a ∧ r = .ok a) := by
  cases o with
  | none =>
    obtain ⟨rfl, rfl⟩ := Prod.mk.inj (Option.some.inj h)
    exact ⟨rfl, Or.inl ⟨rfl, rfl⟩⟩
  | some a =>
    obtain ⟨rfl, rfl⟩ := Prod.mk.inj (Option.some.inj h)
    exact ⟨rfl, Or.inr ⟨a, rfl, rfl⟩⟩

/-- A sequence failed in its first part, or went on to its second. -/
theorem solo_bind_inv {p : Prog E α} {f : α → Prog E β} {r : Except E.Err β} {v' : E.World}
    (h : (p >>= f).solo x v = some (r, v')) :
    (∃ e, p.solo x v = some (.error e, v') ∧ r = .error e) ∨
      ∃ a v₁, p.solo x v = some (.ok a, v₁) ∧ (f a).solo x v₁ = some (r, v') := by
  rw [solo_bind] at h
  obtain ⟨⟨out, v₁⟩, hp, hrest⟩ := Option.bind_eq_some_iff.mp h
  cases out with
  | error e =>
    obtain ⟨rfl, rfl⟩ := Prod.mk.inj (Option.some.inj hrest)
    exact Or.inl ⟨e, hp, rfl⟩
  | ok a => exact Or.inr ⟨a, v₁, hp, hrest⟩

end Equations

/-! ## 2. Where a run ends -/

/-- The run of `p` ends, and in `Q`. -/
def Yields (x : E.Input) (p : Prog E α) (Q : Except E.Err α → E.World → Prop) (v : E.World) :
    Prop :=
  ∃ r v', p.solo x v = some (r, v') ∧ Q r v'

/-- How a post-condition is passed through a sequence: an error skips the rest. -/
def thenYields (x : E.Input) (f : α → Prog E β) (Q : Except E.Err β → E.World → Prop) :
    Except E.Err α → E.World → Prop
  | .ok a, v => (f a).Yields x Q v
  | .error e, v => Q (.error e) v

/-- It is granted exactly when `P`, and then in `Q`. -/
def Granted (P : Prop) (Q : α → E.World → Prop) : Except E.Err α → E.World → Prop
  | .ok a, v => P ∧ Q a v
  | .error _, _ => ¬P

/-- `p` is a check of `P`: it writes nothing, and goes on exactly when `P`. -/
def Checks (x : E.Input) (p : Prog E Unit) (P : Prop) (v : E.World) : Prop :=
  p.Yields x (Granted P fun _ v' => v' = v) v

section Rules

variable {x : E.Input} {v v' : E.World} {P P' : Prop} {Q : Except E.Err α → E.World → Prop}

theorem yields_of_solo {p : Prog E α} {r : Except E.Err α} (h : p.solo x v = some (r, v'))
    (hQ : Q r v') : p.Yields x Q v := ⟨r, v', h, hQ⟩

/-- There is one run, so two things that are true of its end are true together. -/
theorem Yields.both {p : Prog E α} {R : Except E.Err α → E.World → Prop} (h : p.Yields x Q v)
    (h' : p.Yields x R v) : p.Yields x (fun r v' => Q r v' ∧ R r v') v := by
  obtain ⟨r, v₁, hr, hQ⟩ := h
  obtain ⟨r', v₂, hr', hR⟩ := h'
  obtain ⟨rfl, rfl⟩ := Prod.mk.inj (Option.some.inj (hr.symm.trans hr'))
  exact ⟨r, v₁, hr, hQ, hR⟩

theorem Yields.imp {p : Prog E α} {R : Except E.Err α → E.World → Prop} (h : p.Yields x Q v)
    (hQ : ∀ r v', Q r v' → R r v') : p.Yields x R v := by
  obtain ⟨r, v', hr, hQ'⟩ := h
  exact ⟨r, v', hr, hQ r v' hQ'⟩

theorem yields_pure {a : α} (h : Q (.ok a) v) : (Pure.pure a : Prog E α).Yields x Q v :=
  yields_of_solo (solo_pure a) h

theorem yields_throw {e : E.Err} (h : Q (.error e) v) : (throw e : Prog E α).Yields x Q v :=
  yields_of_solo (solo_throw e) h

/-- **Sequencing.** -/
theorem yields_bind {p : Prog E α} {f : α → Prog E β} {Q : Except E.Err β → E.World → Prop}
    (h : p.Yields x (thenYields x f Q) v) : (p >>= f).Yields x Q v := by
  obtain ⟨r, v₁, hr, hQ⟩ := h
  cases r with
  | error e => exact ⟨.error e, v₁, solo_bind_error hr, hQ⟩
  | ok a =>
    obtain ⟨r', v₂, hr', hQ'⟩ := hQ
    exact ⟨r', v₂, (solo_bind_ok hr).trans hr', hQ'⟩

/-- A first part whose result is known. -/
theorem yields_bind_ok {p : Prog E α} {f : α → Prog E β} {Q : Except E.Err β → E.World → Prop}
    {a : α} (hp : p.solo x v = some (.ok a, v')) (h : (f a).Yields x Q v') :
    (p >>= f).Yields x Q v := yields_bind (yields_of_solo hp h)

theorem yields_throwIf {c : Prop} [Decidable c] {e : E.Err} {Q : Except E.Err Unit → E.World → Prop}
    (he : c → Q (.error e) v) (hk : ¬c → Q (.ok ()) v) : (throwIf c e).Yields x Q v := by
  unfold throwIf
  split
  · exact yields_throw (he ‹_›)
  · exact yields_pure (hk ‹_›)

theorem yields_orThrow {o : Option α} {e : E.Err} (he : o = none → Q (.error e) v)
    (hk : ∀ a, o = some a → Q (.ok a) v) : (orThrow o e).Yields x Q v := by
  cases o with
  | none => exact yields_throw (he rfl)
  | some a => exact yields_pure (hk a rfl)

theorem yields_ite {c : Prop} [Decidable c] {a b : Prog E α} (ha : c → a.Yields x Q v)
    (hb : ¬c → b.Yields x Q v) : (if c then a else b).Yields x Q v := by
  split
  · exact ha ‹_›
  · exact hb ‹_›

theorem Checks.congr {p : Prog E Unit} (h : p.Checks x P v) (hP : P ↔ P') : p.Checks x P' v := by
  obtain ⟨r, v', hr, hQ⟩ := h
  refine ⟨r, v', hr, ?_⟩
  cases r with
  | ok a => exact ⟨hP.mp hQ.1, hQ.2⟩
  | error e => exact fun h => hQ (hP.mpr h)

theorem checks_throwIf {c : Prop} [Decidable c] {e : E.Err} : (throwIf c e).Checks x (¬c) v :=
  yields_throwIf (fun hc h => h hc) fun hc => ⟨hc, rfl⟩

theorem Checks.throwIf_iff {c : Prop} [Decidable c] {e : E.Err}
    (h : (throwIf c e).Checks x P v) : P ↔ ¬c := by
  obtain ⟨r, v₁, -, hP, hc⟩ := Yields.both h checks_throwIf
  cases r with
  | ok a => exact ⟨fun _ => hc.1, fun _ => hP.1⟩
  | error e => exact ⟨fun h => absurd h hP, fun h => absurd h hc⟩

/-- What comes after a program that is granted exactly when `P`. -/
theorem Yields.bind_granted {p : Prog E α} {f : α → Prog E β} {R : α → E.World → Prop}
    {Q : Except E.Err β → E.World → Prop} (h : p.Yields x (Granted P R) v)
    (hno : ¬P → ∀ e v', Q (.error e) v')
    (hyes : P → ∀ a v', R a v' → (f a).Yields x Q v') : (p >>= f).Yields x Q v := by
  obtain ⟨r, v₁, hr, hQ⟩ := h
  refine yields_bind (yields_of_solo hr ?_)
  cases r with
  | error e => exact hno hQ e v₁
  | ok a => exact hyes hQ.1 a v₁ hQ.2

/-- **What comes after a check** runs where the check ran, if it passed. -/
theorem Checks.bind {p : Prog E Unit} {f : Unit → Prog E β} {Q : Except E.Err β → E.World → Prop}
    (h : p.Checks x P v) (hno : ¬P → ∀ e v', Q (.error e) v')
    (hyes : P → (f ()).Yields x Q v) : (p >>= f).Yields x Q v :=
  h.bind_granted hno fun hP _ _ hv => hv ▸ hyes hP

/-- One check after the other. -/
theorem Checks.and {p : Prog E Unit} {f : Unit → Prog E Unit} (h : p.Checks x P v)
    (h' : P → (f ()).Checks x P' v) : (p >>= f).Checks x (P ∧ P') v := by
  refine h.bind (fun hP e v' h => hP h.1) fun hP => ?_
  exact (h' hP).congr ⟨fun h => ⟨hP, h⟩, fun h => h.2⟩

end Rules

/-! ## 3. The transaction -/

/-- The run of a program that has written `log` to the world `w`. -/
def transactFrom (x : E.Input) :
    Prog E α → List E.Write → E.World → Option (Except E.Err α × E.World)
  | pure a, log, w => some (.ok a, log.foldl E.apply w)
  | throw e, _, w => some (.error e, w)
  | stmt s k, log, w =>
    match E.exec s x (log.foldl E.apply w) with
    | none => none
    | some (.error e) => some (.error e, E.effect s x w)
    | some (.ok (r, ws)) => (k r).transactFrom x (log ++ ws) (E.effect s x w)

/-- A transaction on `w`, from its begin to its commit or rollback. -/
def transact (x : E.Input) (p : Prog E α) (w : E.World) : Option (Except E.Err α × E.World) :=
  p.transactFrom x [] w

/-- Writes do not disturb what a statement does at once. -/
def Commuting (E : Engine) : Prop :=
  ∀ s x w wr, E.effect s x (E.apply w wr) = E.apply (E.effect s x w) wr

section Transactions

variable {x : E.Input} {w w' : E.World}

theorem Commuting.foldl (hE : Commuting E) (s : E.Stmt) (x : E.Input) (log : List E.Write)
    (w : E.World) :
    E.effect s x (log.foldl E.apply w) = log.foldl E.apply (E.effect s x w) := by
  induction log generalizing w with
  | nil => rfl
  | cons wr log ih => rw [List.foldl_cons, List.foldl_cons, ih, hE]

theorem transactFrom_ok (hE : Commuting E) {p : Prog E α} {a : α} {v : E.World} :
    ∀ log {w}, p.solo x (log.foldl E.apply w) = some (.ok a, v) →
      p.transactFrom x log w = some (.ok a, v) := by
  induction p with
  | pure a' => exact fun _ _ h => h
  | throw e => exact fun _ _ h => absurd h (by simp [solo])
  | stmt s k ih =>
    intro log w h
    unfold solo at h
    unfold transactFrom
    cases hx : E.exec s x (log.foldl E.apply w) with
    | none => simp [hx] at h
    | some r =>
      cases r with
      | error e => simp [hx] at h
      | ok r =>
        simp only [hx] at h
        refine ih r.1 _ ?_
        rw [List.foldl_append, ← hE.foldl, ← hE.foldl]
        exact h

/-- **A run that ends well is committed.** -/
theorem transact_ok (hE : Commuting E) {p : Prog E α} {a : α} {v : E.World}
    (h : p.solo x w = some (.ok a, v)) : p.transact x w = some (.ok a, v) :=
  transactFrom_ok hE [] h

theorem transactFrom_error {P : E.World → Prop} (hP : ∀ s w, P w → P (E.effect s x w))
    {p : Prog E α} {e : E.Err} {v : E.World} (hE : Commuting E) :
    ∀ log {w}, P w → p.solo x (log.foldl E.apply w) = some (.error e, v) →
      ∃ w', p.transactFrom x log w = some (.error e, w') ∧ P w' := by
  induction p with
  | pure a => exact fun _ _ _ h => absurd h (by simp [solo])
  | throw e' =>
    intro log w hw h
    simp only [solo, Option.some.injEq, Prod.mk.injEq, Except.error.injEq] at h
    obtain ⟨rfl, -⟩ := h
    exact ⟨w, rfl, hw⟩
  | stmt s k ih =>
    intro log w hw h
    unfold solo at h
    unfold transactFrom
    cases hx : E.exec s x (log.foldl E.apply w) with
    | none => simp [hx] at h
    | some r =>
      cases r with
      | error e' =>
        simp only [hx, Option.some.injEq, Prod.mk.injEq, Except.error.injEq] at h
        obtain ⟨rfl, -⟩ := h
        exact ⟨_, rfl, hP s w hw⟩
      | ok r =>
        simp only [hx] at h
        refine ih r.1 _ (hP s w hw) ?_
        rw [List.foldl_append, ← hE.foldl, ← hE.foldl]
        exact h

/-- **A run that fails is undone**, but for what its statements did at once. -/
theorem transact_error {P : E.World → Prop} (hP : ∀ s w, P w → P (E.effect s x w))
    (hE : Commuting E) {p : Prog E α} {e : E.Err} {v : E.World} (hw : P w)
    (h : p.solo x w = some (.error e, v)) : ∃ w', p.transact x w = some (.error e, w') ∧ P w' :=
  transactFrom_error hP hE [] hw h

end Transactions

end Prog

/-! ## 4. In a system that nobody else is connected to -/

section Runs

variable {S : Service E} {sys : Sys S} {t : Nat} {x : E.Input} {w' : E.World}

/-- Nobody but session `t` owns a lock. -/
def Sys.Uncontended (t : Nat) (sys : Sys S) : Prop := ∀ k t', sys.owner k = some t' → t' = t

/-- The system after session `t` has answered `r` to the request `op`. -/
def Sys.answered (sys : Sys S) (t : Nat) (op : S.Op) (r : Except E.Err S.Out) (w' : E.World) :
    Sys S where
  world := w'
  sessions := Function.update sys.sessions t none
  owner := fun _ => none
  finished := (t, op, r) :: sys.finished

theorem Sys.Uncontended.close (h : sys.Uncontended t) :
    sys.close t = { sys with
      sessions := Function.update sys.sessions t none, owner := fun _ => none } := by
  have howner : (fun k => if sys.owner k = some t then none else sys.owner k)
      = fun _ => (none : Option Nat) := by
    funext k
    cases ho : sys.owner k with
    | none => simp
    | some t' => simp [h k t' ho]
  unfold Sys.close
  rw [howner]

theorem Sys.Uncontended.free (h : sys.Uncontended t) (ks : List E.Key) :
    ks.all (fun key => (sys.owner key).all (· == t)) = true := by
  refine List.all_eq_true.mpr fun k _ => ?_
  cases ho : sys.owner k with
  | none => rfl
  | some t' => simp [h k t' ho]

theorem Sys.Uncontended.keep (h : sys.Uncontended t) (ses : Session S) (ks : List E.Key)
    (w : E.World) : (sys.keep t ses ks w).Uncontended t := by
  intro k t' ho
  unfold Sys.keep at ho
  simp only at ho
  split at ho
  · exact (Option.some.inj ho).symm
  · exact h k t' ho

theorem Sys.answered_keep (ses : Session S) (ks : List E.Key) (w : E.World) (op : S.Op)
    (r : Except E.Err S.Out) :
    (sys.keep t ses ks w).answered t op r w' = sys.answered t op r w' := by
  have hself : Function.update (Function.update sys.sessions t (some ses)) t none
      = Function.update sys.sessions t none := Function.update_idem _ _ _
  unfold Sys.answered
  rw [← hself]
  rfl

theorem Sys.run_cons {sys₁ : Sys S} {l : Label S} (h : sys.step l = some sys₁)
    (ls : List (Label S)) : sys.run (l :: ls) = sys₁.run ls := by
  simp only [Sys.run, h]

theorem Sys.Uncontended.rollback (ho : sys.Uncontended t) {op : S.Op} {e : E.Err}
    {log : List E.Write} {trace : List E.Stmt}
    (ht : sys.sessions t = some ⟨op, .throw e, log, trace⟩) :
    sys.run [.rollback t] = some (sys.answered t op (.error e) sys.world) := by
  simp only [Sys.run, Sys.step, ht, ho.close]
  rfl

/-- **An open session that is alone runs to its end.** -/
theorem transactFrom_runs {op : S.Op} {p : Prog E S.Out} {r : Except E.Err S.Out} :
    ∀ {sys : Sys S} {log trace}, sys.sessions t = some ⟨op, p, log, trace⟩ → sys.Uncontended t →
      p.transactFrom x log sys.world = some (r, w') →
      ∃ ls, sys.run ls = some (sys.answered t op r w') := by
  induction p with
  | pure a =>
    intro sys log trace ht ho h
    simp only [Prog.transactFrom, Option.some.injEq, Prod.mk.injEq] at h
    obtain ⟨rfl, rfl⟩ := h
    refine ⟨[.commit t], ?_⟩
    simp only [Sys.run, Sys.step, ht, ho.close]
    rfl
  | throw e =>
    intro sys log trace ht ho h
    simp only [Prog.transactFrom, Option.some.injEq, Prod.mk.injEq] at h
    obtain ⟨rfl, rfl⟩ := h
    exact ⟨[.rollback t], ho.rollback ht⟩
  | stmt s k ih =>
    intro sys log trace ht ho h
    unfold Prog.transactFrom at h
    -- the session after the statement, and its locks
    let next (p : Prog E S.Out) (ws : List E.Write) : Sys S :=
      sys.keep t ⟨op, p, log ++ ws, trace ++ [s]⟩ (E.locks s x (log.foldl E.apply sys.world))
        (E.effect s x sys.world)
    have hnext : ∀ p ws, (next p ws).sessions t = some ⟨op, p, log ++ ws, trace ++ [s]⟩ :=
      fun p ws => Function.update_self t _ sys.sessions
    cases hx : E.exec s x (log.foldl E.apply sys.world) with
    | none => simp [hx] at h
    | some res =>
      cases res with
      | error e =>
        simp only [hx, Option.some.injEq, Prod.mk.injEq] at h
        obtain ⟨rfl, rfl⟩ := h
        have hs : sys.step (.exec t x) = some (next (.throw e) []) := by
          simp only [Sys.step, Sys.stepExec, ht, hx, ho.free, if_true, next, List.append_nil]
        refine ⟨[.exec t x, .rollback t], ?_⟩
        rw [Sys.run_cons hs, (ho.keep _ _ _).rollback (hnext _ _), Sys.answered_keep]
        rfl
      | ok res =>
        simp only [hx] at h
        have hs : sys.step (.exec t x) = some (next (k res.1) res.2) := by
          simp only [Sys.step, Sys.stepExec, ht, hx, ho.free, if_true, next]
        obtain ⟨ls, hr⟩ := ih res.1 (hnext _ _) (ho.keep _ _ _) h
        refine ⟨.exec t x :: ls, ?_⟩
        rw [Sys.run_cons hs, hr, Sys.answered_keep]

/-- **A transaction is a run of the system that nobody else is connected to.** -/
theorem transact_runs (sys : Sys S) (t : Nat) {op : S.Op} {r : Except E.Err S.Out}
    (ht : sys.sessions t = none)
    (ho : ∀ k, sys.owner k = none) (h : (S.body op).transact x sys.world = some (r, w')) :
    ∃ ls, sys.run ls = some (sys.answered t op r w') := by
  let begun : Sys S :=
    { sys with sessions := Function.update sys.sessions t (some ⟨op, S.body op, [], []⟩) }
  have hs : sys.step (.begin t op) = some begun := by
    simp only [Sys.step, ht, begun]
  have hbegun : begun.sessions t = some ⟨op, S.body op, [], []⟩ :=
    Function.update_self t _ sys.sessions
  obtain ⟨ls, hr⟩ := transactFrom_runs hbegun
    (fun k t' hk => absurd ((ho k).symm.trans hk) (by simp)) h
  refine ⟨.begin t op :: ls, ?_⟩
  have hself : Function.update begun.sessions t none = Function.update sys.sessions t none :=
    Function.update_idem _ _ _
  rw [Sys.run_cons hs, hr]
  unfold Sys.answered
  rw [hself]

end Runs

end Txn
