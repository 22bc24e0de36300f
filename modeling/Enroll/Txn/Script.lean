/-
# One session, left alone

Whether something is possible at all is shown by a run in which one session goes from beginning to
end and the outside chooses well.  `Prog.script` runs a program on given choices, without the
bookkeeping of sessions; `script_runs` makes a run of the system of it, in which nobody else moves.
-/
import Enroll.Txn.Autocommit

namespace Txn

variable {E : Engine} {S : Service E} {α : Type}

/-- The program by itself, with `xs` for the choices of the outside. -/
def Prog.script : List E.Input → Prog E α → E.World → Option (α × E.World)
  | [], .pure a, w => some (a, w)
  | x :: xs, .stmt s k, w =>
    match E.exec s x w with
    | some (.ok (r, _)) => (k r).script xs (E.effect s x w)
    | _ => none
  | _, _, _ => none

/-- A statement that succeeds, and what comes after it. -/
theorem Prog.script_lift {s : E.Stmt} {f : E.Res s → Prog E α} {x : E.Input} {xs : List E.Input}
    {w : E.World} {r : E.Res s} {ws : List E.Write} (hx : E.exec s x w = some (.ok (r, ws))) :
    (lift s >>= f).script (x :: xs) w = (f r).script xs (E.effect s x w) := by
  show (Prog.stmt s fun r => (Prog.pure r).bind f).script (x :: xs) w = _
  simp only [script, hx]
  rfl

namespace Sys

variable [Autocommit E] {sys : Sys S} {t : Nat}

/-- A statement that succeeds. -/
theorem step_exec {op : S.Op} {s : E.Stmt} {k : E.Res s → Prog E S.Out} {log : List E.Write}
    {tr : List E.Stmt} (ht : sys.sessions t = some ⟨op, .stmt s k, log, tr⟩) {x : E.Input}
    {r : E.Res s} {ws : List E.Write} (hx : E.exec s x sys.world = some (.ok (r, ws))) :
    ∃ sys', sys.step (.exec t x) = some sys' ∧ sys'.world = E.effect s x sys.world ∧
      sys'.sessions = Function.update sys.sessions t (some ⟨op, k r, log ++ ws, tr ++ [s]⟩) := by
  have : IsEmpty E.Write := Autocommit.write
  have : IsEmpty E.Key := Autocommit.key
  have hview : log.foldl E.apply sys.world = sys.world := by
    rw [Subsingleton.elim log []]
    rfl
  refine ⟨sys.keep t ⟨op, k r, log ++ ws, tr ++ [s]⟩ (E.locks s x sys.world)
    (E.effect s x sys.world), ?_, rfl, rfl⟩
  have hfree : (E.locks s x sys.world).all (fun key => (sys.owner key).all (· == t)) = true :=
    List.all_eq_true.mpr fun key _ => isEmptyElim key
  simp only [step, stepExec, ht, hview, hx, hfree, if_true]

/-- From the middle of a session to its end. -/
theorem script_rest {xs : List E.Input} {op : S.Op} {p : Prog E S.Out} {log : List E.Write}
    {tr : List E.Stmt} (ht : sys.sessions t = some ⟨op, p, log, tr⟩) {a : S.Out} {w' : E.World}
    (h : p.script xs sys.world = some (a, w')) :
    ∃ sys', Reach (fun _ l => l.session = some t) sys sys' ∧ sys'.world = w' ∧
      sys'.sessions = Function.update sys.sessions t none := by
  induction xs generalizing sys p log tr with
  | nil =>
    cases p with
    | pure b =>
      obtain ⟨rfl, rfl⟩ := Prod.mk.inj (Option.some.inj h)
      have : IsEmpty E.Write := Autocommit.write
      have hview : log.foldl E.apply sys.world = sys.world := by
        rw [Subsingleton.elim log []]
        rfl
      have hs : sys.step (.commit t) = some { sys.close t with
          world := log.foldl E.apply sys.world, finished := (t, op, .ok b) :: sys.finished } := by
        simp only [step, ht]
      exact ⟨_, Reach.refl.tail rfl hs, hview, rfl⟩
    | throw e => exact absurd h (by simp [Prog.script])
    | stmt s k => exact absurd h (by simp [Prog.script])
  | cons x xs ih =>
    cases p with
    | pure b => exact absurd h (by simp [Prog.script])
    | throw e => exact absurd h (by simp [Prog.script])
    | stmt s k =>
      simp only [Prog.script] at h
      split at h
      · rename_i r ws hx
        obtain ⟨sys₁, hs, hw, hses⟩ := step_exec ht hx
        have ht₁ : sys₁.sessions t = some ⟨op, k r, log ++ ws, tr ++ [s]⟩ := by
          rw [hses, Function.update_self]
        rw [← hw] at h
        obtain ⟨sys', hr, hw', hses'⟩ := ih ht₁ h
        refine ⟨sys', (Reach.refl.tail rfl hs).trans hr, hw', ?_⟩
        rw [hses', hses, Function.update_idem]
      · exact absurd h (by simp)

/-- **A scripted program is a run of a session** that begins, ends and leaves the others alone. -/
theorem script_runs {xs : List E.Input} {op : S.Op} (ht : sys.sessions t = none) {a : S.Out}
    {w' : E.World} (h : (S.body op).script xs sys.world = some (a, w')) :
    ∃ sys', Reach (fun _ l => l.session = some t) sys sys' ∧ sys'.world = w' ∧
      sys'.sessions = sys.sessions := by
  let sys₁ : Sys S := { sys with
    sessions := Function.update sys.sessions t (some ⟨op, S.body op, [], []⟩) }
  have hs : sys.step (.begin t op) = some sys₁ := by
    simp only [step, ht, sys₁]
  have ht₁ : sys₁.sessions t = some ⟨op, S.body op, [], []⟩ := Function.update_self _ _ _
  obtain ⟨sys', hr, hw, hses⟩ := script_rest ht₁ h
  refine ⟨sys', (Reach.refl.tail rfl hs).trans hr, hw, ?_⟩
  have hback : Function.update sys₁.sessions t none = Function.update sys.sessions t none :=
    Function.update_idem _ _ _
  rw [hses, hback, ← ht, Function.update_eq_self]

end Sys

end Txn
