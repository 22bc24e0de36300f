/-
# Many callers at once

`Sys` is a store with any number of open sessions.  Its steps are the ones a database allows in
any order: a session begins, runs its next statement (only when every lock the statement takes is
free or its own), commits (its log is applied to the committed world and its locks are released),
rolls back after a failure, is cut off by a crash, or the outside changes the world.

Locks live in one table (`owner`), so a key has at most one owner by construction.
-/
import Enroll.Txn.Program

namespace Txn

variable {E : Engine}

/-! ## 1. Sessions and systems -/

/-- The methods of a service, each a program. -/
structure Service (E : Engine) where
  Op : Type
  Out : Type
  body : Op → Prog E Out

/-- One request in progress. -/
structure Session (S : Service E) where
  op : S.Op
  prog : Prog E S.Out
  log : List E.Write
  trace : List E.Stmt

/-- A store, its open sessions, its lock table, and the requests answered so far. -/
structure Sys (S : Service E) where
  world : E.World
  sessions : Nat → Option (Session S)
  owner : E.Key → Option Nat
  finished : List (Nat × S.Op × Except E.Err S.Out)

/-- What happens next, and to which session. -/
inductive Label (S : Service E) where
  | begin (t : Nat) (op : S.Op)
  | exec (t : Nat) (x : E.Input)
  | commit (t : Nat)
  | rollback (t : Nat)
  | crash (t : Nat)
  | env (e : E.Env)

/-- The session a step is about. -/
def Label.session {S : Service E} : Label S → Option Nat
  | begin t _ => some t
  | exec t _ => some t
  | commit t => some t
  | rollback t => some t
  | crash t => some t
  | env _ => none

namespace Sys

variable {S : Service E}

/-- Nobody is connected. -/
def init (w : E.World) : Sys S := ⟨w, fun _ => none, fun _ => none, []⟩

/-- The context of session `t` of `sys`. -/
def ctx (sys : Sys S) (t : Nat) (ses : Session S) : Ctx E :=
  ⟨sys.world, ses.log, fun k => sys.owner k = some t, ses.trace⟩

/-- Session `t` is gone and its locks are free. -/
def close (sys : Sys S) (t : Nat) : Sys S :=
  { sys with
    sessions := Function.update sys.sessions t none
    owner := fun k => if sys.owner k = some t then none else sys.owner k }

/-- Session `t` goes on as `ses`, owning the keys `ks` as well. -/
def keep (sys : Sys S) (t : Nat) (ses : Session S) (ks : List E.Key) (w : E.World) : Sys S :=
  { sys with
    world := w
    sessions := Function.update sys.sessions t (some ses)
    owner := fun k => if k ∈ ks then some t else sys.owner k }

/-- Session `t` runs its next statement. -/
def stepExec (sys : Sys S) (t : Nat) (x : E.Input) : Option (Sys S) :=
  match sys.sessions t with
  | none => none
  | some ses =>
    match ses.prog with
    | .pure _ => none
    | .throw _ => none
    | .stmt s k =>
      let view := ses.log.foldl E.apply sys.world
      let ks := E.locks s x view
      if ks.all (fun key => (sys.owner key).all (· == t)) then
        match E.exec s x view with
        | none => none
        | some (.error e) =>
          some (sys.keep t ⟨ses.op, .throw e, ses.log, ses.trace ++ [s]⟩ ks
            (E.effect s x sys.world))
        | some (.ok (r, ws)) =>
          some (sys.keep t ⟨ses.op, k r, ses.log ++ ws, ses.trace ++ [s]⟩ ks
            (E.effect s x sys.world))
      else none

/-- One step of the system; `none` when the label is not enabled. -/
def step (sys : Sys S) : Label S → Option (Sys S)
  | .begin t op =>
    match sys.sessions t with
    | some _ => none
    | none =>
      some { sys with
        sessions := Function.update sys.sessions t (some ⟨op, S.body op, [], []⟩) }
  | .exec t x => sys.stepExec t x
  | .commit t =>
    match sys.sessions t with
    | some ⟨op, .pure a, log, _⟩ =>
      some { sys.close t with
        world := log.foldl E.apply sys.world
        finished := (t, op, .ok a) :: sys.finished }
    | _ => none
  | .rollback t =>
    match sys.sessions t with
    | some ⟨op, .throw e, _, _⟩ =>
      some { sys.close t with finished := (t, op, .error e) :: sys.finished }
    | _ => none
  | .crash t =>
    match sys.sessions t with
    | some _ => some (sys.close t)
    | none => none
  | .env e => some { sys with world := E.env sys.world e }

/-- A fixed schedule. -/
def run (sys : Sys S) : List (Label S) → Option (Sys S)
  | [] => some sys
  | l :: ls =>
    match sys.step l with
    | none => none
    | some sys' => run sys' ls

/-- A fixed schedule, as long as every step meets the condition `C`. -/
def runIf (C : Sys S → Label S → Prop) [∀ sys l, Decidable (C sys l)] (sys : Sys S) :
    List (Label S) → Option (Sys S)
  | [] => some sys
  | l :: ls =>
    if C sys l then
      match sys.step l with
      | none => none
      | some sys' => runIf C sys' ls
    else none

/-- The states reachable by steps that all meet the condition `C`. -/
inductive Reach (C : Sys S → Label S → Prop) (sys₀ : Sys S) : Sys S → Prop
  | refl : Reach C sys₀ sys₀
  | tail {sys sys' : Sys S} {l : Label S} :
      Reach C sys₀ sys → C sys l → sys.step l = some sys' → Reach C sys₀ sys'

/-- A fixed schedule is a run, under a condition that its labels meet anywhere. -/
theorem Reach.of_run {C : Sys S → Label S → Prop} {sys₀ sys sys' : Sys S} (h : Reach C sys₀ sys) :
    ∀ {ls : List (Label S)}, (∀ l ∈ ls, ∀ sys, C sys l) → sys.run ls = some sys' →
      Reach C sys₀ sys' := by
  intro ls
  induction ls generalizing sys with
  | nil =>
    intro _ hr
    simp only [run, Option.some.injEq] at hr
    exact hr ▸ h
  | cons l ls ih =>
    intro hC hr
    simp only [run] at hr
    split at hr
    · exact absurd hr (by simp)
    · rename_i sys₁ hs
      exact ih (h.tail (hC l List.mem_cons_self sys) hs)
        (fun l' hl' => hC l' (List.mem_cons_of_mem l hl')) hr

theorem Reach.of_runIf {C : Sys S → Label S → Prop} [∀ sys l, Decidable (C sys l)]
    {sys₀ sys sys' : Sys S} (h : Reach C sys₀ sys) :
    ∀ {ls : List (Label S)}, runIf C sys ls = some sys' → Reach C sys₀ sys' := by
  intro ls
  induction ls generalizing sys with
  | nil =>
    intro hr
    simp only [runIf, Option.some.injEq] at hr
    exact hr ▸ h
  | cons l ls ih =>
    intro hr
    simp only [runIf] at hr
    split at hr
    · rename_i hC
      split at hr
      · exact absurd hr (by simp)
      · rename_i sys₁ hs
        exact ih (h.tail hC hs) hr
    · exact absurd hr (by simp)

/-- A run under a condition is a run. -/
theorem Reach.mono {C C' : Sys S → Label S → Prop} (hC : ∀ sys l, C sys l → C' sys l)
    {sys₀ sys : Sys S} (h : Reach C sys₀ sys) : Reach C' sys₀ sys := by
  induction h with
  | refl => exact .refl
  | tail _ hc hs ih => exact ih.tail (hC _ _ hc) hs

/-- The same, where the second condition follows in the states of an invariant. -/
theorem Reach.mono_inv {C C' : Sys S → Label S → Prop} {J : Sys S → Prop}
    (hJ : ∀ sys l sys', C sys l → J sys → sys.step l = some sys' → J sys')
    (hC : ∀ sys l, C sys l → J sys → C' sys l) {sys₀ sys : Sys S} (h₀ : J sys₀)
    (h : Reach C sys₀ sys) : Reach C' sys₀ sys ∧ J sys := by
  induction h with
  | refl => exact ⟨.refl, h₀⟩
  | tail _ hc hs ih => exact ⟨ih.1.tail (hC _ _ hc ih.2) hs, hJ _ _ _ hc ih.2 hs⟩

theorem Reach.trans {C : Sys S → Label S → Prop} {sys₀ sys₁ sys₂ : Sys S}
    (h : Reach C sys₀ sys₁) (h' : Reach C sys₁ sys₂) : Reach C sys₀ sys₂ := by
  induction h' with
  | refl => exact h
  | tail _ hc hs ih => exact ih.tail hc hs

end Sys

end Txn
