/-
# Programs of statements

A service talks to its store in STATEMENTS.  Between two statements of one caller anything may
happen: other callers run their own statements, commit or fail.  So a service method is modelled
as a resumption: either it has finished (`pure`), or it has failed (`throw`), or it asks for one
statement and goes on with that statement's result (`stmt`).

`Engine` is the interface to a store.  A statement that runs inside a transaction reads the
caller's VIEW (the committed world overlaid with the caller's own writes, i.e. the log applied to
the world as it is when the statement starts), appends to the log, and may take row locks that are
kept to the end of the transaction.  What a statement does at once and for everybody (drawing from
a sequence; an autocommitted write) is `effect`.
-/
import Mathlib.Logic.Function.Basic

namespace Txn

/-! ## 1. The store -/

/-- A store as its callers see it. -/
structure Engine where
  /-- the committed state, with everything that is not transactional (clock, sequences) -/
  World : Type
  /-- one buffered write -/
  Write : Type
  /-- what a lock is taken on -/
  Key : Type
  Stmt : Type
  Res : Stmt → Type
  /-- what the outside chooses when a statement runs (a fresh id, the fate of a request) -/
  Input : Type
  /-- changes of the world made by nobody in the model -/
  Env : Type
  Err : Type
  decKey : DecidableEq Key
  apply : World → Write → World
  env : World → Env → World
  /-- `none`: the input is not a possible choice; `error`: the statement fails -/
  exec : (s : Stmt) → Input → World → Option (Except Err (Res s × List Write))
  /-- the locks a statement must own before it runs -/
  locks : Stmt → Input → World → List Key
  /-- the part of a statement that is not transactional -/
  effect : Stmt → Input → World → World

instance (E : Engine) : DecidableEq E.Key := E.decKey

/-! ## 2. Programs -/

/-- A program over the statements of `E`. -/
inductive Prog (E : Engine) (α : Type) : Type where
  | pure (a : α)
  | throw (e : E.Err)
  | stmt (s : E.Stmt) (k : E.Res s → Prog E α)

namespace Prog

variable {E : Engine} {α β : Type}

/-- Sequencing: a failure of the first part is a failure of the whole. -/
def bind : Prog E α → (α → Prog E β) → Prog E β
  | pure a, f => f a
  | throw e, _ => throw e
  | stmt s k, f => stmt s (fun r => (k r).bind f)

instance : Monad (Prog E) where
  pure := Prog.pure
  bind := Prog.bind

/-- One statement, as a program that returns its result. -/
def lift (s : E.Stmt) : Prog E (E.Res s) := stmt s pure

/-- `if (c) throw e`. -/
def throwIf (c : Prop) [Decidable c] (e : E.Err) : Prog E Unit :=
  if c then throw e else pure ()

/-- `if (!o) throw e`, and `o` from here on. -/
def orThrow (o : Option α) (e : E.Err) : Prog E α :=
  match o with
  | some a => pure a
  | none => throw e

/-- `for (const x of xs) await f(x)`. -/
def each (xs : List β) (f : β → Prog E Unit) : Prog E Unit :=
  match xs with
  | [] => pure ()
  | x :: t => (f x).bind (fun _ => each t f)

end Prog

/-! ## 3. Running one statement -/

/-- Where one caller is: the committed world, its own buffered writes, the locks it owns, and
the statements it has run so far (a ghost: no program reads it). -/
structure Ctx (E : Engine) where
  world : E.World
  log : List E.Write
  held : E.Key → Prop
  trace : List E.Stmt

namespace Ctx

variable {E : Engine}

/-- The committed world overlaid with the caller's own writes. -/
def view (c : Ctx E) : E.World := c.log.foldl E.apply c.world

/-- A caller that has run nothing yet. -/
def start (w : E.World) : Ctx E := ⟨w, [], fun _ => False, []⟩

/-- The same caller after the world has moved on. -/
def at' (c : Ctx E) (w : E.World) : Ctx E := { c with world := w }

/-- The context after statement `s` has appended `ws` to the log. -/
def after (c : Ctx E) (s : E.Stmt) (x : E.Input) (ws : List E.Write) : Ctx E where
  world := E.effect s x c.world
  log := c.log ++ ws
  held := fun k => c.held k ∨ k ∈ E.locks s x c.view
  trace := c.trace ++ [s]

/-- One statement, run in the caller's view. -/
def run (c : Ctx E) (s : E.Stmt) (x : E.Input) :
    Option (Except E.Err (E.Res s) × Ctx E) :=
  match E.exec s x c.view with
  | none => none
  | some (.error e) => some (.error e, c.after s x [])
  | some (.ok (r, ws)) => some (.ok r, c.after s x ws)

@[simp] theorem at'_world (c : Ctx E) (w : E.World) : (c.at' w).world = w := rfl
@[simp] theorem at'_log (c : Ctx E) (w : E.World) : (c.at' w).log = c.log := rfl
@[simp] theorem at'_held (c : Ctx E) (w : E.World) : (c.at' w).held = c.held := rfl
@[simp] theorem at'_trace (c : Ctx E) (w : E.World) : (c.at' w).trace = c.trace := rfl
@[simp] theorem at'_at' (c : Ctx E) (w w' : E.World) : (c.at' w).at' w' = c.at' w' := rfl
@[simp] theorem at'_self (c : Ctx E) : c.at' c.world = c := rfl

end Ctx

end Txn
