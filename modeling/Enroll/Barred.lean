/-
# What a standing condition bars

Some requests are turned away as long as something holds of the committed tables, whatever else they
ask.  When each of them, run in such a world from beginning to end, commits nothing (`Bars`), then no
session that begins under the condition commits anything while it lasts, in any run
(`barred_commits_nothing`).
-/
import Enroll.Registrar
import Enroll.Txn.Watch

namespace Enroll

open Txn (Ctx Session Label Discipline Watched wp)

/-- A condition on the world, and the requests that commit nothing under it. -/
structure Bars where
  cond : World → Prop
  cond_seq : ∀ w n, w.seq ≤ n → cond w → cond { w with seq := n }
  stops : Op → Prop
  barred : ∀ op, stops op → ∀ c : Ctx postgres, cond c.world → c.log = [] →
    wp (Others (.ofInv cond cond_seq) op) DrawsOnly op.body
      (Ends (fun _ c' => c'.log = []) fun _ _ => True) c

namespace Bars

variable (B : Bars)

/-- The condition stays. -/
def standing : Extra := .ofInv B.cond B.cond_seq

/-- What everybody relies on while the condition holds, and that it bars what it bars. -/
def discipline : Discipline registrar :=
  { Enroll.discipline B.standing with
    post := fun op r c => B.stops op → Ends (fun _ c' => c'.log = []) (fun _ _ => True) r c }

theorem start (op : Op) {w : World} (hw : B.cond w) :
    B.discipline.controlled op op.body (Ctx.start w) := by
  by_cases hstop : B.stops op
  · refine Txn.wp_mono ?_ (B.barred op hstop (Ctx.start w) hw rfl)
    intro r c hr
    cases r with
    | ok a => exact fun _ _ _ => hr
    | error e => exact fun _ _ _ => trivial
  · refine Txn.wp_mono ?_ (registrar_start B.standing op)
    intro r c _
    cases r with
    | ok a => exact fun _ _ h => absurd h hstop
    | error e => exact fun _ _ h => absurd h hstop

variable {B} {C : Sys → Label registrar → Prop} {w : World} {sys₀ sys sys' : Sys} {t : Nat}

/-- A session that begins under the condition stays under it. -/
theorem watched (hv : w.Valid) (hr₀ : Txn.Sys.Reach C (Txn.Sys.init w) sys₀)
    (ht₀ : sys₀.sessions t = none)
    (hr : Txn.Sys.Reach (fun sys l => C sys l ∧ B.cond sys.world) sys₀ sys)
    (hcond : B.cond sys.world) : Watched B.discipline t sys := by
  induction hr with
  | refl => exact .of_none ht₀
  | tail hr hc hs ih =>
    have hG := locks_run hv (hr₀.trans (hr.mono fun _ _ h => h.1))
    refine (ih hc.2).step ⟨hG.inv.1, hc.2⟩ (fun k => hG.owned k t)
      (fun op _ => B.start op hc.2) (fun ses _ hl => ?_) hs
    have ho := others_of_step hG hs ses hl
    exact B.discipline.tolerates_of_rely ⟨ho.valid, hcond, ho.same, ho.grows, trivial⟩

/-- **A barred request commits nothing.** -/
theorem barred_commits_nothing (hv : w.Valid) (hr₀ : Txn.Sys.Reach C (Txn.Sys.init w) sys₀)
    (ht₀ : sys₀.sessions t = none)
    (hr : Txn.Sys.Reach (fun sys l => C sys l ∧ B.cond sys.world) sys₀ sys)
    (hcond : B.cond sys.world) {ses : Session registrar} (ht : sys.sessions t = some ses)
    {a : Out} (hp : ses.prog = .pure a) (hstop : B.stops ses.op) : ses.log = [] := by
  have hG := locks_run hv (hr₀.trans (hr.mono fun _ _ h => h.1))
  exact (watched hv hr₀ ht₀ hr hcond).post (D := B.discipline) ⟨hG.inv.1, hcond⟩ ht hp hstop

end Bars

end Enroll
