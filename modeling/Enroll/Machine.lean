/-
# Machines

A machine is a partial step function: `step s e` is the state after the event `e`, and `none` when
`e` cannot happen in `s`.  Its runs are taken under a condition on the steps, so that what is
assumed of the surroundings is stated once, as a predicate on events.

`Reach.inv` is the invariant rule; `Reach.of_runIf` turns an evaluated schedule into a run.
-/
import Mathlib.Logic.Basic

namespace Machine

variable {σ ε : Type}

/-- The states reachable from `s₀` by steps that all meet the condition `C`. -/
inductive Reach (step : σ → ε → Option σ) (C : σ → ε → Prop) (s₀ : σ) : σ → Prop
  | refl : Reach step C s₀ s₀
  | tail {s s' : σ} {e : ε} : Reach step C s₀ s → C s e → step s e = some s' → Reach step C s₀ s'

/-- A fixed schedule, as long as every step passes the check `ok`. -/
def runIf (step : σ → ε → Option σ) (ok : σ → ε → Bool) (s : σ) : List ε → Option σ
  | [] => some s
  | e :: es => if ok s e then (step s e).bind fun s' => runIf step ok s' es else none

namespace Reach

variable {step : σ → ε → Option σ} {C C' : σ → ε → Prop} {s₀ s s' : σ}

/-- **The invariant rule.** -/
theorem inv {I : σ → Prop} (h₀ : I s₀)
    (hstep : ∀ s e s', C s e → I s → step s e = some s' → I s') (h : Reach step C s₀ s) : I s := by
  induction h with
  | refl => exact h₀
  | tail _ hc hs ih => exact hstep _ _ _ hc ih hs

/-- A run under a condition is a run under a weaker one. -/
theorem mono (hC : ∀ s e, C s e → C' s e) (h : Reach step C s₀ s) : Reach step C' s₀ s := by
  induction h with
  | refl => exact .refl
  | tail _ hc hs ih => exact ih.tail (hC _ _ hc) hs

theorem trans (h : Reach step C s₀ s) (h' : Reach step C s s') : Reach step C s₀ s' := by
  induction h' with
  | refl => exact h
  | tail _ hc hs ih => exact ih.tail hc hs

/-- What passes a check that is strong enough meets the condition. -/
theorem of_runIf {ok : σ → ε → Bool} (hok : ∀ s e, ok s e = true → C s e) (h : Reach step C s₀ s)
    {es : List ε} (hr : runIf step ok s es = some s') : Reach step C s₀ s' := by
  induction es generalizing s with
  | nil => exact Option.some.inj hr ▸ h
  | cons e es ih =>
    unfold runIf at hr
    split at hr
    · rename_i hc
      obtain ⟨s₁, hs, hr⟩ := Option.bind_eq_some_iff.mp hr
      exact ih (h.tail (hok _ _ hc) hs) hr
    · exact absurd hr (by simp)

end Reach

end Machine
