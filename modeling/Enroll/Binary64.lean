/-
# Whole numbers in binary64

A whole number of 53 significant bits or fewer is represented exactly; any other is rounded to the
nearest that is, to the even one when two are equally near.  The range of the exponent is not
modelled: `overflows` says which results have no finite representation.

`shortest` is the decimal form that number formatting prefers: as few digits as determine the
number, and among those the ones nearest to it.  That reading the digits gives the number back is
`round_shortest`.
-/
import Mathlib.Tactic.Ring
import Mathlib.Data.Nat.Log

namespace Binary64

/-! ## 1. Rounding -/

/-- The exponent of the last of 53 significant bits. -/
def exponent (n : Nat) : Nat := n.log2 - 52

/-- To nearest, ties to even. -/
def round (n : Nat) : Nat :=
  let unit := 2 ^ exponent n
  let q := n / unit
  let r := n % unit
  if unit < 2 * r ∨ 2 * r = unit ∧ q % 2 = 1 then (q + 1) * unit else q * unit

def overflows (n : Nat) : Bool := 2 ^ 1024 ≤ n

theorem round_of_dvd {n : Nat} (h : 2 ^ exponent n ∣ n) : round n = n := by
  obtain ⟨q, hq⟩ := h
  have hr : n % 2 ^ exponent n = 0 := Nat.mod_eq_zero_of_dvd ⟨q, hq⟩
  have hpos : 0 < 2 ^ exponent n := Nat.two_pow_pos _
  unfold round
  simp only [hr]
  rw [if_neg (by omega)]
  exact Nat.div_mul_cancel ⟨q, hq⟩

/-- **53 bits are exact.** -/
theorem round_mul_two_pow {m e : Nat} (hm : m ≤ 2 ^ 53) : round (m * 2 ^ e) = m * 2 ^ e := by
  rcases Nat.eq_zero_or_pos m with rfl | hpos
  · simp [round]
  have hne : m * 2 ^ e ≠ 0 := (Nat.mul_pos hpos (Nat.two_pow_pos e)).ne'
  have hle : 2 ^ (m * 2 ^ e).log2 ≤ m * 2 ^ e := Nat.log2_self_le hne
  refine round_of_dvd ?_
  rcases Nat.lt_or_ge e (exponent (m * 2 ^ e)) with hlt | hge
  · -- The number has at least 54 bits, so it is 2 ^ (53 + e).
    have hlog : e + 53 ≤ (m * 2 ^ e).log2 := by
      unfold exponent at hlt
      omega
    have hge : 2 ^ 53 * 2 ^ e ≤ m * 2 ^ e := by
      calc 2 ^ 53 * 2 ^ e = 2 ^ (e + 53) := by rw [← Nat.pow_add, Nat.add_comm]
        _ ≤ 2 ^ (m * 2 ^ e).log2 := Nat.pow_le_pow_right (by decide) hlog
        _ ≤ m * 2 ^ e := hle
    have hmax : m = 2 ^ 53 :=
      Nat.le_antisymm hm (Nat.le_of_mul_le_mul_right hge (Nat.two_pow_pos e))
    rw [hmax, ← Nat.pow_add]
    unfold exponent
    rw [Nat.log2_two_pow]
    exact Nat.pow_dvd_pow 2 (by omega)
  · exact Nat.dvd_mul_left_of_dvd (Nat.pow_dvd_pow 2 hge) m

theorem quotient_lt (n : Nat) : n / 2 ^ exponent n < 2 ^ 53 := by
  have hlt : n < 2 ^ (n.log2 + 1) := Nat.lt_log2_self
  refine (Nat.div_lt_iff_lt_mul (Nat.two_pow_pos _)).mpr ?_
  rw [← Nat.pow_add]
  refine lt_of_lt_of_le hlt (Nat.pow_le_pow_right (by decide) ?_)
  unfold exponent
  omega

/-- **A rounded number stays as it is.** -/
@[simp] theorem round_round (n : Nat) : round (round n) = round n := by
  have hq := quotient_lt n
  have hround : ∃ m, m ≤ 2 ^ 53 ∧ round n = m * 2 ^ exponent n := by
    unfold round
    simp only
    split
    · exact ⟨_, hq, rfl⟩
    · exact ⟨_, Nat.le_of_lt hq, rfl⟩
  obtain ⟨m, hm, heq⟩ := hround
  rw [heq, round_mul_two_pow hm]

theorem le_div_mul {a d n : Nat} (hd : d ∣ a) (h : a ≤ n) : a ≤ n / d * d := by
  calc a = a / d * d := (Nat.div_mul_cancel hd).symm
    _ ≤ n / d * d := Nat.mul_le_mul_right d (Nat.div_le_div_right h)

/-- Rounding does not cross a number that is exact. -/
theorem le_round {m n : Nat} (hm : 2 ^ exponent m ∣ m) (h : m ≤ n) : m ≤ round n := by
  rcases Nat.eq_zero_or_pos m with rfl | hpos
  · exact Nat.zero_le _
  have hn : n ≠ 0 := by omega
  have hlog : m.log2 ≤ n.log2 := (Nat.le_log2 hn).mpr (le_trans (Nat.log2_self_le hpos.ne') h)
  have hfloor : n / 2 ^ exponent n * 2 ^ exponent n ≤ round n := by
    unfold round
    simp only
    split
    · exact Nat.mul_le_mul_right _ (Nat.le_succ _)
    · exact le_rfl
  refine le_trans ?_ hfloor
  rcases Nat.lt_or_ge m.log2 n.log2 with hlt | hge
  · have hpow : 2 ^ n.log2 ≤ n / 2 ^ exponent n * 2 ^ exponent n :=
      le_div_mul (Nat.pow_dvd_pow 2 (Nat.sub_le _ _)) (Nat.log2_self_le hn)
    have hm' : m < 2 ^ n.log2 :=
      lt_of_lt_of_le Nat.lt_log2_self (Nat.pow_le_pow_right (by decide) hlt)
    omega
  · have hexp : exponent n = exponent m := by
      unfold exponent
      omega
    rw [hexp]
    exact le_div_mul hm h

/-! ## 2. Shortest digits -/

/-- The two multiples of `10 ^ e` around `x`, the nearer first, the even one on a tie. -/
def candidates (x e : Nat) : List Nat :=
  let q := x / 10 ^ e
  let r := x % 10 ^ e
  if 2 * r < 10 ^ e ∨ 2 * r = 10 ^ e ∧ q % 2 = 0 then [q, q + 1] else [q + 1, q]

/-- Digits and trailing zeros, with at most `e` of the latter. -/
def shortestFrom (x : Nat) : Nat → Nat × Nat
  | 0 => (x, 0)
  | e + 1 =>
    match (candidates x (e + 1)).find? (fun s => round (s * 10 ^ (e + 1)) = x) with
    | some s => (s, e + 1)
    | none => shortestFrom x e

/-- The fewest digits `s` with an exponent `e` such that `s * 10 ^ e` reads as `x`. -/
def shortest (x : Nat) : Nat × Nat := shortestFrom x (Nat.log 10 x + 1)

theorem round_shortestFrom {x : Nat} (hx : round x = x) (e : Nat) :
    round ((shortestFrom x e).1 * 10 ^ (shortestFrom x e).2) = x := by
  induction e with
  | zero => simpa [shortestFrom] using hx
  | succ e ih =>
    unfold shortestFrom
    split
    · rename_i s hs
      simpa using List.find?_some hs
    · exact ih

/-- **The shortest digits read as the number.** -/
theorem round_shortest {x : Nat} (hx : round x = x) :
    round ((shortest x).1 * 10 ^ (shortest x).2) = x :=
  round_shortestFrom hx _

example : shortest (2 ^ 69) = (5902958103587057, 5) := by decide +kernel

end Binary64
