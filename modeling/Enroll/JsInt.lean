/-
# JavaScript numbers without a fraction

`parseInt` with radix 10 yields a whole number, an infinity or NaN, and `String` writes one out.
`-0` is `0` here: nothing below tells them apart.

`parseInt_toString`: below `10 ^ 21`, where `String` begins to write an exponent, a number that
`parseInt` can yield is read back from its text.
-/
import Enroll.Binary64
import Enroll.JsString
import Mathlib.Data.List.TakeWhile
import Mathlib.Data.Nat.Digits.Lemmas

/-- The value of a number without a fraction. -/
inductive JsInt where
  | nan
  | inf (negative : Bool)
  | int (z : Int)
  deriving DecidableEq, Repr

namespace JsInt

open JsString Binary64

/-! ## 1. Operators -/

/-- `a || b`. -/
def orElse (a b : JsInt) : JsInt := if a = nan ∨ a = int 0 then b else a

/-- `a < b`. -/
def lt : JsInt → JsInt → Bool
  | nan, _ | _, nan => false
  | inf s, inf t => s && !t
  | inf s, int _ => s
  | int _, inf t => !t
  | int y, int z => y < z

/-- `Math.max(a, b)`. -/
def max (a b : JsInt) : JsInt :=
  if a = nan ∨ b = nan then nan else if lt a b then b else a

/-! ## 2. Text -/

/-- The value of decimal digits, the first one first. -/
def digitsValue (ds : JsString) : Nat := ds.foldl (fun n u => 10 * n + (u.toNat - 48)) 0

def ofDigits (negative : Bool) (ds : JsString) : JsInt :=
  if ds = [] then nan
  else
    let x := round (digitsValue ds)
    if overflows x then inf negative else int (if negative then -(x : Int) else x)

/-- `parseInt(s, 10)`. -/
def parseInt (s : JsString) : JsInt :=
  match s.dropWhile isSpace with
  | [] => nan
  | u :: rest =>
    if u = 0x2D then ofDigits true (rest.takeWhile isDigit)
    else if u = 0x2B then ofDigits false (rest.takeWhile isDigit)
    else ofDigits false ((u :: rest).takeWhile isDigit)

def digitUnit (d : Nat) : UInt16 := UInt16.ofNat (48 + d)

/-- The decimal digits of a number above zero. -/
def decimal (n : Nat) : JsString := (Nat.digits 10 n).reverse.map digitUnit

/-- Digits, the point after the first of them, and an exponent. -/
def scientific (ds : JsString) (n : Nat) : JsString :=
  match ds with
  | [] => []
  | [d] => d :: lit "e+" ++ decimal (n - 1)
  | d :: ds => d :: lit "." ++ ds ++ lit "e+" ++ decimal (n - 1)

def natText (x : Nat) : JsString :=
  if x = 0 then lit "0"
  else
    let ds := decimal (shortest x).1
    let n := ds.length + (shortest x).2
    if n ≤ 21 then ds ++ List.replicate (shortest x).2 (digitUnit 0) else scientific ds n

/-- `String(n)`. -/
def toString : JsInt → JsString
  | nan => lit "NaN"
  | inf false => lit "Infinity"
  | inf true => lit "-Infinity"
  | int z => if z < 0 then 0x2D :: natText z.natAbs else natText z.natAbs

/-! ## 3. Digits -/

theorem digitUnit_toNat {d : Nat} (h : d < 10) : (digitUnit d).toNat = 48 + d :=
  toNat_ofNat (by omega)

theorem isDigit_digitUnit {d : Nat} (h : d < 10) : isDigit (digitUnit d) = true := by
  simp only [isDigit, digitUnit_toNat h, Bool.and_eq_true, decide_eq_true_eq]
  omega

theorem digitsValue_concat (ds : JsString) (u : UInt16) :
    digitsValue (ds ++ [u]) = 10 * digitsValue ds + (u.toNat - 48) := by
  simp [digitsValue]

theorem digitsValue_reverse {ds : List Nat} (h : ∀ d ∈ ds, d < 10) :
    digitsValue (ds.reverse.map digitUnit) = Nat.ofDigits 10 ds := by
  induction ds with
  | nil => rfl
  | cons d ds ih =>
    have hd : (digitUnit d).toNat - 48 = d := by
      rw [digitUnit_toNat (h d List.mem_cons_self)]
      omega
    have hds := ih fun d' hd' => h d' (List.mem_cons_of_mem d hd')
    rw [List.reverse_cons, List.map_append, List.map_singleton, digitsValue_concat, hds, hd,
      Nat.ofDigits_cons]
    omega

theorem digitsValue_decimal (n : Nat) : digitsValue (decimal n) = n := by
  have hlt : ∀ d ∈ Nat.digits 10 n, d < 10 := fun d hd => Nat.digits_lt_base (by decide) hd
  rw [decimal, digitsValue_reverse hlt, Nat.ofDigits_digits]

theorem digitsValue_append_zeros (ds : JsString) (e : Nat) :
    digitsValue (ds ++ List.replicate e (digitUnit 0)) = digitsValue ds * 10 ^ e := by
  induction e with
  | zero => simp
  | succ e ih =>
    have hzero : (digitUnit 0).toNat - 48 = 0 := by decide
    rw [List.replicate_succ', ← List.append_assoc, digitsValue_concat, ih, hzero, Nat.pow_succ]
    ring

theorem isDigit_decimal {n : Nat} {u : UInt16} (h : u ∈ decimal n) : isDigit u = true := by
  obtain ⟨d, hd, rfl⟩ := List.mem_map.mp h
  exact isDigit_digitUnit (Nat.digits_lt_base (by decide) (List.mem_reverse.mp hd))

theorem decimal_ne_nil {n : Nat} (h : n ≠ 0) : decimal n ≠ [] := by
  simpa [decimal] using Nat.digits_ne_nil_iff_ne_zero.mpr h

theorem wellFormed_digits {ds : JsString} (h : ∀ u ∈ ds, isDigit u = true) : WellFormed ds := by
  refine ⟨ds.map fun u => Char.ofNat u.toNat, ?_⟩
  induction ds with
  | nil => rfl
  | cons u ds ih =>
    have hu : 48 ≤ u.toNat ∧ u.toNat ≤ 57 := by simpa [isDigit] using h u List.mem_cons_self
    have hval : (Char.ofNat u.toNat).toNat = u.toNat := by
      rw [Char.ofNat, dif_pos (Or.inl (by omega))]
      rfl
    have hchar : ofChar (Char.ofNat u.toNat) = [u] := by
      unfold ofChar
      rw [hval, if_pos (by omega), UInt16.ofNat_toNat]
    have ih := ih fun u' hu' => h u' (List.mem_cons_of_mem u hu')
    unfold ofChars at ih ⊢
    rw [List.map_cons, List.flatMap_cons, hchar, ← ih, List.singleton_append]

/-- A sequence of digits has neither a sign nor white space in front. -/
theorem parseInt_digits {ds : JsString} (hne : ds ≠ []) (h : ∀ u ∈ ds, isDigit u = true) :
    parseInt ds = ofDigits false ds := by
  obtain ⟨u, rest, rfl⟩ := List.exists_cons_of_ne_nil hne
  have hu : 48 ≤ u.toNat ∧ u.toNat ≤ 57 := by simpa [isDigit] using h u List.mem_cons_self
  have hspace : isSpace u = false := by
    simp only [isSpace, Bool.or_eq_false_iff, Bool.and_eq_false_iff, decide_eq_false_iff_not,
      beq_eq_false_iff_ne]
    omega
  have hminus : u ≠ 0x2D := fun he => absurd hu.1 (by subst he; decide)
  have hplus : u ≠ 0x2B := fun he => absurd hu.1 (by subst he; decide)
  unfold parseInt
  rw [List.dropWhile_cons_of_neg (by simp [hspace])]
  simp only
  rw [if_neg hminus, if_neg hplus, List.takeWhile_eq_self_iff.mpr h]

/-! ## 4. Reading back -/

theorem exact_ten_pow : 2 ^ exponent (10 ^ 21) ∣ 10 ^ 21 := by decide +kernel

/-- Below `10 ^ 21` the text is digits with the right value. -/
theorem natText_digits {x : Nat} (hx : round x = x) (h : x < 10 ^ 21) :
    natText x ≠ [] ∧ (∀ u ∈ natText x, isDigit u = true) ∧ round (digitsValue (natText x)) = x := by
  rcases Nat.eq_zero_or_pos x with rfl | hpos
  · exact ⟨by decide, List.all_eq_true.mp (by decide), by decide⟩
  have hvalue := round_shortest hx
  have hs : (shortest x).1 ≠ 0 := by
    intro hs
    rw [hs, Nat.zero_mul] at hvalue
    exact hpos.ne (by simpa [Binary64.round] using hvalue)
  have hlt : (shortest x).1 * 10 ^ (shortest x).2 < 10 ^ 21 := by
    by_contra hge
    have := le_round exact_ten_pow (Nat.le_of_not_lt hge)
    omega
  have hlength : (decimal (shortest x).1).length + (shortest x).2 ≤ 21 := by
    have he : (shortest x).2 < 21 := by
      refine (Nat.pow_lt_pow_iff_right (by decide : 1 < 10)).mp (lt_of_le_of_lt ?_ hlt)
      exact Nat.le_mul_of_pos_left _ (Nat.pos_of_ne_zero hs)
    have hdigits : (shortest x).1 < 10 ^ (21 - (shortest x).2) := by
      refine Nat.lt_of_mul_lt_mul_right (a := 10 ^ (shortest x).2) ?_
      rw [← Nat.pow_add, Nat.sub_add_cancel he.le]
      exact hlt
    have := (Nat.digits_length_le_iff (by decide : 1 < 10) _).mpr hdigits
    simp only [decimal, List.length_map, List.length_reverse]
    omega
  have htext : natText x
      = decimal (shortest x).1 ++ List.replicate (shortest x).2 (digitUnit 0) := by
    unfold natText
    rw [if_neg hpos.ne']
    simp only
    rw [if_pos hlength]
  rw [htext]
  refine ⟨by simp [decimal_ne_nil hs], ?_, ?_⟩
  · intro u hu
    rcases List.mem_append.mp hu with hu | hu
    · exact isDigit_decimal hu
    · rw [List.eq_of_mem_replicate hu]
      exact isDigit_digitUnit (by decide)
  · rw [digitsValue_append_zeros, digitsValue_decimal, hvalue]

theorem toString_natCast (x : Nat) : toString (int x) = natText x := by
  simp [toString]

/-- **A whole number is read back from its text.** -/
theorem parseInt_toString {x : Nat} (hx : round x = x) (h : x < 10 ^ 21) :
    parseInt (toString (int x)) = int x := by
  obtain ⟨hne, hdigits, hvalue⟩ := natText_digits hx h
  have hfits : ¬ (overflows x = true) := by
    have hbig : 10 ^ 21 ≤ 2 ^ 1024 := by decide +kernel
    simp only [overflows, decide_eq_true_eq]
    omega
  rw [toString_natCast, parseInt_digits hne hdigits, ofDigits, if_neg hne]
  simp only [hvalue]
  rw [if_neg hfits]
  rfl

/-- What `parseInt` yields: a number that rounding leaves alone, with a sign. -/
theorem parseInt_cases (s : JsString) :
    parseInt s = nan ∨ (∃ neg, parseInt s = inf neg) ∨
      ∃ x : Nat, round x = x ∧ (parseInt s = int x ∨ parseInt s = int (-x)) := by
  have hdigits : ∀ neg ds, ofDigits neg ds = nan ∨ (∃ neg', ofDigits neg ds = inf neg') ∨
      ∃ x : Nat, round x = x ∧ (ofDigits neg ds = int x ∨ ofDigits neg ds = int (-x)) := by
    intro neg ds
    unfold ofDigits
    simp only
    split
    · exact Or.inl rfl
    · split
      · exact Or.inr (Or.inl ⟨neg, rfl⟩)
      · refine Or.inr (Or.inr ⟨round (digitsValue ds), round_round _, ?_⟩)
        cases neg
        · exact Or.inl rfl
        · exact Or.inr rfl
  unfold parseInt
  split
  · exact Or.inl rfl
  · split
    · exact hdigits _ _
    · split <;> exact hdigits _ _

end JsInt
