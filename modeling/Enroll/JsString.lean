/-
# JavaScript strings

A string is a sequence of 16-bit code units, which need not be well-formed UTF-16: `slice` counts
units and may cut a surrogate pair in two.  Literals and the text of Unicode characters are
`ofChars`; `toUSV` is the conversion at the border of web APIs, where a surrogate on its own becomes
U+FFFD.  `toUSV_ofChars` says that well-formed text survives it.
-/
import Mathlib.Data.List.DropRight

abbrev JsString := List UInt16

namespace JsString

/-! ## 1. Code units -/

/-- The code units of a character. -/
def ofChar (c : Char) : JsString :=
  if c.toNat < 0x10000 then [UInt16.ofNat c.toNat]
  else
    [UInt16.ofNat (0xD800 + (c.toNat - 0x10000) / 0x400),
      UInt16.ofNat (0xDC00 + (c.toNat - 0x10000) % 0x400)]

def ofChars (cs : List Char) : JsString := cs.flatMap ofChar

/-- A literal. -/
def lit (s : String) : JsString := ofChars s.toList

/-- `s.isWellFormed()`: no surrogate stands on its own. -/
def WellFormed (s : JsString) : Prop := ∃ cs, s = ofChars cs

def isHigh (u : UInt16) : Bool := 0xD800 ≤ u.toNat && u.toNat ≤ 0xDBFF

def isLow (u : UInt16) : Bool := 0xDC00 ≤ u.toNat && u.toNat ≤ 0xDFFF

/-- The character of a surrogate pair. -/
def pairChar (u v : UInt16) : Char :=
  Char.ofNat (0x10000 + (u.toNat - 0xD800) * 0x400 + (v.toNat - 0xDC00))

/-- Conversion to scalar values. -/
def toUSV : JsString → List Char
  | [] => []
  | [u] => if isHigh u || isLow u then ['\ufffd'] else [Char.ofNat u.toNat]
  | u :: v :: s =>
    if isHigh u then
      if isLow v then pairChar u v :: toUSV s else '\ufffd' :: toUSV (v :: s)
    else if isLow u then '\ufffd' :: toUSV (v :: s)
    else Char.ofNat u.toNat :: toUSV (v :: s)

/-- The white space of `trim`, `\s` and `parseInt`. -/
def isSpace (u : UInt16) : Bool :=
  let n := u.toNat
  (9 ≤ n && n ≤ 13) || n == 32 || n == 160 || n == 5760 || (8192 ≤ n && n ≤ 8202) ||
    n == 8232 || n == 8233 || n == 8239 || n == 8287 || n == 12288 || n == 65279

/-- `s.trim()`. -/
def trim (s : JsString) : JsString := (s.dropWhile isSpace).rdropWhile isSpace

def isDigit (u : UInt16) : Bool := 48 ≤ u.toNat && u.toNat ≤ 57

/-! ## 2. Well-formed text -/

theorem toUSV_unit {u : UInt16} (hh : isHigh u = false) (hl : isLow u = false) (s : JsString) :
    toUSV (u :: s) = Char.ofNat u.toNat :: toUSV s := by
  cases s with
  | nil => simp [toUSV, hh, hl]
  | cons v s => simp [toUSV, hh, hl]

theorem toNat_ofNat {n : Nat} (h : n < 0x10000) : (UInt16.ofNat n).toNat = n :=
  UInt16.toNat_ofNat_of_lt' h

theorem toUSV_ofChar (c : Char) (s : JsString) : toUSV (ofChar c ++ s) = c :: toUSV s := by
  have hvalid : c.toNat < 0xD800 ∨ 0xDFFF < c.toNat ∧ c.toNat < 0x110000 := c.valid
  unfold ofChar
  split
  · rename_i hbmp
    have hn := toNat_ofNat hbmp
    rw [List.singleton_append, toUSV_unit, hn, Char.ofNat_toNat]
    · simp only [isHigh, hn, Bool.and_eq_false_iff, decide_eq_false_iff_not]
      omega
    · simp only [isLow, hn, Bool.and_eq_false_iff, decide_eq_false_iff_not]
      omega
  · rename_i hbmp
    have hu : (UInt16.ofNat (0xD800 + (c.toNat - 0x10000) / 0x400)).toNat
        = 0xD800 + (c.toNat - 0x10000) / 0x400 := toNat_ofNat (by omega)
    have hv : (UInt16.ofNat (0xDC00 + (c.toNat - 0x10000) % 0x400)).toNat
        = 0xDC00 + (c.toNat - 0x10000) % 0x400 := toNat_ofNat (by omega)
    have hhigh : isHigh (UInt16.ofNat (0xD800 + (c.toNat - 0x10000) / 0x400)) = true := by
      simp only [isHigh, hu, Bool.and_eq_true, decide_eq_true_eq]
      omega
    have hlow : isLow (UInt16.ofNat (0xDC00 + (c.toNat - 0x10000) % 0x400)) = true := by
      simp only [isLow, hv, Bool.and_eq_true, decide_eq_true_eq]
      omega
    have hpair : pairChar (UInt16.ofNat (0xD800 + (c.toNat - 0x10000) / 0x400))
        (UInt16.ofNat (0xDC00 + (c.toNat - 0x10000) % 0x400)) = c := by
      have hsum : 0x10000 + (0xD800 + (c.toNat - 0x10000) / 0x400 - 0xD800) * 0x400
          + (0xDC00 + (c.toNat - 0x10000) % 0x400 - 0xDC00) = c.toNat := by omega
      unfold pairChar
      rw [hu, hv, hsum, Char.ofNat_toNat]
    rw [List.cons_append, List.cons_append, List.nil_append, toUSV, if_pos hhigh, if_pos hlow, hpair]

/-- **Well-formed text is its characters.** -/
theorem toUSV_ofChars (cs : List Char) : toUSV (ofChars cs) = cs := by
  induction cs with
  | nil => rfl
  | cons c cs ih =>
    unfold ofChars at ih ⊢
    rw [List.flatMap_cons, toUSV_ofChar, ih]

theorem WellFormed.ofChars_toUSV {s : JsString} (h : WellFormed s) : ofChars (toUSV s) = s := by
  obtain ⟨cs, rfl⟩ := h
  rw [toUSV_ofChars]

end JsString
