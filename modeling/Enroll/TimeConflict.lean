/-
# Meeting patterns and time conflicts

`time-conflict.ts`.  A meeting pattern is free text such as `MWF 9:00-9:50`; what is not of the
form `days start-end` has no slots.  Times go through JavaScript's `Number`, so this module has
that conversion (`number`) on the grammar of the language: surrounding white space, the empty
string, signs, fractions, exponents, `Infinity` and the three radix prefixes.  Finite values are
kept exact.
-/
import Mathlib.Data.Rat.Defs
import Mathlib.Data.List.Defs

namespace Enroll

/-! ## 1. JavaScript numbers -/

/-- A JavaScript number. -/
inductive JsNumber where
  | nan
  | inf (negative : Bool)
  | fin (q : Rat)
  deriving DecidableEq

namespace JsNumber

def neg : JsNumber → JsNumber
  | nan => nan
  | inf s => inf (!s)
  | fin q => fin (-q)

def add : JsNumber → JsNumber → JsNumber
  | nan, _ => nan
  | _, nan => nan
  | inf s, inf s' => if s = s' then inf s else nan
  | inf s, fin _ => inf s
  | fin _, inf s => inf s
  | fin p, fin q => fin (p + q)

/-- `x * q` for a positive finite `q`. -/
def scale (q : Rat) : JsNumber → JsNumber
  | nan => nan
  | inf s => inf s
  | fin p => fin (p * q)

/-- `x < y`; false as soon as one side is `NaN`. -/
def lt : JsNumber → JsNumber → Bool
  | nan, _ => false
  | _, nan => false
  | inf s, inf s' => s && !s'
  | inf s, fin _ => s
  | fin _, inf s => !s
  | fin p, fin q => decide (p < q)

def isNaN : JsNumber → Bool
  | nan => true
  | _ => false

end JsNumber

/-- The white space of `trim`, of `\s` and of `Number`. -/
def isSpace (c : Char) : Bool :=
  let n := c.toNat
  (9 ≤ n && n ≤ 13) || n == 32 || n == 160 || n == 5760 || (8192 ≤ n && n ≤ 8202) ||
    n == 8232 || n == 8233 || n == 8239 || n == 8287 || n == 12288 || n == 65279

/-- `s.trim()`. -/
def trim (s : List Char) : List Char :=
  ((s.dropWhile isSpace).reverse.dropWhile isSpace).reverse

/-- The value of a digit in radix 16, `16` for anything else. -/
def digitValue (c : Char) : Nat :=
  let n := c.toNat
  if 48 ≤ n ∧ n ≤ 57 then n - 48
  else if 97 ≤ n ∧ n ≤ 102 then n - 87
  else if 65 ≤ n ∧ n ≤ 70 then n - 55
  else 16

/-- A non-empty run of digits of the given radix. -/
def digits (radix : Nat) (s : List Char) : Option Nat :=
  if s.isEmpty then none
  else s.foldl (fun acc c => acc.bind fun n =>
    if digitValue c < radix then some (n * radix + digitValue c) else none) (some 0)

/-- `[+-]?digits`, an exponent. -/
def exponent : List Char → Option Int
  | '+' :: s => (digits 10 s).map Int.ofNat
  | '-' :: s => (digits 10 s).map (fun n => - Int.ofNat n)
  | s => (digits 10 s).map Int.ofNat

/-- A mantissa: `digits`, `digits.`, `digits.digits` or `.digits`. -/
def mantissa (s : List Char) : Option Rat :=
  match s.splitOn '.' with
  | [a] => (digits 10 a).map (fun n => Rat.ofInt n)
  | [a, []] => (digits 10 a).map (fun n => Rat.ofInt n)
  | [[], b] => (digits 10 b).map (fun n => mkRat n (Nat.pow 10 b.length))
  | [a, b] =>
    (digits 10 a).bind fun n => (digits 10 b).map fun m =>
      Rat.ofInt n + mkRat m (Nat.pow 10 b.length)
  | _ => none

/-- `StrUnsignedDecimalLiteral`. -/
def unsignedDecimal (s : List Char) : JsNumber :=
  if s = "Infinity".toList then .inf false
  else
    match s.splitOnP (fun c => c == 'e' || c == 'E') with
    | [m] => (mantissa m).elim .nan .fin
    | [m, e] =>
      ((mantissa m).bind fun q => (exponent e).map fun k => q * (10 : Rat) ^ k).elim .nan .fin
    | _ => .nan

/-- `Number(s)`. -/
def number (s : List Char) : JsNumber :=
  match trim s with
  | [] => .fin 0
  | '0' :: 'x' :: t => (digits 16 t).elim .nan (fun n => .fin n)
  | '0' :: 'X' :: t => (digits 16 t).elim .nan (fun n => .fin n)
  | '0' :: 'o' :: t => (digits 8 t).elim .nan (fun n => .fin n)
  | '0' :: 'O' :: t => (digits 8 t).elim .nan (fun n => .fin n)
  | '0' :: 'b' :: t => (digits 2 t).elim .nan (fun n => .fin n)
  | '0' :: 'B' :: t => (digits 2 t).elim .nan (fun n => .fin n)
  | '+' :: t => unsignedDecimal t
  | '-' :: t => (unsignedDecimal t).neg
  | t => unsignedDecimal t

/-! ## 2. Meeting patterns -/

/-- `DAY_CODES`. -/
def dayCode : Char → Option Nat
  | 'M' => some 1
  | 'T' => some 2
  | 'W' => some 3
  | 'R' => some 4
  | 'F' => some 5
  | 'S' => some 6
  | 'U' => some 7
  | _ => none

structure TimeSlot where
  day : Nat
  startMin : JsNumber
  endMin : JsNumber
  deriving DecidableEq

/-- `parseTime`: `h * 60 + m`, where a missing `m` is `undefined` and the sum is `NaN`. -/
def parseTime (raw : List Char) : JsNumber :=
  match raw.splitOn ':' with
  | h :: m :: _ => ((number h).scale 60).add (number m)
  | _ => .nan

/-- `s.split(/\s+/)`: the maximal runs of white space are the separators. -/
def splitSpaces (cur : List Char) (inSpace : Bool) : List Char → List (List Char)
  | [] => [cur.reverse]
  | c :: s =>
    if isSpace c then
      if inSpace then splitSpaces cur true s else cur.reverse :: splitSpaces [] true s
    else splitSpaces (c :: cur) false s

/-- `parseMeetingPattern`. -/
def parseMeetingPattern (pattern : String) : List TimeSlot :=
  match splitSpaces [] false (trim pattern.toList) with
  | [dayStr, timeRange] =>
    match timeRange.splitOn '-' with
    | startRaw :: endRaw :: _ =>
      if startRaw.isEmpty || endRaw.isEmpty then []
      else
        let startMin := parseTime startRaw
        let endMin := parseTime endRaw
        if startMin.isNaN || endMin.isNaN then []
        else dayStr.filterMap (fun ch => (dayCode ch).map (fun day => ⟨day, startMin, endMin⟩))
    | _ => []
  | _ => []

/-- `slotsOverlap`. -/
def slotsOverlap (a b : TimeSlot) : Bool :=
  a.day == b.day && a.startMin.lt b.endMin && b.startMin.lt a.endMin

/-- `hasTimeConflict`. -/
def hasTimeConflict (patternA patternB : String) : Bool :=
  (parseMeetingPattern patternA).any fun a =>
    (parseMeetingPattern patternB).any fun b => slotsOverlap a b

theorem slotsOverlap_comm (a b : TimeSlot) : slotsOverlap a b = slotsOverlap b a := by
  have hd : (a.day == b.day) = (b.day == a.day) := BEq.comm
  unfold slotsOverlap
  rw [hd, Bool.and_assoc, Bool.and_assoc, Bool.and_comm (a.startMin.lt b.endMin)]

/-- **Conflicts are mutual.**  The two loops visit the same pairs of slots. -/
theorem hasTimeConflict_comm (p q : String) : hasTimeConflict p q = hasTimeConflict q p := by
  refine Bool.eq_iff_iff.mpr ?_
  simp only [hasTimeConflict, List.any_eq_true]
  constructor
  · rintro ⟨a, ha, b, hb, h⟩
    exact ⟨b, hb, a, ha, slotsOverlap_comm a b ▸ h⟩
  · rintro ⟨b, hb, a, ha, h⟩
    exact ⟨a, ha, b, hb, slotsOverlap_comm b a ▸ h⟩

example : hasTimeConflict "MWF 9:00-9:50" "TW 9:30-10:45" = true := by decide +kernel

end Enroll
