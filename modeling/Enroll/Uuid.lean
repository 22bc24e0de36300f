/-
# The text of a uuid

A database writes a uuid in one way, in lower-case hexadecimal with hyphens, and reads it whatever
the case of its letters.  A program that keeps uuids as strings compares the texts, so two texts of
one uuid are two ids to it.

`write` and `read` are the database's; a `Text` is what a validator of uuids lets through.
-/
import Mathlib.Data.Nat.Digits.Defs

namespace Uuid

/-! ## 1. Digits -/

/-- The digits, as they are written. -/
def hexDigits : List Char :=
  ['0', '1', '2', '3', '4', '5', '6', '7', '8', '9', 'a', 'b', 'c', 'd', 'e', 'f']

def hex (d : Nat) : Char := hexDigits.getD d '0'

/-- The value of a digit, in either case. -/
def hexValue (c : Char) : Nat := hexDigits.idxOf c.toLower

theorem hexValue_hex {d : Nat} (h : d < 16) : hexValue (hex d) = d := by
  have hall : ∀ d ∈ List.range 16, hexValue (hex d) = d := by decide
  exact hall d (List.mem_range.mpr h)

theorem hex_ne_hyphen {d : Nat} (h : d < 16) : hex d ≠ '-' := by
  have hall : ∀ d ∈ List.range 16, hex d ≠ '-' := by decide
  exact hall d (List.mem_range.mpr h)

/-! ## 2. Texts -/

/-- The digits of a uuid, 32 of them, the highest first. -/
def digits (n : Nat) : List Nat :=
  (Nat.digits 16 n ++ List.replicate (32 - (Nat.digits 16 n).length) 0).reverse

/-- `8-4-4-4-12`. -/
def hyphenate (cs : List Char) : List Char :=
  cs.take 8 ++ '-' :: ((cs.drop 8).take 4 ++ '-' :: ((cs.drop 12).take 4 ++ '-' ::
    ((cs.drop 16).take 4 ++ '-' :: cs.drop 20)))

/-- A uuid as the database writes it. -/
def write (n : Nat) : List Char := hyphenate ((digits n).map hex)

/-- The uuid of a text, in upper or lower case. -/
def read (cs : List Char) : Nat :=
  Nat.ofDigits 16 ((cs.filter (fun c => c != '-')).map hexValue).reverse

theorem lt_of_mem_digits {n d : Nat} (h : d ∈ digits n) : d < 16 := by
  rcases List.mem_append.mp (List.mem_reverse.mp h) with h | h
  · exact Nat.digits_lt_base (by decide) h
  · rw [List.eq_of_mem_replicate h]
    decide

theorem filter_hyphenate {cs : List Char} (h : ∀ c ∈ cs, c ≠ '-') :
    (hyphenate cs).filter (fun c => c != '-') = cs := by
  have hkeep (l : List Char) (hl : ∀ c ∈ l, c ∈ cs) : l.filter (fun c => c != '-') = l :=
    List.filter_eq_self.mpr fun c hc => bne_iff_ne.mpr (h c (hl c hc))
  have htake (m n : Nat) : ∀ c ∈ (cs.drop m).take n, c ∈ cs :=
    fun c hc => List.mem_of_mem_drop (List.mem_of_mem_take hc)
  have hskip (l : List Char) :
      ('-' :: l).filter (fun c => c != '-') = l.filter (fun c => c != '-') := rfl
  unfold hyphenate
  simp only [List.filter_append, hskip]
  rw [hkeep _ fun c => List.mem_of_mem_take, hkeep _ (htake 8 4), hkeep _ (htake 12 4),
    hkeep _ (htake 16 4), hkeep _ fun c => List.mem_of_mem_drop]
  have hjoin (m n : Nat) : (cs.drop m).take n ++ cs.drop (m + n) = cs.drop m := by
    rw [← List.drop_drop]
    exact List.take_append_drop n _
  rw [hjoin 16 4, hjoin 12 4, hjoin 8 4]
  exact List.take_append_drop 8 cs

/-- **A uuid is read as it was written.** -/
theorem read_write (n : Nat) : read (write n) = n := by
  have hchars : ∀ c ∈ (digits n).map hex, c ≠ '-' := by
    intro c hc
    obtain ⟨d, hd, rfl⟩ := List.mem_map.mp hc
    exact hex_ne_hyphen (lt_of_mem_digits hd)
  have hvalues : ((digits n).map hex).map hexValue = digits n := by
    rw [List.map_map]
    refine (List.map_congr_left fun d hd => ?_).trans (List.map_id _)
    exact hexValue_hex (lt_of_mem_digits hd)
  unfold read write
  rw [filter_hyphenate hchars, hvalues]
  unfold digits
  rw [List.reverse_reverse, Nat.ofDigits_append_replicate_zero, Nat.ofDigits_digits]

theorem write_injective : Function.Injective write :=
  Function.LeftInverse.injective read_write

/-- A text of a uuid: but for the case of its letters it is what the database writes. -/
structure Text where
  chars : List Char
  accepted : chars.map Char.toLower = write (read chars)
  deriving DecidableEq

namespace Text

def id (t : Text) : Nat := read t.chars

/-- The text is the one that the database writes. -/
def Stored (t : Text) : Prop := t.chars = write t.id

instance (t : Text) : Decidable t.Stored := inferInstanceAs (Decidable (_ = _))

/-- Compared as texts, a stored id and a spelled one are equal when the ids are and the spelled one
is in the database's spelling. -/
theorem write_eq_chars {n : Nat} {t : Text} : write n = t.chars ↔ n = t.id ∧ t.Stored := by
  constructor
  · intro h
    have hid : t.id = n := by rw [id, ← h, read_write]
    exact ⟨hid.symm, by rw [Stored, hid, h]⟩
  · rintro ⟨rfl, h⟩
    exact h.symm

end Text

end Uuid
