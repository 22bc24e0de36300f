/-
# Query strings

The UTF-8 decoder of web APIs, and `application/x-www-form-urlencoded`: `serialize` and `parse` are
`URLSearchParams` written out and read in.  `parse_serialize` is the round trip, for any list of
entries; `last_set` says what a record made of the entries holds after `set`.
-/
import Mathlib.Data.List.Basic

/-! ## 1. UTF-8 -/

namespace Utf8

def encode (s : List Char) : List UInt8 := s.flatMap String.utf8EncodeChar

/-- A character whose last bytes are still to come, with the bounds of the next one. -/
structure Pending where
  codePoint : Nat
  owed : Nat
  low : Nat
  high : Nat
  deriving DecidableEq, Repr

/-- A byte in front of a character. -/
def lead (b : UInt8) : List Char × Option Pending :=
  let n := b.toNat
  if n ≤ 0x7F then ([Char.ofNat n], none)
  else if 0xC2 ≤ n ∧ n ≤ 0xDF then ([], some ⟨n - 0xC0, 1, 0x80, 0xBF⟩)
  else if 0xE0 ≤ n ∧ n ≤ 0xEF then
    ([], some ⟨n - 0xE0, 2, if n = 0xE0 then 0xA0 else 0x80, if n = 0xED then 0x9F else 0xBF⟩)
  else if 0xF0 ≤ n ∧ n ≤ 0xF4 then
    ([], some ⟨n - 0xF0, 3, if n = 0xF0 then 0x90 else 0x80, if n = 0xF4 then 0x8F else 0xBF⟩)
  else (['\ufffd'], none)

def step : Option Pending → UInt8 → List Char × Option Pending
  | none, b => lead b
  | some p, b =>
    if p.low ≤ b.toNat ∧ b.toNat ≤ p.high then
      let codePoint := p.codePoint * 64 + (b.toNat - 0x80)
      if p.owed = 1 then ([Char.ofNat codePoint], none)
      else ([], some ⟨codePoint, p.owed - 1, 0x80, 0xBF⟩)
    else
      -- The character breaks off here, and the byte is read again.
      ('\ufffd' :: (lead b).1, (lead b).2)

/-- Decode; what is not UTF-8 becomes U+FFFD. -/
def decode : Option Pending → List UInt8 → List Char
  | none, [] => []
  | some _, [] => ['\ufffd']
  | st, b :: bs => (step st b).1 ++ decode (step st b).2 bs

theorem decode_cons (st : Option Pending) (b : UInt8) (bs : List UInt8) :
    decode st (b :: bs) = (step st b).1 ++ decode (step st b).2 bs := by
  cases st <;> rfl

theorem byte_toNat {n : Nat} (h : n < 256) : (UInt8.ofNat n).toNat = n :=
  UInt8.toNat_ofNat_of_lt' h

theorem decode_last {p : Pending} {n : Nat} (hn : n < 64) (howed : p.owed = 1)
    (h : p.low ≤ n + 0x80 ∧ n + 0x80 ≤ p.high) (bs : List UInt8) :
    decode (some p) (UInt8.ofNat (n + 0x80) :: bs)
      = Char.ofNat (p.codePoint * 64 + n) :: decode none bs := by
  have hb : (UInt8.ofNat (n + 0x80)).toNat = n + 0x80 := byte_toNat (by omega)
  simp only [decode_cons, step, hb, if_pos h, if_pos howed, Nat.add_sub_cancel, List.singleton_append]

theorem decode_next {p : Pending} {n : Nat} (hn : n < 64) (howed : p.owed ≠ 1)
    (h : p.low ≤ n + 0x80 ∧ n + 0x80 ≤ p.high) (bs : List UInt8) :
    decode (some p) (UInt8.ofNat (n + 0x80) :: bs)
      = decode (some ⟨p.codePoint * 64 + n, p.owed - 1, 0x80, 0xBF⟩) bs := by
  have hb : (UInt8.ofNat (n + 0x80)).toNat = n + 0x80 := byte_toNat (by omega)
  simp only [decode_cons, step, hb, if_pos h, if_neg howed, Nat.add_sub_cancel, List.nil_append]

theorem continuation {n : Nat} (h : n < 64) : 0x80 ≤ n + 0x80 ∧ n + 0x80 ≤ 0xBF := by
  omega

theorem decode_one {v : Nat} (h : v < 0x80) (bs : List UInt8) :
    decode none (UInt8.ofNat v :: bs) = Char.ofNat v :: decode none bs := by
  have hb : (UInt8.ofNat v).toNat = v := byte_toNat (by omega)
  rw [decode_cons, step, lead]
  simp only [hb]
  rw [if_pos (by omega)]
  rfl

theorem decode_two {v : Nat} (h : 0x80 ≤ v ∧ v < 0x800) (bs : List UInt8) :
    decode none (UInt8.ofNat (v / 64 % 0x20 + 0xc0) :: UInt8.ofNat (v % 0x40 + 0x80) :: bs)
      = Char.ofNat v :: decode none bs := by
  have hb : (UInt8.ofNat (v / 64 % 0x20 + 0xc0)).toNat = v / 64 % 0x20 + 0xc0 :=
    byte_toNat (by omega)
  have hv : v / 64 % 0x20 * 64 + v % 0x40 = v := by omega
  rw [decode_cons, step, lead]
  simp only [hb]
  rw [if_neg (by omega), if_pos (by omega), List.nil_append, decode_last]
  · rw [Nat.add_sub_cancel, hv]
  · omega
  · rfl
  · exact continuation (Nat.mod_lt _ (by decide))

theorem decode_three {v : Nat} (h : 0x800 ≤ v ∧ v < 0x10000) (hvalid : v < 0xD800 ∨ 0xDFFF < v)
    (bs : List UInt8) :
    decode none (UInt8.ofNat (v / 4096 % 0x10 + 0xe0) :: UInt8.ofNat (v / 64 % 0x40 + 0x80) ::
        UInt8.ofNat (v % 0x40 + 0x80) :: bs)
      = Char.ofNat v :: decode none bs := by
  have hb : (UInt8.ofNat (v / 4096 % 0x10 + 0xe0)).toNat = v / 4096 % 0x10 + 0xe0 :=
    byte_toNat (by omega)
  have hv : (v / 4096 % 0x10 * 64 + v / 64 % 0x40) * 64 + v % 0x40 = v := by omega
  rw [decode_cons, step, lead]
  simp only [hb]
  rw [if_neg (by omega), if_neg (by omega), if_pos (by omega), List.nil_append, decode_next,
    decode_last]
  · simp only [Nat.add_sub_cancel]
    rw [hv]
  · omega
  · rfl
  · exact continuation (Nat.mod_lt _ (by decide))
  · omega
  · exact Nat.succ_ne_self 1
  · -- E0 and ED narrow the byte after them; the character is not a surrogate.
    constructor
    · simp only
      split <;> omega
    · simp only
      split <;> omega

theorem decode_four {v : Nat} (h : 0x10000 ≤ v ∧ v < 0x110000) (bs : List UInt8) :
    decode none (UInt8.ofNat (v / 262144 % 0x08 + 0xf0) :: UInt8.ofNat (v / 4096 % 0x40 + 0x80) ::
        UInt8.ofNat (v / 64 % 0x40 + 0x80) :: UInt8.ofNat (v % 0x40 + 0x80) :: bs)
      = Char.ofNat v :: decode none bs := by
  have hb : (UInt8.ofNat (v / 262144 % 0x08 + 0xf0)).toNat = v / 262144 % 0x08 + 0xf0 :=
    byte_toNat (by omega)
  have hv : ((v / 262144 % 0x08 * 64 + v / 4096 % 0x40) * 64 + v / 64 % 0x40) * 64 + v % 0x40 = v := by
    omega
  rw [decode_cons, step, lead]
  simp only [hb]
  rw [if_neg (by omega), if_neg (by omega), if_neg (by omega), if_pos (by omega), List.nil_append,
    decode_next, decode_next, decode_last]
  · simp only [Nat.add_sub_cancel]
    rw [hv]
  · omega
  · rfl
  · exact continuation (Nat.mod_lt _ (by decide))
  · omega
  · exact Nat.succ_ne_self 1
  · exact continuation (Nat.mod_lt _ (by decide))
  · omega
  · exact (by decide : 3 ≠ 1)
  · -- F0 and F4 do the same at both ends of the four-byte range.
    constructor
    · simp only
      split <;> omega
    · simp only
      split <;> omega

theorem decode_char (c : Char) (bs : List UInt8) :
    decode none (String.utf8EncodeChar c ++ bs) = c :: decode none bs := by
  have hvalid : c.val.toNat < 0xD800 ∨ 0xDFFF < c.val.toNat ∧ c.val.toNat < 0x110000 := c.valid
  have hc : Char.ofNat c.val.toNat = c := Char.ofNat_toNat c
  unfold String.utf8EncodeChar
  simp only
  generalize c.val.toNat = v at hvalid hc
  rw [← hc]
  split
  · exact decode_one (by omega) bs
  split
  · exact decode_two (by omega) bs
  split
  · exact decode_three (by omega) (by omega) bs
  · exact decode_four (by omega) bs

/-- **UTF-8 round trip.** -/
theorem decode_encode (s : List Char) : decode none (encode s) = s := by
  induction s with
  | nil => rfl
  | cons c s ih =>
    unfold encode at ih ⊢
    rw [List.flatMap_cons, decode_char, ih]

end Utf8

namespace FormUrlencoded

/-- The list behind a `URLSearchParams`, in scalar values. -/
abbrev Entries := List (List Char × List Char)

/-! ## 2. Percent-encoding -/

/-- The bytes that stand for themselves: letters, digits and `*-._`. -/
def isPlain (b : UInt8) : Bool :=
  let n := b.toNat
  (48 ≤ n && n ≤ 57) || (65 ≤ n && n ≤ 90) || (97 ≤ n && n ≤ 122) ||
    n == 42 || n == 45 || n == 46 || n == 95

def hexDigit (n : Nat) : UInt8 := UInt8.ofNat (if n < 10 then 48 + n else 55 + n)

def encodeByte (b : UInt8) : List UInt8 :=
  if b = 0x20 then [0x2B]
  else if isPlain b then [b]
  else [0x25, hexDigit (b.toNat / 16), hexDigit (b.toNat % 16)]

def encode (s : List Char) : List UInt8 := (Utf8.encode s).flatMap encodeByte

def hexValue (b : UInt8) : Option Nat :=
  let n := b.toNat
  if 48 ≤ n ∧ n ≤ 57 then some (n - 48)
  else if 65 ≤ n ∧ n ≤ 70 then some (n - 55)
  else if 97 ≤ n ∧ n ≤ 102 then some (n - 87)
  else none

/-- The byte of two hexadecimal digits. -/
def hexByte (b c : UInt8) : Option UInt8 :=
  match hexValue b, hexValue c with
  | some x, some y => some (UInt8.ofNat (16 * x + y))
  | _, _ => none

def percentDecode : List UInt8 → List UInt8
  | b :: c :: d :: bs =>
    if b = 0x25 then
      match hexByte c d with
      | some x => x :: percentDecode bs
      | none => b :: percentDecode (c :: d :: bs)
    else b :: percentDecode (c :: d :: bs)
  | bs => bs

def plusToSpace (b : UInt8) : UInt8 := if b = 0x2B then 0x20 else b

def decode (bs : List UInt8) : List Char :=
  Utf8.decode none (percentDecode (bs.map plusToSpace))

theorem percentDecode_plain {b : UInt8} (h : b ≠ 0x25) (bs : List UInt8) :
    percentDecode (b :: bs) = b :: percentDecode bs := by
  match bs with
  | [] | [_] => rfl
  | _ :: _ :: _ => rw [percentDecode, if_neg h]

theorem percentDecode_hex {x : UInt8} {c d : UInt8} (h : hexByte c d = some x) (bs : List UInt8) :
    percentDecode (0x25 :: c :: d :: bs) = x :: percentDecode bs := by
  rw [percentDecode, if_pos rfl, h]

theorem forall_byte {p : UInt8 → Prop} (h : ∀ n < 256, p (UInt8.ofNat n)) (b : UInt8) : p b := by
  have := h b.toNat b.toNat_lt
  rwa [UInt8.ofNat_toNat] at this

theorem hexByte_hexDigit : ∀ b : UInt8,
    hexByte (plusToSpace (hexDigit (b.toNat / 16))) (plusToSpace (hexDigit (b.toNat % 16))) = some b :=
  forall_byte (by decide +kernel)

theorem isPlain_ne : ∀ b : UInt8, isPlain b = true → plusToSpace b = b ∧ b ≠ 0x25 :=
  forall_byte (by decide +kernel)

/-- An encoded byte is ASCII and none of the separators. -/
theorem mem_encodeByte : ∀ b : UInt8, ∀ c ∈ encodeByte b, c.toNat < 128 ∧ c ≠ 0x26 ∧ c ≠ 0x3D :=
  forall_byte (by decide +kernel)

theorem percentDecode_encodeByte (b : UInt8) (bs : List UInt8) :
    percentDecode ((encodeByte b ++ bs).map plusToSpace)
      = b :: percentDecode (bs.map plusToSpace) := by
  unfold encodeByte
  split
  · rename_i hb
    rw [hb]
    exact percentDecode_plain (by decide) _
  split
  · rename_i hplain
    obtain ⟨hplus, hne⟩ := isPlain_ne b hplain
    rw [List.singleton_append, List.map_cons, hplus, percentDecode_plain hne]
  · exact percentDecode_hex (hexByte_hexDigit b) _

theorem percentDecode_encode (bs : List UInt8) :
    percentDecode ((bs.flatMap encodeByte).map plusToSpace) = bs := by
  induction bs with
  | nil => rfl
  | cons b bs ih => rw [List.flatMap_cons, percentDecode_encodeByte, ih]

/-- A name or a value is read back. -/
theorem decode_encode (s : List Char) : decode (encode s) = s := by
  unfold decode encode
  rw [percentDecode_encode, Utf8.decode_encode]

theorem mem_encode {s : List Char} {b : UInt8} (h : b ∈ encode s) :
    b.toNat < 128 ∧ b ≠ 0x26 ∧ b ≠ 0x3D := by
  obtain ⟨a, -, hb⟩ := List.mem_flatMap.mp h
  exact mem_encodeByte a b hb

/-! ## 3. Lists of entries -/

def encodeEntry (e : List Char × List Char) : List UInt8 := encode e.1 ++ 0x3D :: encode e.2

def serializeBytes (l : Entries) : List UInt8 := [0x26].intercalate (l.map encodeEntry)

/-- `params.toString()`. -/
def serialize (l : Entries) : List Char := (serializeBytes l).map fun b => Char.ofNat b.toNat

def decodeEntry (bs : List UInt8) : List Char × List Char :=
  (decode (bs.takeWhile (· != 0x3D)), decode ((bs.dropWhile (· != 0x3D)).drop 1))

def parseBytes (bs : List UInt8) : Entries :=
  ((bs.splitOn 0x26).filter fun seq => !seq.isEmpty).map decodeEntry

/-- `new URLSearchParams(s)`, without a question mark in front. -/
def parse (s : List Char) : Entries := parseBytes (Utf8.encode s)

theorem decodeEntry_encodeEntry (e : List Char × List Char) : decodeEntry (encodeEntry e) = e := by
  have hname : ∀ b ∈ encode e.1, (b != 0x3D) = true := fun b hb => by
    simpa using (mem_encode hb).2.2
  unfold decodeEntry encodeEntry
  rw [List.takeWhile_append_of_pos hname, List.dropWhile_append_of_pos hname,
    List.takeWhile_cons_of_neg (by decide), List.dropWhile_cons_of_neg (by decide), List.append_nil,
    List.drop_one, List.tail_cons, decode_encode, decode_encode]

theorem mem_encodeEntry {e : List Char × List Char} {b : UInt8} (h : b ∈ encodeEntry e) :
    b.toNat < 128 ∧ b ≠ 0x26 := by
  rcases List.mem_append.mp h with h | h
  · exact ⟨(mem_encode h).1, (mem_encode h).2.1⟩
  · rcases List.mem_cons.mp h with rfl | h
    · exact ⟨by decide, by decide⟩
    · exact ⟨(mem_encode h).1, (mem_encode h).2.1⟩

theorem parseBytes_serializeBytes (l : Entries) : parseBytes (serializeBytes l) = l := by
  rcases eq_or_ne l [] with rfl | hne
  · rfl
  have hsplit : (serializeBytes l).splitOn 0x26 = l.map encodeEntry := by
    refine List.splitOn_intercalate 0x26 ?_ (by simpa using hne)
    intro bs hbs hmem
    obtain ⟨e, -, rfl⟩ := List.mem_map.mp hbs
    exact (mem_encodeEntry hmem).2 rfl
  have hall : (l.map encodeEntry).filter (fun seq => !seq.isEmpty) = l.map encodeEntry := by
    refine List.filter_eq_self.mpr fun bs hbs => ?_
    obtain ⟨e, -, rfl⟩ := List.mem_map.mp hbs
    simp [encodeEntry]
  have hid : decodeEntry ∘ encodeEntry = id := funext decodeEntry_encodeEntry
  unfold parseBytes
  rw [hsplit, hall, List.map_map, hid, List.map_id]

theorem mem_intercalate {α : Type} {sep : List α} {b : α} :
    ∀ {ls : List (List α)}, b ∈ sep.intercalate ls → b ∈ sep ∨ ∃ l ∈ ls, b ∈ l
  | [], h => absurd h (by simp)
  | [l], h => Or.inr ⟨l, List.mem_cons_self, by simpa using h⟩
  | l :: l' :: ls, h => by
    rw [List.intercalate_cons_cons] at h
    rcases List.mem_append.mp h with h | h
    · rcases List.mem_append.mp h with h | h
      · exact Or.inr ⟨l, List.mem_cons_self, h⟩
      · exact Or.inl h
    · rcases mem_intercalate h with h | ⟨m, hm, hb⟩
      · exact Or.inl h
      · exact Or.inr ⟨m, List.mem_cons_of_mem _ hm, hb⟩

/-- The UTF-8 of ASCII text is its bytes. -/
theorem encode_ascii {bs : List UInt8} (h : ∀ b ∈ bs, b.toNat < 128) :
    Utf8.encode (bs.map fun b => Char.ofNat b.toNat) = bs := by
  induction bs with
  | nil => rfl
  | cons b bs ih =>
    have hb := h b List.mem_cons_self
    have hval : (Char.ofNat b.toNat).val.toNat = b.toNat := by
      rw [Char.ofNat, dif_pos (Or.inl (by omega))]
      rfl
    have hchar : String.utf8EncodeChar (Char.ofNat b.toNat) = [b] := by
      unfold String.utf8EncodeChar
      simp only [hval]
      rw [if_pos (by omega), UInt8.ofNat_toNat]
    have ih := ih fun b' hb' => h b' (List.mem_cons_of_mem b hb')
    unfold Utf8.encode at ih ⊢
    rw [List.map_cons, List.flatMap_cons, hchar, ih, List.singleton_append]

/-- **Query string round trip.** -/
theorem parse_serialize (l : Entries) : parse (serialize l) = l := by
  unfold parse serialize
  rw [encode_ascii, parseBytes_serializeBytes]
  intro b hb
  rcases mem_intercalate hb with hb | ⟨bs, hbs, hb⟩
  · rw [List.mem_singleton.mp hb]
    decide
  · obtain ⟨e, -, rfl⟩ := List.mem_map.mp hbs
    exact (mem_encodeEntry hb).1

/-! ## 4. Setting an entry -/

/-- `params.set(name, value)`. -/
def set (name value : List Char) : Entries → Entries
  | [] => [(name, value)]
  | e :: l =>
    if e.1 = name then (name, value) :: l.filter fun e' => e'.1 ≠ name
    else e :: set name value l

/-- What `Object.fromEntries` keeps under a name: its last value. -/
def last (name : List Char) : Entries → Option (List Char)
  | [] => none
  | e :: l => (last name l).or (if e.1 = name then some e.2 else none)

theorem last_filter_ne {name name' : List Char} (l : Entries) :
    last name (l.filter fun e => e.1 ≠ name') = if name = name' then none else last name l := by
  induction l with
  | nil => simp [last]
  | cons e l ih =>
    rw [List.filter_cons]
    by_cases he : e.1 = name'
    · rw [if_neg (by simpa using he), ih]
      by_cases hn : name = name'
      · rw [if_pos hn, if_pos hn]
      · have hne : e.1 ≠ name := fun h => hn (h.symm.trans he)
        rw [if_neg hn, if_neg hn, last, if_neg hne, Option.or_none]
    · rw [if_pos (by simpa using he), last, ih]
      by_cases hn : name = name'
      · have hne : e.1 ≠ name := fun h => he (h.trans hn)
        rw [if_pos hn, if_pos hn, if_neg hne, Option.or_none]
      · rw [if_neg hn, if_neg hn, last]

/-- **`set` changes one name.** -/
theorem last_set (name name' value : List Char) (l : Entries) :
    last name (set name' value l) = if name = name' then some value else last name l := by
  induction l with
  | nil =>
    by_cases hn : name = name'
    · simp [set, last, hn]
    · simp [set, last, hn, Ne.symm hn]
  | cons e l ih =>
    unfold set
    by_cases he : e.1 = name'
    · rw [if_pos he, last, last_filter_ne]
      by_cases hn : name = name'
      · rw [if_pos hn, if_pos hn, if_pos hn.symm, Option.none_or]
      · have hne : e.1 ≠ name := fun h => hn (h.symm.trans he)
        rw [if_neg hn, if_neg hn, if_neg (Ne.symm hn), last, if_neg hne]
    · rw [if_neg he, last, ih]
      by_cases hn : name = name'
      · rw [if_pos hn, if_pos hn, Option.some_or]
      · rw [if_neg hn, if_neg hn, last]

end FormUrlencoded
