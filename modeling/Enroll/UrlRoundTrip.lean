/-
# Reading a URL again

The path and the query of a URL, written down, are a reference once more.  Read against any base,
they give the same path and query at the base's own origin (`parse_written`), unless the path begins
with an empty segment that is not its last: then two slashes come first, and what follows is read as
an authority (`relative_slashes`).

`leads_iff` says when the segments of a reference give such a path.  An empty segment must be reached
with nothing before it: every segment before it is a dot or taken back by a `..`.
-/
import Enroll.Url

namespace Url

/-! ## 1. Percent-encoding -/

section Encoding

variable {set : Char → Bool} {s : Str} {c : Char}

/-- The set does not encode what encoding makes. -/
def Stable (set : Char → Bool) : Prop := ∀ c ∈ '%' :: hexDigits, set c = false

theorem forall_of_all {f : Char → Bool} {l : Str} (h : l.all (fun c => !f c) = true) :
    ∀ c ∈ l, f c = false := fun c hc => by simpa using List.all_eq_true.mp h c hc

theorem stable_path : Stable inPathSet := forall_of_all (by decide)

theorem stable_query (special : Bool) : Stable (inQuerySet special) := by
  cases special with
  | false => exact forall_of_all (by decide)
  | true => exact forall_of_all (by decide)

theorem hexDigit_mem (n : Nat) : hexDigit n ∈ hexDigits := by
  unfold hexDigit
  rw [List.getD_eq_getElem?_getD]
  cases h : hexDigits[n]? with
  | none => decide
  | some c => exact List.mem_of_getElem? h

/-- An encoded text has characters of the text that need no encoding, and those of `%XX`. -/
theorem mem_percentEncode (h : c ∈ percentEncode set s) :
    (c ∈ s ∧ set c = false) ∨ c ∈ '%' :: hexDigits := by
  obtain ⟨d, hd, hc⟩ := List.mem_flatMap.mp h
  by_cases hset : set d = true
  · rw [if_pos hset] at hc
    obtain ⟨b, -, hc⟩ := List.mem_flatMap.mp hc
    right
    unfold percentEncodeByte at hc
    simp only [List.mem_cons, List.not_mem_nil, or_false] at hc
    rcases hc with rfl | rfl | rfl
    · exact List.mem_cons_self
    · exact List.mem_cons_of_mem _ (hexDigit_mem _)
    · exact List.mem_cons_of_mem _ (hexDigit_mem _)
  · rw [if_neg hset] at hc
    obtain rfl := List.mem_singleton.mp hc
    exact Or.inl ⟨hd, by simpa using hset⟩

theorem percentEncode_safe (hset : Stable set) (h : c ∈ percentEncode set s) : set c = false := by
  rcases mem_percentEncode h with h | h
  · exact h.2
  · exact hset c h

theorem percentEncode_eq (h : ∀ c ∈ s, set c = false) : percentEncode set s = s := by
  induction s with
  | nil => rfl
  | cons c s ih =>
    have hhead : set c = false := h c List.mem_cons_self
    have htail := ih fun d hd => h d (List.mem_cons_of_mem _ hd)
    unfold percentEncode at htail ⊢
    rw [List.flatMap_cons, htail]
    simp [hhead]

end Encoding

/-! ## 2. Segments that stay as they are -/

/-- A segment of a path in normal form. -/
structure Tidy (seg : Str) : Prop where
  encoded : ∀ c ∈ seg, inPathSet c = false
  noSlash : ∀ c ∈ seg, isSlash true c = false
  noSingle : isSingleDot seg = false
  noDouble : isDoubleDot seg = false

theorem tidy_nil : Tidy [] := ⟨by simp, by simp, by decide, by decide⟩

/-- What a segment without slashes becomes. -/
theorem tidy_encode {seg : Str} (h : ∀ c ∈ seg, isSlash true c = false)
    (hs : isSingleDot (percentEncode inPathSet seg) = false)
    (hd : isDoubleDot (percentEncode inPathSet seg) = false) :
    Tidy (percentEncode inPathSet seg) := by
  have hout : ∀ c ∈ '%' :: hexDigits, isSlash true c = false := forall_of_all (by decide)
  refine ⟨fun c => percentEncode_safe stable_path, fun c hc => ?_, hs, hd⟩
  rcases mem_percentEncode hc with hc | hc
  · exact h c hc.1
  · exact hout c hc

theorem Tidy.encode {seg : Str} (h : Tidy seg) : percentEncode inPathSet seg = seg :=
  percentEncode_eq h.encoded

section Adding

variable {path raw : List Str}

theorem tidy_push (hp : ∀ seg ∈ path, Tidy seg) {seg : Str} (h : ∀ c ∈ seg, isSlash true c = false) :
    ∀ seg' ∈ pushSegment path seg, Tidy seg' := by
  intro seg' hseg'
  unfold pushSegment at hseg'
  simp only at hseg'
  split at hseg'
  · exact hp seg' (List.mem_of_mem_dropLast hseg')
  · rename_i hd
    split at hseg'
    · exact hp seg' hseg'
    · rename_i hs
      rcases List.mem_append.mp hseg' with hseg' | hseg'
      · exact hp seg' hseg'
      · obtain rfl := List.mem_singleton.mp hseg'
        exact tidy_encode h (by simpa using hs) (by simpa using hd)

theorem tidy_last (hp : ∀ seg ∈ path, Tidy seg) {seg : Str} (h : ∀ c ∈ seg, isSlash true c = false) :
    ∀ seg' ∈ lastSegment path seg, Tidy seg' := by
  intro seg' hseg'
  unfold lastSegment at hseg'
  simp only at hseg'
  split at hseg'
  · rcases List.mem_append.mp hseg' with hseg' | hseg'
    · exact hp seg' (List.mem_of_mem_dropLast hseg')
    · exact List.mem_singleton.mp hseg' ▸ tidy_nil
  · rename_i hd
    split at hseg'
    · rcases List.mem_append.mp hseg' with hseg' | hseg'
      · exact hp seg' hseg'
      · exact List.mem_singleton.mp hseg' ▸ tidy_nil
    · rename_i hs
      rcases List.mem_append.mp hseg' with hseg' | hseg'
      · exact hp seg' hseg'
      · obtain rfl := List.mem_singleton.mp hseg'
        exact tidy_encode h (by simpa using hs) (by simpa using hd)

theorem lastSegment_ne_nil {seg : Str} : lastSegment path seg ≠ [] := by
  unfold lastSegment
  simp only
  split
  · simp
  · split <;> simp

theorem tidy_addSegments (hp : ∀ seg ∈ path, Tidy seg)
    (hr : ∀ seg ∈ raw, ∀ c ∈ seg, isSlash true c = false) :
    ∀ seg ∈ addSegments path raw, Tidy seg := by
  fun_induction addSegments path raw with
  | case1 path => exact hp
  | case2 path seg => exact tidy_last hp (hr seg List.mem_cons_self)
  | case3 path seg seg' segs ih =>
    exact ih (tidy_push hp (hr seg List.mem_cons_self)) fun s hs => hr s (List.mem_cons_of_mem _ hs)

theorem addSegments_ne_nil (h : path ≠ [] ∨ raw ≠ []) : addSegments path raw ≠ [] := by
  fun_induction addSegments path raw with
  | case1 path => simpa using h
  | case2 path seg => exact lastSegment_ne_nil
  | case3 path seg seg' segs ih => exact ih (Or.inr (by simp))

/-- Segments in normal form are added as they are. -/
theorem addSegments_tidy (hr : ∀ seg ∈ raw, Tidy seg) : addSegments path raw = path ++ raw := by
  fun_induction addSegments path raw with
  | case1 path => simp
  | case2 path seg =>
    have h := hr seg List.mem_cons_self
    simp [lastSegment, h.encode, h.noSingle, h.noDouble]
  | case3 path seg seg' segs ih =>
    have h := hr seg List.mem_cons_self
    have hpush : pushSegment path seg = path ++ [seg] := by
      simp [pushSegment, h.encode, h.noSingle, h.noDouble]
    rw [ih fun s hs => hr s (List.mem_cons_of_mem _ hs), hpush]
    simp

end Adding

/-! ## 3. Written and read again -/

/-- The segments as they are written. -/
def written (segs : List Str) : Str := segs.flatMap (fun seg => '/' :: seg)

/-- The characters of a query in normal form. -/
def Encoded (q : Str) : Prop := ∀ c ∈ q, inQuerySet true c = false

section Reading

variable {segs : List Str} {seg s t q : Str} {c : Char}

theorem not_endsPath_of_path (h : inPathSet c = false) : endsPath c = false := by
  cases hc : endsPath c with
  | false => rfl
  | true =>
    rcases (by simpa [endsPath] using hc : c = '?' ∨ c = '#') with rfl | rfl
    · exact absurd h (by decide)
    · exact absurd h (by decide)

/-- The characters that `clean` does not touch. -/
def Visible (c : Char) : Prop := isC0OrSpace c = false

theorem visible_of_query {special : Bool} (h : inQuerySet special c = false) : Visible c := by
  have hspace : c ≠ ' ' := by
    rintro rfl
    revert h
    cases special <;> decide
  have hne : c.toNat ≠ 32 := fun hc => hspace (Char.ext (UInt32.toNat_inj.mp hc))
  simp only [inQuerySet, inC0Set, Bool.or_eq_false_iff, decide_eq_false_iff_not] at h
  simp only [Visible, isC0OrSpace, decide_eq_false_iff_not]
  omega

theorem visible_of_path (h : inPathSet c = false) : Visible c := by
  have hquery : inQuerySet false c = false := by
    unfold inPathSet at h
    exact (Bool.or_eq_false_iff.mp h).1
  exact visible_of_query hquery

theorem Visible.not_tab (h : Visible c) : isTabOrNewline c = false := by
  cases hc : isTabOrNewline c with
  | false => rfl
  | true =>
    rcases (by simpa [isTabOrNewline, or_assoc] using hc : c = '\t' ∨ c = '\n' ∨ c = '\r')
      with rfl | rfl | rfl
    · exact absurd h (by unfold Visible; decide)
    · exact absurd h (by unfold Visible; decide)
    · exact absurd h (by unfold Visible; decide)

theorem Visible.not_space (h : Visible c) : ¬ isC0OrSpace c = true := by
  have hc : isC0OrSpace c = false := h
  simp [hc]

theorem clean_visible (h : ∀ c ∈ s, Visible c) : clean s = s := by
  have hleft : s.dropWhile isC0OrSpace = s := by
    cases s with
    | nil => rfl
    | cons c s => exact List.dropWhile_cons_of_neg (h c List.mem_cons_self).not_space
  have hright : s.rdropWhile isC0OrSpace = s :=
    List.rdropWhile_eq_self_iff.mpr fun hne => (h _ (List.getLast_mem hne)).not_space
  unfold clean
  rw [hleft, hright]
  exact List.filter_eq_self.mpr fun c hc => by simp [(h c hc).not_tab]

theorem mem_splitOnP {p : Char → Bool} (h : seg ∈ s.splitOnP p) (hc : c ∈ seg) : p c = false := by
  induction s generalizing seg with
  | nil =>
    obtain rfl : seg = [] := by simpa using h
    exact absurd hc (by simp)
  | cons d s ih =>
    rw [List.splitOnP_cons_eq_if_modifyHead] at h
    obtain ⟨first, rest, hsplit⟩ := List.exists_cons_of_ne_nil (List.splitOnP_ne_nil p s)
    rw [hsplit] at h ih
    split at h
    · rcases List.mem_cons.mp h with rfl | h
      · exact absurd hc (by simp)
      · exact ih h hc
    · rename_i hd
      rcases List.mem_cons.mp h with rfl | h
      · rcases List.mem_cons.mp hc with rfl | hc
        · simpa using hd
        · exact ih List.mem_cons_self hc
      · exact ih (List.mem_cons_of_mem _ h) hc

theorem splitOnP_written (hseg : ∀ c ∈ seg, isSlash true c = false)
    (hs : ∀ seg ∈ segs, ∀ c ∈ seg, isSlash true c = false) :
    (seg ++ written segs).splitOnP (isSlash true) = seg :: segs := by
  induction segs generalizing seg with
  | nil =>
    rw [written, List.flatMap_nil, List.append_nil]
    exact List.splitOnP_eq_singleton hseg
  | cons seg' segs ih =>
    have hcons : written (seg' :: segs) = '/' :: (seg' ++ written segs) := rfl
    rw [hcons, List.splitOnP_append_cons_of_forall_mem hseg '/' (by decide)]
    rw [ih (hs seg' List.mem_cons_self) fun s h => hs s (List.mem_cons_of_mem _ h)]

theorem not_ends_written (hs : ∀ seg ∈ segs, Tidy seg) (hc : c ∈ written segs) :
    endsPath c = false ∧ Visible c := by
  obtain ⟨seg, hseg, hc⟩ := List.mem_flatMap.mp hc
  rcases List.mem_cons.mp hc with rfl | hc
  · exact ⟨by decide, by unfold Visible; decide⟩
  · have h := (hs seg hseg).encoded c hc
    exact ⟨not_endsPath_of_path h, visible_of_path h⟩

/-- A query that is there is written with its question mark. -/
def writtenQuery : Option Str → Str
  | none => []
  | some [] => []
  | some q => '?' :: q

theorem writtenQuery_cases (q : Option Str) :
    writtenQuery q = [] ∨ ∃ t, q = some t ∧ writtenQuery q = '?' :: t := by
  rcases q with _ | _ | ⟨c, t⟩
  · exact Or.inl rfl
  · exact Or.inl rfl
  · exact Or.inr ⟨_, rfl, rfl⟩

theorem pathText_append {q : Option Str} (hs : ∀ c ∈ s, endsPath c = false) :
    pathText (s ++ writtenQuery q) = s := by
  have hpos : ∀ c ∈ s, (!endsPath c) = true := fun c hc => by simp [hs c hc]
  unfold pathText
  rw [List.takeWhile_append_of_pos hpos]
  rcases writtenQuery_cases q with h | ⟨t, -, h⟩ <;> rw [h] <;> simp [endsPath]

theorem queryOf_append {q : Option Str} (hs : ∀ c ∈ s, endsPath c = false)
    (hq : ∀ t ∈ q, Encoded t) : writtenQuery (queryOf true (s ++ writtenQuery q)) = writtenQuery q ∧
      ∀ t ∈ queryOf true (s ++ writtenQuery q), Encoded t := by
  have hpos : ∀ c ∈ s, (!endsPath c) = true := fun c hc => by simp [hs c hc]
  unfold queryOf
  rw [List.dropWhile_append_of_pos hpos]
  rcases writtenQuery_cases q with h | ⟨t, rfl, h⟩
  · rw [h]
    exact ⟨rfl, by simp⟩
  · have ht := hq t rfl
    have hend : ∀ c ∈ t, (c != '#') = true := by
      intro c hc
      have hset := ht c hc
      simp only [bne_iff_ne, ne_eq]
      rintro rfl
      exact absurd hset (by decide)
    have hquery : percentEncode (inQuerySet true) (t.takeWhile (· != '#')) = t := by
      rw [List.takeWhile_eq_self_iff.mpr hend]
      exact percentEncode_eq ht
    rw [h, List.dropWhile_cons_of_neg (by decide)]
    simp only [hquery]
    refine ⟨?_, fun t' ht' => Option.some.inj ht' ▸ ht⟩
    cases t with
    | nil => exact absurd h (by simp [writtenQuery])
    | cons c t => rfl

end Reading

/-! ## 4. The round trip -/

/-- An empty segment, and more. -/
def Leads (segs : List Str) : Prop := ∃ seg rest, segs = [] :: seg :: rest

section RoundTrip

variable {p : Platform} {b : Base} {segs : List Str} {seg : Str} {q : Option Str}

/-- A reference that begins with one slash is a path of the base's origin. -/
theorem relative_slash {s : Str} (h : ∀ c ∈ s.head?, isSlash true c = false) :
    relative p b ('/' :: s) = some (pathFrom b.scheme b.authority [] s) := by
  cases s with
  | nil => rfl
  | cons c s =>
    have hc : isSlash true c = false := h c rfl
    have hslash : isSlash true '/' = true := by decide
    simp [relative, hc, hslash]

/-- With two, an authority follows. -/
theorem relative_slashes (s : Str) :
    relative p b ('/' :: '/' :: s) = ignoreSlashes p b.scheme s := by
  have hslash : isSlash true '/' = true := by decide
  simp [relative, hslash]

theorem isSpecial_base (b : Base) : isSpecial b.scheme = true := by
  unfold Base.scheme
  cases b.secure <;> decide

theorem splitScheme_slash (s : Str) : splitScheme ('/' :: s) = none := by
  have halpha : ('/' : Char).isAlpha = false := by decide
  simp [splitScheme, halpha]

theorem reference_none {s : Str} (h : splitScheme (clean s) = none) :
    reference p (some b) s = relative p b (clean s) := by
  simp only [reference, h, Option.bind_some]

theorem reference_scheme {base : Option Base} {s scheme rest : Str}
    (h : splitScheme (clean s) = some (scheme, rest)) :
    reference p base s = absolute p base scheme rest := by
  simp only [reference, h]

theorem visible_writtenQuery (hq : ∀ t ∈ q, Encoded t) {c : Char} (hc : c ∈ writtenQuery q) :
    Visible c := by
  rcases writtenQuery_cases q with h | ⟨t, rfl, h⟩
  · rw [h] at hc
    exact absurd hc (by simp)
  · rw [h] at hc
    rcases List.mem_cons.mp hc with rfl | hc
    · unfold Visible
      decide
    · exact visible_of_query (hq t rfl c hc)

/-- The first character after the first slash. -/
theorem head_written {rest : List Str} (hs : Tidy seg) (hlead : ¬ Leads (seg :: rest)) :
    ∀ c ∈ (seg ++ written rest ++ writtenQuery q).head?, isSlash true c = false := by
  intro c hc
  cases seg with
  | cons d seg =>
    obtain rfl := Option.some.inj hc
    exact hs.noSlash _ List.mem_cons_self
  | nil =>
    cases rest with
    | cons seg' rest => exact absurd ⟨seg', rest, rfl⟩ hlead
    | nil =>
      rcases writtenQuery_cases q with h | ⟨t, -, h⟩
      · simp [written, h] at hc
      · obtain rfl : '?' = c := by simpa [written, h] using hc
        decide

/-- **A path and a query in normal form are read as they are**, at the origin of the base. -/
theorem parse_written (hs : ∀ s ∈ segs, Tidy s) (hne : segs ≠ []) (hlead : ¬ Leads segs)
    (hq : ∀ t ∈ q, Encoded t) : ∃ q', parse p (some b) (written segs ++ writtenQuery q)
      = some ⟨b.scheme, b.authority, .segments segs, q'⟩ ∧ writtenQuery q' = writtenQuery q := by
  obtain ⟨seg, rest, rfl⟩ := List.exists_cons_of_ne_nil hne
  let text := seg ++ written rest
  have htext : written (seg :: rest) ++ writtenQuery q = '/' :: (text ++ writtenQuery q) := by
    simp [written, text]
  have hrest : ∀ s ∈ rest, Tidy s := fun s h => hs s (List.mem_cons_of_mem _ h)
  have hchars : ∀ c ∈ text, endsPath c = false ∧ Visible c := by
    intro c hc
    exact not_ends_written hs (by simpa [written, text] using Or.inr hc)
  have hclean : clean ('/' :: (text ++ writtenQuery q)) = '/' :: (text ++ writtenQuery q) := by
    refine clean_visible fun c hc => ?_
    rcases List.mem_cons.mp hc with rfl | hc
    · unfold Visible
      decide
    · rcases List.mem_append.mp hc with hc | hc
      · exact (hchars c hc).2
      · exact visible_writtenQuery hq hc
  have href : reference p (some b) (written (seg :: rest) ++ writtenQuery q)
      = some (pathFrom b.scheme b.authority [] (text ++ writtenQuery q)) := by
    have hscheme : splitScheme (clean ('/' :: (text ++ writtenQuery q))) = none := by
      rw [hclean, splitScheme_slash]
    rw [htext, reference_none hscheme, hclean]
    exact relative_slash (head_written (hs seg List.mem_cons_self) hlead)
  obtain ⟨hwritten, -⟩ := queryOf_append (q := q) (fun c hc => (hchars c hc).1) hq
  refine ⟨queryOf true (text ++ writtenQuery q), ?_, hwritten⟩
  have hraw : (pathText (text ++ writtenQuery q)).splitOnP (isSlash true) = seg :: rest := by
    rw [pathText_append fun c hc => (hchars c hc).1]
    exact splitOnP_written (hs seg List.mem_cons_self).noSlash fun s h => (hrest s h).noSlash
  unfold parse
  rw [href, Option.map_some, pathFrom, isSpecial_base, hraw]
  simp only [Reference.url, RawPath.path, addSegments_tidy hs, List.nil_append]

end RoundTrip

/-! ## 5. The references that have a path -/

/-- What a reference to an `http` or `https` URL without an opaque path has: segments without
slashes, to be added to a path in normal form, and a query in normal form. -/
structure Reference.Regular (r : Reference) (start raw : List Str) : Prop where
  path_eq : r.path = .segments start raw
  start_tidy : ∀ seg ∈ start, Tidy seg
  raw_noSlash : ∀ seg ∈ raw, ∀ c ∈ seg, isSlash true c = false
  nonempty : start ≠ [] ∨ raw ≠ []
  query_encoded : ∀ q ∈ r.query, Encoded q

/-- A base in normal form. -/
structure Base.Regular (b : Base) : Prop where
  path_tidy : ∀ seg ∈ b.path, Tidy seg
  path_ne_nil : b.path ≠ []
  query_encoded : ∀ q ∈ b.query, Encoded q

section References

variable {p : Platform} {b : Base} {base : Option Base} {r : Reference} {scheme s rest : Str}

theorem queryOf_encoded (s : Str) : ∀ t ∈ queryOf true s, Encoded t := by
  intro t ht
  unfold queryOf at ht
  split at ht
  · obtain rfl := Option.some.inj ht
    exact fun c => percentEncode_safe (stable_query true)
  · exact absurd ht (by simp)

theorem pathFrom_regular (hsp : isSpecial scheme = true) {a : Option Authority} {start : List Str}
    (hstart : ∀ seg ∈ start, Tidy seg) (s : Str) :
    (pathFrom scheme a start s).Regular start ((pathText s).splitOnP (isSlash true)) where
  path_eq := by rw [pathFrom, hsp]
  start_tidy := hstart
  raw_noSlash seg hseg c hc := mem_splitOnP hseg hc
  nonempty := Or.inr (List.splitOnP_ne_nil _ _)
  query_encoded := by
    rw [pathFrom, hsp]
    exact queryOf_encoded s

/-- The path of the reference begins anew, or goes on from that of the base. -/
def Reference.From (r : Reference) (b : Base) : Prop :=
  ∃ start raw, r.Regular start raw ∧
    (start = [] ∨ start = b.path.dropLast ∨ start = b.path ∧ raw = [])

theorem afterAuthority_from (hsp : isSpecial scheme = true) (a : Authority) (s : Str) :
    (afterAuthority scheme a s).From b := by
  have hnew : ∀ t, (pathFrom scheme (some a) [] t).From b :=
    fun t => ⟨[], _, pathFrom_regular hsp (by simp) t, Or.inl rfl⟩
  unfold afterAuthority
  cases s with
  | nil =>
    simp only [hsp, if_true]
    exact hnew []
  | cons c s =>
    simp only [hsp]
    split
    · exact hnew s
    · exact hnew (c :: s)

theorem ignoreSlashes_from (hsp : isSpecial scheme = true) (h : ignoreSlashes p scheme s = some r) :
    r.From b := by
  obtain ⟨a, -, rfl⟩ := Option.map_eq_some_iff.mp h
  exact afterAuthority_from hsp a _

theorem relative_from (hb : b.Regular) (h : relative p b s = some r) : r.From b := by
  have hsp := isSpecial_base b
  have hbase : ∀ q : Option Str, (∀ t ∈ q, Encoded t) →
      Reference.From ⟨b.scheme, b.authority, .segments b.path [], q⟩ b := fun q hq =>
    ⟨b.path, [], ⟨rfl, hb.path_tidy, by simp, Or.inl hb.path_ne_nil, hq⟩, Or.inr (Or.inr ⟨rfl, rfl⟩)⟩
  have hnew : ∀ t, (pathFrom b.scheme b.authority [] t).From b :=
    fun t => ⟨[], _, pathFrom_regular hsp (by simp) t, Or.inl rfl⟩
  unfold relative at h
  split at h
  · exact Option.some.inj h ▸ hbase _ hb.query_encoded
  · split at h
    · exact Option.some.inj h ▸ hbase _ (queryOf_encoded _)
    · split at h
      · exact Option.some.inj h ▸ hbase _ hb.query_encoded
      · split at h
        · split at h
          · exact Option.some.inj h ▸ hnew []
          · split at h
            · exact ignoreSlashes_from hsp h
            · exact Option.some.inj h ▸ hnew _
        · refine Option.some.inj h ▸ ⟨b.path.dropLast, _, pathFrom_regular hsp ?_ _, Or.inr (Or.inl rfl)⟩
          exact fun seg hseg => hb.path_tidy seg (List.mem_of_mem_dropLast hseg)

theorem afterAuthority_scheme {a : Authority} : (afterAuthority scheme a s).scheme = scheme := by
  unfold afterAuthority
  split
  · split <;> rfl
  · split
    · rfl
    · split <;> rfl

theorem fromAuthority_scheme (h : fromAuthority p scheme s = some r) : r.scheme = scheme := by
  obtain ⟨a, -, rfl⟩ := Option.map_eq_some_iff.mp h
  exact afterAuthority_scheme

theorem relative_scheme (h : relative p b s = some r) : r.scheme = b.scheme := by
  unfold relative at h
  split at h
  · exact Option.some.inj h ▸ rfl
  · split at h
    · exact Option.some.inj h ▸ rfl
    · split at h
      · exact Option.some.inj h ▸ rfl
      · split at h
        · split at h
          · exact Option.some.inj h ▸ rfl
          · split at h
            · exact fromAuthority_scheme h
            · exact Option.some.inj h ▸ rfl
        · exact Option.some.inj h ▸ rfl

/-- A string with a scheme gives a URL of that scheme. -/
theorem absolute_scheme (h : absolute p base scheme rest = some r) : r.scheme = scheme := by
  unfold absolute at h
  split at h
  · rename_i hfile
    obtain ⟨u, -, rfl⟩ := Option.map_eq_some_iff.mp h
    exact hfile.symm
  · split at h
    · split at h
      · exact fromAuthority_scheme h
      · split at h
        · rename_i hsame
          split at h
          · exact fromAuthority_scheme h
          · exact (relative_scheme h).trans hsame
        · exact fromAuthority_scheme h
    · split at h
      · exact fromAuthority_scheme h
      · exact Option.some.inj h ▸ rfl
      · exact Option.some.inj h ▸ rfl

/-- **The path of a URL with a special scheme has segments**, one at least. -/
theorem reference_from (hb : b.Regular) (h : reference p (some b) s = some r)
    (hsp : isSpecial r.scheme = true) : r.From b := by
  cases hscheme : splitScheme (clean s) with
  | none => exact relative_from hb ((reference_none hscheme).symm.trans h)
  | some found =>
    obtain ⟨scheme, rest⟩ := found
    have habs := (reference_scheme hscheme).symm.trans h
    obtain rfl := absolute_scheme habs
    unfold absolute at habs
    split at habs
    · rename_i hfile
      rw [hfile] at hsp
      exact absurd hsp (by decide)
    · simp only at habs
      split at habs
      · split at habs
        · exact ignoreSlashes_from hsp habs
        · exact relative_from hb habs
      · exact ignoreSlashes_from hsp habs

end References

/-! ## 6. What an empty segment needs to lead -/

/-- The segment, as it is written, is `..`. -/
def Up (seg : Str) : Bool := isDoubleDot (percentEncode inPathSet seg)

/-- It is `.`. -/
def Here (seg : Str) : Bool := isSingleDot (percentEncode inPathSet seg)

/-- How long a path is after a segment. -/
def climb (n : Nat) (seg : Str) : Nat := if Up seg then n - 1 else if Here seg then n else n + 1

/-- How long it is after some segments. -/
def depth (n : Nat) (segs : List Str) : Nat := segs.foldl climb n

/-- The first segment of a path of length `n` is never taken back. -/
def Stays (n : Nat) (segs : List Str) : Prop := ∀ l, l <+: segs → 0 < depth n l

/-- Some empty segment is not the last one, nothing is left of the segments before it, and the
segments after it do not take it back. -/
def Surfaces (raw : List Str) : Prop :=
  ∃ before after, raw = before ++ [] :: after ∧ depth 0 before = 0 ∧ after ≠ [] ∧ Stays 1 after

section Depth

variable {path raw : List Str} {seg : Str} {n : Nat}

theorem stays_cons : Stays n (seg :: raw) ↔ 0 < n ∧ Stays (climb n seg) raw := by
  constructor
  · intro h
    exact ⟨h [] List.nil_prefix, fun l hl => h (seg :: l) ((List.cons_prefix_cons).mpr ⟨rfl, hl⟩)⟩
  · rintro ⟨hn, h⟩ l hl
    cases l with
    | nil => exact hn
    | cons s l =>
      obtain ⟨rfl, hl'⟩ := List.cons_prefix_cons.mp hl
      exact h l hl'

theorem stays_nil : Stays n [] ↔ 0 < n := by
  constructor
  · exact fun h => h [] List.nil_prefix
  · intro hn l hl
    obtain rfl := List.prefix_nil.mp hl
    exact hn

theorem length_push : (pushSegment path seg).length = climb path.length seg := by
  unfold pushSegment climb Up Here
  simp only
  split
  · exact List.length_dropLast
  · split <;> simp

theorem percentEncode_eq_nil {set : Char → Bool} {s : Str} : percentEncode set s = [] ↔ s = [] := by
  constructor
  · intro h
    cases s with
    | nil => rfl
    | cons c s =>
      have hc := List.flatMap_eq_nil_iff.mp h c List.mem_cons_self
      split at hc
      · obtain ⟨b, bs, hb⟩ := List.exists_cons_of_ne_nil (String.utf8EncodeChar_ne_nil (c := c))
        simp [hb, percentEncodeByte] at hc
      · exact absurd hc (by simp)
  · rintro rfl
    rfl

/-- A path begins with an empty segment because one was pushed. -/
theorem head_push_nil : (pushSegment [] seg).head? = some [] ↔ seg = [] := by
  constructor
  · intro h
    unfold pushSegment at h
    simp only at h
    split at h
    · exact absurd h (by simp)
    · split at h
      · exact absurd h (by simp)
      · exact percentEncode_eq_nil.mp (by simpa using h)
  · rintro rfl
    decide

/-- A path keeps its first segment, until it is taken back. -/
theorem head_push (hpath : path ≠ []) (hpos : 0 < climb path.length seg) :
    (pushSegment path seg).head? = path.head? := by
  obtain ⟨first, rest, rfl⟩ := List.exists_cons_of_ne_nil hpath
  unfold pushSegment
  simp only
  split
  · rename_i hup
    have hup' : Up seg = true := hup
    cases rest with
    | nil => simp [climb, hup'] at hpos
    | cons second rest => rfl
  · split <;> rfl

/-- Where the path begins with an empty segment after some more. -/
def LeadsFrom (path raw : List Str) : Prop :=
  (path.head? = some [] ∧ Stays path.length raw) ∨
    ∃ before after, raw = before ++ [] :: after ∧ depth path.length before = 0 ∧ after ≠ [] ∧
      Stays 1 after

/-- One segment on. -/
theorem leadsFrom_cons (hraw : raw ≠ []) :
    LeadsFrom path (seg :: raw) ↔ LeadsFrom (pushSegment path seg) raw := by
  constructor
  · rintro (⟨hhead, hstays⟩ | ⟨before, after, heq, hdepth, hafter, hstays⟩)
    · obtain ⟨hpos, hstays⟩ := stays_cons.mp hstays
      have hpath : path ≠ [] := List.length_pos_iff.mp hpos
      left
      rw [head_push hpath (hstays [] List.nil_prefix), length_push]
      exact ⟨hhead, hstays⟩
    · cases before with
      | nil =>
        obtain ⟨rfl, rfl⟩ := List.cons.inj heq
        obtain rfl : path = [] := List.length_eq_zero_iff.mp hdepth
        exact Or.inl ⟨head_push_nil.mpr rfl, hstays⟩
      | cons s before =>
        obtain ⟨rfl, rfl⟩ := List.cons.inj heq
        refine Or.inr ⟨before, after, rfl, ?_, hafter, hstays⟩
        rw [length_push]
        exact hdepth
  · rintro (⟨hhead, hstays⟩ | ⟨before, after, rfl, hdepth, hafter, hstays⟩)
    · rw [length_push] at hstays
      by_cases hpath : path = []
      · subst hpath
        obtain rfl := head_push_nil.mp hhead
        exact Or.inr ⟨[], raw, rfl, rfl, hraw, hstays⟩
      · rw [head_push hpath (hstays [] List.nil_prefix)] at hhead
        exact Or.inl ⟨hhead, stays_cons.mpr ⟨List.length_pos_iff.mpr hpath, hstays⟩⟩
    · rw [length_push] at hdepth
      exact Or.inr ⟨seg :: before, after, rfl, hdepth, hafter, hstays⟩

theorem leads_concat {l : List Str} : Leads (l ++ [seg]) ↔ l.head? = some [] := by
  constructor
  · rintro ⟨second, rest, h⟩
    cases l with
    | nil => exact absurd (List.cons.inj h).2 (by simp)
    | cons first l => exact congrArg some (List.cons.inj h).1
  · intro h
    obtain ⟨l, rfl⟩ := List.head?_eq_some_iff.mp h
    obtain ⟨second, rest, hrest⟩ := List.exists_cons_of_ne_nil (List.append_ne_nil_of_right_ne_nil l
      (List.cons_ne_nil seg []))
    exact ⟨second, rest, by rw [List.cons_append, hrest]⟩

theorem leadsFrom_single : LeadsFrom path [seg] ↔ path.head? = some [] ∧ 0 < climb path.length seg := by
  constructor
  · rintro (⟨hhead, hstays⟩ | ⟨before, after, heq, -, hafter, -⟩)
    · exact ⟨hhead, stays_nil.mp (stays_cons.mp hstays).2⟩
    · have hlen := congrArg List.length heq
      have hpos := List.length_pos_iff.mpr hafter
      simp only [List.length_append, List.length_cons, List.length_nil] at hlen
      omega
  · rintro ⟨hhead, hpos⟩
    have hpath : 0 < path.length := by
      obtain ⟨l, rfl⟩ := List.head?_eq_some_iff.mp hhead
      exact Nat.succ_pos _
    exact Or.inl ⟨hhead, stays_cons.mpr ⟨hpath, stays_nil.mpr hpos⟩⟩

/-- At the last segment. -/
theorem leads_last : Leads (lastSegment path seg) ↔ LeadsFrom path [seg] := by
  rw [leadsFrom_single]
  unfold lastSegment
  simp only
  split
  · rename_i hup
    have hup' : Up seg = true := hup
    rw [leads_concat]
    rcases path with _ | ⟨first, _ | ⟨second, rest⟩⟩
    · simp
    · simp [climb, hup']
    · simp [climb, hup']
  · rename_i hup
    have hup' : Up seg = false := by simpa [Up] using hup
    have hstay : path.head? = some [] → 0 < climb path.length seg := by
      intro h
      obtain ⟨l, rfl⟩ := List.head?_eq_some_iff.mp h
      unfold climb
      rw [hup']
      cases Here seg <;> simp
    split
    · rw [leads_concat]
      exact ⟨fun h => ⟨h, hstay h⟩, And.left⟩
    · rw [leads_concat]
      exact ⟨fun h => ⟨h, hstay h⟩, And.left⟩

theorem leads_addSegments (hraw : raw ≠ []) : Leads (addSegments path raw) ↔ LeadsFrom path raw := by
  fun_induction addSegments path raw with
  | case1 path => exact absurd rfl hraw
  | case2 path seg => exact leads_last
  | case3 path seg seg' segs ih => exact (ih (by simp)).trans (leadsFrom_cons (by simp)).symm

/-- **When a path leads with an empty segment.** -/
theorem leads_iff : Leads (addSegments [] raw) ↔ Surfaces raw := by
  by_cases hraw : raw = []
  · subst hraw
    constructor
    · rintro ⟨seg, rest, h⟩
      exact absurd h (by simp [addSegments])
    · rintro ⟨before, after, h, -⟩
      exact absurd h.symm (by simp)
  · rw [leads_addSegments hraw]
    constructor
    · rintro (⟨h, -⟩ | h)
      · exact absurd h (by simp)
      · exact h
    · exact Or.inr

end Depth

/-! ## 7. Strings that begin with a scheme, or with two slashes -/

section Beginnings

variable {p : Platform} {base : Option Base} {s t : Str}

theorem rdropWhile_prefix_append {f : Char → Bool} :
    s.rdropWhile f <+: (s ++ t).rdropWhile f := by
  induction t using List.reverseRecOn with
  | nil => rw [List.append_nil]
  | append_singleton t c ih =>
    rw [← List.append_assoc]
    by_cases hc : f c = true
    · rw [List.rdropWhile_concat_pos f _ c hc]
      exact ih
    · rw [List.rdropWhile_concat_neg f _ c hc]
      exact (List.rdropWhile_prefix f s).trans ((List.prefix_append s t).trans (List.prefix_append _ _))

/-- What is added at the end does not change the beginning. -/
theorem clean_append (h : clean s ≠ []) : clean s <+: clean (s ++ t) := by
  have hleft : s.dropWhile isC0OrSpace ≠ [] := by
    intro hnil
    exact h (by simp [clean, hnil])
  have hsplit : (s ++ t).dropWhile isC0OrSpace = s.dropWhile isC0OrSpace ++ t := by
    rw [List.dropWhile_append]
    simp [hleft]
  unfold clean
  rw [hsplit]
  exact rdropWhile_prefix_append.filter _

theorem splitScheme_longer {scheme rest : Str} (h : splitScheme s = some (scheme, rest))
    (hpre : s <+: t) : ∃ rest', splitScheme t = some (scheme, rest') := by
  obtain ⟨u, rfl⟩ := hpre
  cases s with
  | nil => exact absurd h (by simp [splitScheme])
  | cons c s =>
    unfold splitScheme at h
    simp only at h
    split at h
    · rename_i halpha
      split at h
      · rename_i rest₀ hdrop
        obtain ⟨rfl, rfl⟩ := Prod.mk.inj (Option.some.inj h)
        have hne : (c :: s).dropWhile isSchemeChar ≠ [] := by simp [hdrop]
        refine ⟨rest₀ ++ u, ?_⟩
        have hdrop' : (c :: (s ++ u)).dropWhile isSchemeChar = ':' :: (rest₀ ++ u) := by
          rw [← List.cons_append, List.dropWhile_append]
          simp [hdrop]
        have htake : (c :: (s ++ u)).takeWhile isSchemeChar = (c :: s).takeWhile isSchemeChar := by
          have hparts := congrArg List.length
            (List.takeWhile_append_dropWhile (p := isSchemeChar) (l := c :: s))
          have hpos := List.length_pos_iff.mpr hne
          rw [List.length_append] at hparts
          rw [← List.cons_append, List.takeWhile_append, if_neg (by omega)]
        simp only [splitScheme, List.cons_append, halpha, if_true, hdrop', htake]
      · exact absurd h (by simp)
    · exact absurd h (by simp)

/-- A string with a scheme keeps it when something is added. -/
theorem splitScheme_append {scheme rest : Str} (h : splitScheme (clean s) = some (scheme, rest)) :
    ∃ rest', splitScheme (clean (s ++ t)) = some (scheme, rest') := by
  have hne : clean s ≠ [] := by
    intro hnil
    rw [hnil] at h
    exact absurd h (by simp [splitScheme])
  exact splitScheme_longer h (clean_append hne)

/-- A string that begins with a slash has no scheme. -/
theorem splitScheme_clean_slash : splitScheme (clean ('/' :: s)) = none := by
  have hdrop : ('/' :: s).dropWhile isC0OrSpace = '/' :: s :=
    List.dropWhile_cons_of_neg (by decide)
  obtain ⟨u, hu⟩ := List.rdropWhile_prefix isC0OrSpace ('/' :: s)
  have hclean : ∃ u, clean ('/' :: s) = '/' :: u := by
    unfold clean
    rw [hdrop]
    cases hr : ('/' :: s).rdropWhile isC0OrSpace with
    | nil =>
      have hall := List.rdropWhile_eq_nil_iff.mp hr '/' List.mem_cons_self
      exact absurd hall (by decide)
    | cons c v =>
      rw [hr] at hu
      obtain rfl := (List.cons.inj hu).1
      exact ⟨_, List.filter_cons_of_pos (by decide)⟩
  obtain ⟨u, hclean⟩ := hclean
  rw [hclean, splitScheme_slash]

/-- Without a base, a string needs a scheme. -/
theorem scheme_of_reference {r : Reference} (h : reference p none s = some r) :
    ∃ rest, splitScheme (clean s) = some (r.scheme, rest) := by
  cases hscheme : splitScheme (clean s) with
  | none =>
    simp only [reference, hscheme, Option.bind_none] at h
    exact absurd h (by simp)
  | some found =>
    obtain ⟨scheme, rest⟩ := found
    obtain rfl := absolute_scheme ((reference_scheme hscheme).symm.trans h)
    exact ⟨rest, rfl⟩

/-- After two slashes, nothing comes from the base but its scheme. -/
theorem parse_slashes {b b' : Base} (hb : b.scheme = b'.scheme)
    (hs : ∀ c ∈ s, Visible c) :
    parse p (some b) ('/' :: '/' :: s) = parse p (some b') ('/' :: '/' :: s) := by
  have hclean : clean ('/' :: '/' :: s) = '/' :: '/' :: s := by
    refine clean_visible fun c hc => ?_
    have hslash : Visible '/' := by
      unfold Visible
      decide
    rcases List.mem_cons.mp hc with rfl | hc
    · exact hslash
    · rcases List.mem_cons.mp hc with rfl | hc
      · exact hslash
      · exact hs c hc
  have hnone : splitScheme (clean ('/' :: '/' :: s)) = none := splitScheme_clean_slash
  unfold parse
  rw [reference_none hnone, reference_none hnone, hclean, relative_slashes, relative_slashes, hb]

end Beginnings

end Url
