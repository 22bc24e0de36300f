/-
# Pages of a listing with ties

A listing is sorted by a key that need not tell its rows apart, and comes back in another order each
time it is asked for.  What is certain of a row is only the range of places that its ties can occupy:
at least `below`, less than `upto`.

Each page is cut out of a listing of its own.  The pages together are the rows exactly when nowhere
do ties reach across the border of two pages (`pages_perm_iff`).
-/
import Mathlib.Algebra.GroupWithZero.Nat
import Mathlib.Data.List.Basic
import Mathlib.Data.List.Nodup
import Mathlib.Data.List.Range
import Mathlib.Logic.Equiv.Basic

namespace Paging

variable {α : Type}

/-- A sort order that may leave ties. -/
structure Order (le : α → α → Bool) : Prop where
  trans : ∀ a b c, le a b = true → le b c = true → le a c = true
  total : ∀ a b, (le a b || le b a) = true

theorem Order.refl {le : α → α → Bool} (h : Order le) (a : α) : le a a = true := by
  simpa using h.total a a

theorem Order.of_not_le {le : α → α → Bool} (h : Order le) {a b : α} (hn : le a b = false) :
    le b a = true := by
  simpa [hn] using h.total a b

/-! ## 1. The places of a row -/

section

variable (le : α → α → Bool)

def Sorted (l : List α) : Prop := l.Pairwise fun a b => le a b = true

def Tied (a b : α) : Prop := le a b = true ∧ le b a = true

/-- How many rows come before `a` in any case. -/
def below (rows : List α) (a : α) : Nat := rows.countP fun b => !le a b

/-- How many rows do not come after `a` in any case, `a` included. -/
def upto (rows : List α) (a : α) : Nat := rows.countP fun b => le b a

end

variable {le : α → α → Bool} {rows p : List α} {a b c : α} {i j : Nat}

theorem below_perm (h : p.Perm rows) (a : α) : below le p a = below le rows a := h.countP_eq _

theorem upto_perm (h : p.Perm rows) (a : α) : upto le p a = upto le rows a := h.countP_eq _

theorem upto_le_length (rows : List α) (a : α) : upto le rows a ≤ rows.length :=
  List.countP_le_length

theorem exists_append (h : p[i]? = some a) : ∃ l₁ l₂, p = l₁ ++ a :: l₂ ∧ l₁.length = i := by
  obtain ⟨hi, rfl⟩ := List.getElem?_eq_some_iff.mp h
  exact ⟨p.take i, p.drop (i + 1), by simp, List.length_take_of_le hi.le⟩

/-- A row stands in the range of its ties. -/
theorem place_mem (ho : Order le) (hs : Sorted le p) (h : p[i]? = some a) :
    below le p a ≤ i ∧ i < upto le p a := by
  obtain ⟨l₁, l₂, rfl, rfl⟩ := exists_append h
  have hafter : ∀ b ∈ l₂, le a b = true :=
    (List.pairwise_cons.mp (List.pairwise_append.mp hs).2.1).1
  have hbefore : ∀ b ∈ l₁, le b a = true := fun b hb =>
    (List.pairwise_append.mp hs).2.2 b hb a List.mem_cons_self
  constructor
  · have hzero : l₂.countP (fun b => !le a b) = 0 :=
      List.countP_eq_zero.mpr fun b hb => by simp [hafter b hb]
    have hle : l₁.countP (fun b => !le a b) ≤ l₁.length := List.countP_le_length
    unfold below
    rw [List.countP_append, List.countP_cons, hzero]
    simpa [ho.refl] using hle
  · have hall : l₁.countP (fun b => le b a) = l₁.length := List.countP_eq_length.mpr hbefore
    unfold upto
    rw [List.countP_append, List.countP_cons, hall]
    simp [ho.refl]

/-- Whoever stands in the range of a row's ties ties with it. -/
theorem tied_of_place (ho : Order le) (hs : Sorted le p) (h : p[i]? = some c)
    (hbelow : below le p a ≤ i) (hupto : i < upto le p a) : Tied le c a := by
  obtain ⟨hc, hc'⟩ := place_mem ho hs h
  constructor
  · by_contra hn
    have hac : le a c = true := ho.of_not_le (by simpa using hn)
    have hle : upto le p a ≤ below le p c := by
      refine List.countP_mono_left fun b _ hb => ?_
      have : ¬ le c b = true := fun hcb => hn (ho.trans _ _ _ hcb hb)
      simpa using this
    omega
  · by_contra hn
    have hca : le c a = true := ho.of_not_le (by simpa using hn)
    have hle : upto le p c ≤ below le p a := by
      refine List.countP_mono_left fun b _ hb => ?_
      have : ¬ le a b = true := fun hab => hn (ho.trans _ _ _ hab hb)
      simpa using this
    omega

/-! ## 2. Sorted answers -/

/-- What a query with an `ORDER BY` may come back with. -/
def Answer (le : α → α → Bool) (rows p : List α) : Prop := p.Perm rows ∧ Sorted le p

theorem Order.answer_mergeSort (ho : Order le) (rows : List α) : Answer le rows (rows.mergeSort le) :=
  ⟨List.mergeSort_perm _ _, List.pairwise_mergeSort ho.trans ho.total rows⟩

/-! ## 3. Sorting an answer again -/

/-- By `le₁`, and by `le₂` among its ties. -/
def lex (le₁ le₂ : α → α → Bool) (a b : α) : Bool := le₁ a b && (!le₁ b a || le₂ a b)

variable {le₁ le₂ : α → α → Bool}

theorem lex_iff : lex le₁ le₂ a b = true ↔ le₁ a b = true ∧ (le₁ b a = true → le₂ a b = true) := by
  unfold lex
  cases le₁ a b <;> cases le₁ b a <;> simp

theorem Order.lex (h₁ : Order le₁) (h₂ : Order le₂) : Order (lex le₁ le₂) where
  trans := by
    intro a b c hab hbc
    rw [lex_iff] at hab hbc ⊢
    refine ⟨h₁.trans _ _ _ hab.1 hbc.1, fun hca => h₂.trans _ _ _ (hab.2 ?_) (hbc.2 ?_)⟩
    · exact h₁.trans _ _ _ hbc.1 hca
    · exact h₁.trans _ _ _ hca hab.1
  total := by
    intro a b
    have t₁ := h₁.total a b
    have t₂ := h₂.total a b
    unfold Paging.lex
    cases hab : le₁ a b <;> cases hba : le₁ b a <;> simp_all

theorem tied_lex : Tied (lex le₁ le₂) a b ↔ Tied le₁ a b ∧ Tied le₂ a b := by
  unfold Tied
  rw [lex_iff, lex_iff]
  tauto

/-- A stable sort keeps the ties of a row in their order. -/
theorem filter_mergeSort (h₁ : Order le₁) (l : List α) (a : α) :
    (l.mergeSort le₁).filter (fun x => le₁ x a && le₁ a x)
      = l.filter (fun x => le₁ x a && le₁ a x) := by
  have hties : (l.filter fun x => le₁ x a && le₁ a x).Pairwise fun x y => le₁ x y = true := by
    refine List.pairwise_of_forall_mem_list fun x hx y hy => ?_
    have hx := (List.mem_filter.mp hx).2
    have hy := (List.mem_filter.mp hy).2
    rw [Bool.and_eq_true] at hx hy
    exact h₁.trans _ _ _ hx.1 hy.2
  have hsub := List.sublist_mergeSort h₁.trans h₁.total hties (List.filter_sublist (l := l))
  have hsub' := hsub.filter fun x => le₁ x a && le₁ a x
  rw [List.filter_filter] at hsub'
  simp only [Bool.and_self] at hsub'
  refine (hsub'.eq_of_length ?_).symm
  exact (((List.mergeSort_perm l le₁).filter _).length_eq).symm

/-- **Sorting a sorted listing again.** -/
theorem sorted_mergeSort (h₁ : Order le₁) {l : List α} (hl : Sorted le₂ l) :
    Sorted (lex le₁ le₂) (l.mergeSort le₁) := by
  refine List.pairwise_iff_forall_sublist.mpr fun {a b} hab => ?_
  have h : le₁ a b = true :=
    List.pairwise_iff_forall_sublist.mp (List.pairwise_mergeSort h₁.trans h₁.total l) hab
  refine lex_iff.mpr ⟨h, fun hba => ?_⟩
  have hfilter := hab.filter fun x => le₁ x a && le₁ a x
  rw [filter_mergeSort h₁] at hfilter
  have hpair : [a, b].filter (fun x => le₁ x a && le₁ a x) = [a, b] := by
    simp [h₁.refl, h, hba]
  rw [hpair] at hfilter
  exact List.pairwise_iff_forall_sublist.mp hl (hfilter.trans List.filter_sublist)

/-- The answers to a query, sorted again. -/
def Resorted (le₁ le₂ : α → α → Bool) (rows p : List α) : Prop :=
  ∃ r, Answer le₂ rows r ∧ p = r.mergeSort le₁

/-! ## 4. Pages -/

/-- `OFFSET skip LIMIT take`. -/
def slice (skip take : Nat) (l : List α) : List α := (l.drop skip).take take

/-- Page `n`, counted from zero. -/
def page (limit n : Nat) (l : List α) : List α := slice (n * limit) limit l

theorem mem_slice {skip take : Nat} :
    a ∈ slice skip take p ↔ ∃ i, skip ≤ i ∧ i < skip + take ∧ p[i]? = some a := by
  unfold slice
  rw [List.mem_iff_getElem?]
  constructor
  · rintro ⟨i, hi⟩
    rw [List.getElem?_take] at hi
    split at hi
    · rename_i hlt
      rw [List.getElem?_drop] at hi
      exact ⟨skip + i, by omega, by omega, hi⟩
    · cases hi
  · rintro ⟨i, hskip, hlt, hi⟩
    refine ⟨i - skip, ?_⟩
    rw [List.getElem?_take, if_pos (by omega), List.getElem?_drop, Nat.add_sub_cancel' hskip]
    exact hi

theorem mem_page {limit n : Nat} (hl : 0 < limit) :
    a ∈ page limit n p ↔ ∃ i, i / limit = n ∧ p[i]? = some a := by
  unfold page
  rw [mem_slice]
  refine exists_congr fun i => ?_
  rw [← and_assoc, Nat.div_eq_iff hl]
  constructor
  · rintro ⟨hi, h⟩
    refine ⟨?_, h⟩
    omega
  · rintro ⟨hi, h⟩
    refine ⟨?_, h⟩
    omega

theorem page_sublist (limit n : Nat) (l : List α) : (page limit n l).Sublist l :=
  (List.take_sublist _ _).trans (List.drop_sublist _ _)

theorem length_page (limit n : Nat) (l : List α) :
    (page limit n l).length = min limit (l.length - n * limit) := by
  simp [page, slice]

theorem Sorted.rel (hs : Sorted le p) (ha : p[i]? = some a) (hb : p[j]? = some b) (h : i < j) :
    le a b = true := by
  obtain ⟨hi, rfl⟩ := List.getElem?_eq_some_iff.mp ha
  obtain ⟨hj, rfl⟩ := List.getElem?_eq_some_iff.mp hb
  exact List.pairwise_iff_getElem.mp hs i j hi hj h

theorem getElem?_slice {skip take : Nat} (h : i < take) : (slice skip take p)[i]? = p[skip + i]? := by
  unfold slice
  rw [List.getElem?_take, if_pos h, List.getElem?_drop]

/-- Some tie of `a` stands in the slice. -/
def OnSlice (le : α → α → Bool) (rows : List α) (skip take : Nat) (a : α) : Prop :=
  below le rows a < skip + take ∧ skip < upto le rows a

instance (skip take : Nat) : Decidable (OnSlice le rows skip take a) :=
  inferInstanceAs (Decidable (_ ∧ _))

theorem onSlice_perm (h : p.Perm rows) {skip take : Nat} :
    OnSlice le p skip take a ↔ OnSlice le rows skip take a := by
  unfold OnSlice
  rw [below_perm h, upto_perm h]

theorem exists_tie_of_onSlice (ho : Order le) (hs : Sorted le p) {skip take : Nat} (ht : 0 < take)
    (ha : a ∈ p) (h : OnSlice le p skip take a) :
    ∃ i c, i < take ∧ p[skip + i]? = some c ∧ Tied le c a := by
  obtain ⟨k, hk⟩ := List.mem_iff_getElem?.mp ha
  obtain ⟨hlow, hhigh⟩ := place_mem ho hs hk
  obtain ⟨hbelow, hupto⟩ := h
  have hlength : upto le p a ≤ p.length := upto_le_length p a
  obtain ⟨i, hi, hplace, hplace'⟩ : ∃ i, i < take ∧ below le p a ≤ skip + i ∧ skip + i < upto le p a :=
    ⟨below le p a - skip, by omega, by omega, by omega⟩
  obtain ⟨c, hc⟩ : ∃ c, p[skip + i]? = some c := ⟨_, List.getElem?_eq_getElem (by omega)⟩
  exact ⟨i, c, hi, hc, tied_of_place ho hs hc hplace hplace'⟩

/-- **A slice of a listing by two keys is sorted by the second** unless the first puts two of its rows
the other way round. -/
theorem sorted_slice_iff (h₁ : Order le₁) (h₂ : Order le₂) (hs : Sorted (lex le₁ le₂) p)
    {skip take : Nat} (ht : 0 < take) :
    Sorted le₂ (slice skip take p) ↔
      ¬ ∃ c ∈ p, ∃ d ∈ p, OnSlice (lex le₁ le₂) p skip take c ∧ OnSlice (lex le₁ le₂) p skip take d ∧
        le₁ d c = false ∧ le₂ c d = false := by
  have ho := h₁.lex h₂
  constructor
  · rintro hsorted ⟨c, hc, d, hd, hcs, hds, hdc, hcd⟩
    obtain ⟨i, c', hi, hc', hcc'⟩ := exists_tie_of_onSlice ho hs ht hc hcs
    obtain ⟨j, d', hj, hd', hdd'⟩ := exists_tie_of_onSlice ho hs ht hd hds
    obtain ⟨hc₁, hc₂⟩ := tied_lex.mp hcc'
    obtain ⟨hd₁, hd₂⟩ := tied_lex.mp hdd'
    have hrank : ¬ le₁ d' c' = true := fun h => by
      have := h₁.trans _ _ _ hd₁.2 (h₁.trans _ _ _ h hc₁.1)
      rw [hdc] at this
      cases this
    rcases Nat.lt_trichotomy i j with hij | rfl | hij
    · have hle : le₂ c' d' = true :=
        hsorted.rel ((getElem?_slice hi).trans hc') ((getElem?_slice hj).trans hd') hij
      have := h₂.trans _ _ _ hc₂.2 (h₂.trans _ _ _ hle hd₂.1)
      rw [hcd] at this
      cases this
    · rw [hc'] at hd'
      cases hd'
      exact hrank (h₁.refl _)
    · exact hrank (lex_iff.mp (hs.rel hd' hc' (by omega))).1
  · intro hnone
    refine List.pairwise_iff_getElem.mpr fun i j hi hj hij => ?_
    by_contra hle
    have hlength : (slice skip take p).length ≤ take := List.length_take_le _ _
    have hc := List.getElem?_eq_getElem hi
    have hd := List.getElem?_eq_getElem hj
    rw [getElem?_slice (by omega)] at hc hd
    obtain ⟨hclow, hchigh⟩ := place_mem ho hs hc
    obtain ⟨hdlow, hdhigh⟩ := place_mem ho hs hd
    obtain ⟨-, hsecond⟩ := lex_iff.mp (hs.rel hc hd (by omega))
    exact hnone ⟨_, List.mem_of_getElem? hc, _, List.mem_of_getElem? hd, ⟨by omega, by omega⟩,
      ⟨by omega, by omega⟩, by simpa using mt hsecond hle, by simpa using hle⟩

/-- Pages do not show more rows than there are. -/
theorem sum_length_pages_le (limit m pages : Nat) :
    ((List.range pages).map fun n => min limit (m - n * limit)).sum ≤ m := by
  have hsum : ((List.range pages).map fun n => min limit (m - n * limit)).sum
      = min (pages * limit) m := by
    induction pages with
    | zero => simp
    | succ pages ih =>
      rw [List.range_succ, List.map_append, List.sum_append, ih, List.map_singleton,
        List.sum_singleton, Nat.succ_mul]
      omega
  omega

/-- The ties of `a` share a page. -/
def OnePage (le : α → α → Bool) (limit : Nat) (rows : List α) (a : α) : Prop :=
  below le rows a / limit = (upto le rows a - 1) / limit

instance (limit : Nat) (rows : List α) (a : α) : Decidable (OnePage le limit rows a) :=
  inferInstanceAs (Decidable (_ = _))

/-- The listings that a query may come back with: sorted orders of the rows, at least one, and with
each also the one in which two ties have changed places. -/
structure Listings [DecidableEq α] (le : α → α → Bool) (rows : List α) (may : List α → Prop) :
    Prop where
  sorted : ∀ p, may p → Sorted le p
  perm : ∀ p, may p → p.Perm rows
  exists_one : ∃ p, may p
  exchange : ∀ p, may p → ∀ a ∈ rows, ∀ b ∈ rows, Tied le a b → may (p.map (Equiv.swap a b))

variable [DecidableEq α] {may : List α → Prop} {limit pages : Nat}

theorem place_div (ho : Order le) (hL : Listings le rows may) (hp : may p) (hone : OnePage le limit rows a)
    (h : p[i]? = some a) : i / limit = below le rows a / limit := by
  obtain ⟨hlow, hhigh⟩ := place_mem ho (hL.sorted p hp) h
  rw [below_perm (hL.perm p hp)] at hlow
  rw [upto_perm (hL.perm p hp)] at hhigh
  refine Nat.le_antisymm ?_ (Nat.div_le_div_right hlow)
  rw [hone]
  exact Nat.div_le_div_right (by omega)

/-- Without ties across a border, pages of different listings fit together. -/
theorem pages_perm (ho : Order le) (hL : Listings le rows may) (hnodup : rows.Nodup) (hl : 0 < limit)
    (hpages : rows.length ≤ pages * limit) (hone : ∀ a ∈ rows, OnePage le limit rows a)
    {p : Nat → List α} (hp : ∀ n, may (p n)) :
    ((List.range pages).flatMap fun n => page limit n (p n)).Perm rows := by
  have hplace : ∀ {n i a}, (p n)[i]? = some a → i / limit = below le rows a / limit := fun {n i a} h =>
    place_div ho hL (hp n) (hone a ((hL.perm _ (hp n)).subset (List.mem_of_getElem? h))) h
  refine (List.perm_ext_iff_of_nodup ?_ hnodup).mpr fun a => ?_
  · refine List.nodup_flatMap.mpr ⟨fun n _ => ?_, ?_⟩
    · exact ((hL.perm _ (hp n)).nodup_iff.mpr hnodup).sublist (page_sublist _ _ _)
    · refine (List.nodup_range (n := pages)).pairwise_of_forall_ne fun n _ m _ hne a hn hm => ?_
      obtain ⟨i, rfl, hi⟩ := (mem_page hl).mp hn
      obtain ⟨j, rfl, hj⟩ := (mem_page hl).mp hm
      exact hne ((hplace hi).trans (hplace hj).symm)
  · rw [List.mem_flatMap]
    constructor
    · rintro ⟨n, -, ha⟩
      exact (hL.perm _ (hp n)).subset ((page_sublist _ _ _).subset ha)
    · intro ha
      obtain ⟨i, hi⟩ := List.mem_iff_getElem?.mp
        ((hL.perm _ (hp (below le rows a / limit))).symm.subset ha)
      have hlt : i < pages * limit := by
        have := (List.getElem?_eq_some_iff.mp hi).1
        rw [(hL.perm _ (hp _)).length_eq] at this
        omega
      refine ⟨below le rows a / limit, List.mem_range.mpr ?_, (mem_page hl).mpr ⟨i, hplace hi, hi⟩⟩
      rw [← hplace hi]
      exact (Nat.div_lt_iff_lt_mul hl).mpr hlt

/-- Two ties on different pages, exchanged between two listings, make one row appear twice. -/
theorem onePage_of_pages_perm (ho : Order le) (hL : Listings le rows may) (hnodup : rows.Nodup)
    (hl : 0 < limit) (hpages : rows.length ≤ pages * limit)
    (h : ∀ p : Nat → List α, (∀ n, may (p n)) →
      ((List.range pages).flatMap fun n => page limit n (p n)).Perm rows) :
    ∀ a ∈ rows, OnePage le limit rows a := by
  intro a ha
  by_contra hcross
  obtain ⟨p, hp⟩ := hL.exists_one
  have hperm := hL.perm p hp
  have hsorted := hL.sorted p hp
  obtain ⟨k, hk⟩ := List.mem_iff_getElem?.mp (hperm.symm.subset ha)
  obtain ⟨hlow, hhigh⟩ := place_mem ho hsorted hk
  have hlength : upto le p a ≤ p.length := upto_le_length p a
  -- `b` stands at the first of the places, `c` at the last.
  obtain ⟨b, hb⟩ : ∃ b, p[below le p a]? = some b := ⟨_, List.getElem?_eq_getElem (by omega)⟩
  obtain ⟨c, hc⟩ : ∃ c, p[upto le p a - 1]? = some c := ⟨_, List.getElem?_eq_getElem (by omega)⟩
  have hcross' : below le p a / limit ≠ (upto le p a - 1) / limit := by
    rw [below_perm hperm, upto_perm hperm]
    exact hcross
  have hba : Tied le b a := tied_of_place ho hsorted hb le_rfl (by omega)
  have hca : Tied le c a := tied_of_place ho hsorted hc (by omega) (by omega)
  have htied : Tied le b c := ⟨ho.trans _ _ _ hba.1 hca.2, ho.trans _ _ _ hca.1 hba.2⟩
  have hswap : may (p.map (Equiv.swap b c)) :=
    hL.exchange p hp b (hperm.subset (List.mem_of_getElem? hb)) c
      (hperm.subset (List.mem_of_getElem? hc)) htied
  have hc' : (p.map (Equiv.swap b c))[upto le p a - 1]? = some b := by
    rw [List.getElem?_map, hc, Option.map_some, Equiv.swap_apply_right]
  let listing : Nat → List α := fun n =>
    if n = below le p a / limit then p else p.map (Equiv.swap b c)
  have hmay : ∀ n, may (listing n) := by
    intro n
    show may (if _ then _ else _)
    split
    · exact hp
    · exact hswap
  have hdisjoint := (List.nodup_flatMap.mp ((h listing hmay).nodup_iff.mpr hnodup)).2
  have hrange : ∀ i, i < p.length → i / limit ∈ List.range pages := by
    intro i hi
    rw [hperm.length_eq] at hi
    exact List.mem_range.mpr ((Nat.div_lt_iff_lt_mul hl).mpr (by omega))
  have hfirst : b ∈ page limit (below le p a / limit) (listing (below le p a / limit)) := by
    show b ∈ page limit _ (if _ then _ else _)
    rw [if_pos rfl]
    exact (mem_page hl).mpr ⟨_, rfl, hb⟩
  have hlast : b ∈ page limit ((upto le p a - 1) / limit) (listing ((upto le p a - 1) / limit)) := by
    show b ∈ page limit _ (if _ then _ else _)
    rw [if_neg hcross'.symm]
    exact (mem_page hl).mpr ⟨_, rfl, hc'⟩
  have hsymm : Std.Symm (Function.onFun List.Disjoint fun n => page limit n (listing n)) :=
    ⟨fun _ _ h _ hx hy => h hy hx⟩
  exact (hdisjoint.forall (hrange _ (by omega)) (hrange _ (by omega)) hcross') hfirst hlast

/-- **The pages are the rows exactly when no ties reach across a border.** -/
theorem pages_perm_iff (ho : Order le) (hL : Listings le rows may) (hnodup : rows.Nodup)
    (hl : 0 < limit) (hpages : rows.length ≤ pages * limit) :
    (∀ p : Nat → List α, (∀ n, may (p n)) →
        ((List.range pages).flatMap fun n => page limit n (p n)).Perm rows) ↔
      ∀ a ∈ rows, OnePage le limit rows a :=
  ⟨onePage_of_pages_perm ho hL hnodup hl hpages,
    fun hone _ hp => pages_perm ho hL hnodup hl hpages hone hp⟩

/-! ## 5. Exchanging ties -/

theorem tied_swap (ho : Order le) (ht : Tied le a b) (x : α) : Tied le (Equiv.swap a b x) x := by
  rw [Equiv.swap_apply_def]
  split
  · rename_i h
    exact h ▸ ⟨ht.2, ht.1⟩
  split
  · rename_i h
    exact h ▸ ht
  · exact ⟨ho.refl x, ho.refl x⟩

/-- An order does not notice that two ties have changed places. -/
theorem le_swap (ho : Order le) (ht : Tied le a b) (x y : α) :
    le (Equiv.swap a b x) (Equiv.swap a b y) = le x y := by
  have hx := tied_swap ho ht x
  have hy := tied_swap ho ht y
  rw [Bool.eq_iff_iff]
  constructor
  · intro h
    exact ho.trans _ _ _ hx.2 (ho.trans _ _ _ h hy.1)
  · intro h
    exact ho.trans _ _ _ hx.1 (ho.trans _ _ _ h hy.2)

theorem map_swap_perm (hnodup : rows.Nodup) (ha : a ∈ rows) (hb : b ∈ rows) :
    (rows.map (Equiv.swap a b)).Perm rows := by
  refine (List.perm_ext_iff_of_nodup (hnodup.map (Equiv.injective _)) hnodup).mpr fun x => ?_
  have hmem : ∀ y ∈ rows, Equiv.swap a b y ∈ rows := by
    intro y hy
    rw [Equiv.swap_apply_def]
    split
    · exact hb
    split
    · exact ha
    · exact hy
  constructor
  · intro hx
    obtain ⟨y, hy, rfl⟩ := List.mem_map.mp hx
    exact hmem y hy
  · intro hx
    exact List.mem_map.mpr ⟨Equiv.swap a b x, hmem x hx, Equiv.swap_apply_self a b x⟩

theorem Answer.map_swap (ho : Order le) (hnodup : rows.Nodup) (h : Answer le rows p) (ha : a ∈ rows)
    (hb : b ∈ rows) (ht : Tied le a b) : Answer le rows (p.map (Equiv.swap a b)) := by
  refine ⟨(h.1.map _).trans (map_swap_perm hnodup ha hb), List.pairwise_map.mpr ?_⟩
  exact h.2.imp fun hle => (le_swap ho ht _ _).trans hle

theorem listings_answer (ho : Order le) (hnodup : rows.Nodup) :
    Listings le rows (Answer le rows) where
  sorted := fun _ h => h.2
  perm := fun _ h => h.1
  exists_one := ⟨_, ho.answer_mergeSort rows⟩
  exchange := fun _ h _ ha _ hb ht => h.map_swap ho hnodup ha hb ht

theorem listings_resorted (h₁ : Order le₁) (h₂ : Order le₂) (hnodup : rows.Nodup) :
    Listings (lex le₁ le₂) rows (Resorted le₁ le₂ rows) where
  sorted := by
    rintro p ⟨r, hr, rfl⟩
    exact sorted_mergeSort h₁ hr.2
  perm := by
    rintro p ⟨r, hr, rfl⟩
    exact (List.mergeSort_perm r le₁).trans hr.1
  exists_one := ⟨_, _, h₂.answer_mergeSort rows, rfl⟩
  exchange := by
    rintro p ⟨r, hr, rfl⟩ a ha b hb ht
    obtain ⟨ht₁, ht₂⟩ := tied_lex.mp ht
    refine ⟨_, hr.map_swap h₂ hnodup ha hb ht₂, ?_⟩
    exact List.map_mergeSort fun x _ y _ => (le_swap h₁ ht₁ x y).symm

end Paging
