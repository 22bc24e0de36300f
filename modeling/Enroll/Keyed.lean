/-
# Tables as lists of keyed rows

A table is a list of rows with a key.  `update` is `UPDATE .. WHERE key = k`, `lookup` is
`SELECT .. WHERE key = k`.  Filters that an update does not disturb commute with it; with distinct
keys an update changes a count by what it does to one row.  `setEach` is the `Map` a loop over rows
fills.
-/
import Mathlib.Data.List.Sort
import Mathlib.Data.List.Nodup

namespace Keyed

variable {ρ κ : Type} [DecidableEq κ] (key : ρ → κ)

/-! ## 1. Updates and lookups -/

/-- Every row with key `k` becomes `f` of itself. -/
def update (k : κ) (f : ρ → ρ) (l : List ρ) : List ρ := l.map (fun r => if key r = k then f r else r)

/-- The first row with key `k`. -/
def lookup (k : κ) (l : List ρ) : Option ρ := l.find? (fun r => key r == k)

variable {key}

@[simp] theorem update_nil (k : κ) (f : ρ → ρ) : update key k f [] = [] := rfl

theorem update_cons (k : κ) (f : ρ → ρ) (r : ρ) (l : List ρ) :
    update key k f (r :: l) = (if key r = k then f r else r) :: update key k f l := rfl

theorem update_append (k : κ) (f : ρ → ρ) (l l' : List ρ) :
    update key k f (l ++ l') = update key k f l ++ update key k f l' := List.map_append

theorem mem_update {k : κ} {f : ρ → ρ} {l : List ρ} {x : ρ} :
    x ∈ update key k f l ↔ ∃ r ∈ l, x = if key r = k then f r else r := by
  simp only [update, List.mem_map, eq_comm]

/-- No row with the key, nothing to do. -/
theorem update_of_forall_ne {k : κ} {l : List ρ} (f : ρ → ρ) (h : ∀ r ∈ l, key r ≠ k) :
    update key k f l = l := by
  calc update key k f l = l.map id := List.map_congr_left fun r hr => if_neg (h r hr)
    _ = l := List.map_id l

theorem map_update {β : Type} {g : ρ → β} {f : ρ → ρ} (hg : ∀ r, g (f r) = g r) (k : κ)
    (l : List ρ) : (update key k f l).map g = l.map g := by
  unfold update
  rw [List.map_map]
  refine List.map_congr_left fun r _ => ?_
  simp only [Function.comp]
  split
  · exact hg r
  · rfl

theorem filter_update {p : ρ → Bool} {f : ρ → ρ} (hp : ∀ r, p (f r) = p r) (k : κ)
    (l : List ρ) : (update key k f l).filter p = update key k f (l.filter p) := by
  unfold update
  rw [List.filter_map]
  congr 1
  refine List.filter_congr fun r _ => ?_
  simp only [Function.comp]
  split
  · exact hp r
  · rfl

theorem any_update {p : ρ → Bool} {f : ρ → ρ} (hp : ∀ r, p (f r) = p r) (k : κ) (l : List ρ) :
    (update key k f l).any p = l.any p := by
  unfold update
  rw [List.any_map]
  congr 1
  funext r
  simp only [Function.comp]
  split
  · exact hp r
  · rfl

theorem lookup_update {f : ρ → ρ} (hf : ∀ r, key (f r) = key r) (k k' : κ) (l : List ρ) :
    lookup key k' (update key k f l) = (lookup key k' l).map (fun r => if k' = k then f r else r) := by
  induction l with
  | nil => rfl
  | cons r l ih =>
    have hkey : key (if key r = k then f r else r) = key r := by
      split
      · exact hf r
      · rfl
    unfold lookup at ih ⊢
    rw [update_cons, List.find?_cons, List.find?_cons, hkey]
    by_cases h : key r = k'
    · subst h; simp
    · rw [beq_false_of_ne h]
      exact ih

theorem lookup_map {f : ρ → ρ} (hf : ∀ r, key (f r) = key r) (k : κ) (l : List ρ) :
    lookup key k (l.map f) = (lookup key k l).map f := by
  unfold lookup
  rw [List.find?_map]
  congr 1
  exact congrArg (fun p => l.find? p) (funext fun r => by rw [Function.comp, hf])

theorem lookup_append (k : κ) (l l' : List ρ) :
    lookup key k (l ++ l') = (lookup key k l).or (lookup key k l') := List.find?_append

theorem lookup_some {k : κ} {l : List ρ} {r : ρ} (h : lookup key k l = some r) :
    r ∈ l ∧ key r = k :=
  ⟨List.mem_of_find?_eq_some h, by simpa using List.find?_some h⟩

theorem lookup_none {k : κ} {l : List ρ} : lookup key k l = none ↔ ∀ r ∈ l, key r ≠ k := by
  simp [lookup]

/-- Distinct keys: a row is what its key looks up. -/
theorem lookup_of_mem {l : List ρ} (hnd : (l.map key).Nodup) {r : ρ} (hr : r ∈ l) :
    lookup key (key r) l = some r := by
  induction l with
  | nil => simp at hr
  | cons a t ih =>
    simp only [List.map_cons, List.nodup_cons] at hnd
    unfold lookup
    rw [List.find?_cons]
    rcases List.mem_cons.mp hr with rfl | hr
    · simp
    · have hne : key a ≠ key r := fun h => hnd.1 (h ▸ List.mem_map_of_mem hr)
      rw [beq_false_of_ne hne]
      exact ih hnd.2 hr

theorem eq_of_key_eq {l : List ρ} (hnd : (l.map key).Nodup) {r r' : ρ} (hr : r ∈ l)
    (hr' : r' ∈ l) (h : key r = key r') : r = r' := by
  have h1 := lookup_of_mem hnd hr
  have h2 := lookup_of_mem hnd hr'
  rw [h] at h1
  exact Option.some.inj (h1.symm.trans h2)

omit [DecidableEq κ] in
theorem nodup_filter (p : ρ → Bool) {l : List ρ} (hnd : (l.map key).Nodup) :
    ((l.filter p).map key).Nodup := hnd.sublist (List.filter_sublist.map key)

/-! ## 2. Counting -/

/-- **An update of one row moves a count by that row alone.** -/
theorem countP_update {p : ρ → Bool} {f : ρ → ρ} {l : List ρ} (hnd : (l.map key).Nodup) {r : ρ}
    (hr : r ∈ l) :
    (update key (key r) f l).countP p + (if p r then 1 else 0)
      = l.countP p + (if p (f r) then 1 else 0) := by
  induction l with
  | nil => simp at hr
  | cons a t ih =>
    simp only [List.map_cons, List.nodup_cons] at hnd
    rw [update_cons, List.countP_cons, List.countP_cons]
    rcases List.mem_cons.mp hr with rfl | hr
    · have hne : ∀ x ∈ t, key x ≠ key r := fun x hx he =>
        hnd.1 (List.mem_map.mpr ⟨x, hx, he⟩)
      rw [if_pos rfl, update_of_forall_ne f hne]
      omega
    · have hne : key a ≠ key r := fun h => hnd.1 (h ▸ List.mem_map_of_mem hr)
      rw [if_neg hne]
      have := ih hnd.2 hr
      omega

/-- Taking the updated row out of a filter it no longer passes. -/
theorem filter_update_of_false {p : ρ → Bool} {f : ρ → ρ} {l : List ρ} {k : κ}
    (hf : ∀ r ∈ l, key r = k → p (f r) = false) :
    (update key k f l).filter p = l.filter (fun r => p r && decide (key r ≠ k)) := by
  induction l with
  | nil => rfl
  | cons a t ih =>
    have ih' := ih (fun r hr => hf r (List.mem_cons_of_mem a hr))
    rw [update_cons, List.filter_cons, List.filter_cons, ih']
    by_cases h : key a = k
    · rw [if_pos h, hf a List.mem_cons_self h]
      simp [h]
    · simp [h]

/-- Taking the first rows out leaves the others. -/
theorem filter_notMem_take {l : List ρ} (hnd : (l.map key).Nodup) (n : Nat) :
    l.filter (fun r => decide (key r ∉ (l.take n).map key)) = l.drop n := by
  have hdisj : ∀ r ∈ l.drop n, key r ∉ (l.take n).map key := by
    intro r hr hmem
    rw [← List.take_append_drop n l, List.map_append] at hnd
    exact List.disjoint_of_nodup_append hnd hmem (List.mem_map_of_mem hr)
  calc l.filter (fun r => decide (key r ∉ (l.take n).map key))
      = (l.take n ++ l.drop n).filter (fun r => decide (key r ∉ (l.take n).map key)) := by
        rw [List.take_append_drop]
    _ = [] ++ l.drop n := by
        rw [List.filter_append, List.filter_eq_nil_iff.mpr, List.filter_eq_self.mpr]
        · exact fun r hr => decide_eq_true (hdisj r hr)
        · exact fun r hr h => of_decide_eq_true h (List.mem_map_of_mem hr)
    _ = l.drop n := List.nil_append _

/-! ## 3. Stable sorting

`ORDER BY` on a list: filtering before or after sorting is the same. -/

section Sorting

variable {r : ρ → ρ → Prop} [DecidableRel r]

theorem filter_orderedInsert (htrans : ∀ a b c, r a b → r b c → r a c) (p : ρ → Bool) (a : ρ) :
    ∀ l : List ρ, l.Pairwise r →
      (l.orderedInsert r a).filter p
        = if p a then (l.filter p).orderedInsert r a else l.filter p
  | [], _ => by
    cases hp : p a <;> simp [hp]
  | b :: t, hs => by
    obtain ⟨hb, ht⟩ := List.pairwise_cons.mp hs
    rw [List.orderedInsert_cons]
    by_cases hab : r a b
    · rw [if_pos hab, List.filter_cons]
      cases hpa : p a with
      | false => simp
      | true =>
        -- the first element that survives the filter is not before `b`
        simp only [if_true]
        cases hl : (b :: t).filter p with
        | nil => rfl
        | cons c u =>
          have hc : r a c := by
            have hmem : c ∈ (b :: t).filter p := hl ▸ List.mem_cons_self
            rcases List.mem_cons.mp (List.mem_of_mem_filter hmem) with rfl | hct
            · exact hab
            · exact htrans a b c hab (hb c hct)
          rw [List.orderedInsert_cons, if_pos hc]
    · rw [if_neg hab, List.filter_cons, filter_orderedInsert htrans p a t ht]
      cases hpa : p a with
      | false => simp [List.filter_cons]
      | true =>
        cases hpb : p b with
        | false => simp [hpb]
        | true => simp [hpb, List.orderedInsert_cons, hab]

theorem filter_insertionSort (htotal : ∀ a b, r a b ∨ r b a)
    (htrans : ∀ a b c, r a b → r b c → r a c) (p : ρ → Bool) :
    ∀ l : List ρ, (l.insertionSort r).filter p = (l.filter p).insertionSort r
  | [] => rfl
  | a :: t => by
    have : Std.Total r := ⟨htotal⟩
    have : IsTrans ρ r := ⟨htrans⟩
    have ih := filter_insertionSort htotal htrans p t
    rw [List.insertionSort_cons,
      filter_orderedInsert htrans p a _ (List.pairwise_insertionSort r t), ih, List.filter_cons]
    cases hp : p a <;> simp

end Sorting

/-! ## 4. Maps filled from a list -/

section Maps

variable {ι β : Type} {keyOf : ι → κ} {value : ι → Option β} {l : List ι} {k : κ} {v : β}

/-- `map.set(..)` for each element that has a value, in order. -/
def setEach (keyOf : ι → κ) (value : ι → Option β) (l : List ι) : κ → Option β :=
  l.foldl
    (fun m a =>
      match value a with
      | some v => Function.update m (keyOf a) (some v)
      | none => m)
    fun _ => none

/-- A key whose elements agree on the value gets that value. -/
theorem setEach_eq (hk : ∃ a ∈ l, keyOf a = k) (hv : ∀ a ∈ l, keyOf a = k → value a = some v) :
    setEach keyOf value l k = some v := by
  have hfill : ∀ (l : List ι) (m : κ → Option β), (m k = some v ∨ ∃ a ∈ l, keyOf a = k) →
      (∀ a ∈ l, keyOf a = k → value a = some v) →
        l.foldl (fun m a =>
          match value a with
          | some v => Function.update m (keyOf a) (some v)
          | none => m) m k = some v := by
    intro l
    induction l with
    | nil => exact fun m hm _ => hm.resolve_right (by simp)
    | cons a l ih =>
      intro m hm hl
      have hl' := fun b hb => hl b (List.mem_cons_of_mem a hb)
      rw [List.foldl_cons]
      refine ih _ ?_ hl'
      by_cases ha : keyOf a = k
      · rw [hl a List.mem_cons_self ha]
        exact Or.inl (by simp [ha])
      · have hrest : m k = some v ∨ ∃ b ∈ l, keyOf b = k := by
          rcases hm with hm | ⟨b, hb, hbk⟩
          · exact Or.inl hm
          · exact Or.inr ⟨b, (List.mem_cons.mp hb).resolve_left fun he => ha (he ▸ hbk), hbk⟩
        cases value a with
        | none => exact hrest
        | some v' => exact hrest.imp_left (Function.update_of_ne (Ne.symm ha) _ m).trans
  exact hfill l _ (Or.inr hk) hv

/-- A key that no element has gets none. -/
theorem setEach_none (hk : ∀ a ∈ l, keyOf a ≠ k) : setEach keyOf value l k = none := by
  have hfill : ∀ (l : List ι) (m : κ → Option β), m k = none → (∀ a ∈ l, keyOf a ≠ k) →
      l.foldl (fun m a =>
        match value a with
        | some v => Function.update m (keyOf a) (some v)
        | none => m) m k = none := by
    intro l
    induction l with
    | nil => exact fun m hm _ => hm
    | cons a l ih =>
      intro m hm hl
      rw [List.foldl_cons]
      refine ih _ ?_ fun b hb => hl b (List.mem_cons_of_mem a hb)
      cases value a with
      | none => exact hm
      | some v => exact (Function.update_of_ne (hl a List.mem_cons_self).symm _ m).trans hm
  exact hfill l _ rfl hk

end Maps

end Keyed
