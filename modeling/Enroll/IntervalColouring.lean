/-
# Colouring intervals

Half-open intervals `[lo a, hi a)` over a linear order, given by their ends.  A colouring is a list
of columns; each column is a stack of intervals of which the next starts when the last has ended.

* Columns of stacked intervals are at least as many as the intervals in progress at any instant
  (`load_flatten_le`).
* Columns that all have an interval in progress at one instant are at most as many
  (`length_le_load_flatten`), so a greedy colouring that opens a column only then is minimal.
* In a chain of intervals each of which starts before an earlier one has ended, every interval
  overlaps another (`Chained.overlaps`).
-/
import Mathlib.Order.Defs.LinearOrder
import Mathlib.Data.List.Basic
import Mathlib.Algebra.Order.BigOperators.Group.List

namespace Interval

variable {ι τ : Type} [LinearOrder τ] (lo hi : ι → τ)

/-! ## 1. Instants -/

/-- The two intervals share an instant, if they are not empty. -/
def Overlap (a b : ι) : Prop := lo a < hi b ∧ lo b < hi a

/-- The interval is in progress at `t`. -/
def busy (t : τ) (a : ι) : Bool := decide (lo a ≤ t ∧ t < hi a)

/-- How many of the intervals are in progress at `t`. -/
def load (l : List ι) (t : τ) : Nat := l.countP (busy lo hi t)

/-- Newest first, every interval starts when those below it have ended. -/
def Stacked (column : List ι) : Prop := column.Pairwise fun a b => hi b ≤ lo a

/-- Every interval but the first starts before an earlier one has ended. -/
def Chained (l : List ι) : Prop :=
  ∀ l₁ a l₂, l = l₁ ++ a :: l₂ → l₁ ≠ [] → ∃ b ∈ l₁, lo a < hi b

variable {lo hi}

theorem Overlap.symm {a b : ι} (h : Overlap lo hi a b) : Overlap lo hi b a := And.symm h

theorem busy_iff {t : τ} {a : ι} : busy lo hi t a = true ↔ lo a ≤ t ∧ t < hi a := by simp [busy]

/-- Intervals in progress at one instant overlap. -/
theorem overlap_of_busy {t : τ} {a b : ι} (ha : busy lo hi t a = true)
    (hb : busy lo hi t b = true) : Overlap lo hi a b := by
  rw [busy_iff] at ha hb
  exact ⟨lt_of_le_of_lt ha.1 hb.2, lt_of_le_of_lt hb.1 ha.2⟩

theorem load_append (l l' : List ι) (t : τ) :
    load lo hi (l ++ l') t = load lo hi l t + load lo hi l' t := List.countP_append

theorem load_perm {l l' : List ι} (h : l.Perm l') (t : τ) : load lo hi l t = load lo hi l' t :=
  h.countP_eq _

/-! ## 2. Columns -/

theorem Stacked.push {a b : ι} {column : List ι} (hb : lo b < hi b) (h : Stacked lo hi (b :: column))
    (hba : hi b ≤ lo a) : Stacked lo hi (a :: b :: column) := by
  refine List.pairwise_cons.mpr ⟨fun c hc => ?_, h⟩
  rcases List.mem_cons.mp hc with rfl | hc
  · exact hba
  · have hcb : hi c ≤ lo b := List.rel_of_pairwise_cons h hc
    exact (hcb.trans hb.le).trans hba

/-- A column has at most one interval in progress. -/
theorem load_stacked_le {column : List ι} (h : Stacked lo hi column) (t : τ) :
    load lo hi column t ≤ 1 := by
  induction column with
  | nil => exact Nat.zero_le 1
  | cons a column ih =>
    obtain ⟨ha, htail⟩ := List.pairwise_cons.mp h
    unfold load at ih ⊢
    rw [List.countP_cons]
    by_cases hbusy : busy lo hi t a = true
    · have hnone : column.countP (busy lo hi t) = 0 := by
        refine List.countP_eq_zero.mpr fun b hb hbt => ?_
        have hle : hi b ≤ lo a := ha b hb
        exact absurd ((overlap_of_busy hbusy hbt).1) (not_lt.mpr hle)
      rw [hnone, if_pos hbusy]
    · rw [if_neg hbusy]
      exact ih htail

/-- **No instant has more intervals in progress than there are columns.** -/
theorem load_flatten_le {columns : List (List ι)} (h : ∀ c ∈ columns, Stacked lo hi c) (t : τ) :
    load lo hi columns.flatten t ≤ columns.length := by
  induction columns with
  | nil => exact Nat.le_refl 0
  | cons c columns ih =>
    have hc := load_stacked_le (h c List.mem_cons_self) t
    have ht := ih fun c' hc' => h c' (List.mem_cons_of_mem c hc')
    rw [List.flatten_cons, load_append, List.length_cons]
    omega

/-- **Columns that are all in use at one instant are no more than the intervals in progress.** -/
theorem length_le_load_flatten {columns : List (List ι)} {t : τ}
    (h : ∀ c ∈ columns, ∃ a ∈ c, busy lo hi t a = true) :
    columns.length ≤ load lo hi columns.flatten t := by
  induction columns with
  | nil => exact Nat.le_refl 0
  | cons c columns ih =>
    obtain ⟨a, ha, hbusy⟩ := h c List.mem_cons_self
    have hc : 0 < load lo hi c t := List.countP_pos_iff.mpr ⟨a, ha, hbusy⟩
    have ht := ih fun c' hc' => h c' (List.mem_cons_of_mem c hc')
    rw [List.flatten_cons, load_append, List.length_cons]
    omega

/-! ## 3. Chains -/

theorem chained_nil : Chained lo hi ([] : List ι) := by
  intro l₁ a l₂ h
  exact absurd h.symm (by simp)

theorem chained_singleton (a : ι) : Chained lo hi [a] := by
  intro l₁ b l₂ h hne
  cases l₁ with
  | nil => exact absurd rfl hne
  | cons c l₁ => exact absurd (congrArg List.length h) (by simp)

/-- A chain goes on with an interval that starts before one of it has ended. -/
theorem Chained.snoc {l : List ι} {a b : ι} (h : Chained lo hi l) (hb : b ∈ l) (hab : lo a < hi b) :
    Chained lo hi (l ++ [a]) := by
  intro l₁ c l₂ heq hne
  rcases List.eq_nil_or_concat l₂ with rfl | ⟨l₃, d, rfl⟩
  · obtain ⟨rfl, hca⟩ := List.append_inj' heq rfl
    obtain rfl := (List.cons.inj hca).1
    exact ⟨b, hb, hab⟩
  · have heq' : l ++ [a] = (l₁ ++ c :: l₃) ++ [d] := by simpa using heq
    exact h l₁ c l₃ (List.append_inj' heq' rfl).1 hne

/-- **In a chain sorted by start every interval overlaps another, if there is another.** -/
theorem Chained.overlaps {l l₁ l₂ : List ι} {a : ι} (h : Chained lo hi l)
    (hsorted : l.Pairwise fun a b => lo a ≤ lo b) (hproper : ∀ b ∈ l, lo b < hi b)
    (hl : l = l₁ ++ a :: l₂) (hother : l₁ ++ l₂ ≠ []) : ∃ b ∈ l₁ ++ l₂, Overlap lo hi a b := by
  subst hl
  rcases List.eq_nil_or_concat l₁ with rfl | ⟨l₀, d, rfl⟩
  · -- the second interval starts before the first has ended
    cases l₂ with
    | nil => exact absurd rfl hother
    | cons c l₃ =>
      obtain ⟨b, hb, hlt⟩ := h [a] c l₃ rfl (by simp)
      obtain rfl := List.mem_singleton.mp hb
      have hle : lo b ≤ lo c := List.rel_of_pairwise_cons hsorted List.mem_cons_self
      have hc : lo c < hi c := hproper c (by simp)
      exact ⟨c, by simp, lt_of_le_of_lt hle hc, hlt⟩
  · obtain ⟨b, hb, hlt⟩ := h (l₀ ++ [d]) a l₂ (by simp) (by simp)
    have hle : lo b ≤ lo a :=
      (List.pairwise_append.mp hsorted).2.2 b (by simpa using hb) a List.mem_cons_self
    have ha : lo a < hi a := hproper a (by simp)
    exact ⟨b, List.mem_append_left l₂ (by simpa using hb), hlt, lt_of_le_of_lt hle ha⟩

end Interval
