/-
# The layout of a day

What the loops of `ScheduleGrid` draw, as a colouring of intervals.  `place` is a first fit that
looks at the last slot of each column only; the slots come sorted by start, so that is enough for
the columns to be stacks (`Filled.stacked`), and a column is opened only when all the others are in
use at the start of the slot (`Filled.used`).  The sweep closes a group only when a slot starts
after everything before it has ended (`Swept.apart`), and keeps it open otherwise, so a group is a
chain (`Swept.chained`).
-/
import Enroll.ScheduleGrid
import Enroll.IntervalColouring
import Mathlib.Algebra.Order.Ring.Rat
import Mathlib.Order.WithBot

namespace Enroll

open Interval

/-! ## 1. The order of the numbers -/

namespace JsNumber

/-- Where a number that is not `NaN` stands. -/
def rank : JsNumber → WithBot (WithTop ℚ)
  | nan => ⊥
  | inf s => if s then ⊥ else ((⊤ : WithTop ℚ) : WithBot (WithTop ℚ))
  | fin q => ((q : WithTop ℚ) : WithBot (WithTop ℚ))

variable {x y : JsNumber}

theorem lt_iff (hx : x ≠ nan) (hy : y ≠ nan) : x.lt y = true ↔ x.rank < y.rank := by
  cases x with
  | nan => exact absurd rfl hx
  | inf s =>
    cases y with
    | nan => exact absurd rfl hy
    | inf s' => cases s <;> cases s' <;> simp [lt, rank]
    | fin q => cases s <;> simp [lt, rank]
  | fin p =>
    cases y with
    | nan => exact absurd rfl hy
    | inf s' =>
      cases s' with
      | true => simp [lt, rank]
      | false => exact iff_of_true rfl (WithBot.coe_lt_coe.mpr (WithTop.coe_lt_top p))
    | fin q => simp [lt, rank]

theorem le_iff (hx : x ≠ nan) (hy : y ≠ nan) : x.le y = true ↔ x.rank ≤ y.rank := by
  cases x with
  | nan => exact absurd rfl hx
  | inf s =>
    cases y with
    | nan => exact absurd rfl hy
    | inf s' => cases s <;> cases s' <;> simp [le, rank]
    | fin q => cases s <;> simp [le, rank]
  | fin p =>
    cases y with
    | nan => exact absurd rfl hy
    | inf s' => cases s' <;> simp [le, rank]
    | fin q => simp [le, rank]

theorem isNaN_iff : x.isNaN = true ↔ x = nan := by cases x <;> simp [isNaN]

theorem rank_max (hx : x ≠ nan) (hy : y ≠ nan) : (x.max y).rank = Max.max x.rank y.rank := by
  have hnan : ¬(x.isNaN || y.isNaN) = true := by simp [isNaN_iff, hx, hy]
  unfold max
  rw [if_neg hnan]
  by_cases h : x.lt y = true
  · rw [if_pos h, max_eq_right ((lt_iff hx hy).mp h).le]
  · rw [if_neg h, max_eq_left (not_lt.mp fun h' => h ((lt_iff hx hy).mpr h'))]

theorem max_ne_nan (hx : x ≠ nan) (hy : y ≠ nan) : x.max y ≠ nan := by
  have hnan : ¬(x.isNaN || y.isNaN) = true := by simp [isNaN_iff, hx, hy]
  unfold max
  rw [if_neg hnan]
  split
  · exact hy
  · exact hx

theorem ne_nan_of_lt (h : x.lt y = true) : x ≠ nan ∧ y ≠ nan := by
  constructor
  · rintro rfl
    simp [lt] at h
  · rintro rfl
    cases x <;> simp [lt] at h

end JsNumber

namespace Grid

/-- A slot that starts at midnight or later, and before it ends. -/
structure ParsedSlot.Proper (s : ParsedSlot) : Prop where
  nonneg : (JsNumber.fin 0).le s.startMin = true
  forward : s.startMin.lt s.endMin = true

/-- The times of two slots overlap. -/
def Slot.clashes (a b : Slot) : Bool := a.toParsedSlot.clashes b.toParsedSlot

theorem Slot.clashes_comm (a b : Slot) : a.clashes b = b.clashes a := Bool.and_comm _ _

def lo (s : Slot) : WithBot (WithTop ℚ) := s.startMin.rank

def hi (s : Slot) : WithBot (WithTop ℚ) := s.endMin.rank

section

variable {a b s : Slot} {columns : List Column}

theorem ParsedSlot.Proper.start_ne (h : s.Proper) : s.startMin ≠ .nan :=
  (JsNumber.ne_nan_of_lt h.forward).1

theorem ParsedSlot.Proper.end_ne (h : s.Proper) : s.endMin ≠ .nan :=
  (JsNumber.ne_nan_of_lt h.forward).2

theorem ParsedSlot.Proper.lo_lt_hi (h : s.Proper) : lo s < hi s :=
  (JsNumber.lt_iff h.start_ne h.end_ne).mp h.forward

theorem clashes_iff (ha : a.Proper) (hb : b.Proper) : a.clashes b = true ↔ Overlap lo hi a b := by
  unfold Slot.clashes ParsedSlot.clashes
  rw [Bool.and_eq_true, JsNumber.lt_iff ha.start_ne hb.end_ne, JsNumber.lt_iff hb.start_ne ha.end_ne]
  exact Iff.rfl

theorem ended_iff (ha : a.Proper) (hb : b.Proper) :
    a.endMin.le b.startMin = true ↔ hi a ≤ lo b := JsNumber.le_iff ha.end_ne hb.start_ne

/-- What has ended does not clash. -/
theorem not_clashes (ha : a.Proper) (hb : b.Proper) (h : hi a ≤ lo b) : a.clashes b = false :=
  Bool.eq_false_iff.mpr fun hc => absurd ((clashes_iff ha hb).mp hc).2 (not_lt.mpr h)

/-- How many slots of the group are in progress at the instant `t`. -/
def inProgress (group : List Slot) (t : JsNumber) : Nat :=
  group.countP fun s => s.startMin.le t && t.lt s.endMin

theorem inProgress_eq_load {group : List Slot} (h : ∀ s ∈ group, s.Proper) {t : JsNumber}
    (ht : t ≠ .nan) : inProgress group t = load lo hi group t.rank := by
  refine List.countP_congr fun s hs => ?_
  rw [busy_iff, Bool.and_eq_true, JsNumber.le_iff (h s hs).start_ne ht,
    JsNumber.lt_iff ht (h s hs).end_ne]
  exact Iff.rfl

/-- No instant is `NaN`. -/
theorem inProgress_nan (group : List Slot) : inProgress group .nan = 0 := by
  refine List.countP_eq_zero.mpr fun s _ => ?_
  have : s.startMin.le .nan = false := by cases s.startMin <;> rfl
  simp [this]

/-! ## 2. First fit -/

def Column.toList (c : Column) : List Slot := c.lastSlot :: c.before

@[simp] theorem Column.push_toList (c : Column) (slot : Slot) :
    (c.push slot).toList = slot :: c.toList := rfl

/-- **The slot goes to a column whose last slot has ended, or opens a new one because none has.** -/
theorem place_cases (slot : Slot) (columns : List Column) :
    (∃ pre c post, columns = pre ++ c :: post ∧ c.lastSlot.endMin.le slot.startMin = true ∧
        place slot columns = (pre.length, pre ++ c.push slot :: post)) ∨
      ((∀ c ∈ columns, c.lastSlot.endMin.le slot.startMin = false) ∧
        place slot columns = (columns.length, columns ++ [⟨slot, []⟩])) := by
  induction columns with
  | nil => exact Or.inr ⟨by simp, rfl⟩
  | cons c columns ih =>
    unfold place
    by_cases hc : c.lastSlot.endMin.le slot.startMin = true
    · rw [if_pos hc]
      exact Or.inl ⟨[], c, columns, rfl, hc, rfl⟩
    · rw [if_neg hc]
      rcases ih with ⟨pre, d, post, rfl, hd, hplace⟩ | ⟨hnone, hplace⟩
      · rw [hplace]
        exact Or.inl ⟨c :: pre, d, post, rfl, hd, rfl⟩
      · rw [hplace]
        refine Or.inr ⟨fun d hd => ?_, rfl⟩
        rcases List.mem_cons.mp hd with rfl | hd
        · exact Bool.eq_false_iff.mpr hc
        · exact hnone d hd

/-- The columns after some slots of a group have been placed. -/
structure Filled (placed : List (Slot × Nat)) (columns : List Column) : Prop where
  perm : (columns.map Column.toList).flatten.Perm (placed.map Prod.fst)
  stacked : ∀ c ∈ columns, Stacked lo hi c.toList
  column : ∀ p ∈ placed, ∃ c, columns[p.2]? = some c ∧ p.1 ∈ c.toList
  apart : placed.Pairwise fun p q => p.2 = q.2 → hi p.1 ≤ lo q.1
  used : columns ≠ [] →
    ∃ s ∈ placed.map Prod.fst, columns.length ≤ load lo hi (placed.map Prod.fst) (lo s)

theorem Filled.nil : Filled [] [] :=
  ⟨.nil, by simp, by simp, .nil, fun h => absurd rfl h⟩

end

section

variable {slot : Slot} {placed : List (Slot × Nat)} {columns : List Column}

theorem Filled.mem_column (h : Filled placed columns) {c : Column} (hc : c ∈ columns) {s : Slot}
    (hs : s ∈ c.toList) : s ∈ placed.map Prod.fst :=
  h.perm.subset (List.mem_flatten.mpr ⟨c.toList, List.mem_map_of_mem hc, hs⟩)

/-- What is true of the slots placed is true of the last slots. -/
theorem Filled.last (h : Filled placed columns) {P : Slot → Prop} (hp : ∀ p ∈ placed, P p.1)
    {c : Column} (hc : c ∈ columns) : P c.lastSlot := by
  obtain ⟨p, hmem, heq⟩ := List.mem_map.mp (h.mem_column hc List.mem_cons_self)
  exact heq ▸ hp p hmem

/-- The last slot of a column ends last. -/
theorem Filled.hi_le_last (h : Filled placed columns) (hp : ∀ p ∈ placed, p.1.Proper) {c : Column}
    (hc : c ∈ columns) {s : Slot} (hs : s ∈ c.toList) : hi s ≤ hi c.lastSlot := by
  rcases List.mem_cons.mp hs with rfl | hs
  · exact le_rfl
  · have hle : hi s ≤ lo c.lastSlot := List.rel_of_pairwise_cons (h.stacked c hc) hs
    have hlast : c.lastSlot.Proper := h.last (P := fun s => s.Proper) hp hc
    exact hle.trans hlast.lo_lt_hi.le

theorem getElem?_middle {α : Type} (pre post : List α) (a b : α) {i : Nat} (hi : i ≠ pre.length) :
    (pre ++ a :: post)[i]? = (pre ++ b :: post)[i]? := by
  rcases Nat.lt_or_ge i pre.length with h | h
  · rw [List.getElem?_append_left h, List.getElem?_append_left h]
  · obtain ⟨j, hj⟩ := Nat.exists_eq_add_of_lt (Nat.lt_of_le_of_ne h (Ne.symm hi))
    rw [List.getElem?_append_right h, List.getElem?_append_right h, hj]
    have : pre.length + j + 1 - pre.length = j + 1 := by omega
    rw [this, List.getElem?_cons_succ, List.getElem?_cons_succ]

/-- A slot that joins a column. -/
theorem Filled.push {pre post : List Column} {c : Column}
    (h : Filled placed (pre ++ c :: post)) (hp : ∀ p ∈ placed, p.1.Proper)
    (hended : hi c.lastSlot ≤ lo slot) :
    Filled (placed ++ [(slot, pre.length)]) (pre ++ c.push slot :: post) where
  perm := by
    have hperm := h.perm
    simp only [List.map_append, List.map_cons, List.flatten_append, List.flatten_cons,
      Column.push_toList, List.map_nil, List.cons_append] at hperm ⊢
    refine List.perm_middle.trans ?_
    exact (List.Perm.cons slot hperm).trans (List.perm_append_singleton slot _).symm
  stacked := by
    intro d hd
    rcases List.mem_append.mp hd with hd | hd
    · exact h.stacked d (List.mem_append_left _ hd)
    · rcases List.mem_cons.mp hd with rfl | hd
      · have hc : c ∈ pre ++ c :: post := by simp
        have hlast : c.lastSlot.Proper := h.last (P := fun s => s.Proper) hp hc
        exact Stacked.push hlast.lo_lt_hi (h.stacked c hc) hended
      · exact h.stacked d (by simp [hd])
  column := by
    intro p hmem
    rcases List.mem_append.mp hmem with hmem | hmem
    · obtain ⟨d, hd, hs⟩ := h.column p hmem
      by_cases hi : p.2 = pre.length
      · rw [hi] at hd ⊢
        have hdc : d = c := by simpa using hd.symm
        exact ⟨c.push slot, by simp, by simp [← hdc, hs]⟩
      · exact ⟨d, getElem?_middle pre post _ c hi ▸ hd, hs⟩
    · obtain rfl := List.mem_singleton.mp hmem
      exact ⟨c.push slot, by simp, by simp⟩
  apart := by
    refine List.pairwise_append.mpr ⟨h.apart, List.pairwise_singleton _ _, ?_⟩
    intro p hmem q hq heq
    obtain rfl := List.mem_singleton.mp hq
    obtain ⟨d, hd, hs⟩ := h.column p hmem
    rw [heq] at hd
    have hdc : d = c := by simpa using hd.symm
    exact (h.hi_le_last hp (by simp) (hdc ▸ hs)).trans hended
  used := by
    intro _
    obtain ⟨s, hs, hle⟩ := h.used (by simp)
    refine ⟨s, by simp only [List.map_append]; exact List.mem_append_left _ hs, ?_⟩
    rw [List.map_append, load_append]
    simp only [List.length_append, List.length_cons] at hle ⊢
    omega

/-- A slot that opens a column, because all are in use when it starts. -/
theorem Filled.open (h : Filled placed columns) (hslot : slot.Proper)
    (hbefore : ∀ p ∈ placed, lo p.1 ≤ lo slot)
    (hnone : ∀ c ∈ columns, lo slot < hi c.lastSlot) :
    Filled (placed ++ [(slot, columns.length)]) (columns ++ [⟨slot, []⟩]) where
  perm := by
    simp only [List.map_append, List.map_cons, List.map_nil, List.flatten_append, Column.toList,
      List.flatten_cons, List.flatten_nil, List.append_nil]
    exact h.perm.append_right [slot]
  stacked := by
    intro d hd
    rcases List.mem_append.mp hd with hd | hd
    · exact h.stacked d hd
    · obtain rfl := List.mem_singleton.mp hd
      exact List.pairwise_singleton _ _
  column := by
    intro p hmem
    rcases List.mem_append.mp hmem with hmem | hmem
    · obtain ⟨d, hd, hs⟩ := h.column p hmem
      obtain ⟨hlt, -⟩ := List.getElem?_eq_some_iff.mp hd
      exact ⟨d, by rw [List.getElem?_append_left hlt, hd], hs⟩
    · obtain rfl := List.mem_singleton.mp hmem
      exact ⟨⟨slot, []⟩, by simp, by simp [Column.toList]⟩
  apart := by
    refine List.pairwise_append.mpr ⟨h.apart, List.pairwise_singleton _ _, ?_⟩
    intro p hmem q hq heq
    obtain rfl := List.mem_singleton.mp hq
    obtain ⟨d, hd, -⟩ := h.column p hmem
    obtain ⟨hlt, -⟩ := List.getElem?_eq_some_iff.mp hd
    exact absurd heq (Nat.ne_of_lt hlt)
  used := by
    intro _
    have hbusy : ∀ c ∈ columns, ∃ s ∈ c.toList, busy lo hi (lo slot) s = true := by
      intro c hc
      have hstarted : lo c.lastSlot ≤ lo slot := h.last (P := fun s => lo s ≤ lo slot) hbefore hc
      exact ⟨c.lastSlot, List.mem_cons_self, busy_iff.mpr ⟨hstarted, hnone c hc⟩⟩
    have hcolumns : (columns.map Column.toList).length
        ≤ load lo hi (columns.map Column.toList).flatten (lo slot) := length_le_load_flatten <| by
      intro l hl
      obtain ⟨c, hc, rfl⟩ := List.mem_map.mp hl
      exact hbusy c hc
    have hself : load lo hi [slot] (lo slot) = 1 := by
      have : busy lo hi (lo slot) slot = true := busy_iff.mpr ⟨le_rfl, hslot.lo_lt_hi⟩
      simp [load, this]
    refine ⟨slot, by simp, ?_⟩
    rw [load_perm h.perm, List.length_map] at hcolumns
    rw [List.map_append, List.map_singleton, load_append, hself, List.length_append]
    exact Nat.add_le_add_right hcolumns 1

theorem Filled.place (h : Filled placed columns) (hp : ∀ p ∈ placed, p.1.Proper)
    (hslot : slot.Proper) (hbefore : ∀ p ∈ placed, lo p.1 ≤ lo slot) :
    Filled (placed ++ [(slot, (place slot columns).1)]) (place slot columns).2 := by
  have hlast : ∀ c ∈ columns, c.lastSlot.Proper := fun c hc =>
    h.last (P := fun s => s.Proper) hp hc
  rcases place_cases slot columns with ⟨pre, c, post, rfl, hc, hplace⟩ | ⟨hnone, hplace⟩
  · rw [hplace]
    exact h.push hp ((ended_iff (hlast c (by simp)) hslot).mp hc)
  · rw [hplace]
    refine h.open hslot hbefore fun c hc => ?_
    exact not_le.mp fun hle =>
      Bool.eq_false_iff.mp (hnone c hc) ((ended_iff (hlast c hc) hslot).mpr hle)

end

theorem fill_fst (columns : List Column) (group : List Slot) :
    (fill columns group).1.map Prod.fst = group := by
  induction group generalizing columns with
  | nil => rfl
  | cons slot group ih => exact congrArg (slot :: ·) (ih _)

/-- **The columns of slots that come sorted by start.** -/
theorem Filled.fill {group : List Slot} : ∀ {placed : List (Slot × Nat)} {columns : List Column},
    Filled placed columns → (∀ s ∈ placed.map Prod.fst ++ group, s.Proper) →
      (placed.map Prod.fst ++ group).Pairwise (fun a b => lo a ≤ lo b) →
      Filled (placed ++ (fill columns group).1) (fill columns group).2 := by
  induction group with
  | nil =>
    intro placed columns h _ _
    simpa [Grid.fill] using h
  | cons slot group ih =>
    intro placed columns h hp hsorted
    have hplaced : ∀ p ∈ placed, p.1.Proper := fun p hmem =>
      hp p.1 (List.mem_append_left _ (List.mem_map_of_mem hmem))
    have hbefore : ∀ p ∈ placed, lo p.1 ≤ lo slot := fun p hmem =>
      (List.pairwise_append.mp hsorted).2.2 p.1 (List.mem_map_of_mem hmem) slot List.mem_cons_self
    have hnext := h.place hplaced (hp slot (by simp)) hbefore
    have := ih hnext (by simpa using hp) (by simpa using hsorted)
    simpa [Grid.fill] using this

/-! ## 3. One group -/

/-- What `assignColumns` does with a group. -/
structure LaidOut (group : List Slot) : Prop where
  once : (assignColumns group).map PositionedSlot.toSlot = group
  apart : (assignColumns group).Pairwise fun a b =>
    a.colIndex = b.colIndex → a.toSlot.clashes b.toSlot = false
  inside : ∀ s ∈ assignColumns group, s.colIndex < s.numCols
  widest : ∀ s ∈ assignColumns group,
    (∃ t, inProgress group t = s.numCols) ∧ ∀ t, inProgress group t ≤ s.numCols

theorem mem_assignColumns {group : List Slot} {s : PositionedSlot} (h : s ∈ assignColumns group) :
    (s.toSlot, s.colIndex) ∈ (fill [] group).1 ∧ s.numCols = (fill [] group).2.length ∧
      s.isConflict = decide (s.numCols > 1) := by
  obtain ⟨p, hp, rfl⟩ := List.mem_map.mp h
  exact ⟨hp, rfl, rfl⟩

/-- **A sorted group is coloured, with as few columns as possible.** -/
theorem laidOut {group : List Slot} (hp : ∀ s ∈ group, s.Proper)
    (hsorted : group.Pairwise fun a b => lo a ≤ lo b) : LaidOut group := by
  have hfilled : Filled (fill [] group).1 (fill [] group).2 := by
    have := @Filled.fill group _ _ Filled.nil (by simpa using hp) (by simpa using hsorted)
    simpa using this
  have hfst := fill_fst [] group
  have hproper : ∀ p ∈ (fill [] group).1, p.1.Proper := fun p hmem =>
    hp p.1 (hfst ▸ List.mem_map_of_mem hmem)
  refine ⟨?_, ?_, ?_, ?_⟩
  · unfold assignColumns
    rw [List.map_map]
    exact hfst
  · unfold assignColumns
    refine List.pairwise_map.mpr (hfilled.apart.imp_of_mem fun hp hq h heq => ?_)
    exact not_clashes (hproper _ hp) (hproper _ hq) (h heq)
  · intro s hs
    obtain ⟨hmem, hnum, -⟩ := mem_assignColumns hs
    obtain ⟨c, hc, -⟩ := hfilled.column _ hmem
    exact hnum ▸ (List.getElem?_eq_some_iff.mp hc).1
  · intro s hs
    obtain ⟨hmem, hnum, -⟩ := mem_assignColumns hs
    obtain ⟨c, hc, -⟩ := hfilled.column _ hmem
    have hle : ∀ t, inProgress group t ≤ s.numCols := by
      intro t
      by_cases ht : t = .nan
      · rw [ht, inProgress_nan]
        exact Nat.zero_le _
      · have hstacked : ∀ l ∈ (fill [] group).2.map Column.toList, Stacked lo hi l := by
          intro l hl
          obtain ⟨d, hd, rfl⟩ := List.mem_map.mp hl
          exact hfilled.stacked d hd
        have hload := load_flatten_le hstacked t.rank
        rw [load_perm hfilled.perm, hfst, List.length_map] at hload
        rw [inProgress_eq_load hp ht, hnum]
        exact hload
    refine ⟨?_, hle⟩
    obtain ⟨a, ha, hused⟩ := hfilled.used (List.ne_nil_of_mem (List.mem_of_getElem? hc))
    rw [hfst] at ha hused
    refine ⟨a.startMin, Nat.le_antisymm (hle _) ?_⟩
    rw [inProgress_eq_load hp (hp a ha).start_ne, hnum]
    exact hused

/-! ## 4. The sweep -/

/-- What the loop has done with the slots so far, when it hands on the groups as they are. -/
structure Swept (done : List Slot) (st : Sweep (List Slot)) : Prop where
  inOrder : st.positionedSlots.flatten ++ st.currentGroup = done
  nonempty : ∀ g ∈ st.positionedSlots, g ≠ []
  chained : ∀ g ∈ st.positionedSlots ++ [st.currentGroup], Chained lo hi g
  apart : (st.positionedSlots ++ [st.currentGroup]).Pairwise fun g g' =>
    ∀ a ∈ g, ∀ b ∈ g', hi a ≤ lo b
  number : st.groupEnd ≠ .nan
  last : ∀ s ∈ done, hi s ≤ st.groupEnd.rank
  reached : done ≠ [] → ∃ s ∈ st.currentGroup, hi s = st.groupEnd.rank
  fresh : done = [] → st.groupEnd = .fin (-1)

theorem Swept.nil : Swept [] ⟨[], [], .fin (-1)⟩ where
  inOrder := rfl
  nonempty := by simp
  chained := by
    intro g hg
    obtain rfl := List.mem_singleton.mp hg
    exact chained_nil
  apart := List.pairwise_singleton _ _
  number := by simp
  last := by simp
  reached h := absurd rfl h
  fresh _ := rfl

theorem mem_whole {group g : List Slot} : g ∈ whole group ↔ g = group ∧ group ≠ [] := by
  unfold whole
  cases group with
  | nil => simp
  | cons s group => simp

section

variable {done : List Slot} {st : Sweep (List Slot)} {slot : Slot}

theorem whole_sublist (group : List Slot) : (whole group).Sublist [group] := by
  unfold whole
  split
  · exact List.nil_sublist _
  · exact List.Sublist.refl _

theorem flatten_whole (group : List Slot) : (whole group).flatten = group := by
  cases group <;> simp [whole]

/-- The slot starts when everything before it has ended. -/
theorem Swept.close (h : Swept done st) (hslot : slot.Proper)
    (hended : st.groupEnd.rank ≤ lo slot) :
    Swept (done ++ [slot])
      ⟨st.positionedSlots ++ whole st.currentGroup, [slot], slot.endMin⟩ where
  inOrder := by
    rw [← h.inOrder]
    simp [flatten_whole]
  nonempty := by
    intro g hg
    rcases List.mem_append.mp hg with hg | hg
    · exact h.nonempty g hg
    · obtain ⟨rfl, hne⟩ := mem_whole.mp hg
      exact hne
  chained := by
    intro g hg
    rcases List.mem_append.mp hg with hg | hg
    · exact h.chained g ((List.Sublist.append_left (whole_sublist _) _).subset hg)
    · obtain rfl := List.mem_singleton.mp hg
      exact chained_singleton slot
  apart := by
    have hsub := List.Sublist.append_left (whole_sublist st.currentGroup) st.positionedSlots
    refine List.pairwise_append.mpr ⟨h.apart.sublist hsub, List.pairwise_singleton _ _, ?_⟩
    intro g hg g' hg' a ha b hb
    obtain rfl := List.mem_singleton.mp hg'
    obtain rfl := List.mem_singleton.mp hb
    have hmem : a ∈ done := by
      rw [← h.inOrder]
      rcases List.mem_append.mp (hsub.subset hg) with hg | hg
      · exact List.mem_append_left _ (List.mem_flatten_of_mem hg ha)
      · exact List.mem_append_right _ (List.mem_singleton.mp hg ▸ ha)
    exact (h.last a hmem).trans hended
  number := hslot.end_ne
  last := by
    intro s hs
    rcases List.mem_append.mp hs with hs | hs
    · exact ((h.last s hs).trans hended).trans hslot.lo_lt_hi.le
    · obtain rfl := List.mem_singleton.mp hs
      exact le_rfl
  reached _ := ⟨slot, List.mem_singleton_self slot, rfl⟩
  fresh hnil := absurd hnil (by simp)

/-- The slot starts before the group has ended. -/
theorem Swept.stay (h : Swept done st) (hslot : slot.Proper)
    (hbefore : ∀ s ∈ done, lo s ≤ lo slot) (hlt : lo slot < st.groupEnd.rank) :
    Swept (done ++ [slot])
      ⟨st.positionedSlots, st.currentGroup ++ [slot], st.groupEnd.max slot.endMin⟩ := by
  have hzero : (JsNumber.fin 0).rank ≤ lo slot :=
    (JsNumber.le_iff (by simp) hslot.start_ne).mp hslot.nonneg
  have hdone : done ≠ [] := by
    intro hnil
    have hneg : (JsNumber.fin (-1)).rank < (JsNumber.fin 0).rank :=
      (JsNumber.lt_iff (by simp) (by simp)).mp (by decide +kernel)
    rw [h.fresh hnil] at hlt
    exact absurd (hlt.trans hneg) (not_lt.mpr hzero)
  obtain ⟨s, hs, hreached⟩ := h.reached hdone
  have hmax := JsNumber.rank_max h.number hslot.end_ne
  refine ⟨?_, h.nonempty, ?_, ?_, JsNumber.max_ne_nan h.number hslot.end_ne, ?_, ?_, ?_⟩
  · rw [← h.inOrder, List.append_assoc]
  · intro g hg
    rcases List.mem_append.mp hg with hg | hg
    · exact h.chained g (List.mem_append_left _ hg)
    · obtain rfl := List.mem_singleton.mp hg
      exact (h.chained _ (by simp)).snoc hs (hreached ▸ hlt)
  · obtain ⟨hclosed, -, hcurrent⟩ := List.pairwise_append.mp h.apart
    refine List.pairwise_append.mpr ⟨hclosed, List.pairwise_singleton _ _, ?_⟩
    intro g hg g' hg' a ha b hb
    obtain rfl := List.mem_singleton.mp hg'
    rcases List.mem_append.mp hb with hb | hb
    · exact hcurrent g hg _ (List.mem_singleton_self _) a ha b hb
    · -- the open group has a slot, which starts no later
      obtain rfl := List.mem_singleton.mp hb
      have hmem : s ∈ done := h.inOrder ▸ List.mem_append_right _ hs
      exact (hcurrent g hg _ (List.mem_singleton_self _) a ha s hs).trans (hbefore s hmem)
  · intro a ha
    change hi a ≤ (st.groupEnd.max slot.endMin).rank
    rw [hmax]
    rcases List.mem_append.mp ha with ha | ha
    · exact (h.last a ha).trans (le_max_left _ _)
    · obtain rfl := List.mem_singleton.mp ha
      exact le_max_right _ _
  · intro _
    change ∃ a ∈ st.currentGroup ++ [slot], hi a = (st.groupEnd.max slot.endMin).rank
    rw [hmax]
    rcases le_total st.groupEnd.rank slot.endMin.rank with hle | hle
    · exact ⟨slot, by simp, (max_eq_right hle).symm⟩
    · exact ⟨s, by simp [hs], by rw [max_eq_left hle, hreached]⟩
  · exact fun hnil => absurd hnil (by simp)

theorem Swept.step (h : Swept done st) (hslot : slot.Proper)
    (hbefore : ∀ s ∈ done, lo s ≤ lo slot) : Swept (done ++ [slot]) (sweepStep whole st slot) := by
  unfold sweepStep
  by_cases hle : st.groupEnd.le slot.startMin = true
  · rw [if_pos hle]
    exact h.close hslot ((JsNumber.le_iff h.number hslot.start_ne).mp hle)
  · rw [if_neg hle]
    exact h.stay hslot hbefore
      (not_le.mp fun h' => hle ((JsNumber.le_iff h.number hslot.start_ne).mpr h'))

end

theorem Swept.foldl {sorted : List Slot} : ∀ {done : List Slot} {st : Sweep (List Slot)},
    Swept done st → (∀ s ∈ sorted, s.Proper) →
      (done ++ sorted).Pairwise (fun a b => lo a ≤ lo b) →
      Swept (done ++ sorted) (sorted.foldl (sweepStep whole) st) := by
  induction sorted with
  | nil =>
    intro done st h _ _
    simpa using h
  | cons slot sorted ih =>
    intro done st h hp hsorted
    have hbefore : ∀ s ∈ done, lo s ≤ lo slot := fun s hs =>
      (List.pairwise_append.mp hsorted).2.2 s hs slot List.mem_cons_self
    have := ih (h.step (hp slot List.mem_cons_self) hbefore)
      (fun s hs => hp s (List.mem_cons_of_mem slot hs)) (by simpa using hsorted)
    simpa using this

/-- The loop hands on its groups one by one, whatever is done with them. -/
theorem sweep_eq_flatMap {β : Type} (close : List Slot → List β) (hnil : close [] = [])
    (sorted : List Slot) : sweep close sorted = (sweep whole sorted).flatMap close := by
  have hwhole : ∀ group, (whole group).flatMap close = close group := by
    intro group
    cases group with
    | nil => exact hnil.symm
    | cons s group => simp [whole]
  have hfold : ∀ (sorted : List Slot) (st : Sweep β) (st' : Sweep (List Slot)),
      st = ⟨st'.positionedSlots.flatMap close, st'.currentGroup, st'.groupEnd⟩ →
      sorted.foldl (sweepStep close) st =
        ⟨(sorted.foldl (sweepStep whole) st').positionedSlots.flatMap close,
          (sorted.foldl (sweepStep whole) st').currentGroup,
          (sorted.foldl (sweepStep whole) st').groupEnd⟩ := by
    intro sorted
    induction sorted with
    | nil => exact fun st st' h => h
    | cons slot sorted ih =>
      rintro - st' rfl
      refine ih _ _ ?_
      unfold sweepStep
      split
      · simp [hwhole]
      · rfl
  unfold sweep
  rw [hfold sorted ⟨[], [], .fin (-1)⟩ ⟨[], [], .fin (-1)⟩ rfl, List.flatMap_append, hwhole]

/-! ## 5. A day -/

theorem sortByStart_perm (daySlots : List Slot) : (sortByStart daySlots).Perm daySlots :=
  List.perm_insertionSort _ daySlots

theorem sortByStart_sorted {daySlots : List Slot} (h : ∀ s ∈ daySlots, s.Proper) :
    (sortByStart daySlots).Pairwise fun a b => lo a ≤ lo b := by
  have hmap : (sortByStart daySlots).map lo = (daySlots.map lo).insertionSort (· ≤ ·) := by
    refine List.map_insertionSort _ _ lo daySlots fun a ha b hb => ?_
    rw [Bool.not_eq_true', Bool.eq_false_iff, ne_eq,
      JsNumber.lt_iff (h b hb).start_ne (h a ha).start_ne]
    exact not_lt
  have hsorted := List.pairwise_insertionSort (· ≤ ·) (daySlots.map lo)
  rw [← hmap, List.pairwise_map] at hsorted
  exact hsorted

/-- The groups of a day: the sorted slots cut into chains that do not touch. -/
structure Grouped (daySlots : List Slot) : Prop where
  inOrder : (groups daySlots).flatten = sortByStart daySlots
  nonempty : ∀ g ∈ groups daySlots, g ≠ []
  chained : ∀ g ∈ groups daySlots, Chained lo hi g
  apart : (groups daySlots).Pairwise fun g g' => ∀ a ∈ g, ∀ b ∈ g', hi a ≤ lo b

theorem grouped {daySlots : List Slot} (h : ∀ s ∈ daySlots, s.Proper) : Grouped daySlots := by
  have hp : ∀ s ∈ sortByStart daySlots, s.Proper := fun s hs =>
    h s ((sortByStart_perm daySlots).subset hs)
  have hswept := Swept.nil.foldl hp (sortByStart_sorted h)
  have hsub := List.Sublist.append_left
    (whole_sublist ((sortByStart daySlots).foldl (sweepStep whole) ⟨[], [], .fin (-1)⟩).currentGroup)
    ((sortByStart daySlots).foldl (sweepStep whole) ⟨[], [], .fin (-1)⟩).positionedSlots
  refine ⟨?_, ?_, ?_, ?_⟩ <;> unfold groups sweep
  · rw [List.flatten_append, flatten_whole]
    exact hswept.inOrder
  · intro g hg
    rcases List.mem_append.mp hg with hg | hg
    · exact hswept.nonempty g hg
    · obtain ⟨rfl, hne⟩ := mem_whole.mp hg
      exact hne
  · exact fun g hg => hswept.chained g (hsub.subset hg)
  · exact hswept.apart.sublist hsub

section

variable {daySlots : List Slot}

theorem Grouped.mem (h : Grouped daySlots) {g : List Slot} (hg : g ∈ groups daySlots) {s : Slot}
    (hs : s ∈ g) : s ∈ daySlots :=
  (sortByStart_perm daySlots).subset (h.inOrder ▸ List.mem_flatten_of_mem hg hs)

theorem Grouped.sorted (h : Grouped daySlots) (hp : ∀ s ∈ daySlots, s.Proper) {g : List Slot}
    (hg : g ∈ groups daySlots) : g.Pairwise fun a b => lo a ≤ lo b := by
  have hsorted := sortByStart_sorted hp
  rw [← h.inOrder, List.pairwise_flatten] at hsorted
  exact hsorted.1 g hg

theorem Grouped.laidOut (h : Grouped daySlots) (hp : ∀ s ∈ daySlots, s.Proper) {g : List Slot}
    (hg : g ∈ groups daySlots) : LaidOut g :=
  Grid.laidOut (fun _ hs => hp _ (h.mem hg hs)) (h.sorted hp hg)

/-- A slot of a concatenation stands in one of the parts. -/
theorem flatMap_eq_append_cons {α β : Type} {f : α → List β} {x : β} {l₂ : List β} {gs : List α} :
    ∀ {l₁ : List β}, gs.flatMap f = l₁ ++ x :: l₂ →
      ∃ gs₁ g gs₂ m₁ m₂, gs = gs₁ ++ g :: gs₂ ∧ f g = m₁ ++ x :: m₂ ∧
        l₁ = gs₁.flatMap f ++ m₁ ∧ l₂ = m₂ ++ gs₂.flatMap f := by
  induction gs with
  | nil => exact fun h => absurd h.symm (by simp)
  | cons g gs ih =>
    intro l₁ h
    rw [List.flatMap_cons] at h
    rcases List.append_eq_append_iff.mp h with ⟨c, rfl, hc⟩ | ⟨c, hg, hc⟩
    · obtain ⟨gs₁, g', gs₂, m₁, m₂, rfl, hg', rfl, rfl⟩ := ih hc
      exact ⟨g :: gs₁, g', gs₂, m₁, m₂, rfl, hg', by simp, rfl⟩
    · cases c with
      | nil =>
        obtain ⟨gs₁, g', gs₂, m₁, m₂, rfl, hg', hl, rfl⟩ := @ih [] hc.symm
        rw [List.append_nil] at hg
        exact ⟨g :: gs₁, g', gs₂, m₁, m₂, rfl, hg', by simp [hg, ← hl], rfl⟩
      | cons y c =>
        obtain ⟨rfl, rfl⟩ := List.cons.inj hc
        exact ⟨[], g, gs, l₁, c, rfl, hg, rfl, rfl⟩

theorem Grouped.mem_group (h : Grouped daySlots) (hp : ∀ s ∈ daySlots, s.Proper) {g : List Slot}
    (hg : g ∈ groups daySlots) {s : PositionedSlot} (hs : s ∈ assignColumns g) : s.toSlot ∈ g := by
  have hmem := List.mem_map_of_mem (f := PositionedSlot.toSlot) hs
  rwa [(h.laidOut hp hg).once] at hmem

/-- **A slot is marked exactly when it overlaps another slot of its group.** -/
theorem isConflict_group (h : Grouped daySlots) (hp : ∀ s ∈ daySlots, s.Proper) {g : List Slot}
    (hg : g ∈ groups daySlots) {m₁ m₂ : List PositionedSlot} {s : PositionedSlot}
    (hsplit : assignColumns g = m₁ ++ s :: m₂) :
    s.isConflict = true ↔ ∃ s' ∈ m₁ ++ m₂, s.toSlot.clashes s'.toSlot = true := by
  have hlaid := h.laidOut hp hg
  have hs : s ∈ assignColumns g := hsplit ▸ List.mem_append_right m₁ List.mem_cons_self
  have hgroup : g = m₁.map PositionedSlot.toSlot ++ s.toSlot :: m₂.map PositionedSlot.toSlot := by
    rw [← hlaid.once, hsplit, List.map_append, List.map_cons]
  have hproper : ∀ a ∈ g, a.Proper := fun a ha => hp a (h.mem hg ha)
  obtain ⟨-, hnum, hconflict⟩ := mem_assignColumns hs
  rw [hconflict, decide_eq_true_eq]
  constructor
  · intro htwo
    obtain ⟨t, ht⟩ := (hlaid.widest s hs).1
    have hlen : 1 < g.length := Nat.lt_of_lt_of_le (ht ▸ htwo) List.countP_le_length
    have hother : m₁.map PositionedSlot.toSlot ++ m₂.map PositionedSlot.toSlot ≠ [] := by
      intro hnil
      obtain ⟨h₁, h₂⟩ := List.append_eq_nil_iff.mp hnil
      rw [hgroup, h₁, h₂] at hlen
      exact absurd hlen (by simp)
    obtain ⟨b, hb, hoverlap⟩ := (h.chained g hg).overlaps (h.sorted hp hg)
      (fun a ha => (hproper a ha).lo_lt_hi) hgroup hother
    rw [← List.map_append] at hb
    obtain ⟨s', hs', rfl⟩ := List.mem_map.mp hb
    have hmem' : s' ∈ assignColumns g := by
      rw [hsplit]
      rcases List.mem_append.mp hs' with h' | h' <;> simp [h']
    have hsg := hproper _ (h.mem_group hp hg hs)
    have hsg' := hproper _ (h.mem_group hp hg hmem')
    exact ⟨s', hs', (clashes_iff hsg hsg').mpr hoverlap⟩
  · rintro ⟨s', hs', hclash⟩
    -- two slots that overlap are in two columns
    have hapart := hlaid.apart
    rw [hsplit] at hapart
    obtain ⟨-, hright, hleft⟩ := List.pairwise_append.mp hapart
    have hmem' : s' ∈ assignColumns g := by
      rw [hsplit]
      rcases List.mem_append.mp hs' with h' | h' <;> simp [h']
    have hne : s.colIndex ≠ s'.colIndex := by
      intro heq
      rcases List.mem_append.mp hs' with h' | h'
      · have := hleft s' h' s List.mem_cons_self heq.symm
        rw [Slot.clashes_comm, hclash] at this
        exact absurd this (by decide)
      · have := List.rel_of_pairwise_cons hright h' heq
        rw [hclash] at this
        exact absurd this (by decide)
    have hlt := hlaid.inside s hs
    have hlt' := hlaid.inside s' hmem'
    have hnum' := (mem_assignColumns hmem').2.1
    omega

/-- **The grid is a colouring.**  Every slot is placed once; no two slots of a group that share a
column overlap, and no two of different groups; the columns are as few as the slots in progress at
one instant require; and a slot is marked exactly when it overlaps another slot of the day. -/
theorem grid_layout (hp : ∀ s ∈ daySlots, s.Proper) :
    positionedSlots daySlots = (groups daySlots).flatMap assignColumns ∧
      ((positionedSlots daySlots).map PositionedSlot.toSlot).Perm daySlots ∧
      (∀ g ∈ groups daySlots, LaidOut g) ∧
      ((groups daySlots).Pairwise fun g g' => ∀ a ∈ g, ∀ b ∈ g', a.clashes b = false) ∧
      ∀ l₁ s l₂, positionedSlots daySlots = l₁ ++ s :: l₂ →
        (s.isConflict = true ↔ ∃ s' ∈ l₁ ++ l₂, s.toSlot.clashes s'.toSlot = true) := by
  have h := grouped hp
  have hflat : positionedSlots daySlots = (groups daySlots).flatMap assignColumns :=
    sweep_eq_flatMap assignColumns rfl _
  have hapart : (groups daySlots).Pairwise fun g g' => ∀ a ∈ g, ∀ b ∈ g', a.clashes b = false :=
    h.apart.imp_of_mem fun hg hg' hle a ha b hb =>
      not_clashes (hp a (h.mem hg ha)) (hp b (h.mem hg' hb)) (hle a ha b hb)
  refine ⟨hflat, ?_, fun g hg => h.laidOut hp hg, hapart, ?_⟩
  · have hmap : (positionedSlots daySlots).map PositionedSlot.toSlot = sortByStart daySlots := by
      rw [hflat, List.map_flatMap, ← h.inOrder, ← List.flatMap_id]
      refine List.flatMap_congr fun g hg => ?_
      exact (h.laidOut hp hg).once
    rw [hmap]
    exact sortByStart_perm daySlots
  · intro l₁ s l₂ hl
    rw [hflat] at hl
    obtain ⟨gs₁, g, gs₂, m₁, m₂, hgs, hg, rfl, rfl⟩ := flatMap_eq_append_cons hl
    have hmem : g ∈ groups daySlots := by rw [hgs]; simp
    rw [isConflict_group h hp hmem hg]
    constructor
    · rintro ⟨s', hs', hclash⟩
      refine ⟨s', ?_, hclash⟩
      rcases List.mem_append.mp hs' with h' | h' <;> simp [h']
    · rintro ⟨s', hs', hclash⟩
      have hs : s ∈ assignColumns g := hg ▸ List.mem_append_right m₁ List.mem_cons_self
      have hsg : s.toSlot ∈ g := h.mem_group hp hmem hs
      rw [hgs] at hapart
      obtain ⟨-, hright, hleft⟩ := List.pairwise_append.mp hapart
      -- a slot of another group does not clash
      have hin {gs : List (List Slot)} (hsub : ∀ g' ∈ gs, g' ∈ groups daySlots)
          (hs' : s' ∈ gs.flatMap assignColumns) : ∃ g' ∈ gs, s'.toSlot ∈ g' := by
        obtain ⟨g', hg', hs'⟩ := List.mem_flatMap.mp hs'
        exact ⟨g', hg', h.mem_group hp (hsub g' hg') hs'⟩
      have hno : s' ∉ gs₁.flatMap assignColumns ∧ s' ∉ gs₂.flatMap assignColumns := by
        constructor
        · intro hs'
          obtain ⟨g', hg', hs'g⟩ := hin (fun g' hg' => by rw [hgs]; simp [hg']) hs'
          have := hleft g' hg' g List.mem_cons_self _ hs'g _ hsg
          rw [Slot.clashes_comm, hclash] at this
          exact absurd this (by decide)
        · intro hs'
          obtain ⟨g', hg', hs'g⟩ := hin (fun g' hg' => by rw [hgs]; simp [hg']) hs'
          have := List.rel_of_pairwise_cons hright hg' _ hsg _ hs'g
          rw [hclash] at this
          exact absurd this (by decide)
      refine ⟨s', ?_, hclash⟩
      simp only [List.mem_append, hno.1, hno.2, false_or, or_false] at hs' ⊢
      exact hs'

end

namespace Campus

/-- A Monday with two classes that overlap and one later. -/
def monday : List Slot :=
  (parseMeetingPattern "M 11:00-11:50" "CS101" "" "" ++
    parseMeetingPattern "M 9:00-9:50" "CS102" "" "" ++
    parseMeetingPattern "M 9:30-10:45" "CS103" "" "").map fun p => ⟨p, ""⟩

theorem monday_proper : ∀ s ∈ monday, s.Proper := by
  have h : ∀ s ∈ monday, (JsNumber.fin 0).le s.startMin = true ∧ s.startMin.lt s.endMin = true := by
    decide +kernel
  exact fun s hs => ⟨(h s hs).1, (h s hs).2⟩

theorem grid_layout_monday :
    ((positionedSlots monday).map fun s => (s.courseCode, s.colIndex, s.isConflict))
        = [("CS102", 0, true), ("CS103", 1, true), ("CS101", 0, false)] ∧
      ∀ g ∈ groups monday, LaidOut g :=
  ⟨by decide +kernel, (grid_layout monday_proper).2.2.1⟩

end Campus

end Grid

end Enroll
