/-
# Lists that are served from the front

The abstract queue: a list without repetitions, and the five things that are done to it.  As long
as it is never replaced, what is left of an old list stays in its order and newcomers stand behind
it (`Follows`), so nobody is served before somebody who stood in front of him
(`Follows.served_first`).
-/
import Mathlib.Data.List.Basic
import Mathlib.Data.List.Nodup

namespace Fifo

variable {α : Type} [DecidableEq α]

/-- One operation on a queue. -/
inductive Action (α : Type) where
  | keep
  | append (x : α)
  | delete (x : α)
  /-- the first `n` are served -/
  | serve (n : Nat)
  | clear
  | replace (l : List α)
  deriving DecidableEq, Repr

namespace Action

def apply : Action α → List α → List α
  | keep, l => l
  | append x, l => l ++ [x]
  | delete x, l => l.erase x
  | serve n, l => l.drop n
  | clear, _ => []
  | replace l', _ => l'

end Action

/-- `l` is what is left of `l₀`, in order, and behind it those who are not `old`. -/
def Follows (old : α → Prop) (l₀ l : List α) : Prop :=
  ∃ kept new, l = kept ++ new ∧ kept.Sublist l₀ ∧ ∀ x ∈ new, ¬ old x

namespace Follows

variable {old : α → Prop} {l₀ l : List α}

omit [DecidableEq α] in
theorem refl (l₀ : List α) : Follows old l₀ l₀ :=
  ⟨l₀, [], (List.append_nil l₀).symm, List.Sublist.refl l₀, fun _ h => absurd h List.not_mem_nil⟩

omit [DecidableEq α] in
/-- Whoever leaves, the others stay as they stood. -/
theorem sublist {l' : List α} (h : Follows old l₀ l) (hs : l'.Sublist l) : Follows old l₀ l' := by
  obtain ⟨kept, new, rfl, hkept, hnew⟩ := h
  obtain ⟨kept', new', rfl, hk, hn⟩ := List.sublist_append_iff.mp hs
  exact ⟨kept', new', rfl, hk.trans hkept, fun x hx => hnew x (hn.subset hx)⟩

omit [DecidableEq α] in
theorem append {x : α} (h : Follows old l₀ l) (hx : ¬ old x) : Follows old l₀ (l ++ [x]) := by
  obtain ⟨kept, new, rfl, hkept, hnew⟩ := h
  refine ⟨kept, new ++ [x], List.append_assoc _ _ _, hkept, fun y hy => ?_⟩
  rcases List.mem_append.mp hy with hy | hy
  · exact hnew y hy
  · rw [List.mem_singleton.mp hy]
    exact hx

/-- **Every operation but a replacement keeps the order of those who were there.** -/
theorem action {a : Action α} (h : Follows old l₀ l) (hr : ∀ l', a ≠ .replace l')
    (ha : ∀ x, a = .append x → ¬ old x) : Follows old l₀ (a.apply l) := by
  cases a with
  | keep => exact h
  | append x => exact h.append (ha x rfl)
  | delete x => exact h.sublist List.erase_sublist
  | serve n => exact h.sublist (List.drop_sublist n l)
  | clear => exact h.sublist (List.nil_sublist l)
  | replace l' => exact absurd rfl (hr l')

end Follows

omit [DecidableEq α] in
/-- Without repetitions two elements are in one order only. -/
theorem pair_sublist {x y : α} {l l₀ : List α} (h : l.Sublist l₀) (hnd : l₀.Nodup)
    (hxy : [x, y].Sublist l₀) (hx : x ∈ l) (hy : y ∈ l) : [x, y].Sublist l := by
  induction h with
  | slnil => exact absurd hx List.not_mem_nil
  | cons a h ih =>
    obtain ⟨ha, hnd'⟩ := List.nodup_cons.mp hnd
    cases hxy with
    | cons _ hxy' => exact ih hnd' hxy' hx hy
    | cons_cons _ hy' => exact absurd (h.subset hx) ha
  | cons_cons a h ih =>
    obtain ⟨ha, hnd'⟩ := List.nodup_cons.mp hnd
    cases hxy with
    | cons _ hxy' =>
      -- neither of the two is the head
      have hne : ∀ z ∈ [x, y], z ≠ a := fun z hz he => ha (he ▸ hxy'.subset hz)
      have hx' := (List.mem_cons.mp hx).resolve_left (hne x (by simp))
      have hy' := (List.mem_cons.mp hy).resolve_left (hne y (by simp))
      exact (ih hnd' hxy' hx' hy').cons a
    | cons_cons _ hy' =>
      have hne : y ≠ x := fun he => ha (he ▸ List.singleton_sublist.mp hy')
      have hyl := (List.mem_cons.mp hy).resolve_left hne
      exact (List.singleton_sublist.mpr hyl).cons_cons x

omit [DecidableEq α] in
/-- Whoever stands behind one that is still there is still there. -/
theorem mem_drop_of_pair {x y : α} {l : List α} (hnd : l.Nodup) (hxy : [x, y].Sublist l) {n : Nat}
    (hx : x ∈ l.drop n) : y ∈ l.drop n := by
  rw [← List.take_append_drop n l] at hnd hxy
  obtain ⟨a, b, hab, ha, hb⟩ := List.sublist_append_iff.mp hxy
  cases a with
  | nil =>
    have hb' : b = [x, y] := hab.symm
    exact hb.subset (by simp [hb'])
  | cons z a =>
    have hz : x = z := (List.cons.inj hab).1
    exact absurd hx (List.disjoint_of_nodup_append hnd (ha.subset (hz ▸ List.mem_cons_self)))

omit [DecidableEq α] in
/-- **First come, first served.**  When `y` is served, everybody who stood in front of him is
served with him or has left before. -/
theorem Follows.served_first {old : α → Prop} {l₀ l : List α} (h : Follows old l₀ l)
    (hold : ∀ z ∈ l₀, old z) (hnd₀ : l₀.Nodup) (hnd : l.Nodup) {x y : α}
    (hxy : [x, y].Sublist l₀) {n : Nat} (hy : y ∈ l) (hserved : y ∉ l.drop n) :
    x ∉ l.drop n := by
  intro hx
  obtain ⟨kept, new, rfl, hkept, hnew⟩ := h
  have hmem : ∀ z ∈ [x, y], z ∈ kept ++ new → z ∈ kept := fun z hz hz' =>
    (List.mem_append.mp hz').resolve_right fun hn => hnew z hn (hold z (hxy.subset hz))
  have hpair : [x, y].Sublist kept := pair_sublist hkept hnd₀ hxy
    (hmem x (by simp) (List.mem_of_mem_drop hx)) (hmem y (by simp) hy)
  exact hserved (mem_drop_of_pair hnd (hpair.trans (List.sublist_append_left kept new)) hx)

end Fifo
