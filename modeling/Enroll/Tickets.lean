/-
# Numbers from a sequence

Parties draw numbers from a sequence and hold on to them.  The sequence never gives a number out
twice, so however the numbers are handed on or thrown away, no two parties hold the same one and no
party holds one twice (`Distinct`).
-/
import Mathlib.Data.List.Nodup
import Mathlib.Logic.Function.Basic

namespace Tickets

variable {ι : Type} [DecidableEq ι] {held : ι → List Nat} {seq : Nat}

/-- Nobody holds a number that somebody else holds, or one twice; all were drawn up to `seq`. -/
structure Distinct (held : ι → List Nat) (seq : Nat) : Prop where
  nodup : ∀ i, (held i).Nodup
  drawn : ∀ i, ∀ n ∈ held i, n ≤ seq
  disjoint : ∀ i j, i ≠ j → ∀ n ∈ held i, n ∉ held j

namespace Distinct

omit [DecidableEq ι] in
/-- Holding less. -/
theorem sub {held' : ι → List Nat} {seq' : Nat} (h : Distinct held seq) (hle : seq ≤ seq')
    (hsub : ∀ i, (held' i).Sublist (held i)) : Distinct held' seq' where
  nodup i := (h.nodup i).sublist (hsub i)
  drawn i n hn := Nat.le_trans (h.drawn i n ((hsub i).subset hn)) hle
  disjoint i j hij n hn hn' :=
    h.disjoint i j hij n ((hsub i).subset hn) ((hsub j).subset hn')

/-- The next number. -/
theorem draw (h : Distinct held seq) (i : ι) :
    Distinct (Function.update held i (held i ++ [seq + 1])) (seq + 1) := by
  have hmem (j : ι) (n : Nat) (hn : n ∈ Function.update held i (held i ++ [seq + 1]) j) :
      n ∈ held j ∨ j = i ∧ n = seq + 1 := by
    by_cases hj : j = i
    · subst hj
      rw [Function.update_self] at hn
      exact (List.mem_append.mp hn).imp_right fun hn => ⟨rfl, List.mem_singleton.mp hn⟩
    · rw [Function.update_of_ne hj] at hn
      exact Or.inl hn
  have hnew (j : ι) : seq + 1 ∉ held j := fun hn => Nat.not_succ_le_self seq (h.drawn j _ hn)
  constructor
  · intro j
    by_cases hj : j = i
    · subst hj
      rw [Function.update_self]
      exact List.concat_eq_append ▸ (h.nodup j).concat (hnew j)
    · rw [Function.update_of_ne hj]
      exact h.nodup j
  · intro j n hn
    rcases hmem j n hn with hn | ⟨-, rfl⟩
    · exact Nat.le_succ_of_le (h.drawn j n hn)
    · exact Nat.le_refl _
  · intro j k hjk n hn hn'
    rcases hmem j n hn with hn | ⟨hj, rfl⟩
    · rcases hmem k n hn' with hn' | ⟨-, rfl⟩
      · exact h.disjoint j k hjk n hn hn'
      · exact hnew j hn
    · rcases hmem k _ hn' with hn' | ⟨hk, -⟩
      · exact hnew k hn'
      · exact hjk (hj.trans hk.symm)

/-- `i` hands all it has to `k`. -/
theorem hand (h : Distinct held seq) {i k : ι} (hik : i ≠ k) :
    Distinct (Function.update (Function.update held k (held k ++ held i)) i []) seq := by
  have hmem (j : ι) (n : Nat)
      (hn : n ∈ Function.update (Function.update held k (held k ++ held i)) i [] j) :
      j ≠ i ∧ (n ∈ held j ∨ j = k ∧ n ∈ held i) := by
    by_cases hj : j = i
    · subst hj
      rw [Function.update_self] at hn
      exact absurd hn List.not_mem_nil
    · rw [Function.update_of_ne hj] at hn
      refine ⟨hj, ?_⟩
      by_cases hk : j = k
      · subst hk
        rw [Function.update_self] at hn
        exact (List.mem_append.mp hn).imp_right fun hn => ⟨rfl, hn⟩
      · rw [Function.update_of_ne hk] at hn
        exact Or.inl hn
  constructor
  · intro j
    by_cases hj : j = i
    · subst hj
      rw [Function.update_self]
      exact List.nodup_nil
    rw [Function.update_of_ne hj]
    by_cases hk : j = k
    · subst hk
      rw [Function.update_self]
      exact (h.nodup j).append (h.nodup i) fun n hn hn' => h.disjoint i j hik n hn' hn
    · rw [Function.update_of_ne hk]
      exact h.nodup j
  · intro j n hn
    rcases (hmem j n hn).2 with hn | ⟨-, hn⟩
    · exact h.drawn j n hn
    · exact h.drawn i n hn
  · intro j j' hjj' n hn hn'
    obtain ⟨hj, hm | ⟨rfl, hm⟩⟩ := hmem j n hn
    · obtain ⟨hj', hm' | ⟨rfl, hm'⟩⟩ := hmem j' n hn'
      · exact h.disjoint j j' hjj' n hm hm'
      · exact h.disjoint j i hj n hm hm'
    · obtain ⟨hj', hm' | ⟨rfl, hm'⟩⟩ := hmem j' n hn'
      · exact h.disjoint i j' (Ne.symm hj') n hm hm'
      · exact hjj' rfl

end Distinct

end Tickets
