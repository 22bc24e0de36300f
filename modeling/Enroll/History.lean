/-
# Replaying histories

A history is a list of events, in the order in which they happened.  An event acts on a store key by
key, so what a replay makes of one key depends on the events alone that are not idle on it
(`replay_filter`).

Events carry ids, and a history can be replayed by id instead.  Ids need not follow the order in
which things happened; it is enough that for each kind of event that a key depends on they do
(`InOrder`).  The replay by id then ends in the same store (`replay_byId`), and it gets to every
event of that kind with the key as it was (`replay_before`).
-/
import Enroll.Keyed

namespace History

variable {E K V : Type} (act : E → K → V → V) {es : List E} {σ σ' : K → V} {k : K}

/-! ## 1. Replay -/

/-- The store after the events. -/
def replay (es : List E) (σ : K → V) : K → V := es.foldl (fun σ e k => act e k (σ k)) σ

variable {act}

@[simp] theorem replay_nil : replay act [] σ = σ := rfl

theorem replay_cons (e : E) : replay act (e :: es) σ = replay act es (fun k => act e k (σ k)) := rfl

/-- A key does not depend on the others. -/
theorem replay_congr (h : σ k = σ' k) : replay act es σ k = replay act es σ' k := by
  induction es generalizing σ σ' with
  | nil => exact h
  | cons e es ih => exact ih (congrArg (act e k) h)

/-- An event that is idle on the key. -/
theorem replay_cons_idle {e : E} (h : act e k (σ k) = σ k) :
    replay act (e :: es) σ k = replay act es σ k := by
  rw [replay_cons]
  exact replay_congr h

theorem replay_idle (h : ∀ e ∈ es, ∀ v, act e k v = v) : replay act es σ k = σ k := by
  induction es with
  | nil => rfl
  | cons e es ih =>
    rw [replay_cons_idle (h e List.mem_cons_self _)]
    exact ih fun e' he' => h e' (List.mem_cons_of_mem e he')

/-- **A key depends on the events alone that act on it.** -/
theorem replay_filter {p : E → Bool} (h : ∀ e ∈ es, p e = false → ∀ v, act e k v = v) :
    replay act (es.filter p) σ k = replay act es σ k := by
  induction es generalizing σ with
  | nil => rfl
  | cons e es ih =>
    have htail := fun e' he' => h e' (List.mem_cons_of_mem e he')
    rw [List.filter_cons]
    cases hp : p e with
    | true => exact ih htail
    | false =>
      rw [replay_cons_idle (h e List.mem_cons_self hp _)]
      exact ih htail

/-! ## 2. Replay by id -/

section ById

variable (id : E → Nat) {p : E → Bool}

/-- The events by ascending id. -/
def byId (es : List E) : List E := es.insertionSort (fun a b => id a ≤ id b)

/-- The events of `p` happened in the order of their ids. -/
def InOrder (p : E → Bool) (es : List E) : Prop :=
  (es.filter p).Pairwise (fun a b => id a < id b)

variable {id}

theorem mem_byId {e : E} : e ∈ byId id es ↔ e ∈ es := (List.perm_insertionSort _ es).mem_iff

theorem filter_byId (h : InOrder id p es) : (byId id es).filter p = es.filter p := by
  have hsort : (byId id es).filter p = byId id (es.filter p) :=
    Keyed.filter_insertionSort (fun a b => Nat.le_total (id a) (id b))
      (fun _ _ _ => Nat.le_trans) p es
  rw [hsort]
  exact List.Pairwise.insertionSort_eq (h.imp Nat.le_of_lt)

theorem replay_byId (h : InOrder id p es) (hidle : ∀ e ∈ es, p e = false → ∀ v, act e k v = v) :
    replay act (byId id es) σ k = replay act es σ k := by
  calc replay act (byId id es) σ k
      = replay act ((byId id es).filter p) σ k :=
        (replay_filter fun e he => hidle e (mem_byId.mp he)).symm
    _ = replay act (es.filter p) σ k := by rw [filter_byId h]
    _ = replay act es σ k := replay_filter hidle

variable (id) in
/-- In ascending lists an event comes after the same events. -/
theorem before_unique {l l' r r' : List E} {e : E}
    (h : (l ++ e :: r).Pairwise (fun a b => id a < id b)) (he : l ++ e :: r = l' ++ e :: r') :
    l = l' := by
  induction l generalizing l' with
  | nil =>
    cases l' with
    | nil => rfl
    | cons a l' =>
      obtain ⟨rfl, hr⟩ := List.cons.inj he
      have hlt := (List.pairwise_cons.mp h).1 e (hr ▸ List.mem_append_right l' List.mem_cons_self)
      exact absurd hlt (Nat.lt_irrefl _)
  | cons a l ih =>
    obtain ⟨ha, hl⟩ := List.pairwise_cons.mp h
    cases l' with
    | nil =>
      obtain ⟨rfl, -⟩ := List.cons.inj he
      exact absurd (ha a (List.mem_append_right l List.mem_cons_self)) (Nat.lt_irrefl _)
    | cons a' l' =>
      obtain ⟨rfl, htail⟩ := List.cons.inj he
      rw [ih hl htail]

/-- **The replay by id gets to an event with the key as it was.** -/
theorem replay_before {l r l' r' : List E} {e : E} (h : InOrder id p es) (he : p e = true)
    (hid : byId id es = l ++ e :: r) (hes : es = l' ++ e :: r')
    (hidle : ∀ e ∈ es, p e = false → ∀ v, act e k v = v) :
    replay act l σ k = replay act l' σ k := by
  have hsplit : es.filter p = l'.filter p ++ e :: r'.filter p := by
    rw [hes, List.filter_append, List.filter_cons, if_pos he]
  have hsplit' : es.filter p = l.filter p ++ e :: r.filter p := by
    rw [← filter_byId h, hid, List.filter_append, List.filter_cons, if_pos he]
  have hsame : l.filter p = l'.filter p := by
    refine before_unique id ?_ (hsplit'.symm.trans hsplit)
    rw [← hsplit']
    exact h
  have hl : ∀ a ∈ l, a ∈ es := fun a ha =>
    mem_byId.mp (hid ▸ List.mem_append_left _ ha)
  have hl' : ∀ a ∈ l', a ∈ es := fun a ha => hes ▸ List.mem_append_left _ ha
  calc replay act l σ k
      = replay act (l.filter p) σ k := (replay_filter fun a ha => hidle a (hl a ha)).symm
    _ = replay act (l'.filter p) σ k := by rw [hsame]
    _ = replay act l' σ k := replay_filter fun a ha => hidle a (hl' a ha)

end ById

end History
