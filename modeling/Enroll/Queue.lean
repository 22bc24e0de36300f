/-
# Waitlists in order

A waitlist is the WAITLISTED rows of a section in ascending order of their positions.  The
positions are sparse, and the order is all that they are for: this module has what the
operations' writes do to it.  Rows that leave are taken out of the order (`byPosition_left`), a
row with a position above all others is the last (`byPosition_append`), and renumbering a
permutation of the rows puts them in that order (`byPosition_renumbered`).
-/
import Enroll.Frame
import Enroll.WaitlistService
import Mathlib.Data.List.Sort

namespace Enroll

/-! ## 1. The order -/

theorem positionLe_total (a b : Option Int) : positionLe a b ∨ positionLe b a := by
  cases a <;> cases b <;> simp [positionLe]
  exact Int.le_total _ _

theorem positionLe_trans {a b c : Option Int} (h : positionLe a b) (h' : positionLe b c) :
    positionLe a c := by
  cases a <;> cases b <;> cases c <;> simp_all [positionLe]
  exact Int.le_trans h h'

/-- The ids of the WAITLISTED rows of section `s`, in order. -/
def Db.wl (db : Db) (s : SectionId) : List EnrollmentId :=
  (byPosition (db.waiting s)).map Enrollment.id

theorem byPosition_perm (rows : List Enrollment) : (byPosition rows).Perm rows :=
  List.perm_insertionSort _ rows

theorem mem_byPosition {rows : List Enrollment} {r : Enrollment} :
    r ∈ byPosition rows ↔ r ∈ rows := (byPosition_perm rows).mem_iff

theorem length_byPosition (rows : List Enrollment) : (byPosition rows).length = rows.length :=
  (byPosition_perm rows).length_eq

theorem byPosition_filter (p : Enrollment → Bool) (rows : List Enrollment) :
    byPosition (rows.filter p) = (byPosition rows).filter p :=
  (Keyed.filter_insertionSort
    (r := fun a b : Enrollment => positionLe a.waitlistPosition b.waitlistPosition)
    (fun _ _ => positionLe_total _ _) (fun _ _ _ => positionLe_trans) p rows).symm

theorem Db.Valid.nodup_waiting {db : Db} (h : db.Valid) (s : SectionId) :
    ((db.waiting s).map Enrollment.id).Nodup := by
  unfold Db.waiting Db.rowsOf
  exact Keyed.nodup_filter _ (Keyed.nodup_filter _ h.enrollment_id)

theorem Db.Valid.nodup_byPosition {db : Db} (h : db.Valid) (s : SectionId) :
    ((byPosition (db.waiting s)).map Enrollment.id).Nodup :=
  ((byPosition_perm _).map _).nodup_iff.mpr (h.nodup_waiting s)

theorem Db.Valid.nodup_wl {db : Db} (h : db.Valid) (s : SectionId) : (db.wl s).Nodup :=
  h.nodup_byPosition s

theorem mem_wl {db : Db} {s : SectionId} {id : EnrollmentId} :
    id ∈ db.wl s ↔ ∃ r ∈ db.waiting s, r.id = id := by
  simp only [Db.wl, List.mem_map, mem_byPosition]

/-! ## 2. Several updates by id -/

/-- `UPDATE .. WHERE id = ..`, one row after the other. -/
def patchAll (ps : List (EnrollmentId × EnrollmentData)) (rows : List Enrollment) :
    List Enrollment := ps.foldl (fun rows p => patchEnrollments p.1 p.2 rows) rows

@[simp] theorem patchAll_nil (rows : List Enrollment) : patchAll [] rows = rows := rfl

theorem patchAll_cons (p : EnrollmentId × EnrollmentData)
    (ps : List (EnrollmentId × EnrollmentData)) (rows : List Enrollment) :
    patchAll (p :: ps) rows = patchAll ps (patchEnrollments p.1 p.2 rows) := rfl

/-- The columns take a row off the waitlist. -/
def EnrollmentData.leaves (d : EnrollmentData) : Prop := ∀ r, (d.patch r).waitlisted = false

/-- **Rows that leave are the rows that are missing afterwards.** -/
theorem waitlisted_patchAll {ps : List (EnrollmentId × EnrollmentData)}
    (h : ∀ p ∈ ps, p.2.leaves) (rows : List Enrollment) :
    (patchAll ps rows).filter Enrollment.waitlisted
      = (rows.filter Enrollment.waitlisted).filter
          (fun r => decide (r.id ∉ ps.map Prod.fst)) := by
  induction ps generalizing rows with
  | nil => simp
  | cons p ps ih =>
    rw [patchAll_cons, ih fun q hq => h q (List.mem_cons_of_mem p hq), patchEnrollments,
      Keyed.filter_update_of_false fun r _ _ => h p List.mem_cons_self r, List.filter_filter,
      List.filter_filter]
    refine List.filter_congr fun r _ => ?_
    simp only [List.map_cons, List.mem_cons, not_or, ne_eq, Bool.decide_and]
    cases r.waitlisted <;> simp [Bool.and_comm]

/-- Taking rows off keeps the order of the rest. -/
theorem byPosition_left {ps : List (EnrollmentId × EnrollmentData)} (h : ∀ p ∈ ps, p.2.leaves)
    (rows : List Enrollment) :
    byPosition ((patchAll ps rows).filter Enrollment.waitlisted)
      = (byPosition (rows.filter Enrollment.waitlisted)).filter
          (fun r => decide (r.id ∉ ps.map Prod.fst)) := by
  rw [waitlisted_patchAll h, byPosition_filter]

/-- Taking the first rows off leaves the others, in order. -/
theorem byPosition_headsLeft {ps : List (EnrollmentId × EnrollmentData)}
    (h : ∀ p ∈ ps, p.2.leaves) {rows : List Enrollment}
    (hnd : (rows.map Enrollment.id).Nodup) {n : Nat}
    (hps : ps.map Prod.fst
      = ((byPosition (rows.filter Enrollment.waitlisted)).take n).map Enrollment.id) :
    byPosition ((patchAll ps rows).filter Enrollment.waitlisted)
      = (byPosition (rows.filter Enrollment.waitlisted)).drop n := by
  rw [byPosition_left h, hps]
  refine Keyed.filter_notMem_take ?_ n
  exact ((byPosition_perm _).map _).nodup_iff.mpr (Keyed.nodup_filter _ hnd)

/-! ## 3. A row at the end -/

/-- The next sparse position of a waitlist. -/
def nextPosition (rows : List Enrollment) : Int := (maxPosition rows).getD 0 + 1

/-- The next position is above every position in use. -/
theorem lt_nextPosition {rows : List Enrollment} {r : Enrollment} (hr : r ∈ rows) {p : Int}
    (hp : r.waitlistPosition = some p) : p < nextPosition rows := by
  have hmem : p ∈ rows.filterMap Enrollment.waitlistPosition :=
    List.mem_filterMap.mpr ⟨r, hr, hp⟩
  unfold nextPosition maxPosition
  cases hmax : (rows.filterMap Enrollment.waitlistPosition).max? with
  | none =>
    rw [List.max?_eq_none_iff.mp hmax] at hmem
    exact absurd hmem (List.not_mem_nil)
  | some m =>
    have := (List.max?_eq_some_iff.mp hmax).2 p hmem
    simp only [Option.getD_some]
    omega

/-- **A row behind all others is the last.** -/
theorem byPosition_append {rows : List Enrollment} {a : Enrollment}
    (h : ∀ r ∈ rows, positionLe a.waitlistPosition r.waitlistPosition = false) :
    byPosition (rows ++ [a]) = byPosition rows ++ [a] := by
  induction rows with
  | nil => rfl
  | cons b t ih =>
    have ht := ih fun r hr => h r (List.mem_cons_of_mem b hr)
    unfold byPosition at ht ⊢
    rw [List.cons_append, List.insertionSort_cons, ht, List.insertionSort_cons]
    have hb := h b List.mem_cons_self
    generalize t.insertionSort
      (fun a b => positionLe a.waitlistPosition b.waitlistPosition) = l
    have hba : positionLe b.waitlistPosition a.waitlistPosition :=
      (positionLe_total _ _).resolve_right (by rw [hb]; simp)
    induction l with
    | nil => simp [hba]
    | cons x l ihl =>
      rw [List.cons_append, List.orderedInsert_cons, List.orderedInsert_cons, ihl]
      split <;> rfl

/-! ## 4. Renumbering -/

/-- What several updates by id make of one row. -/
def patchRow (ps : List (EnrollmentId × EnrollmentData)) (r : Enrollment) : Enrollment :=
  ps.foldl (fun r p => if r.id = p.1 then p.2.patch r else r) r

theorem patchAll_eq_map (ps : List (EnrollmentId × EnrollmentData)) (rows : List Enrollment) :
    patchAll ps rows = rows.map (patchRow ps) := by
  induction ps generalizing rows with
  | nil => exact (List.map_id rows).symm
  | cons p ps ih =>
    rw [patchAll_cons, ih, patchEnrollments, Keyed.update, List.map_map]
    rfl

theorem patchRow_cons (p : EnrollmentId × EnrollmentData)
    (ps : List (EnrollmentId × EnrollmentData)) (r : Enrollment) :
    patchRow (p :: ps) r = patchRow ps (if r.id = p.1 then p.2.patch r else r) := rfl

/-- A column that no update writes. -/
theorem patchRow_kept {β : Type} {f : Enrollment → β}
    (hf : ∀ (d : EnrollmentData) r, f (d.patch r) = f r)
    (ps : List (EnrollmentId × EnrollmentData)) (r : Enrollment) : f (patchRow ps r) = f r := by
  induction ps generalizing r with
  | nil => rfl
  | cons p ps ih =>
    rw [patchRow_cons, ih]
    split
    · exact hf p.2 r
    · rfl

@[simp] theorem patchRow_id (ps : List (EnrollmentId × EnrollmentData)) (r : Enrollment) :
    (patchRow ps r).id = r.id := patchRow_kept (fun _ _ => rfl) ps r

/-- The positions a reorder writes, starting with the index `k`. -/
def placements (ids : List EnrollmentId) (k : Nat) : List (EnrollmentId × EnrollmentData) :=
  (ids.zipIdx k).map (fun p => (p.1, placeAt p.2))

theorem placements_cons (id : EnrollmentId) (ids : List EnrollmentId) (k : Nat) :
    placements (id :: ids) k = (id, placeAt k) :: placements ids (k + 1) := rfl

/-- A row that is listed gets its index, counted from one; the others stay. -/
theorem patchRow_placements {ids : List EnrollmentId} (hnd : ids.Nodup) (k : Nat)
    (r : Enrollment) :
    patchRow (placements ids k) r
      = if r.id ∈ ids then { r with waitlistPosition := some (k + ids.idxOf r.id + 1 : Nat) }
        else r := by
  induction ids generalizing k r with
  | nil => rfl
  | cons id ids ih =>
    obtain ⟨hid, hnd'⟩ := List.nodup_cons.mp hnd
    rw [placements_cons, patchRow_cons, ih hnd']
    by_cases he : r.id = id
    · subst he
      rw [if_pos rfl, if_neg (show ¬ ((placeAt k).patch r).id ∈ ids from hid),
        if_pos List.mem_cons_self, List.idxOf_cons_self]
      rfl
    · rw [if_neg he]
      have hidx : (id :: ids).idxOf r.id = ids.idxOf r.id + 1 :=
        List.idxOf_cons_ne ids (Ne.symm he)
      by_cases hmem : r.id ∈ ids
      · rw [if_pos hmem, if_pos (List.mem_cons_of_mem id hmem), hidx]
        congr 3
        omega
      · rw [if_neg hmem, if_neg (by simp [he, hmem])]

theorem waitlisted_patchRow_placements {ids : List EnrollmentId} (hnd : ids.Nodup) (k : Nat)
    (r : Enrollment) : (patchRow (placements ids k) r).waitlisted = r.waitlisted := by
  rw [patchRow_placements hnd]
  split <;> rfl

/-- **Renumbering a permutation of the waitlist puts it in that order.** -/
theorem byPosition_renumbered {ids : List EnrollmentId} (hnd : ids.Nodup)
    {rows : List Enrollment}
    (hperm : ids.Perm ((rows.filter Enrollment.waitlisted).map Enrollment.id)) :
    (byPosition ((patchAll (placements ids 0) rows).filter Enrollment.waitlisted)).map
      Enrollment.id = ids := by
  have hrows : (patchAll (placements ids 0) rows).filter Enrollment.waitlisted
      = (rows.filter Enrollment.waitlisted).map (patchRow (placements ids 0)) := by
    rw [patchAll_eq_map, List.filter_map]
    congr 1
    exact List.filter_congr fun r _ => waitlisted_patchRow_placements hnd 0 r
  rw [hrows]
  set l := byPosition ((rows.filter Enrollment.waitlisted).map (patchRow (placements ids 0)))
    with hl
  have hpos : ∀ x ∈ l, x.id ∈ ids ∧ x.waitlistPosition = some (ids.idxOf x.id + 1 : Nat) := by
    intro x hx
    obtain ⟨r, hr, rfl⟩ := List.mem_map.mp (mem_byPosition.mp hx)
    have hid : r.id ∈ ids := hperm.mem_iff.mpr (List.mem_map_of_mem hr)
    rw [patchRow_id, patchRow_placements hnd, if_pos hid]
    exact ⟨hid, by simp⟩
  have hids : (l.map Enrollment.id).Perm ids := by
    refine ((byPosition_perm _).map _).trans ?_
    rw [List.map_map]
    refine List.Perm.trans (List.Perm.of_eq ?_) hperm.symm
    exact List.map_congr_left fun r _ => patchRow_id _ r
  -- by position the indices are ascending, and they are all the indices there are
  have hsorted : (l.map (fun x => ids.idxOf x.id)).Pairwise (· ≤ ·) := by
    rw [List.pairwise_map]
    have htotal : Std.Total (fun a b : Enrollment =>
        positionLe a.waitlistPosition b.waitlistPosition = true) := ⟨fun _ _ => positionLe_total _ _⟩
    have htrans : IsTrans Enrollment (fun a b : Enrollment =>
        positionLe a.waitlistPosition b.waitlistPosition = true) := ⟨fun _ _ _ => positionLe_trans⟩
    refine (List.pairwise_insertionSort (fun a b : Enrollment =>
      positionLe a.waitlistPosition b.waitlistPosition = true) _).imp_of_mem ?_
    intro a b ha hb hab
    rw [(hpos a ha).2, (hpos b hb).2] at hab
    have : ((ids.idxOf a.id + 1 : Nat) : Int) ≤ (ids.idxOf b.id + 1 : Nat) := by
      simpa [positionLe] using hab
    omega
  have hindices : l.map (fun x => ids.idxOf x.id) = List.range ids.length := by
    refine List.Perm.eq_of_pairwise (fun a b _ _ => Nat.le_antisymm) hsorted
      List.pairwise_le_range ?_
    have : (l.map (fun x => ids.idxOf x.id)) = (l.map Enrollment.id).map (ids.idxOf ·) := by
      rw [List.map_map]
      rfl
    rw [this]
    refine (hids.map _).trans (List.Perm.of_eq ?_)
    refine List.ext_getElem (by simp) fun i h₁ h₂ => ?_
    simp only [List.getElem_map, List.getElem_range]
    exact hnd.idxOf_getElem i _
  calc l.map Enrollment.id
      = (l.map (fun x => ids.idxOf x.id)).map (fun i => ids.getD i 0) := by
        rw [List.map_map]
        refine List.map_congr_left fun x hx => ?_
        have hlt := List.idxOf_lt_length_of_mem (hpos x hx).1
        simp [List.getElem?_eq_getElem hlt]
    _ = ids := by
        rw [hindices]
        refine List.ext_getElem (by simp) fun i h₁ h₂ => ?_
        simp [List.getElem?_eq_getElem h₂]

end Enroll
