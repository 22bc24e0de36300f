/-
# A promotion run, from the lock to the commit

What `runPromotion` commits when it is served alone, as a function of the database
(`World.promoting`): the rows of lowest position, as many as there are open seats or waiting
students, one turn after the other.  `solo_promoteLoop` is the loop, for any number of turns that
covers the open seats, so the bound on the turns is not what ends it.

`runPromotion_end_to_end` reads the tables of that world.
-/
import Enroll.Alone
import Enroll.Seats

namespace Enroll

open Txn (Prog)

variable {x : Nat} {v w : World} {s : SectionId}

/-! ## 1. One turn -/

/-- The view after the row `next` was promoted. -/
def promoted (sec : SectionJoin) (v : World) (next : Enrollment) : World :=
  let updated := (promotion v.now).patch next
  let patched := (Write.enrollmentPatch next.id (promotion v.now)).apply v
  let noticed := (Write.notificationInsert ((promotedNotice sec updated).row v.now)).apply patched
  noticed.audited (promotedEvent next updated)

@[simp] theorem promoted_enrollments (sec : SectionJoin) (v : World) (next : Enrollment) :
    (promoted sec v next).db.enrollments
      = patchEnrollments next.id (promotion v.now) v.db.enrollments := rfl

@[simp] theorem promoted_sections (sec : SectionJoin) (v : World) (next : Enrollment) :
    (promoted sec v next).db.sections = v.db.sections := rfl

@[simp] theorem promoted_ref (sec : SectionJoin) (v : World) (next : Enrollment) :
    (promoted sec v next).db.ref = v.db.ref := rfl

@[simp] theorem promoted_now (sec : SectionJoin) (v : World) (next : Enrollment) :
    (promoted sec v next).now = v.now := rfl

/-- Ids identify rows. -/
def World.Keyed (v : World) : Prop := (v.db.enrollments.map Enrollment.id).Nodup

theorem promoted_keyed (sec : SectionJoin) {next : Enrollment} (h : v.Keyed) :
    (promoted sec v next).Keyed := by
  unfold World.Keyed
  rw [promoted_enrollments, patchEnrollments,
    Keyed.map_update (f := (promotion v.now).patch) fun _ => rfl]
  exact h

/-- The head is gone, the others stay in order. -/
theorem promoted_waiting (sec : SectionJoin) {next : Enrollment} {rest : List Enrollment}
    (h : v.Keyed) (hrows : byPosition (v.db.waiting s) = next :: rest) :
    byPosition ((promoted sec v next).db.waiting s) = rest := by
  have hrowsOf : (promoted sec v next).db.rowsOf s
      = patchAll [(next.id, promotion v.now)] (v.db.rowsOf s) :=
    Keyed.filter_update (f := (promotion v.now).patch) (fun _ => rfl) next.id v.db.enrollments
  have hhead : byPosition ((v.db.rowsOf s).filter Enrollment.waitlisted) = next :: rest := hrows
  have hleave : ∀ p ∈ [(next.id, promotion v.now)], p.2.leaves := by
    intro p hp
    rw [List.mem_singleton.mp hp]
    exact fun _ => rfl
  have hdrop : byPosition ((patchAll [(next.id, promotion v.now)] (v.db.rowsOf s)).filter
      Enrollment.waitlisted) = (byPosition ((v.db.rowsOf s).filter Enrollment.waitlisted)).drop 1 :=
    byPosition_headsLeft hleave (Keyed.nodup_filter _ h)
      (congrArg (fun l => (l.take 1).map Enrollment.id) hhead).symm
  unfold Db.waiting
  rw [hrowsOf, hdrop]
  exact congrArg (List.drop 1) hrows

theorem solo_promote (sec : SectionJoin) {next : Enrollment} (h : v.Keyed)
    (hnext : next ∈ v.db.waiting s) :
    (promote sec next).solo x v = some (.ok (), promoted sec v next) := by
  obtain ⟨hmem, -, hst⟩ := mem_waiting.mp hnext
  have hlookup : v.db.enrollment? next.id = some next := Keyed.lookup_of_mem h hmem
  have hact : next.active = true := by
    simp [Enrollment.active, hst, EnrollmentStatus.active]
  unfold promote Tx.now
  rw [solo_query_bind, Prog.solo_bind_ok (solo_enrollmentUpdate hlookup (Or.inl hact)),
    Prog.solo_bind_ok (solo_createInTx _)]
  exact solo_recordEvent _

/-! ## 2. The loop -/

/-- **The loop takes the first rows off the waitlist, until every seat is taken or nobody waits.** -/
theorem solo_promoteLoop (sec : SectionJoin) (s : SectionId) :
    ∀ (turns : Nat) (count : Int) (done : Nat) (rows : List Enrollment) (v : World), v.Keyed →
      byPosition (v.db.waiting s) = rows → (sec.sec.capacity - count).toNat ≤ turns →
      (promoteLoop sec s turns count done).solo x v
        = some (.ok (count + (rows.take (sec.sec.capacity - count).toNat).length,
            done + (rows.take (sec.sec.capacity - count).toNat).length),
          (rows.take (sec.sec.capacity - count).toNat).foldl (promoted sec) v) := by
  intro turns
  induction turns with
  | zero =>
    intro count done rows v _ _ hturns
    rw [Nat.le_zero.mp hturns]
    simp [promoteLoop]
  | succ turns ih =>
    intro count done rows v hv hrows hturns
    unfold promoteLoop
    split
    · rename_i hseat
      have hhead : (waitlistHead s).solo x v
          = some (.ok (rows.head?.map v.db.joinEnrollment), v) := by
        unfold waitlistHead Tx.enrollmentFindManyByPosition
        rw [solo_query_bind]
        simp only [Query.eval, select_waiting, hrows, List.head?_map]
        rfl
      rw [Prog.solo_bind_ok hhead]
      cases rows with
      | nil => simp
      | cons next rest =>
        have hnext : next ∈ v.db.waiting s := mem_byPosition.mp (hrows ▸ List.mem_cons_self)
        have hseats : (sec.sec.capacity - count).toNat
            = (sec.sec.capacity - (count + 1)).toNat + 1 := by
          omega
        have hrest := ih (count + 1) (done + 1) rest (promoted sec v next) (promoted_keyed sec hv)
          (promoted_waiting sec hv hrows) (by omega)
        have hturn : (promote sec (v.db.joinEnrollment next).row).solo x v
            = some (.ok (), promoted sec v next) := solo_promote sec hv hnext
        simp only [List.head?_cons, Option.map_some]
        rw [Prog.solo_bind_ok hturn, hrest, hseats, List.take_succ_cons, List.length_cons,
          List.foldl_cons]
        simp only [Int.natCast_add, Int.natCast_one]
        congr 4 <;> omega
    · rename_i hfull
      have hnone : (sec.sec.capacity - count).toNat = 0 := by omega
      rw [hnone]
      simp

/-! ## 3. The run -/

/-- The open seats of a section. -/
def Section.openSeats (sec : Section) : Nat := (sec.capacity - sec.enrolledCount).toNat

/-- The rows that a promotion run takes off the waitlist of `s`. -/
def World.promotable (w : World) (s : SectionId) : List Enrollment :=
  match w.db.section? s with
  | none => []
  | some sec =>
    if (w.db.ref.term sec.termId).registrationCloses < w.now then []
    else (byPosition (w.db.waiting s)).take sec.openSeats

/-- The world that a promotion run of `s` commits. -/
def World.promoting (w : World) (s : SectionId) : World :=
  let heads := w.promotable s
  let sec := w.db.joinSection (w.db.sectionOf s)
  if heads.length > 0 then
    (Write.sectionPatch s (counterSet (sec.sec.enrolledCount + heads.length))).apply
      (heads.foldl (promoted sec) w)
  else w

theorem foldl_promoted_sections (sec : SectionJoin) (rows : List Enrollment) (v : World) :
    (rows.foldl (promoted sec) v).db.sections = v.db.sections := by
  induction rows generalizing v with
  | nil => rfl
  | cons r rows ih => rw [List.foldl_cons, ih, promoted_sections]

/-- The seats that are taken are within the capacity. -/
theorem checkSeats_counterSet {sec : Section} (h : sec.checkSeats = true) {n : Nat}
    (hn : n ≤ sec.openSeats) : ((counterSet (sec.enrolledCount + n)).patch sec).checkSeats = true := by
  have hseats := of_decide_eq_true h
  have hopen : ((sec.openSeats : Nat) : Int) = sec.capacity - sec.enrolledCount := by
    unfold Section.openSeats
    omega
  refine decide_eq_true (?_ : 0 ≤ sec.enrolledCount + (n : Int) ∧ sec.enrolledCount + n ≤ sec.capacity)
  omega

theorem sectionOf_eq {db : Db} {sec : Section} (hs : db.section? s = some sec) :
    db.sectionOf s = sec := by
  unfold Db.sectionOf
  rw [hs]
  rfl

/-- The loop and the write of the counter, for a section that is locked and open. -/
theorem solo_promoteOpen (hv : w.Valid) {sec : Section} (hs : w.db.section? s = some sec)
    {heads : List Enrollment} (hheads : heads = (byPosition (w.db.waiting s)).take sec.openSeats) :
    (promoteLoop (w.db.joinSection sec) s sec.openSeats sec.enrolledCount 0 >>= fun done =>
        storeCount s done.1 done.2).solo x w
      = some (.ok (), if heads.length > 0 then
          (Write.sectionPatch s (counterSet (sec.enrolledCount + heads.length))).apply
            (heads.foldl (promoted (w.db.joinSection sec)) w)
        else w) := by
  have hloop := solo_promoteLoop (x := x) (w.db.joinSection sec) s sec.openSeats sec.enrolledCount 0
    _ w hv.db.enrollment_id rfl (Nat.le_refl _)
  have htake : (byPosition (w.db.waiting s)).take
      ((w.db.joinSection sec).sec.capacity - sec.enrolledCount).toNat = heads := hheads.symm
  rw [htake, Nat.zero_add] at hloop
  rw [Prog.solo_bind_ok hloop]
  unfold storeCount
  split
  · have hlookup : (heads.foldl (promoted (w.db.joinSection sec)) w).db.section? s = some sec := by
      unfold Db.section?
      rw [foldl_promoted_sections]
      exact hs
    have hlen : heads.length ≤ sec.openSeats := by
      rw [hheads, List.length_take]
      exact Nat.min_le_left _ _
    have hcheck := checkSeats_counterSet (decide_eq_true (hv.db.seats sec (section?_mem hs).1)) hlen
    rw [Prog.solo_bind_ok (solo_sectionUpdate hlookup hcheck)]
    rfl
  · rename_i hnone
    rw [List.length_eq_zero_iff.mp (Nat.eq_zero_of_not_pos hnone)]
    rfl

/-- **A promotion run that is served alone succeeds.** -/
theorem solo_runPromotion (hv : w.Valid) (s : SectionId) :
    (runPromotion s).solo x w = some (.ok (), w.promoting s) := by
  unfold runPromotion World.promoting World.promotable
  rw [Prog.solo_bind_ok (solo_sectionForUpdate s)]
  cases hs : w.db.section? s with
  | none => rfl
  | some sec =>
    simp only [Option.map_some, sectionOf_eq hs]
    unfold promoteLocked Tx.now
    rw [solo_query_bind]
    have hcloses : (w.db.joinSection sec).term = w.db.ref.term sec.termId := rfl
    simp only [Query.eval, hcloses]
    split
    · rfl
    · exact solo_promoteOpen hv hs rfl

/-! ## 4. The tables afterwards -/

/-- `r` after it was promoted at `t`, if it is one of `heads`. -/
def promoteIn (heads : List Enrollment) (t : Time) (r : Enrollment) : Enrollment :=
  if r.id ∈ heads.map Enrollment.id then (promotion t).patch r else r

/-- The notices about `heads`, in their order. -/
def promotedNotices (sec : SectionJoin) (heads : List Enrollment) (t : Time) : List Notification :=
  heads.map fun r => (promotedNotice sec ((promotion t).patch r)).row t

/-- The outbox rows about `heads`, in their order, from the id `n` on. -/
def promotedEvents (heads : List Enrollment) (n : OutboxId) (t : Time) : List AuditOutbox :=
  (heads.zipIdx n).map fun p => (promotedEvent p.1 ((promotion t).patch p.1)).row p.2 t

/-- The updates of the rows `heads`. -/
def headPatches (heads : List Enrollment) (t : Time) : List (EnrollmentId × EnrollmentData) :=
  heads.map fun r => (r.id, promotion t)

theorem headPatches_ids (heads : List Enrollment) (t : Time) :
    (headPatches heads t).map Prod.fst = heads.map Enrollment.id := by
  unfold headPatches
  rw [List.map_map]
  rfl

theorem foldl_promoted_patches (sec : SectionJoin) (heads : List Enrollment) (v : World) :
    (heads.foldl (promoted sec) v).db.enrollments
      = patchAll (headPatches heads v.now) v.db.enrollments := by
  induction heads generalizing v with
  | nil => rfl
  | cons a heads ih =>
    rw [List.foldl_cons, ih]
    rfl

theorem patchRow_headPatches (heads : List Enrollment) (t : Time) (r : Enrollment) :
    patchRow (headPatches heads t) r = promoteIn heads t r := by
  induction heads generalizing r with
  | nil => exact (if_neg List.not_mem_nil).symm
  | cons a heads ih =>
    have hcons : patchRow (headPatches (a :: heads) t) r
        = patchRow (headPatches heads t) (if r.id = a.id then (promotion t).patch r else r) := rfl
    rw [hcons, ih]
    unfold promoteIn
    by_cases ha : r.id = a.id
    · -- a second update changes nothing
      simp only [ha, if_true, patch_id, List.map_cons, List.mem_cons, true_or]
      split <;> rfl
    · simp only [ha, if_false, List.map_cons, List.mem_cons, false_or]

theorem foldl_promoted_enrollments (sec : SectionJoin) (heads : List Enrollment) (v : World) :
    (heads.foldl (promoted sec) v).db.enrollments
      = v.db.enrollments.map (promoteIn heads v.now) := by
  rw [foldl_promoted_patches, patchAll_eq_map]
  exact List.map_congr_left fun r _ => patchRow_headPatches heads v.now r

theorem foldl_promoted_notifications (sec : SectionJoin) (heads : List Enrollment) (v : World) :
    (heads.foldl (promoted sec) v).db.notifications
      = v.db.notifications ++ promotedNotices sec heads v.now := by
  induction heads generalizing v with
  | nil => exact (List.append_nil _).symm
  | cons a heads ih =>
    rw [List.foldl_cons, ih]
    exact List.append_assoc _ _ _

theorem foldl_promoted_auditOutbox (sec : SectionJoin) (heads : List Enrollment) (v : World) :
    (heads.foldl (promoted sec) v).db.auditOutbox
      = v.db.auditOutbox ++ promotedEvents heads (v.seq + 1) v.now := by
  induction heads generalizing v with
  | nil => exact (List.append_nil _).symm
  | cons a heads ih =>
    rw [List.foldl_cons, ih]
    exact List.append_assoc _ _ _

theorem foldl_promoted_ref (sec : SectionJoin) (heads : List Enrollment) (v : World) :
    (heads.foldl (promoted sec) v).db.ref = v.db.ref := by
  induction heads generalizing v with
  | nil => rfl
  | cons a heads ih => rw [List.foldl_cons, ih, promoted_ref]

theorem foldl_promoted_now (sec : SectionJoin) (heads : List Enrollment) (v : World) :
    (heads.foldl (promoted sec) v).now = v.now := by
  induction heads generalizing v with
  | nil => rfl
  | cons a heads ih => rw [List.foldl_cons, ih, promoted_now]

/-- `a` stands before `b`: a lower position, where no position counts as the last. -/
def Enrollment.Before (a b : Enrollment) : Prop :=
  positionLe a.waitlistPosition b.waitlistPosition = true ∧ a.waitlistPosition ≠ b.waitlistPosition

/-- With distinct positions the order by position is strict. -/
theorem pairwise_before {rows : List Enrollment}
    (hpos : (rows.map Enrollment.waitlistPosition).Nodup) :
    (byPosition rows).Pairwise Enrollment.Before := by
  have htotal : Std.Total (fun a b : Enrollment =>
      positionLe a.waitlistPosition b.waitlistPosition = true) := ⟨fun _ _ => positionLe_total _ _⟩
  have htrans : IsTrans Enrollment (fun a b : Enrollment =>
      positionLe a.waitlistPosition b.waitlistPosition = true) := ⟨fun _ _ _ => positionLe_trans⟩
  have hsorted := List.pairwise_insertionSort (fun a b : Enrollment =>
    positionLe a.waitlistPosition b.waitlistPosition = true) rows
  have hdistinct := List.pairwise_map.mp
    (((byPosition_perm rows).map Enrollment.waitlistPosition).nodup_iff.mpr hpos)
  exact hsorted.and hdistinct

/-- What a promotion run of the section `live` has done when it has taken `heads`. -/
structure PromotionRun (s : SectionId) (live : Section) (heads : List Enrollment) (w w' : World) :
    Prop where
  /-- as many as there are open seats or waiting students -/
  count : (heads.length : Int)
    = min (live.capacity - live.enrolledCount) ((w.db.waiting s).length : Int)
  waiting : ∀ r ∈ heads, r ∈ w.db.waiting s
  inOrder : heads.Pairwise Enrollment.Before
  lowest : ∀ r ∈ heads, ∀ r' ∈ w.db.waiting s, r' ∉ heads → r.Before r'
  /-- the heads are ENROLLED without a position, every other row is as it was -/
  enrollments : w'.db.enrollments = w.db.enrollments.map fun r =>
    if r ∈ heads then { r with status := .ENROLLED, enrolledAt := w.now, waitlistPosition := none }
    else r
  /-- the counter of the section grows by their number, every other section is as it was -/
  sections : w'.db.sections = w.db.sections.map fun x =>
    if x.id = s then { x with enrolledCount := x.enrolledCount + heads.length } else x
  /-- one notice for each -/
  notifications : w'.db.notifications
    = w.db.notifications ++ promotedNotices (w.db.joinSection live) heads w.now
  /-- one outbox row for each -/
  auditOutbox : w'.db.auditOutbox = w.db.auditOutbox ++ promotedEvents heads (w.seq + 1) w.now
  ref : w'.db.ref = w.db.ref
  now : w'.now = w.now

/-! ## 5. The world that is committed -/

section Committed

variable {live : Section}

theorem promotable_open (hs : w.db.section? s = some live)
    (hopen : ¬ (w.db.ref.term live.termId).registrationCloses < w.now) :
    w.promotable s = (byPosition (w.db.waiting s)).take live.openSeats := by
  unfold World.promotable
  simp only [hs, if_neg hopen]

theorem openSeats_eq (hv : w.Valid) (hs : w.db.section? s = some live) :
    ((live.openSeats : Nat) : Int) = live.capacity - live.enrolledCount := by
  have hseats := hv.db.seats live (section?_mem hs).1
  unfold Section.openSeats
  omega

theorem promoting_sections (hv : w.Valid) (hs : w.db.section? s = some live) :
    (w.promoting s).db.sections = w.db.sections.map fun x =>
      if x.id = s then { x with enrolledCount := x.enrolledCount + (w.promotable s).length }
      else x := by
  unfold World.promoting
  simp only [sectionOf_eq hs]
  split
  · show patchSections s _ ((w.promotable s).foldl _ w).db.sections = _
    rw [foldl_promoted_sections]
    refine List.map_congr_left fun x hx => ?_
    split
    · rename_i hid
      -- the row with the id `s` is the one that was locked
      have hlive : x = live :=
        Keyed.eq_of_key_eq hv.db.section_id hx (section?_mem hs).1 (hid.trans (section?_mem hs).2.symm)
      rw [hlive]
      rfl
    · rfl
  · rename_i hnone
    have hzero : (w.promotable s).length = 0 := Nat.eq_zero_of_not_pos hnone
    rw [hzero]
    refine ((List.map_congr_left fun x _ => ?_).trans (List.map_id _)).symm
    simp

/-- Everything but the sections is as the turns left it. -/
theorem promoting_tables (hs : w.db.section? s = some live) :
    let v := (w.promotable s).foldl (promoted (w.db.joinSection live)) w
    (w.promoting s).db.enrollments = v.db.enrollments ∧
      (w.promoting s).db.notifications = v.db.notifications ∧
      (w.promoting s).db.auditOutbox = v.db.auditOutbox ∧ (w.promoting s).db.ref = v.db.ref ∧
      (w.promoting s).now = v.now := by
  unfold World.promoting
  simp only [sectionOf_eq hs]
  split
  · exact ⟨rfl, rfl, rfl, rfl, rfl⟩
  · rename_i hnone
    rw [List.length_eq_zero_iff.mp (Nat.eq_zero_of_not_pos hnone)]
    exact ⟨rfl, rfl, rfl, rfl, rfl⟩

/-- The heads are rows of the table, so their ids tell them apart. -/
theorem promoteIn_eq (hv : w.Valid) {heads : List Enrollment}
    (hsub : ∀ r ∈ heads, r ∈ w.db.enrollments)
    {r : Enrollment} (hr : r ∈ w.db.enrollments) (t : Time) :
    promoteIn heads t r = if r ∈ heads then
      { r with status := .ENROLLED, enrolledAt := t, waitlistPosition := none } else r := by
  have hmem : r.id ∈ heads.map Enrollment.id ↔ r ∈ heads := by
    constructor
    · intro h
      obtain ⟨r', hr', hid⟩ := List.mem_map.mp h
      exact Keyed.eq_of_key_eq hv.db.enrollment_id (hsub r' hr') hr hid ▸ hr'
    · exact fun h => List.mem_map_of_mem h
  unfold promoteIn
  simp only [hmem]
  split <;> rfl

theorem promotionRun (hv : w.Valid) (hs : w.db.section? s = some live)
    (hpos : ((w.db.waiting s).map Enrollment.waitlistPosition).Nodup)
    (hopen : ¬ (w.db.ref.term live.termId).registrationCloses < w.now) :
    PromotionRun s live (w.promotable s) w (w.promoting s) := by
  obtain ⟨henr, hnot, haud, href, hnow⟩ := promoting_tables hs
  have hheads := promotable_open hs hopen
  have hbefore := pairwise_before hpos
  have hwaiting : ∀ r ∈ w.promotable s, r ∈ w.db.waiting s := by
    rw [hheads]
    exact fun r hr => mem_byPosition.mp (List.mem_of_mem_take hr)
  refine ⟨?_, hwaiting, ?_, ?_, ?_, promoting_sections hv hs, ?_, ?_, ?_, ?_⟩
  · rw [hheads, List.length_take, length_byPosition]
    have := openSeats_eq hv hs
    omega
  · rw [hheads]
    exact hbefore.sublist (List.take_sublist _ _)
  · intro r hr r' hr' hnot'
    rw [hheads] at hr hnot'
    rw [← List.take_append_drop live.openSeats (byPosition (w.db.waiting s))] at hbefore
    have hdrop : r' ∈ (byPosition (w.db.waiting s)).drop live.openSeats := by
      have hmem := mem_byPosition.mpr hr'
      rw [← List.take_append_drop live.openSeats (byPosition (w.db.waiting s))] at hmem
      exact (List.mem_append.mp hmem).resolve_left hnot'
    exact (List.pairwise_append.mp hbefore).2.2 r hr r' hdrop
  · rw [henr, foldl_promoted_enrollments]
    refine List.map_congr_left fun r hr => promoteIn_eq hv (fun r' hr' => ?_) hr w.now
    exact (mem_waiting.mp (hwaiting r' hr')).1
  · rw [hnot, foldl_promoted_notifications]
  · rw [haud, foldl_promoted_auditOutbox]
  · rw [href, foldl_promoted_ref]
  · rw [hnow, foldl_promoted_now]

/-- The row of the section afterwards. -/
theorem promoting_section? (hv : w.Valid) (hs : w.db.section? s = some live) :
    (w.promoting s).db.section? s = some
      { live with enrolledCount := live.enrolledCount + (w.promotable s).length } := by
  unfold Db.section?
  rw [promoting_sections hv hs, Keyed.lookup_map]
  · have hlookup : Keyed.lookup Section.id s w.db.sections = some live := hs
    rw [hlookup, Option.map_some, if_pos (section?_mem hs).2]
  · intro x
    split <;> rfl

/-- **The counter still counts the ENROLLED rows.** -/
theorem promoting_counted (hv : w.Valid) (hs : w.db.section? s = some live) :
    enrolledRows ((w.promoting s).db.rowsOf s)
      = enrolledRows (w.db.rowsOf s) + (w.promotable s).length := by
  obtain ⟨henr, -⟩ := promoting_tables hs
  have hwaiting : ∀ r ∈ w.promotable s, r ∈ w.db.waiting s := by
    intro r hr
    unfold World.promotable at hr
    simp only [hs] at hr
    split at hr
    · exact absurd hr List.not_mem_nil
    · exact mem_byPosition.mp (List.mem_of_mem_take hr)
  have hrows : (w.promoting s).db.rowsOf s
      = patchAll (headPatches (w.promotable s) w.now) (w.db.rowsOf s) := by
    unfold Db.rowsOf
    rw [henr, foldl_promoted_patches, filter_section_patchAll]
  have hids : ((w.promotable s).map Enrollment.id).Nodup := by
    unfold World.promotable
    simp only [hs]
    split
    · exact List.nodup_nil
    · exact (hv.db.nodup_byPosition s).sublist ((List.take_sublist _ _).map _)
  have hlen : (headPatches (w.promotable s) w.now).length = (w.promotable s).length :=
    List.length_map _
  rw [hrows, ← hlen]
  unfold enrolledRows
  refine countP_patchAll_gain (headPatches_ids _ _ ▸ hids)
    (Keyed.nodup_filter _ hv.db.enrollment_id) fun p hp => ?_
  obtain ⟨r, hr, rfl⟩ := List.mem_map.mp hp
  obtain ⟨hmem, hsec, hst⟩ := mem_waiting.mp (hwaiting r hr)
  exact ⟨r, mem_rowsOf.mpr ⟨hmem, hsec⟩, rfl, by simp [Enrollment.enrolled, hst], rfl⟩

/-- Nothing is left to promote. -/
def Settled (w : World) (s : SectionId) : Prop :=
  (∃ sec, w.db.section? s = some sec ∧ sec.enrolledCount = sec.capacity) ∨ w.db.waiting s = []

theorem promoting_settled (hv : w.Valid) (hs : w.db.section? s = some live)
    (hopen : ¬ (w.db.ref.term live.termId).registrationCloses < w.now) :
    Settled (w.promoting s) s := by
  have hheads := promotable_open hs hopen
  have hseats := openSeats_eq hv hs
  by_cases hall : live.openSeats ≤ (byPosition (w.db.waiting s)).length
  · have hlen : (w.promotable s).length = live.openSeats := by
      rw [hheads, List.length_take]
      exact Nat.min_eq_left hall
    refine Or.inl ⟨_, promoting_section? hv hs, ?_⟩
    rw [hlen]
    show live.enrolledCount + (live.openSeats : Int) = live.capacity
    omega
  · refine Or.inr (List.eq_nil_iff_forall_not_mem.mpr fun r' hr' => ?_)
    -- a row that still waits would have been among the heads
    obtain ⟨hmem, hsec, hst⟩ := mem_waiting.mp hr'
    obtain ⟨henr, -⟩ := promoting_tables hs
    rw [henr, foldl_promoted_enrollments] at hmem
    obtain ⟨r, hr, rfl⟩ := List.mem_map.mp hmem
    have hall' : w.promotable s = byPosition (w.db.waiting s) := by
      rw [hheads]
      exact List.take_of_length_le (by omega)
    by_cases hin : r.id ∈ (w.promotable s).map Enrollment.id
    · rw [promoteIn, if_pos hin] at hst
      exact absurd hst (by simp [promotion, EnrollmentData.patch])
    · rw [promoteIn, if_neg hin] at hst hsec
      refine hin (List.mem_map_of_mem ?_)
      rw [hall']
      exact mem_byPosition.mpr (mem_waiting.mpr ⟨hr, hsec, hst⟩)

/-- A settled section stays as it is, at any later time. -/
theorem promoting_of_settled (h : Settled w s) : w.promoting s = w := by
  have hnone : w.promotable s = [] := by
    unfold World.promotable
    cases hs : w.db.section? s with
    | none => rfl
    | some sec =>
      simp only
      split
      · rfl
      · rcases h with ⟨sec', hs', hfull⟩ | hempty
        · obtain rfl := Option.some.inj (hs.symm.trans hs')
          have hzero : sec.openSeats = 0 := by
            unfold Section.openSeats
            omega
          rw [hzero]
          rfl
        · rw [hempty]
          exact List.take_nil
  unfold World.promoting
  rw [hnone]
  rfl

end Committed

/-! ## 6. End to end -/

/-- Duplicate jobs, one after the other: the time that passes before each, and what the outside
chooses. -/
def promoteAgain (s : SectionId) : List (Time × Nat) → World → Option World
  | [], w => some w
  | (ms, x) :: jobs, w =>
    match (runPromotion s).transact x (w.env (.tick ms)) with
    | some (.ok (), w') => promoteAgain s jobs w'
    | _ => none

/-- **Duplicate jobs change nothing**, whenever they run. -/
theorem promoteAgain_settled {jobs : List (Time × Nat)} (hv : w.Valid) (h : Settled w s) :
    ∃ t, promoteAgain s jobs w = some { w with now := t } := by
  induction jobs generalizing w with
  | nil => exact ⟨w.now, rfl⟩
  | cons job jobs ih =>
    have hlater : Settled (w.env (.tick job.1)) s := h
    have hone := solo_runPromotion (x := job.2) (hv.env (.tick job.1)) s
    rw [promoting_of_settled hlater] at hone
    obtain ⟨t, ht⟩ := ih (hv.env (.tick job.1)) hlater
    refine ⟨t, ?_⟩
    unfold promoteAgain
    rw [Prog.transact_ok postgres_commuting hone]
    exact ht

theorem promoting_valid (hv : w.Valid) (s : SectionId) : (w.promoting s).Valid := by
  have hbody : Prog.solo (E := postgres) 0 (Op.runPromotion s).body w
      = some (.ok .done, w.promoting s) :=
    Prog.solo_bind_ok (solo_runPromotion hv s)
  exact valid_of_transact hv (Prog.transact_ok postgres_commuting hbody)

/-- **A promotion run, end to end.** -/
theorem runPromotion_end_to_end {live : Section} (hv : w.Valid) (hs : w.db.section? s = some live)
    (hcount : live.enrolledCount = enrolledRows (w.db.rowsOf s))
    (hpos : ((w.db.waiting s).map Enrollment.waitlistPosition).Nodup)
    (hopen : ¬ (w.db.ref.term live.termId).registrationCloses < w.now) (x : Nat) :
    ∃ heads w', (runPromotion s).transact x w = some (.ok (), w') ∧
      PromotionRun s live heads w w' ∧ Settled w' s ∧
      (∃ live', w'.db.section? s = some live' ∧
        live'.enrolledCount = enrolledRows (w'.db.rowsOf s)) ∧
      ∀ jobs, ∃ t, promoteAgain s jobs w' = some { w' with now := t } := by
  have hsettled := promoting_settled hv hs hopen
  refine ⟨w.promotable s, w.promoting s, Prog.transact_ok postgres_commuting (solo_runPromotion hv s),
    promotionRun hv hs hpos hopen, hsettled, ⟨_, promoting_section? hv hs, ?_⟩,
    fun jobs => promoteAgain_settled (promoting_valid hv s) hsettled⟩
  rw [promoting_counted hv hs]
  simp only [Int.natCast_add, ← hcount]

namespace Campus

/-- Section 10. -/
def section10 : Section := ⟨10, "001", 5, 7, "MWF 9:00-9:50", 1, 0, none⟩

/-- The same with three seats, one of them taken. -/
def roomy : Section := { section10 with capacity := 3, enrolledCount := 1 }

/-- Student `u` waits for section 10 at position `p`. -/
def waiter (id : EnrollmentId) (u : UserId) (p : Int) : Enrollment :=
  ⟨id, u, 10, .WAITLISTED, some p, 10, none, none, 10⟩

/-- Two seats of section 10 are open, and three students wait, in another order than that of their
rows. -/
def freed : World :=
  { world with db := { world.db with
      sections := [roomy]
      enrollments := [⟨100, 1, 10, .ENROLLED, none, 10, none, none, 10⟩, waiter 101 2 5,
        waiter 102 3 8, waiter 103 4 2] } }

theorem freed_valid : freed.Valid :=
  ⟨⟨by decide, by decide, by decide, by decide, by decide⟩, fun _ h => absurd h List.not_mem_nil⟩

/-- The first and the last of the three rows are promoted, the second waits on. -/
theorem runPromotion_freed :
    ∃ heads w', w'.db.enrollments.map (fun r => (r.id, r.status, r.waitlistPosition))
        = [(100, .ENROLLED, none), (101, .ENROLLED, none), (102, .WAITLISTED, some 8),
          (103, .ENROLLED, none)] ∧
      (runPromotion 10).transact (E := postgres) 0 freed = some (.ok (), w') ∧
      PromotionRun 10 roomy heads freed w' ∧ Settled w' 10 ∧
      (∃ live', w'.db.section? 10 = some live' ∧
        live'.enrolledCount = enrolledRows (w'.db.rowsOf 10)) ∧
      ∀ jobs, ∃ t, promoteAgain 10 jobs w' = some { w' with now := t } := by
  have hsec : freed.db.section? 10 = some roomy := rfl
  obtain ⟨heads, w', hrun, hrest⟩ :=
    runPromotion_end_to_end freed_valid hsec (by decide) (by decide) (by decide) 0
  have hrows : ((runPromotion 10).transact (E := postgres) 0 freed).map
      (fun out => out.2.db.enrollments.map fun r => (r.id, r.status, r.waitlistPosition))
        = some [(100, .ENROLLED, none), (101, .ENROLLED, none), (102, .WAITLISTED, some 8),
          (103, .ENROLLED, none)] := by decide
  rw [hrun] at hrows
  exact ⟨heads, w', Option.some.inj hrows, hrun, hrest⟩

end Campus

end Enroll
