/-
# One rank, computed three ways

A student's rank in a waitlist is a count (`computeRank`), a window function joined back through a
string key (`computeRanks`) and a list index (`listForSection`).  They are one number because the
positions of a waitlist are distinct and none is null, in every reachable state (`Positioned`): then
the waiting rows stand in strict order, and the row with `i` rows in front of it has `i + 1`
positions up to its own (`rankAt_getElem`).

An enroll that joins a waitlist answers with the number of waiting rows, its own included: the new
position is above all others.
-/
import Enroll.Alone
import Enroll.Paging
import Enroll.Replies
import Enroll.Waitlist
import Std.Data.String.ToInt

namespace Enroll

open Txn (Ctx Session Label Discipline)

variable {w : World} {s : SectionId} {r : Enrollment}

/-! ## 1. The three computations -/

/-- An element of the argument of `computeRanks`. -/
structure RankRequest where
  id : EnrollmentId
  sectionId : SectionId
  waitlistPosition : Int
  deriving DecidableEq, Repr

/-- A row of the window query. -/
structure RankedRow where
  sectionId : SectionId
  waitlistPosition : Option Int
  rank : Nat
  deriving DecidableEq, Repr

/-- `SELECT .. row_number() OVER (PARTITION BY "sectionId" ORDER BY "waitlistPosition" ASC) ..` of
the WAITLISTED rows of the sections. -/
def rankedRows (db : Db) (sectionIds : List SectionId) : List RankedRow :=
  sectionIds.flatMap fun s =>
    (byPosition (db.waiting s)).zipIdx.map fun p => ⟨s, p.1.waitlistPosition, p.2 + 1⟩

def positionText : Option Int → String
  | none => "null"
  | some p => p.repr

/-- The key the ranks are joined back through: section and position as one text. -/
def rankKey (sectionId : SectionId) (waitlistPosition : Option Int) : String :=
  sectionId.repr ++ ":" ++ positionText waitlistPosition

/-- `WaitlistService.computeRanks`; the result is a `Map`. -/
def computeRanks (db : Db) (rows : List RankRequest) : EnrollmentId → Option Nat :=
  if rows.length = 0 then fun _ => none
  else
    let sectionIds := (rows.map RankRequest.sectionId).dedup
    let bySectionAndPosition := Keyed.setEach
      (fun r => rankKey r.sectionId r.waitlistPosition) (fun r => some r.rank)
      (rankedRows db sectionIds)
    Keyed.setEach RankRequest.id
      (fun row => bySectionAndPosition (rankKey row.sectionId (some row.waitlistPosition))) rows

structure StudentName where
  firstName : String
  lastName : String
  deriving DecidableEq, Repr

structure WaitlistEntryDto where
  position : Nat
  enrollmentId : EnrollmentId
  studentId : UserId
  firstName : String
  lastName : String
  joinedAt : String
  deriving DecidableEq, Repr

/-- The row `r` at the index `i` of the list; `student` is the joined `User` row. -/
def waitlistEntry (student : UserId → StudentName) (r : Enrollment) (i : Nat) :
    WaitlistEntryDto where
  position := i + 1
  enrollmentId := r.id
  studentId := r.studentId
  firstName := (student r.studentId).firstName
  lastName := (student r.studentId).lastName
  joinedAt := toISOString r.createdAt

/-- `WaitlistService.listForSection`. -/
def listForSection (student : UserId → StudentName) (sectionId : SectionId) :
    Tx (List WaitlistEntryDto) := do
  let rows ← Tx.enrollmentFindManyByPosition
    { sectionId := some sectionId, status := some [.WAITLISTED] }
  pure (rows.zipIdx.map fun p => waitlistEntry student p.1.row p.2)

/-! ## 2. The key -/

/-- A separator that the first part does not contain splits in one way. -/
theorem append_cons_inj {α : Type} {x : α} {l l' t t' : List α} (hl : x ∉ l) (hl' : x ∉ l')
    (h : l ++ x :: t = l' ++ x :: t') : l = l' ∧ t = t' := by
  induction l generalizing l' with
  | nil =>
    cases l' with
    | nil => exact ⟨rfl, (List.cons.inj h).2⟩
    | cons b l' => exact absurd ((List.cons.inj h).1 ▸ List.mem_cons_self) hl'
  | cons a l ih =>
    cases l' with
    | nil => exact absurd ((List.cons.inj h).1 ▸ List.mem_cons_self) hl
    | cons b l' =>
      obtain ⟨hab, htl⟩ := List.cons.inj h
      obtain ⟨h₁, h₂⟩ := ih (fun hx => hl (List.mem_cons_of_mem a hx))
        (fun hx => hl' (List.mem_cons_of_mem b hx)) htl
      exact ⟨hab ▸ h₁ ▸ rfl, h₂⟩

theorem colon_notMem_repr (n : Nat) : ':' ∉ n.repr.toList := by
  intro h
  rw [Nat.toList_repr] at h
  exact absurd (Nat.isDigit_of_mem_toDigits (by decide) (by decide) h) (by decide)

/-- **The key tells the section and the position.** -/
theorem rankKey_inj {s s' : SectionId} {p p' : Int}
    (h : rankKey s (some p) = rankKey s' (some p')) : s = s' ∧ p = p' := by
  have hchars := congrArg String.toList h
  simp only [rankKey, positionText, String.toList_append, List.append_assoc] at hchars
  obtain ⟨hs, hp⟩ := append_cons_inj (colon_notMem_repr s) (colon_notMem_repr s') hchars
  exact ⟨Nat.repr_injective (String.toList_injective hs),
    Int.repr_injective (String.toList_injective hp)⟩

/-! ## 3. Rows in strict order -/

/-- In a strictly ascending list, `i + 1` elements go up to the one at `i`. -/
theorem countP_upto {α : Type} [LinearOrder α] {l : List α} (h : l.Pairwise (· < ·)) {i : Nat}
    {a : α} (hi : l[i]? = some a) : l.countP (fun b => decide (b ≤ a)) = i + 1 := by
  obtain ⟨l₁, l₂, rfl, rfl⟩ := Paging.exists_append hi
  obtain ⟨-, hl₂, hcross⟩ := List.pairwise_append.mp h
  have hbefore : l₁.countP (fun b => decide (b ≤ a)) = l₁.length :=
    List.countP_eq_length.mpr fun b hb => decide_eq_true (hcross b hb a List.mem_cons_self).le
  have hafter : l₂.countP (fun b => decide (b ≤ a)) = 0 :=
    List.countP_eq_zero.mpr fun b hb => by simpa using (List.pairwise_cons.mp hl₂).1 b hb
  rw [List.countP_append, List.countP_cons, hbefore, hafter]
  simp

/-- The position of a waiting row. -/
abbrev place (r : Enrollment) : Int := r.waitlistPosition.getD 0

theorem Positioned.place (hp : Positioned w) (hr : r ∈ w.db.waiting s) :
    r.waitlistPosition = Option.some (Enroll.place r) := by
  obtain ⟨hmem, -, hst⟩ := mem_waiting.mp hr
  obtain ⟨p, hpos⟩ := Option.ne_none_iff_exists'.mp (hp.some r hmem hst)
  simp [Enroll.place, hpos]

/-- Waiting rows of one section with one position are one row. -/
theorem Positioned.place_inj (hp : Positioned w) {r' : Enrollment} (hr : r ∈ w.db.waiting s)
    (hr' : r' ∈ w.db.waiting s) (h : Enroll.place r = Enroll.place r') : r = r' := by
  obtain ⟨hmem, hs, hst⟩ := mem_waiting.mp hr
  obtain ⟨hmem', hs', hst'⟩ := mem_waiting.mp hr'
  refine hp.distinct r hmem r' hmem' hst hst' (hs.trans hs'.symm) ?_
  rw [hp.place hr, hp.place hr', h]

/-- **The rows of a waitlist stand in strict order.** -/
theorem Positioned.ascending (hv : w.Valid) (hp : Positioned w) (s : SectionId) :
    ((byPosition (w.db.waiting s)).map Enroll.place).Pairwise (· < ·) := by
  rw [List.pairwise_map]
  have htotal : Std.Total (fun a b : Enrollment =>
      positionLe a.waitlistPosition b.waitlistPosition = true) := ⟨fun _ _ => positionLe_total _ _⟩
  have htrans : IsTrans Enrollment (fun a b : Enrollment =>
      positionLe a.waitlistPosition b.waitlistPosition = true) := ⟨fun _ _ _ => positionLe_trans⟩
  have hsorted : (byPosition (w.db.waiting s)).Pairwise (fun a b =>
      positionLe a.waitlistPosition b.waitlistPosition = true) :=
    List.pairwise_insertionSort _ _
  have hnd : (byPosition (w.db.waiting s)).Pairwise (· ≠ ·) :=
    (hv.db.nodup_byPosition s).of_map
  refine (hsorted.and hnd).imp_of_mem ?_
  intro a b ha hb hab
  have ha' := mem_byPosition.mp ha
  have hb' := mem_byPosition.mp hb
  have hle : Enroll.place a ≤ Enroll.place b := by
    have := hab.1
    rw [hp.place ha', hp.place hb'] at this
    simpa [positionLe] using this
  exact lt_of_le_of_ne hle fun he => hab.2 (hp.place_inj ha' hb' he)

/-- The rank counts the places up to a row's own. -/
theorem rankAt_place (hp : Positioned w) (s : SectionId) (p : Int) :
    w.db.rankAt s p
      = ((byPosition (w.db.waiting s)).map Enroll.place).countP (fun q => decide (q ≤ p)) := by
  rw [List.countP_map, (byPosition_perm _).countP_eq]
  refine List.countP_congr fun r hr => ?_
  rw [hp.place hr]
  simp

/-- **The row with `i` rows in front of it has rank `i + 1`.** -/
theorem rankAt_getElem? (hv : w.Valid) (hp : Positioned w) {i : Nat}
    (hi : (byPosition (w.db.waiting s))[i]? = some r) :
    w.db.rankAt s (Enroll.place r) = i + 1 := by
  rw [rankAt_place hp]
  exact countP_upto (hp.ascending hv s) (by rw [List.getElem?_map, hi]; rfl)

/-- **Over a section the ranks are the numbers from one on.** -/
theorem ranks_range (hv : w.Valid) (hp : Positioned w) (s : SectionId) :
    ((w.db.waiting s).map (fun r => w.db.rankAt s (Enroll.place r))).Perm
      (List.range' 1 (w.db.waiting s).length) := by
  refine ((byPosition_perm _).map _).symm.trans (List.Perm.of_eq ?_)
  refine List.ext_getElem (by simp [length_byPosition]) fun i h₁ h₂ => ?_
  rw [List.getElem_map, List.getElem_range', rankAt_getElem? hv hp (List.getElem?_eq_getElem _)]
  omega

/-! ## 4. The window and the list -/

/-- The row is in the database, WAITLISTED, with these columns. -/
def RankRequest.Of (db : Db) (q : RankRequest) : Prop :=
  ∃ r ∈ db.enrollments, r.status = .WAITLISTED ∧ q.id = r.id ∧ q.sectionId = r.sectionId ∧
    r.waitlistPosition = some q.waitlistPosition

theorem mem_rankedRows {db : Db} {ids : List SectionId} {x : RankedRow} :
    x ∈ rankedRows db ids ↔ ∃ s ∈ ids, ∃ r i, (byPosition (db.waiting s))[i]? = some r ∧
      x = ⟨s, r.waitlistPosition, i + 1⟩ := by
  simp only [rankedRows, List.mem_flatMap, List.mem_map, Prod.exists, List.mem_zipIdx_iff_getElem?,
    eq_comm (a := x)]

/-- **The join finds the rank of every waiting row of the sections.** -/
theorem joined_rank (hv : w.Valid) (hp : Positioned w) {ids : List SectionId} (hs : s ∈ ids)
    (hr : r ∈ w.db.waiting s) :
    Keyed.setEach (fun r => rankKey r.sectionId r.waitlistPosition) (fun r => some r.rank)
      (rankedRows w.db ids) (rankKey s (some (Enroll.place r)))
        = some (w.db.rankAt s (Enroll.place r)) := by
  refine Keyed.setEach_eq ?_ ?_
  · obtain ⟨i, hi⟩ := List.getElem?_of_mem (mem_byPosition.mpr hr)
    exact ⟨_, mem_rankedRows.mpr ⟨s, hs, r, i, hi, rfl⟩, by rw [hp.place hr]⟩
  · intro x hx hkey
    obtain ⟨s', -, r', i, hi, rfl⟩ := mem_rankedRows.mp hx
    have hr' := mem_byPosition.mp (List.mem_of_getElem? hi)
    rw [hp.place hr'] at hkey
    obtain ⟨rfl, hplace⟩ := rankKey_inj hkey
    rw [← hplace, rankAt_getElem? hv hp hi]

/-- `computeRanks` returns the rank of every row it is asked for. -/
theorem computeRanks_eq (hv : w.Valid) (hp : Positioned w) {rows : List RankRequest}
    (hrows : ∀ q ∈ rows, q.Of w.db) {q : RankRequest} (hq : q ∈ rows) :
    computeRanks w.db rows q.id = some (w.db.rankAt q.sectionId q.waitlistPosition) := by
  have hlen : ¬ rows.length = 0 := fun h => by
    rw [List.length_eq_zero_iff.mp h] at hq
    exact absurd hq List.not_mem_nil
  unfold computeRanks
  rw [if_neg hlen]
  refine Keyed.setEach_eq ⟨q, hq, rfl⟩ fun q' hq' hid => ?_
  obtain ⟨r, hr, hst, hqid, hsec, hpos⟩ := hrows q hq
  obtain ⟨r', hr', hst', hqid', hsec', hpos'⟩ := hrows q' hq'
  obtain rfl := Keyed.eq_of_key_eq hv.db.enrollment_id hr' hr
    (hqid'.symm.trans (hid.trans hqid))
  have hplace : q'.waitlistPosition = Enroll.place r' := by rw [Enroll.place, hpos']; rfl
  have hsame : q.waitlistPosition = q'.waitlistPosition :=
    Option.some.inj (hpos.symm.trans hpos')
  rw [hsec, ← hsec', hsame, hplace]
  refine joined_rank hv hp ?_ (mem_waiting.mpr ⟨hr', hsec'.symm, hst'⟩)
  exact List.mem_dedup.mpr (List.mem_map_of_mem hq')

theorem computeRank_solo (x : Nat) (w : World) (s : SectionId) (p : Int) :
    (computeRank s p).solo x w = some (.ok (w.db.rankAt s p), w) := by
  rw [← count_rankAt]
  exact solo_query _

/-- What `listForSection` answers. -/
def entries (student : UserId → StudentName) (db : Db) (s : SectionId) : List WaitlistEntryDto :=
  (byPosition (db.waiting s)).zipIdx.map fun p => waitlistEntry student p.1 p.2

theorem listForSection_solo (student : UserId → StudentName) (x : Nat) (w : World)
    (s : SectionId) :
    (listForSection student s).solo x w = some (.ok (entries student w.db s), w) := by
  refine (solo_query_bind _ _).trans ?_
  simp only [Query.eval, select_waiting, List.zipIdx_map, List.map_map]
  rfl

/-- The place of a row in the list is its rank. -/
theorem position_of_entry (hv : w.Valid) (hp : Positioned w) {student : UserId → StudentName}
    {e : WaitlistEntryDto} (he : e ∈ entries student w.db s) (hr : r ∈ w.db.waiting s)
    (hid : e.enrollmentId = r.id) : e.position = w.db.rankAt s (Enroll.place r) := by
  obtain ⟨⟨r', i⟩, hmem, rfl⟩ := List.mem_map.mp he
  have hi := List.mem_zipIdx_iff_getElem?.mp hmem
  have hr' := mem_byPosition.mp (List.mem_of_getElem? hi)
  obtain rfl := Keyed.eq_of_key_eq hv.db.enrollment_id (mem_waiting.mp hr').1
    (mem_waiting.mp hr).1 hid
  exact (rankAt_getElem? hv hp hi).symm

theorem exists_entry (student : UserId → StudentName) (hr : r ∈ w.db.waiting s) :
    ∃ e ∈ entries student w.db s, e.enrollmentId = r.id := by
  obtain ⟨i, hi⟩ := List.getElem?_of_mem (mem_byPosition.mpr hr)
  exact ⟨waitlistEntry student r i,
    List.mem_map.mpr ⟨(r, i), List.mem_zipIdx_iff_getElem?.mpr hi, rfl⟩, rfl⟩

/-! ## 5. Joining a waitlist -/

/-- Behind a position that no waiting row exceeds, the rank is the length of the waitlist. -/
theorem rankAt_last (hp : Positioned w) {p : Int}
    (h : ∀ r ∈ w.db.waiting s, Enroll.place r ≤ p) :
    w.db.rankAt s p = (w.db.waiting s).length := by
  unfold Db.rankAt
  refine List.countP_eq_length.mpr fun r hr => ?_
  rw [hp.place hr]
  simpa using h r hr

/-- The enroll in session `t` has put the row `r` on a waitlist and is about to commit. -/
structure Joining (sys : Sys) (t : Nat) (ses : Session registrar) (input : EnrollDto) (u : UserId)
    (actor : RequestActor) (a : EnrollmentResultDto) (r : Enrollment) : Prop where
  session : sys.sessions t = some ses
  op : ses.op = .enroll input u actor
  prog : ses.prog = .pure (.enrollment a)
  insert : .enrollmentInsert r ∈ ses.log
  waitlisted : r.status = .WAITLISTED

/-- The new row has the last position of the section, in the world the enroll commits. -/
theorem EnrollOutcome.last {c : Ctx postgres} {X : Extra} {op : Op} {input : EnrollDto} {u : UserId}
    {actor : RequestActor} (hp : Positioned c.world) (h : EnrollOutcome X op input u actor c)
    (hr : .enrollmentInsert r ∈ c.log) (hst : r.status = .WAITLISTED) :
    insertsOf c.log = [r] ∧ r.sectionId = input.sectionId ∧
      ∀ r' ∈ c.view.db.waiting input.sectionId, Enroll.place r' ≤ Enroll.place r := by
  cases h with
  | already log =>
    rw [log] at hr
    exact absurd hr List.not_mem_nil
  | seated sec live x t t' n lock seat fresh checked drawn log =>
    rw [log] at hr
    obtain rfl : r = (seatRow u input.sectionId).row x t := by simpa using hr
    exact absurd hst (by simp [seatRow, EnrollmentCreate.row])
  | queued sec live x t t' n p lock full cap position fresh checked drawn log =>
    have hlog := log
    rw [log] at hr
    obtain rfl : r = (queueRow u input.sectionId p).row x t := by simpa using hr
    refine ⟨by rw [log]; rfl, rfl, fun r' hr' => ?_⟩
    have hrows := view_rowsOf_inserted (s := input.sectionId) rfl hlog fun _ => rfl
    have hmem : r' ∈ c.world.db.rowsOf input.sectionId
        ++ [(queueRow u input.sectionId p).row x t] ∧ r'.waitlisted = true := by
      rw [← hrows]
      exact List.mem_filter.mp hr'
    rcases List.mem_append.mp hmem.1 with hold | hnew
    · have hwait : r' ∈ c.world.db.waiting input.sectionId := List.mem_filter.mpr ⟨hold, hmem.2⟩
      have hlt : Enroll.place r' < nextPosition (c.world.db.waiting input.sectionId) :=
        lt_nextPosition hwait (hp.place hwait)
      rw [← position] at hlt
      exact hlt.le
    · rw [List.mem_singleton.mp hnew]

/-- **The answer is the number of waiting rows, the new one included.** -/
theorem joined_length {sys : Sys} (hG : (replying positioning).Good sys) {t : Nat}
    {ses : Session registrar} {input : EnrollDto} {u : UserId} {actor : RequestActor}
    {a : EnrollmentResultDto} (h : Joining sys t ses input u actor a r) :
    a.id = r.id ∧ r ∈ (sys.ctx t ses).view.db.waiting input.sectionId ∧
      a.waitlistPosition = some ((sys.ctx t ses).view.db.waiting input.sectionId).length ∧
      ∃ c₁, Later positioning ses.op c₁ (sys.ctx t ses) ∧ c₁.log = [.enrollmentInsert r] ∧
        a.waitlistPosition = some (c₁.view.db.waiting input.sectionId).length := by
  obtain ⟨hout, hreplied⟩ := hG.post h.session h.prog
  have ho : Outcome positioning ses.op (sys.ctx t ses) := hout
  have hrep : Replied positioning ses.op (.enrollment a) (sys.ctx t ses) := hreplied
  have hv : (sys.ctx t ses).world.Valid := hG.inv.1
  have hp : Positioned (sys.ctx t ses).world := hG.inv.2
  have hview : Positioned (sys.ctx t ses).view := ho.positioned hv hp
  rw [h.op] at ho hrep
  rw [h.op]
  obtain ⟨a', r', ha, hreply⟩ := hrep
  obtain rfl : a = a' := Out.enrollment.inj ha
  have houtcome : EnrollOutcome positioning (.enroll input u actor) input u actor
    (sys.ctx t ses) := ho
  obtain ⟨hins, hsec, hlast⟩ := houtcome.last hp h.insert h.waitlisted
  obtain ⟨c₁, hl, hlog₁, hrows⟩ := hreply.inserted (List.ne_nil_of_mem h.insert)
  -- the row of the answer is the one the log inserts
  obtain ⟨rest, hlog⟩ := hl.log
  rw [hlog₁] at hlog
  obtain rfl : r' = r := by
    have : insertsOf (sys.ctx t ses).log = r' :: insertsOf rest := by rw [← hlog]; rfl
    rw [hins] at this
    exact (List.cons.inj this).1.symm
  have hwait : r' ∈ (sys.ctx t ses).view.db.waiting input.sectionId :=
    List.mem_filter.mpr ⟨hreply.row, by simp [Enrollment.waitlisted, h.waitlisted]⟩
  have hrank := hreply.rank _ h.waitlisted (hview.place hwait)
  rw [rankAt_last hview hlast] at hrank
  refine ⟨hreply.id, hwait, hrank, c₁, hl, hlog₁, ?_⟩
  rw [hrank]
  unfold Db.waiting
  rw [hrows]

/-! ## 6. Every run -/

/-- **All ranks agree.**  In every reachable state the count, the join and the list give a waiting
row one number, whatever rows the join is asked for; over a section these numbers are the ones from
one to the number of waiting rows; and an enroll that joins a waitlist answers with the length of
the waitlist, as it is right after the insert and in the world it commits. -/
theorem ranks_agree {w : World} (hv : w.Valid) (hp : Positioned w) {sys : Sys}
    (hr : Txn.Sys.Reach (fun _ _ => True) (Txn.Sys.init w) sys) (student : UserId → StudentName)
    (x : Nat) :
    (∀ s, ∀ r ∈ sys.world.db.waiting s, ∃ p l, r.waitlistPosition = some p ∧
      (computeRank s p).solo x sys.world = some (.ok (sys.world.db.rankAt s p), sys.world) ∧
      (∀ rows, (∀ q ∈ rows, q.Of sys.world.db) → ⟨r.id, s, p⟩ ∈ rows →
        computeRanks sys.world.db rows r.id = some (sys.world.db.rankAt s p)) ∧
      (listForSection student s).solo x sys.world = some (.ok l, sys.world) ∧
      (∃ e ∈ l, e.enrollmentId = r.id) ∧
      ∀ e ∈ l, e.enrollmentId = r.id → e.position = sys.world.db.rankAt s p) ∧
    (∀ s, ((sys.world.db.waiting s).map (fun r => sys.world.db.rankAt s (place r))).Perm
      (List.range' 1 (sys.world.db.waiting s).length)) ∧
    (∀ t ses input u actor a r sys', Joining sys t ses input u actor a r →
      sys.step (.commit t) = some sys' →
        a.id = r.id ∧ r ∈ sys'.world.db.waiting input.sectionId ∧
        a.waitlistPosition = some (sys'.world.db.waiting input.sectionId).length ∧
        ∃ c₁, Later positioning ses.op c₁ (sys.ctx t ses) ∧ c₁.log = [.enrollmentInsert r] ∧
          a.waitlistPosition = some (c₁.view.db.waiting input.sectionId).length) := by
  have hG : (replying positioning).Good sys :=
    (replying_run (J := fun _ => True) (positioning_fits _ _) (fun _ _ _ _ _ _ _ => trivial) hv hp
      trivial hr).1
  have hv' := hG.inv.1
  have hp' : Positioned sys.world := hG.inv.2
  refine ⟨fun s r hrow => ?_, ranks_range hv' hp', ?_⟩
  · obtain ⟨hmem, rfl, hst⟩ := mem_waiting.mp hrow
    refine ⟨place r, _, hp'.place hrow, computeRank_solo x _ _ _, ?_,
      listForSection_solo student x _ _, exists_entry student hrow, ?_⟩
    · exact fun rows hrows hq => computeRanks_eq hv' hp' hrows hq
    · exact fun e he hid => position_of_entry hv' hp' he hrow hid
  · intro t ses input u actor a r sys' hjoin hs
    obtain ⟨ses', a', ht, -, rfl⟩ := Discipline.commit_cases hs
    obtain rfl : ses = ses' := Option.some.inj (hjoin.session.symm.trans ht)
    exact joined_length hG hjoin

namespace Campus

/-- Student 3 is put before student 2, and student 4 is about to join them. -/
def joining : List (Label registrar) :=
  busy ++ serve 2 (enroll 3 10) 14 102 ++ serve 3 (.reorder 10 ⟨[102, 101], by decide⟩ (actor 4)) 5 0 ++
    .begin 4 (enroll 4 10) :: execs 4 14 103

set_option maxRecDepth 8000 in
theorem joining_runs : (Txn.Sys.run (Txn.Sys.init world) joining).isSome = true := by decide

def beforeJoin : Sys := (Txn.Sys.run (Txn.Sys.init world) joining).get joining_runs

set_option maxRecDepth 8000 in
theorem joining_commits : (beforeJoin.step (.commit 4)).isSome = true := by decide

/-- The row of student 2, which waits second. -/
def second : Enrollment := ⟨101, 2, 10, .WAITLISTED, some 2, 10, none, none, 10⟩

/-- What student 4 is answered. -/
def joined : EnrollmentResultDto :=
  { id := 103, studentId := 4, sectionId := 10, status := .WAITLISTED, enrolledAt := 10
    droppedAt := none, sectionEnrolledCount := 1, sectionCapacity := 1, waitlistPosition := some 3 }

set_option maxRecDepth 8000 in
/-- Student 2 stands second by every path, and student 4 will stand third. -/
theorem ranks_agree_joined :
    (∃ l, (computeRank 10 2).solo (E := postgres) 0 beforeJoin.world
        = some (.ok 2, beforeJoin.world) ∧
      (listForSection (fun _ => ⟨"Ada", "Byron"⟩) 10).solo (E := postgres) 0 beforeJoin.world
        = some (.ok l, beforeJoin.world) ∧
      ∀ e ∈ l, e.enrollmentId = 101 → e.position = 2) ∧
    ((beforeJoin.world.db.waiting 10).map
      (fun r => beforeJoin.world.db.rankAt 10 (place r))).Perm [1, 2] ∧
    joined.waitlistPosition
      = some (((beforeJoin.step (.commit 4)).get joining_commits).world.db.waiting 10).length := by
  have hr : Txn.Sys.Reach (fun _ _ => True) (Txn.Sys.init world) beforeJoin :=
    .of_run .refl (fun _ _ _ => trivial) (Option.some_get joining_runs).symm
  obtain ⟨hrow, hrange, hjoin⟩ :=
    ranks_agree world_valid world_positioned hr (fun _ => ⟨"Ada", "Byron"⟩) 0
  have hrank : beforeJoin.world.db.rankAt 10 2 = 2 := by decide
  have hlength : (beforeJoin.world.db.waiting 10).length = 2 := by decide
  refine ⟨?_, ?_, ?_⟩
  · obtain ⟨p, l, hp, hcount, -, hlist, -, hposition⟩ := hrow 10 second (by decide)
    obtain rfl : p = 2 := (Option.some.inj hp).symm
    rw [hrank] at hcount hposition
    exact ⟨l, hcount, hlist, hposition⟩
  · have hperm := hrange 10
    rw [hlength] at hperm
    exact hperm
  · have hjoining : Joining beforeJoin 4 _ ⟨10⟩ 4 (actor 4) joined
        ((queueRow 4 10 3).row 103 10) := ⟨rfl, rfl, rfl, by decide, rfl⟩
    exact (hjoin 4 _ ⟨10⟩ 4 (actor 4) joined _ _ hjoining
      (Option.some_get joining_commits).symm).2.2.1

end Campus

end Enroll
