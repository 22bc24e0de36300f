/-
# What a committed promotion, reorder, expiry or update has done

`runPromotion_spec`: the promoted rows are the first rows of the waitlist, in order, as many as
there were open seats or waiting students.  The loop reads the head of the waitlist anew in every
turn, from a view that holds the turns before; the loop invariant `Promoting` says that this is
the next row of the waitlist that was there when the section was locked.

`reorder_spec` has both directions of the check: a reorder that commits was sent a permutation of
the waitlist, and one that fails, on a section that exists, was not.
-/
import Enroll.SwapSpec
import Mathlib.Data.List.Dedup

namespace Enroll

open Txn (Ctx Prog Forward wp wp_bind)

variable {X : Extra} {op : Op} {c c' : Ctx postgres}

/-! ## 1. Turns -/

/-- One row off the waitlist: when it was, and the outbox row and notice about it. -/
structure Turn where
  row : Enrollment
  stamp : Time
  noticedAt : Time
  outboxId : OutboxId
  eventAt : Time

/-- The rows of turns are distinct. -/
theorem nodup_turns {turns : List Turn} {rows : List Enrollment}
    (hnd : (rows.map Enrollment.id).Nodup) (h : turns.map Turn.row = rows) :
    (turns.map fun u => u.row.id).Nodup := by
  rw [← h, List.map_map] at hnd
  exact hnd

/-- The writes of a promotion turn. -/
def Turn.promoted (sec : SectionJoin) (u : Turn) : List Write :=
  [.enrollmentPatch u.row.id (promotion u.stamp),
    .notificationInsert ((promotedNotice sec ((promotion u.stamp).patch u.row)).row u.noticedAt),
    .auditInsert ((promotedEvent u.row ((promotion u.stamp).patch u.row)).row u.outboxId u.eventAt)]

/-- The writes of an expiry turn. -/
def Turn.expired (sectionId : SectionId) (u : Turn) : List Write :=
  [.enrollmentPatch u.row.id (departure u.stamp),
    .auditInsert ((expiredEvent u.row).row u.outboxId u.eventAt),
    .notificationInsert ((expiredNotice sectionId u.row).row u.noticedAt)]

/-- The outbox ids of the turns were drawn under the lock of `s`, one after the other. -/
structure DrawnInOrder (X : Extra) (op : Op) (s : SectionId) (turns : List Turn)
    (c : Ctx postgres) : Prop where
  drawn : ∀ u ∈ turns, Drawn X op [s] u.outboxId c
  ascending : (turns.map Turn.outboxId).Pairwise (· < ·)

theorem DrawnInOrder.later {s : SectionId} {turns : List Turn}
    (h : DrawnInOrder X op s turns c) (hl : Later X op c c') : DrawnInOrder X op s turns c' :=
  ⟨fun u hu => (h.drawn u hu).later hl, h.ascending⟩

theorem DrawnInOrder.nil {s : SectionId} : DrawnInOrder X op s [] c :=
  ⟨fun _ h => absurd h List.not_mem_nil, List.Pairwise.nil⟩

/-- One more turn, drawn at `c₁` after all the others. -/
theorem DrawnInOrder.snoc {s : SectionId} {turns : List Turn} {u : Turn} {c₁ : Ctx postgres}
    (h : DrawnInOrder X op s turns c') (hlt : ∀ v ∈ turns, v.outboxId ≤ c₁.world.seq)
    (hu : u.outboxId = c₁.world.seq + 1) (hd : Drawn X op [s] u.outboxId c') :
    DrawnInOrder X op s (turns ++ [u]) c' := by
  refine ⟨fun v hv => ?_, ?_⟩
  · rcases List.mem_append.mp hv with hv | hv
    · exact h.drawn v hv
    · rw [List.mem_singleton.mp hv]
      exact hd
  · rw [List.map_append, List.pairwise_append]
    refine ⟨h.ascending, List.pairwise_singleton _ _, fun n hn m hm => ?_⟩
    obtain ⟨v, hv, rfl⟩ := List.mem_map.mp hn
    have hm' : m = c₁.world.seq + 1 := (by simpa using hm : m = u.outboxId).trans hu
    exact hm' ▸ Nat.lt_succ_of_le (hlt v hv)

/-! ## 2. Promotion -/

theorem promotion_leaves (t : Time) : (promotion t).leaves := fun _ => rfl

theorem departure_leaves (t : Time) : (departure t).leaves := fun _ => rfl

/-- The updates of some promotion turns. -/
def promotions (turns : List Turn) : List (EnrollmentId × EnrollmentData) :=
  turns.map (fun u => (u.row.id, promotion u.stamp))

theorem promotions_leave (turns : List Turn) : ∀ p ∈ promotions turns, p.2.leaves := by
  intro p hp
  obtain ⟨u, -, rfl⟩ := List.mem_map.mp hp
  exact promotion_leaves u.stamp

theorem promotions_ids (turns : List Turn) :
    (promotions turns).map Prod.fst = (turns.map Turn.row).map Enrollment.id := by
  unfold promotions
  rw [List.map_map, List.map_map]
  rfl

/-- Of the writes of the turns, only the updates concern the rows of a section. -/
theorem rowsOf_promoted (sec : SectionJoin) (turns : List Turn) (s : SectionId) (w : World) :
    (applyLog (turns.flatMap (Turn.promoted sec)) w).db.rowsOf s
      = patchAll (promotions turns) (w.db.rowsOf s) := by
  rw [rowsOf_applyLog]
  generalize w.db.rowsOf s = rows
  induction turns generalizing rows with
  | nil => rfl
  | cons u turns ih =>
    rw [List.flatMap_cons, List.foldl_append]
    exact ih _

theorem inserted_promoted (sec : SectionJoin) (turns : List Turn) :
    (turns.flatMap (Turn.promoted sec)).flatMap Write.inserted = [] := by
  induction turns with
  | nil => rfl
  | cons u turns ih => rw [List.flatMap_cons, List.flatMap_append, ih]; rfl

/-- The promotion loop after some turns: it has taken the first rows off the waitlist. -/
structure Promoting (X : Extra) (op : Op) (s : SectionId) (sec : SectionJoin) (turns : List Turn)
    (c : Ctx postgres) : Prop where
  lock : Locked c s sec.sec
  rows : turns.map Turn.row = (byPosition (c.world.db.waiting s)).take turns.length
  drawn : DrawnInOrder X op s turns c
  last : ∀ u ∈ turns, u.outboxId ≤ c.world.seq
  log : c.log = turns.flatMap (Turn.promoted sec)

theorem Promoting.later {s : SectionId} {sec : SectionJoin} {turns : List Turn}
    (h : Promoting X op s sec turns c) (hl : Later X op c c') (hlog : c'.log = c.log) :
    Promoting X op s sec turns c' where
  lock := h.lock.later hl
  rows := by rw [Later.waiting hl h.lock.held]; exact h.rows
  drawn := h.drawn.later hl
  last u hu := Nat.le_trans (h.last u hu) hl.rely.grows.seq
  log := hlog.trans h.log

/-- **The waitlist that the loop sees is the one it started with, less the rows it has taken.** -/
theorem Promoting.view_waiting {s : SectionId} {sec : SectionJoin} {turns : List Turn}
    (h : Promoting X op s sec turns c) (hv : c.world.Valid) :
    byPosition (c.view.db.waiting s) = (byPosition (c.world.db.waiting s)).drop turns.length := by
  have hview : c.view.db.rowsOf s = patchAll (promotions turns) (c.world.db.rowsOf s) := by
    rw [← rowsOf_promoted sec, ← h.log]
    rfl
  unfold Db.waiting
  rw [hview]
  refine byPosition_headsLeft (promotions_leave turns)
    (Keyed.nodup_filter _ hv.db.enrollment_id) ?_
  rw [promotions_ids, h.rows]
  rfl

/-- The log of the loop changes no id. -/
theorem enrollments_applyLog {log : List Write} (hins : log.flatMap Write.inserted = [])
    (w : World) : (applyLog log w).db.enrollments = w.db.enrollments.map (rowImage log) := by
  induction log generalizing w with
  | nil => exact (List.map_id _).symm
  | cons wr log ih =>
    rw [List.flatMap_cons, List.append_eq_nil_iff] at hins
    rw [applyLog_cons, ih hins.2, apply_db, enrollments_onDb, hins.1, List.append_nil,
      List.map_map]
    rfl

theorem enrollment_id_applyLog {log : List Write} (hins : log.flatMap Write.inserted = [])
    {w : World} (hv : w.Valid) :
    ((applyLog log w).db.enrollments.map Enrollment.id).Nodup := by
  rw [enrollments_applyLog hins, List.map_map]
  have : Enrollment.id ∘ rowImage log = Enrollment.id := funext fun r => rowImage_id log r
  rw [this]
  exact hv.db.enrollment_id

/-- A row at the head of the view's waitlist is what its id looks up. -/
theorem Promoting.lookup {s : SectionId} {sec : SectionJoin} {turns : List Turn} {next : Enrollment}
    (h : Promoting X op s sec turns c) (hv : c.world.Valid)
    (hnext : next ∈ byPosition (c.view.db.waiting s)) :
    c.view.db.enrollment? next.id = some next := by
  refine Keyed.lookup_of_mem ?_ (mem_waiting.mp (mem_byPosition.mp hnext)).1
  refine enrollment_id_applyLog ?_ hv
  rw [h.log]
  exact inserted_promoted sec turns

/-- One turn of the loop. -/
theorem promote_spec {s : SectionId} {sec : SectionJoin} {turns : List Turn} {next : Enrollment}
    {Q : Except Failure Unit → Ctx postgres → Prop} (h : Promoting X op s sec turns c)
    (hnext : (byPosition (c.world.db.waiting s))[turns.length]? = some next)
    (hok : ∀ c' u, Later X op c c' → Promoting X op s sec (turns ++ [u]) c' → Q (.ok ()) c')
    (herr : ∀ c' e, e ≠ .checkViolation → Q (.error (.db e)) c') :
    wp (Others X op) DrawsOnly (promote sec next) Q c := by
  refine wp_bind (wp_query fun c₁ h₁ _ => ?_)
  have p₁ := h.later h₁.later h₁.log
  generalize Query.now.eval c₁.view = stamp
  have hnext₁ : (byPosition (c₁.world.db.waiting s))[turns.length]? = some next := by
    rw [Later.waiting h₁.later h.lock.held]
    exact hnext
  refine wp_bind (wp_enrollmentUpdate (fun c₂ r h₂ hlog₂ hr => ?_)
    (fun c' _ _ => herr c' _ (by simp)) (fun c' _ _ _ _ _ => herr c' _ (by simp)))
  -- the row that is updated is the head that was read
  have p₂ : Promoting X op s sec turns (c₁.at' c₂.world) :=
    p₁.later (Quiet.of_others h₂.rely).later rfl
  have hhead : next ∈ byPosition ((c₁.at' c₂.world).view.db.waiting s) := by
    rw [p₂.view_waiting h₂.rely.valid]
    refine List.mem_of_getElem? (i := 0) ?_
    rw [List.getElem?_drop, Nat.add_zero]
    refine Eq.trans ?_ hnext₁
    exact congrArg (fun l => (byPosition l)[turns.length]?) (Later.waiting h₂ p₁.lock.held)
  have hlookup := p₂.lookup h₂.rely.valid hhead
  have hrow : r = next := by
    rw [show (seen c₁ c₂) = (c₁.at' c₂.world).view from rfl, hlookup] at hr
    exact (Option.some.inj hr).symm
  subst hrow
  refine wp_bind (wp_createInTx fun c₃ noticedAt h₃ hlog₃ => ?_)
  refine wp_recordEvent fun c₄ c₅ h₄ h₅ hlog₅ hseq => ?_
  have h₁₄ := (h₂.trans h₃).trans h₄.later
  have h₁₅ := h₁₄.trans h₅
  refine hok c₅ ⟨r, stamp, noticedAt, c₄.world.seq + 1, c₄.world.now⟩ (h₁.later.trans h₁₅) ?_
  have hwait : c₅.world.db.waiting s = c₁.world.db.waiting s := Later.waiting h₁₅ p₁.lock.held
  refine ⟨p₁.lock.later h₁₅, ?_, ?_, ?_, ?_⟩
  · rw [List.map_append, List.length_append, hwait, p₁.rows]
    simp only [List.map_cons, List.map_nil, List.length_cons, List.length_nil, Nat.zero_add]
    rw [List.take_add_one, hnext₁]
    rfl
  · refine (p₁.drawn.later h₁₅).snoc (fun v hv => Nat.le_trans (p₁.last v hv) h₁₄.rely.grows.seq)
      rfl (.of_now ?_ h₅ hseq)
    exact fun s' hs' => List.mem_singleton.mp hs' ▸ (p₁.lock.later h₁₄).held
  · intro v hv
    rcases List.mem_append.mp hv with hv | hv
    · exact Nat.le_trans (p₁.last v hv) h₁₅.rely.grows.seq
    · rw [List.mem_singleton.mp hv]
      exact Nat.le_of_eq hseq.symm
  · rw [hlog₅, hlog₃, hlog₂, p₁.log, List.flatMap_append, List.flatMap_singleton]
    simp [Turn.promoted]

/-- The head of the view's waitlist is the next row. -/
theorem wp_waitlistHead {s : SectionId} {sec : SectionJoin} {turns : List Turn}
    {Q : Except Failure (Option EnrollmentJoin) → Ctx postgres → Prop}
    (p : Promoting X op s sec turns c)
    (hok : ∀ c', Quiet X op c c' → Q (.ok (((byPosition (c'.world.db.waiting s))[turns.length]?).map
      c'.view.db.joinEnrollment)) c') :
    wp (Others X op) DrawsOnly (waitlistHead s) Q c := by
  refine wp_bind (wp_query fun c₁ h₁ _ => ?_)
  have hhead : ((Query.enrollmentFindManyByPosition
        { sectionId := some s, status := some [.WAITLISTED] }).eval c₁.view).head?
      = ((byPosition (c₁.world.db.waiting s))[turns.length]?).map c₁.view.db.joinEnrollment := by
    have hview := (p.later h₁.later h₁.log).view_waiting h₁.later.rely.valid
    simp only [Query.eval, select_waiting]
    rw [hview, List.head?_map, List.head?_drop]
  have hq := hok c₁ h₁
  rw [← hhead] at hq
  exact hq

/-- The loop is done: every seat is taken or nobody waits. -/
def PromotedAll (s : SectionId) (sec : SectionJoin) (turns : List Turn) (c : Ctx postgres) :
    Prop :=
  sec.sec.enrolledCount + turns.length = sec.sec.capacity ∨
    turns.length = (c.world.db.waiting s).length

/-- **The promotion loop**, from a point with `turns` behind it and `fuel` open seats ahead. -/
theorem promoteLoop_spec {s : SectionId} {sec : SectionJoin}
    {Q : Except Failure (Int × Nat) → Ctx postgres → Prop}
    (hok : ∀ c' turns, c'.world.Valid → X.inv c'.world → Promoting X op s sec turns c' →
      sec.sec.enrolledCount + turns.length ≤ sec.sec.capacity →
      PromotedAll s sec turns c' →
      Q (.ok (sec.sec.enrolledCount + turns.length, turns.length)) c')
    (herr : ∀ c' e, e ≠ .checkViolation → Q (.error (.db e)) c') :
    ∀ (fuel : Nat) (turns : List Turn) (c : Ctx postgres), c.world.Valid → X.inv c.world →
      Promoting X op s sec turns c →
      sec.sec.enrolledCount + turns.length + fuel = sec.sec.capacity →
      wp (Others X op) DrawsOnly
        (promoteLoop sec s fuel (sec.sec.enrolledCount + turns.length) turns.length) Q c := by
  intro fuel
  induction fuel with
  | zero =>
    intro turns c hv hi p hseats
    exact hok c turns hv hi p (by omega) (Or.inl (by omega))
  | succ fuel ih =>
    intro turns c hv hi p hseats
    unfold promoteLoop
    rw [if_pos (by omega)]
    refine wp_bind (wp_waitlistHead p fun c₁ h₁ => ?_)
    have p₁ := p.later h₁.later h₁.log
    cases hnext : (byPosition (c₁.world.db.waiting s))[turns.length]? with
    | none =>
      refine hok c₁ turns h₁.later.rely.valid h₁.later.rely.inv p₁ (by omega) (Or.inr ?_)
      have hlen := congrArg List.length p₁.rows
      rw [List.length_map, List.length_take, length_byPosition] at hlen
      rw [List.getElem?_eq_none_iff, length_byPosition] at hnext
      omega
    | some next =>
      refine wp_bind (promote_spec p₁ hnext (fun c₂ u h₂ p₂ => ?_) herr)
      have := ih (turns ++ [u]) c₂ h₂.rely.valid h₂.rely.inv p₂
        (by rw [List.length_append, List.length_singleton]; omega)
      rw [List.length_append, List.length_singleton, Int.natCast_add, Int.natCast_one,
        ← Int.add_assoc] at this
      exact this

/-- What `runPromotion` is about to commit, if anything. -/
structure PromotionOutcome (X : Extra) (op : Op) (s : SectionId) (sec : SectionJoin)
    (turns : List Turn) (c : Ctx postgres) : Prop where
  lock : Locked c s sec.sec
  some : turns ≠ []
  rows : turns.map Turn.row = (byPosition (c.world.db.waiting s)).take turns.length
  seats : sec.sec.enrolledCount + turns.length ≤ sec.sec.capacity
  all : PromotedAll s sec turns c
  drawn : DrawnInOrder X op s turns c
  log : c.log = turns.flatMap (Turn.promoted sec) ++
    [.sectionPatch s (counterSet (sec.sec.enrolledCount + turns.length))]

theorem PromotionOutcome.later {s : SectionId} {sec : SectionJoin} {turns : List Turn}
    (h : PromotionOutcome X op s sec turns c) (hl : Later X op c c') (hlog : c'.log = c.log) :
    PromotionOutcome X op s sec turns c' := by
  have hw := Later.waiting hl h.lock.held
  refine ⟨h.lock.later hl, h.some, by rw [hw]; exact h.rows, h.seats, ?_, h.drawn.later hl,
    hlog.trans h.log⟩
  unfold PromotedAll
  rw [hw]
  exact h.all

/-- The promoted rows were waiting. -/
theorem PromotionOutcome.waiting {s : SectionId} {sec : SectionJoin} {turns : List Turn}
    (h : PromotionOutcome X op s sec turns c) {u : Turn} (hu : u ∈ turns) :
    u.row ∈ c.world.db.waiting s := by
  have hmem : u.row ∈ (byPosition (c.world.db.waiting s)).take turns.length :=
    h.rows ▸ List.mem_map_of_mem hu
  exact mem_byPosition.mp (List.mem_of_mem_take hmem)

def PromotionEnds (X : Extra) (op : Op) (s : SectionId) (c : Ctx postgres) : Prop :=
  c.log = [] ∨ ∃ sec turns, PromotionOutcome X op s sec turns c

theorem section?_promoted (sec : SectionJoin) (turns : List Turn) (s : SectionId) (w : World) :
    (applyLog (turns.flatMap (Turn.promoted sec)) w).db.section? s = w.db.section? s := by
  rw [section?_applyLog]
  generalize w.db.section? s = o
  induction turns generalizing o with
  | nil => rfl
  | cons u turns ih =>
    rw [List.flatMap_cons, List.foldl_append]
    exact ih _

/-- What a promotion run leaves behind: there is no such section, its term had closed, or a seat is
open only if nobody waits. -/
inductive PromotionLeft (X : Extra) (op : Op) (s : SectionId) (c : Ctx postgres) : Prop
  | missing (row : c.world.db.section? s = none)
  | closed (live : Section) (lock : Locked c s live)
      (late : Earlier X op (fun c₁ =>
        (c₁.world.db.ref.term live.termId).registrationCloses < c.world.now) c)
  | settled (held : c.held (.sectionRow s))
      (full : ∀ sec, c.view.db.section? s = some sec → sec.enrolledCount < sec.capacity →
        c.view.db.waiting s = [])

theorem PromotionLeft.later {s : SectionId} (h : PromotionLeft X op s c) (hl : Later X op c c')
    (hlog : c'.log = c.log) : PromotionLeft X op s c' := by
  cases h with
  | missing row => exact .missing (hl.rely.grows.section?_none row)
  | closed live lock late =>
    obtain ⟨c₁, h₁, hlate⟩ := late
    exact .closed live (lock.later hl)
      ⟨c₁, h₁.trans hl, Nat.lt_of_lt_of_le hlate hl.rely.grows.now⟩
  | settled held full =>
    have hrow := Later.view_section? hl held hlog
    have hwait : c'.view.db.waiting s = c.view.db.waiting s :=
      congrArg (List.filter Enrollment.waitlisted) (Later.view_rowsOf hl held hlog)
    exact .settled (hl.held _ held) (by rw [hrow, hwait]; exact full)

/-- What `runPromotion` is about to commit, and what it leaves. -/
abbrev PromotionRan (X : Extra) (op : Op) (s : SectionId) :
    Except Failure Unit → Ctx postgres → Prop :=
  Ends (fun _ c => PromotionEnds X op s c ∧ PromotionLeft X op s c)
    (fun e _ => e ≠ .db .checkViolation)

/-- A loop that has emptied the waitlist leaves nobody in the view. -/
theorem Promoting.view_waiting_nil {s : SectionId} {sec : SectionJoin} {turns : List Turn}
    (h : Promoting X op s sec turns c) (hv : c.world.Valid)
    (hlen : turns.length = (c.world.db.waiting s).length) : c.view.db.waiting s = [] := by
  have hdrop := h.view_waiting hv
  rw [List.drop_of_length_le (by rw [length_byPosition]; omega)] at hdrop
  refine List.eq_nil_iff_forall_not_mem.mpr fun r hr => ?_
  have hmem := mem_byPosition.mpr hr
  rw [hdrop] at hmem
  exact absurd hmem List.not_mem_nil

/-- The counter is stored, if anybody was promoted. -/
theorem storeCount_spec {s : SectionId} {sec : SectionJoin} {turns : List Turn}
    (hv : c.world.Valid) (p : Promoting X op s sec turns c)
    (hle : sec.sec.enrolledCount + turns.length ≤ sec.sec.capacity)
    (hall : PromotedAll s sec turns c) :
    wp (Others X op) DrawsOnly
      (storeCount s (sec.sec.enrolledCount + turns.length) turns.length) (PromotionRan X op s) c := by
  unfold storeCount
  split
  · rename_i hpos
    refine wp_bind (wp_sectionUpdate (fun c₁ sec₁ h₁ hlog₁ hsec₁ _ => ?_)
      (fun _ _ _ => by simp [Ends, Txn.andThen]) (fun c₁ sec₁ h₁ hsec₁ hcheck => ?_))
    · have hw := Later.waiting h₁ p.lock.held
      refine ⟨Or.inr ⟨sec, turns, p.lock.later h₁, List.ne_nil_of_length_pos hpos,
        by rw [hw]; exact p.rows, hle, ?_, p.drawn.later h₁, by rw [hlog₁, p.log]⟩,
        .settled (h₁.held _ p.lock.held) fun sec' hsec' hopen => ?_⟩
      · unfold PromotedAll
        rw [hw]
        exact hall
      · rw [seen, p.log, section?_promoted, (p.lock.later h₁).row, Option.some.injEq] at hsec₁
        subst hsec₁
        have hrow : c₁.view.db.section? s
            = some ((counterSet (sec.sec.enrolledCount + turns.length)).patch sec.sec) := by
          refine view_section?_updated hlog₁ ?_
          rw [seen, p.log, section?_promoted]
          exact (p.lock.later h₁).row
        obtain rfl := Option.some.inj (hsec'.symm.trans hrow)
        have hlt : sec.sec.enrolledCount + (turns.length : Int) < sec.sec.capacity := hopen
        -- a seat is left, so the loop ran out of students
        have hnil := (p.later (Quiet.of_others h₁.rely).later rfl).view_waiting_nil h₁.rely.valid
          (by
            have hsame : ((c.at' c₁.world).world.db.waiting s).length
                = (c.world.db.waiting s).length := congrArg List.length hw
            rw [hsame]
            exact hall.resolve_left (Int.ne_of_lt hlt))
        have hview : c₁.view.db.waiting s = (c.at' c₁.world).view.db.waiting s := by
          have hviews : c₁.view = applyLog c₁.log c₁.world := rfl
          unfold Db.waiting
          rw [hviews, hlog₁, applyLog_append, rowsOf_applyLog]
          rfl
        exact hview.trans hnil
    · rw [seen, p.log, section?_promoted, (p.lock.later h₁).row, Option.some.injEq] at hsec₁
      subst hsec₁
      have := p.lock.seats hv
      have hno : ¬ (0 ≤ sec.sec.enrolledCount + turns.length ∧
        sec.sec.enrolledCount + turns.length ≤ sec.sec.capacity) := of_decide_eq_false hcheck
      exact absurd ⟨by omega, hle⟩ hno
  · rename_i hzero
    have hturns := List.eq_nil_of_length_eq_zero (Nat.eq_zero_of_not_pos hzero)
    subst hturns
    have hlog : c.log = [] := p.log
    refine ⟨Or.inl hlog, .settled p.lock.held fun sec' hsec' hopen => ?_⟩
    rw [view_of_log_nil hlog] at hsec'
    obtain rfl := Option.some.inj (hsec'.symm.trans p.lock.row)
    refine p.view_waiting_nil hv (hall.resolve_left fun hfull => ?_)
    rw [List.length_nil] at hfull
    omega

/-- **What `runPromotion` has done and left when it commits; it never trips over the `CHECK`.** -/
theorem runPromotion_leaves {s : SectionId} (hlog : c.log = []) :
    wp (Others X op) DrawsOnly (runPromotion s) (PromotionRan X op s) c := by
  refine wp_bind (wp_sectionForUpdate fun c₁ h₁ hlog₁ hheld _ => ?_)
  rw [hlog] at hlog₁
  rw [view_of_log_nil hlog₁] at hheld ⊢
  cases hs : c₁.world.db.section? s with
  | none => exact ⟨Or.inl hlog₁, .missing hs⟩
  | some row =>
    have lock : Locked c₁ s row := ⟨hheld (by rw [hs]; rfl), hs⟩
    refine wp_bind (wp_query fun c₂ h₂ _ => ?_)
    have hlog₂ := h₂.log_nil hlog₁
    show wp _ _ (if _ then _ else _) _ _
    split
    · rename_i hlate
      have hnow : Query.now.eval c₂.view = c₂.world.now := applyLog_now c₂.log c₂.world
      rw [hnow] at hlate
      exact ⟨Or.inl hlog₂, .closed row (lock.later h₂.later) ⟨c₁, h₂.later, hlate⟩⟩
    · have lock₂ := lock.later h₂.later
      have hseats := lock₂.seats h₂.later.rely.valid
      have p₂ : Promoting X op s (c₁.world.db.joinSection row) [] c₂ :=
        ⟨lock₂, rfl, .nil, fun _ h => absurd h List.not_mem_nil, hlog₂⟩
      -- as many turns as there are open seats
      have hturns : row.enrolledCount + (([] : List Turn).length : Int)
          + (row.capacity - row.enrolledCount).toNat = row.capacity := by
        rw [List.length_nil]
        omega
      have hloop := promoteLoop_spec
        (Q := Txn.andThen (Others X op) DrawsOnly (fun done => storeCount s done.1 done.2)
          (PromotionRan X op s))
        (fun c₃ turns hv _ p hle hall => storeCount_spec hv p hle hall)
        (fun c' e he => by simpa [Ends, Txn.andThen] using he) _ []
        c₂ h₂.later.rely.valid h₂.later.rely.inv p₂ hturns
      rw [List.length_nil, Int.ofNat_zero, Int.add_zero] at hloop
      exact wp_bind hloop

/-- **What `runPromotion` has done when it commits; it never trips over the `CHECK`.** -/
theorem runPromotion_spec {s : SectionId} (hlog : c.log = []) :
    wp (Others X op) DrawsOnly (runPromotion s)
      (Ends (fun _ => PromotionEnds X op s) (fun e _ => e ≠ .db .checkViolation)) c := by
  refine Txn.wp_mono ?_ (runPromotion_leaves hlog)
  intro r c' hr
  cases r with
  | ok a => exact hr.1
  | error e => exact hr

/-! ## 3. Expiry -/

/-- What `expireSectionWaitlist` is about to commit, if anything. -/
structure ExpiryOutcome (X : Extra) (op : Op) (s : SectionId) (live : Section)
    (turns : List Turn) (c : Ctx postgres) : Prop where
  lock : Locked c s live
  rows : turns.map Turn.row = c.world.db.waiting s
  drawn : DrawnInOrder X op s turns c
  log : c.log = turns.flatMap (Turn.expired s)

theorem ExpiryOutcome.later {s : SectionId} {live : Section} {turns : List Turn}
    (h : ExpiryOutcome X op s live turns c) (hl : Later X op c c') (hlog : c'.log = c.log) :
    ExpiryOutcome X op s live turns c' :=
  ⟨h.lock.later hl, by rw [Later.waiting hl h.lock.held]; exact h.rows, h.drawn.later hl,
    hlog.trans h.log⟩

/-- The expired rows were waiting. -/
theorem ExpiryOutcome.waiting {s : SectionId} {live : Section} {turns : List Turn}
    (h : ExpiryOutcome X op s live turns c) {u : Turn} (hu : u ∈ turns) :
    u.row ∈ c.world.db.waiting s := h.rows ▸ List.mem_map_of_mem hu

def ExpiryEnds (X : Extra) (op : Op) (s : SectionId) (c : Ctx postgres) : Prop :=
  (c.log = [] ∧ c.world.db.section? s = none) ∨ ∃ live turns, ExpiryOutcome X op s live turns c

/-- The expiry loop with the rows `rest` still to come. -/
structure Expiring (X : Extra) (op : Op) (s : SectionId) (live : Section) (turns : List Turn)
    (rest : List Enrollment) (c : Ctx postgres) : Prop where
  lock : Locked c s live
  rows : turns.map Turn.row ++ rest = c.world.db.waiting s
  drawn : DrawnInOrder X op s turns c
  last : ∀ u ∈ turns, u.outboxId ≤ c.world.seq
  log : c.log = turns.flatMap (Turn.expired s)

theorem expireRow_spec {s : SectionId} {live : Section} {turns : List Turn} {row : Enrollment}
    {rest : List Enrollment} {Q : Except Failure Unit → Ctx postgres → Prop}
    (h : Expiring X op s live turns (row :: rest) c)
    (hok : ∀ c' u, Expiring X op s live (turns ++ [u]) rest c' → Q (.ok ()) c')
    (herr : ∀ c' e, e ≠ .checkViolation → Q (.error (.db e)) c') :
    wp (Others X op) DrawsOnly (expireRow s row) Q c := by
  refine wp_bind (wp_query fun c₁ h₁ _ => ?_)
  generalize Query.now.eval c₁.view = stamp
  refine wp_bind (wp_enrollmentUpdate (fun c₂ _ h₂ hlog₂ _ => ?_)
    (fun c' _ _ => herr c' _ (by simp)) (fun c' _ _ _ _ _ => herr c' _ (by simp)))
  refine wp_bind (wp_recordEvent fun c₃ c₄ h₃ h₄ hlog₄ hseq => ?_)
  refine wp_createInTx fun c₅ noticedAt h₅ hlog₅ => ?_
  have h₀₃ := (h₁.later.trans h₂).trans h₃.later
  have h₃₅ := h₄.trans h₅
  have hl := h₀₃.trans h₃₅
  refine hok c₅ ⟨row, stamp, noticedAt, c₃.world.seq + 1, c₃.world.now⟩
    ⟨h.lock.later hl, ?_, ?_, ?_, ?_⟩
  · rw [Later.waiting hl h.lock.held, ← h.rows]
    simp
  · refine (h.drawn.later hl).snoc (fun v hv => Nat.le_trans (h.last v hv) h₀₃.rely.grows.seq)
      rfl (.of_next ?_ h₄ hseq h₅)
    exact fun s' hs' => List.mem_singleton.mp hs' ▸ (h.lock.later h₀₃).held
  · intro v hv
    rcases List.mem_append.mp hv with hv | hv
    · exact Nat.le_trans (h.last v hv) hl.rely.grows.seq
    · rw [List.mem_singleton.mp hv]
      exact Nat.le_trans (Nat.le_of_eq hseq.symm) h₅.rely.grows.seq
  · rw [hlog₅, hlog₄, hlog₂, h₁.log, h.log, List.flatMap_append, List.flatMap_singleton]
    simp [Turn.expired]

/-- **What `expireSectionWaitlist` has done when it commits.** -/
theorem expireSectionWaitlist_spec {s : SectionId} (hlog : c.log = []) :
    wp (Others X op) DrawsOnly (expireSectionWaitlist s)
      (Ends (fun _ => ExpiryEnds X op s) (fun e _ => e ≠ .db .checkViolation)) c := by
  refine wp_bind (wp_sectionForUpdate fun c₁ h₁ hlog₁ hheld _ => ?_)
  rw [hlog] at hlog₁
  rw [view_of_log_nil hlog₁] at hheld ⊢
  cases hs : c₁.world.db.section? s with
  | none => exact Or.inl ⟨hlog₁, hs⟩
  | some row =>
    have lock : Locked c₁ s row := ⟨hheld (by rw [hs]; rfl), hs⟩
    refine wp_bind (wp_query fun c₂ h₂ _ => ?_)
    have hlog₂ := h₂.log_nil hlog₁
    rw [view_of_log_nil hlog₂]
    have hrows : ((Query.enrollmentFindMany
        { sectionId := some s, status := some [.WAITLISTED] }).eval c₂.world).map
          EnrollmentJoin.row = c₂.world.db.waiting s := by
      simp only [Query.eval, select_waiting, List.map_map]
      exact List.map_id _
    show wp _ _ (Prog.each (List.map EnrollmentJoin.row _) _) _ _
    rw [hrows]
    refine Txn.wp_each (fun rest c' => ∃ turns, Expiring X op s row turns rest c') ?_ ?_ ?_
    · rintro next rest c₃ ⟨turns, h⟩
      refine expireRow_spec h (fun c₄ u h₄ => ⟨_, h₄⟩) fun c' e he => ?_
      simpa [Ends] using he
    · rintro c₃ ⟨turns, h⟩
      exact Or.inr ⟨row, turns, h.lock, by rw [← h.rows, List.append_nil], h.drawn, h.log⟩
    · exact ⟨[], lock.later h₂.later, rfl, .nil, fun _ h => absurd h List.not_mem_nil, hlog₂⟩

/-! ## 4. Reorder -/

/-- **The source's set comparison decides whether two duplicate-free lists are permutations.** -/
theorem sameMembers_iff {current submitted : List EnrollmentId} (hc : current.Nodup)
    (hs : submitted.Nodup) : sameMembers current submitted = true ↔ submitted.Perm current := by
  unfold sameMembers
  rw [List.dedup_eq_self.mpr hc, List.dedup_eq_self.mpr hs, Bool.and_eq_true, beq_iff_eq,
    List.all_eq_true]
  constructor
  · rintro ⟨hlen, hall⟩
    have hsub : current ⊆ submitted := fun id hid => List.contains_iff_mem.mp (hall id hid)
    exact ((List.subperm_of_subset hc hsub).perm_of_length_le (Nat.le_of_eq hlen.symm)).symm
  · intro hperm
    exact ⟨hperm.length_eq.symm, fun id hid =>
      List.contains_iff_mem.mpr (hperm.mem_iff.mpr hid)⟩

/-- What `reorder` is about to commit. -/
structure ReorderOutcome (X : Extra) (op : Op) (s : SectionId) (dto : ReorderWaitlistDto)
    (actor : RequestActor) (live : Section) (t : Time) (n : OutboxId) (c : Ctx postgres) :
    Prop where
  lock : Locked c s live
  perm : dto.orderedEnrollmentIds.Perm (c.world.db.wl s)
  drawn : Drawn X op [s] n c
  log : c.log = (placements dto.orderedEnrollmentIds 0).map
      (fun p => .enrollmentPatch p.1 p.2) ++
    [.auditInsert ((reorderedEvent s actor (c.world.db.wl s) dto.orderedEnrollmentIds).row n t)]

theorem Later.wl {s : SectionId} (h : Later X op c c') (hs : c.held (.sectionRow s)) :
    c'.world.db.wl s = c.world.db.wl s := by
  unfold Db.wl
  rw [Later.waiting h hs]

theorem ReorderOutcome.later {s : SectionId} {dto : ReorderWaitlistDto} {actor : RequestActor}
    {live : Section} {t : Time} {n : OutboxId}
    (h : ReorderOutcome X op s dto actor live t n c) (hl : Later X op c c')
    (hlog : c'.log = c.log) : ReorderOutcome X op s dto actor live t n c' := by
  have hw := Later.wl hl h.lock.held
  exact ⟨h.lock.later hl, by rw [hw]; exact h.perm, h.drawn.later hl, by rw [hlog, hw]; exact h.log⟩

theorem placements_ids (ids : List EnrollmentId) (k : Nat) :
    (placements ids k).map Prod.fst = ids := by
  unfold placements
  rw [List.map_map]
  exact List.zipIdx_map_fst k ids

/-- The renumbered rows were waiting. -/
theorem ReorderOutcome.waiting {s : SectionId} {dto : ReorderWaitlistDto} {actor : RequestActor}
    {live : Section} {t : Time} {n : OutboxId} (h : ReorderOutcome X op s dto actor live t n c)
    {p : EnrollmentId × EnrollmentData} (hp : p ∈ placements dto.orderedEnrollmentIds 0) :
    ∃ r ∈ c.world.db.waiting s, r.id = p.1 := by
  have hmem : p.1 ∈ dto.orderedEnrollmentIds := by
    rw [← placements_ids dto.orderedEnrollmentIds 0]
    exact List.mem_map_of_mem hp
  exact mem_wl.mp (h.perm.mem_iff.mp hmem)

/-- Why a reorder fails: there is no such section, or the list is not a permutation of the
waitlist. -/
def ReorderRefused (s : SectionId) (dto : ReorderWaitlistDto) (c : Ctx postgres) : Prop :=
  c.world.db.section? s = none ∨
    ∃ live, Locked c s live ∧ ¬ dto.orderedEnrollmentIds.Perm (c.world.db.wl s)

/-- The updates of the list so far are in the log, and the rest are rows of the waitlist. -/
structure Renumbering (s : SectionId) (live : Section) (waitlist : List EnrollmentId)
    (ids : List EnrollmentId) (rest : List (EnrollmentId × Nat)) (c : Ctx postgres) : Prop where
  lock : Locked c s live
  valid : c.world.Valid
  wl : c.world.db.wl s = waitlist
  mem : ∀ p ∈ rest, p.1 ∈ waitlist
  log : ∃ done, ids.zipIdx = done ++ rest ∧
    c.log = done.map (fun p => .enrollmentPatch p.1 (placeAt p.2))

theorem renumber_spec {s : SectionId} {live : Section} {waitlist ids : List EnrollmentId}
    {p : EnrollmentId × Nat} {rest : List (EnrollmentId × Nat)}
    {Q : Except Failure Unit → Ctx postgres → Prop}
    (h : Renumbering s live waitlist ids (p :: rest) c)
    (hok : ∀ c', Later X op c c' → Renumbering s live waitlist ids rest c' → Q (.ok ()) c') :
    wp (Others X op) DrawsOnly (renumber p) Q c := by
  obtain ⟨done, hids, hlog⟩ := h.log
  refine wp_bind (wp_enrollmentUpdate (fun c₁ _ h₁ hlog₁ _ => ?_) (fun c₁ h₁ hnone => ?_)
    (fun c₁ r h₁ _ hr hactive => ?_))
  · refine hok c₁ h₁ ⟨h.lock.later h₁, h₁.rely.valid, (Later.wl h₁ h.lock.held).trans h.wl,
      fun q hq => h.mem q (List.mem_cons_of_mem p hq), done ++ [p], ?_, ?_⟩
    · rw [hids, List.append_assoc]
      rfl
    · rw [hlog₁, hlog, List.map_append]
      rfl
  · -- the row is on the waitlist, so it is there
    have hmem : p.1 ∈ c₁.world.db.wl s := by
      rw [Later.wl h₁ h.lock.held, h.wl]
      exact h.mem p List.mem_cons_self
    obtain ⟨r, hr, hid⟩ := mem_wl.mp hmem
    have himage : rowImage c.log r ∈ (seen c c₁).db.enrollments :=
      mem_applyLog_of_mem (mem_waiting.mp hr).1
    exact absurd ((rowImage_id _ r).trans hid) (Keyed.lookup_none.mp hnone _ himage)
  · have : ((placeAt p.2).patch r).active = r.active := rfl
    rw [this, hr] at hactive
    exact absurd hactive (by simp)

theorem replaceOrder_spec {s : SectionId} {dto : ReorderWaitlistDto} {actor : RequestActor}
    {live : Section} (hlog : c.log = []) (hv : c.world.Valid) (hi : X.inv c.world)
    (lock : Locked c s live) :
    wp (Others X op) DrawsOnly (replaceOrder s dto actor (c.world.db.wl s))
      (Ends (fun _ c' => ∃ live t n, ReorderOutcome X op s dto actor live t n c')
        (fun e c' => e ≠ .db .checkViolation ∧ ReorderRefused s dto c')) c := by
  have hiff := sameMembers_iff (hv.db.nodup_wl s) dto.unique
  refine wp_bind (Txn.wp_throwIf (fun hchanged => ?_) fun hsame => ?_)
  · refine ⟨by simp [conflict], Or.inr ⟨live, lock, fun hperm => ?_⟩⟩
    rw [hiff.mpr hperm] at hchanged
    exact absurd hchanged (by simp)
  have hperm : dto.orderedEnrollmentIds.Perm (c.world.db.wl s) := hiff.mp (by simpa using hsame)
  refine wp_bind (Txn.wp_each (fun rest c' => Later X op c c' ∧
    Renumbering s live (c.world.db.wl s) dto.orderedEnrollmentIds rest c') ?_ ?_ ?_)
  · rintro p rest c₁ ⟨h₁, h⟩
    exact renumber_spec h fun c₂ h₂ h' => ⟨h₁.trans h₂, h'⟩
  · rintro c₁ ⟨h₁, h⟩
    obtain ⟨done, hids, hlog₁⟩ := h.log
    refine wp_recordEvent fun c₂ c₃ h₂ h₃ hlog₃ hseq => ?_
    have hl := h₂.later.trans h₃
    have hw : c₃.world.db.wl s = c.world.db.wl s := (Later.wl hl h.lock.held).trans h.wl
    refine ⟨live, c₂.world.now, _, h.lock.later hl, by rw [hw]; exact hperm,
      .of_now ?_ h₃ hseq, ?_⟩
    · intro s' hs'
      rw [List.mem_singleton.mp hs']
      exact (h.lock.later h₂.later).held
    · rw [List.append_nil] at hids
      rw [hlog₃, hlog₁, ← hids, hw, placements, List.map_map]
      rfl
  · refine ⟨Later.refl hv hi, lock, hv, rfl, ?_, [], rfl, hlog⟩
    intro p hp
    have : p.1 ∈ dto.orderedEnrollmentIds := by
      rw [← List.zipIdx_map_fst 0 dto.orderedEnrollmentIds]
      exact List.mem_map_of_mem hp
    exact hperm.mem_iff.mp this

/-- **What `reorder` has done when it commits, and why it fails when it fails.** -/
theorem reorder_spec {s : SectionId} {dto : ReorderWaitlistDto} {actor : RequestActor}
    (hlog : c.log = []) :
    wp (Others X op) DrawsOnly (reorder s dto actor)
      (Ends (fun _ c' => ∃ live t n, ReorderOutcome X op s dto actor live t n c')
        (fun e c' => e ≠ .db .checkViolation ∧ ReorderRefused s dto c')) c := by
  refine wp_bind (wp_sectionForUpdate fun c₁ h₁ hlog₁ hheld _ => ?_)
  rw [hlog] at hlog₁
  rw [view_of_log_nil hlog₁] at hheld ⊢
  refine wp_bind (Txn.wp_orThrow (fun hnone => ?_) fun found hfound => ?_)
  · exact ⟨by simp [notFound], Or.inl (Option.map_eq_none_iff.mp hnone)⟩
  obtain ⟨live, hlive, rfl⟩ := Option.map_eq_some_iff.mp hfound
  have lock : Locked c₁ s live := ⟨hheld (by rw [hlive]; rfl), hlive⟩
  refine wp_bind (wp_query fun c₂ h₂ _ => ?_)
  have hlog₂ := h₂.log_nil hlog₁
  rw [view_of_log_nil hlog₂]
  have hcurrent : ((Query.enrollmentFindManyByPosition
      { sectionId := some s, status := some [.WAITLISTED] }).eval c₂.world).map
        (fun e => e.row.id) = c₂.world.db.wl s := by
    simp only [Query.eval, select_waiting, List.map_map, Db.wl]
    rfl
  have hreplace : wp (Others X op) DrawsOnly (replaceOrder s dto actor (c₂.world.db.wl s))
      (Ends (fun _ c' => ∃ live t n, ReorderOutcome X op s dto actor live t n c')
        (fun e c' => e ≠ .db .checkViolation ∧ ReorderRefused s dto c')) c₂ :=
    replaceOrder_spec hlog₂ h₂.later.rely.valid h₂.later.rely.inv (lock.later h₂.later)
  rw [← hcurrent] at hreplace
  exact hreplace

/-! ## 5. Section updates -/

/-- What `SectionsService.update` is about to commit. -/
structure UpdateOutcome (X : Extra) (op : Op) (s : SectionId) (dto : UpdateSectionDto)
    (actor : RequestActor) (live : Section) (t : Time) (n : OutboxId) (c : Ctx postgres) :
    Prop where
  lock : Locked c s live
  enough : live.enrolledCount ≤ (dto.capacity.getD none).getD live.capacity
  drawn : Drawn X op [s] n c
  log : c.log = [.sectionPatch s (limits ((dto.capacity.getD none).getD live.capacity)
      (dto.waitlistCap.getD live.waitlistCap)),
    .auditInsert ((sectionUpdatedEvent s actor live ((dto.capacity.getD none).getD live.capacity)
      (dto.waitlistCap.getD live.waitlistCap)).row n t)]

theorem UpdateOutcome.later {s : SectionId} {dto : UpdateSectionDto} {actor : RequestActor}
    {live : Section} {t : Time} {n : OutboxId}
    (h : UpdateOutcome X op s dto actor live t n c) (hl : Later X op c c')
    (hlog : c'.log = c.log) : UpdateOutcome X op s dto actor live t n c' :=
  ⟨h.lock.later hl, h.enough, h.drawn.later hl, hlog.trans h.log⟩

/-- What an update answers: the section and its queue as they are, and whether the capacity grew. -/
structure UpdateReply (s : SectionId) (live : Section) (u : SectionUpdated) (c : Ctx postgres) :
    Prop where
  summary : ∃ j : SectionJoin, c.view.db.section? s = some j.sec ∧
    u.summary = toSummary j (c.view.db.waiting s).length
  grew : u.capacityIncreased = true ↔
    ∃ sec, c.view.db.section? s = some sec ∧ live.capacity < sec.capacity

theorem UpdateReply.later {s : SectionId} {live : Section} {u : SectionUpdated}
    (h : UpdateReply s live u c) (held : c.held (.sectionRow s)) (hl : Later X op c c')
    (hlog : c'.log = c.log) : UpdateReply s live u c' := by
  have hrow := Later.view_section? hl held hlog
  have hwait : c'.view.db.waiting s = c.view.db.waiting s :=
    congrArg (List.filter Enrollment.waitlisted) (Later.view_rowsOf hl held hlog)
  exact ⟨by rw [hrow, hwait]; exact h.summary, by rw [hrow]; exact h.grew⟩

/-- **What `SectionsService.update` has done and answers when it commits.** -/
theorem updateSection_answers {s : SectionId} {dto : UpdateSectionDto} {actor : RequestActor}
    (hlog : c.log = []) :
    wp (Others X op) DrawsOnly (updateSection s dto actor)
      (Ends (fun u c' => ∃ live t n, UpdateOutcome X op s dto actor live t n c' ∧
        UpdateReply s live u c') (fun e _ => e ≠ .db .checkViolation)) c := by
  refine wp_bind (Txn.wp_throwIf (fun _ => by simp [Ends, Txn.andThen, badRequest]) fun _ => ?_)
  refine wp_bind (wp_sectionForUpdate fun c₁ h₁ hlog₁ hheld _ => ?_)
  rw [hlog] at hlog₁
  rw [view_of_log_nil hlog₁] at hheld ⊢
  refine wp_bind (Txn.wp_orThrow (fun _ => by simp [Ends, Txn.andThen, notFound])
    fun found hfound => ?_)
  obtain ⟨live, hlive, rfl⟩ := Option.map_eq_some_iff.mp hfound
  have lock : Locked c₁ s live := ⟨hheld (by rw [hlive]; rfl), hlive⟩
  refine wp_bind (Txn.wp_throwIf (fun _ => by simp [Ends, Txn.andThen, badRequest]) fun henough => ?_)
  have henough' : live.enrolledCount ≤ (dto.capacity.getD none).getD live.capacity :=
    Int.not_lt.mp henough
  refine wp_bind (wp_sectionUpdate (fun c₂ _ h₂ hlog₂ hsec₂ _ => ?_)
    (fun _ _ _ => by simp [Ends, Txn.andThen]) (fun c₂ sec₂ h₂ hsec₂ hcheck => ?_))
  · refine wp_bind (wp_recordEvent fun c₃ c₄ h₃ h₄ hlog₄ hseq => ?_)
    refine wp_bind (wp_query fun c₅ h₅ _ => ?_)
    have h₁₃ := h₂.trans h₃.later
    have hl := h₄.trans h₅.later
    rw [seen_of_log_nil hlog₁, (lock.later h₂).row, Option.some.injEq] at hsec₂
    subst hsec₂
    have hrow : c₅.view.db.section? s = some ((limits ((dto.capacity.getD none).getD live.capacity)
        (dto.waitlistCap.getD live.waitlistCap)).patch live) := by
      refine (Later.view_section? h₅.later (lock.later (h₁₃.trans h₄)).held h₅.log).trans ?_
      refine (view_section?_recorded (h₃.later.trans h₄) (lock.later h₂).held hlog₄).trans ?_
      exact view_section?_updated hlog₂ (by rw [seen_of_log_nil hlog₁]; exact (lock.later h₂).row)
    refine ⟨live, c₃.world.now, _, ⟨lock.later (h₁₃.trans hl), henough',
      .of_next ?_ h₄ hseq h₅.later, ?_⟩, ⟨(seen c₁ c₂).db.joinSection _, hrow, ?_⟩, ?_⟩
    · intro s' hs'
      rw [List.mem_singleton.mp hs']
      exact (lock.later h₁₃).held
    · rw [h₅.log, hlog₄, hlog₂, hlog₁]
      rfl
    · simp only [Query.eval, select_waiting]
      rfl
    · rw [hrow]
      simp [Db.joinSection, limits, SectionData.patch]
  · rw [seen_of_log_nil hlog₁, (lock.later h₂).row, Option.some.injEq] at hsec₂
    subst hsec₂
    have := lock.seats h₁.rely.valid
    exact absurd ⟨this.1, henough'⟩ (of_decide_eq_false hcheck)

/-- **What `SectionsService.update` has done when it commits.** -/
theorem updateSection_spec {s : SectionId} {dto : UpdateSectionDto} {actor : RequestActor}
    (hlog : c.log = []) :
    wp (Others X op) DrawsOnly (updateSection s dto actor)
      (Ends (fun _ c' => ∃ live t n, UpdateOutcome X op s dto actor live t n c')
        (fun e _ => e ≠ .db .checkViolation)) c := by
  refine Txn.wp_mono ?_ (updateSection_answers hlog)
  intro r c' hr
  cases r with
  | ok u =>
    obtain ⟨live, t, n, h, -⟩ := hr
    exact ⟨live, t, n, h⟩
  | error e => exact hr

end Enroll
