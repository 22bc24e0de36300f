/-
# The life of an enrollment

What one commit does to one row is its `Fate`: it leaves the status alone, creates the row, drops
it, or promotes it.  Each fate comes with the outbox rows and notices that tell of it, and with the
requests that can bring it about (`Outcome.fares`), so a step of the system gives every row one fate
(`fares_of_step`).

Over a run the fates add up.  A row that is DROPPED or COMPLETED is out of play for good, so of all
the drops, swaps and expiries that race for a row one at most commits the departure, and the row's
events and notices can be counted from its status alone (`enrollment_life_cycle`).
-/
import Enroll.Registrar

namespace Enroll

open Txn (Ctx Session Label Discipline)

variable {X : Extra} {op : Op} {c c' : Ctx postgres}

/-! ## 1. What is told of a row -/

/-- The outbox row says that enrollment `x` was given up. -/
def AuditOutbox.departs (x : EnrollmentId) (e : AuditOutbox) : Bool :=
  match e.action with
  | .ENROLLMENT_DROPPED => e.target == .enrollmentTarget x
  | .ENROLLMENT_WAITLIST_LEFT => e.target == .enrollmentTarget x
  | .ENROLLMENT_WAITLIST_EXPIRED => e.target == .enrollmentTarget x
  | .ENROLLMENT_SWAPPED => e.payload.before.bind AuditFields.enrollmentId == some x
  | _ => false

/-- The notice is of type `t` and about enrollment `x`. -/
def Notification.tells (t : NotificationType) (x : EnrollmentId) (n : Notification) : Bool :=
  n.type == t && n.payload.enrollmentId == x

/-- How many outbox rows say that `x` was given up. -/
def Db.departures (db : Db) (x : EnrollmentId) : Nat := db.auditOutbox.countP (·.departs x)

/-- How many notices of type `t` there are about `x`. -/
def Db.notices (db : Db) (t : NotificationType) (x : EnrollmentId) : Nat :=
  db.notifications.countP (·.tells t x)

def Write.notice? : Write → Option Notification
  | notificationInsert n => some n
  | _ => none

def noticesOf (log : List Write) : List Notification := log.filterMap Write.notice?

@[simp] theorem noticesOf_append (l l' : List Write) :
    noticesOf (l ++ l') = noticesOf l ++ noticesOf l' := List.filterMap_append

theorem notifications_applyLog (log : List Write) (w : World) :
    (applyLog log w).db.notifications = w.db.notifications ++ noticesOf log := by
  induction log generalizing w with
  | nil => exact (List.append_nil _).symm
  | cons wr log ih =>
    rw [applyLog_cons, ih]
    cases wr with
    | notificationInsert n => exact List.append_assoc _ _ _
    | auditInsert e => rfl
    | enrollmentInsert r => rfl
    | enrollmentPatch id d => rfl
    | sectionPatch s d => rfl

/-! ## 2. Fates -/

/-- What one step does to one row. -/
inductive Fate where
  /-- its status stays, if there is such a row -/
  | kept
  /-- it is inserted -/
  | created
  /-- it becomes DROPPED, because the section's waitlist expired or for another reason -/
  | departed (expired : Bool)
  /-- it goes from WAITLISTED to ENROLLED -/
  | promoted
  deriving DecidableEq, Repr

namespace Fate

/-- How many outbox rows tell of a departure. -/
def departures : Fate → Nat
  | departed _ => 1
  | _ => 0

/-- How many notices of type `t` there are of it. -/
def notices : NotificationType → Fate → Nat
  | .WAITLIST_EXPIRED, departed true => 1
  | .WAITLIST_PROMOTED, promoted => 1
  | _, _ => 0

@[simp] theorem notices_kept (t : NotificationType) : notices t kept = 0 := by cases t <;> rfl

@[simp] theorem notices_created (t : NotificationType) : notices t created = 0 := by cases t <;> rfl

@[simp] theorem notices_given_up (t : NotificationType) : notices t (departed false) = 0 := by
  cases t <;> rfl

/-- From the row before to the row after. -/
def Turns : Fate → Option Enrollment → Option Enrollment → Prop
  | kept, o, o' =>
    o'.map (fun r => (r.status, r.droppedAt)) = o.map fun r => (r.status, r.droppedAt)
  | created, o, o' => o = none ∧ ∃ r, o' = some r ∧
    (r.status = .ENROLLED ∨ r.status = .WAITLISTED) ∧ r.droppedAt = none
  | departed _, o, o' => ∃ r r', o = some r ∧ o' = some r' ∧
    (r.status = .ENROLLED ∨ r.status = .WAITLISTED) ∧ r'.status = .DROPPED ∧
      r'.droppedAt.isSome = true
  | promoted, o, o' => ∃ r r', o = some r ∧ o' = some r' ∧ r.status = .WAITLISTED ∧
    r'.status = .ENROLLED ∧ r'.droppedAt = r.droppedAt

/-- The requests that bring it about for row `x`. -/
def Of (x : EnrollmentId) : Fate → Op → Prop
  | kept, _ => True
  | created, op => (∃ input u actor, op = .enroll input u actor) ∨
    ∃ id input u actor, op = .swap id input u actor
  | departed false, op => (∃ u actor, op = .drop x u actor) ∨
    ∃ input u actor, op = .swap x input u actor
  | departed true, op => ∃ s, op = .expireSectionWaitlist s
  | promoted, op => ∃ s, op = .runPromotion s

end Fate

/-- Row `x` meets the fate `f` between two databases, and what is told of it is told once. -/
structure Fares (x : EnrollmentId) (f : Fate) (db db' : Db) : Prop where
  row : f.Turns (db.enrollment? x) (db'.enrollment? x)
  departures : db'.departures x = db.departures x + f.departures
  notices : ∀ t, db'.notices t x = db.notices t x + f.notices t

/-- Nothing about the row has changed. -/
theorem Fares.of_eq {x : EnrollmentId} {db db' : Db} (henr : db'.enrollments = db.enrollments)
    (hout : db'.auditOutbox = db.auditOutbox) (hnot : db'.notifications = db.notifications) :
    Fares x .kept db db' where
  row := by
    unfold Fate.Turns Db.enrollment?
    rw [henr]
  departures := by
    unfold Db.departures
    rw [hout]
    rfl
  notices t := by
    unfold Db.notices
    rw [hnot]
    cases t <;> rfl

/-- The fate of a row in a commit, from the parts of its log. -/
theorem Fares.of_log {x : EnrollmentId} {f : Fate}
    (hrow : f.Turns (c.world.db.enrollment? x) (c.view.db.enrollment? x))
    (hev : (eventsOf c.log).countP (·.departs x) = f.departures)
    (hnot : ∀ t, (noticesOf c.log).countP (·.tells t x) = f.notices t) :
    Fares x f c.world.db c.view.db where
  row := hrow
  departures := by
    have hout : c.view.db.auditOutbox = c.world.db.auditOutbox ++ eventsOf c.log :=
      outbox_applyLog c.log c.world
    unfold Db.departures
    rw [hout, List.countP_append, hev]
  notices t := by
    have hnew : c.view.db.notifications = c.world.db.notifications ++ noticesOf c.log :=
      notifications_applyLog c.log c.world
    unfold Db.notices
    rw [hnew, List.countP_append, hnot]

/-! ## 3. One row of a commit -/

/-- Updates that touch neither column of row `x`. -/
def Spares (x : EnrollmentId) (ps : List (EnrollmentId × EnrollmentData)) : Prop :=
  ∀ p ∈ ps, p.1 = x → p.2.status = none ∧ p.2.droppedAt = none

theorem Spares.of_ne {x : EnrollmentId} {ps : List (EnrollmentId × EnrollmentData)}
    (h : ∀ p ∈ ps, p.1 ≠ x) : Spares x ps := fun p hp he => absurd he (h p hp)

theorem patchRow_spares {ps : List (EnrollmentId × EnrollmentData)} {r : Enrollment}
    (h : Spares r.id ps) :
    (patchRow ps r).status = r.status ∧ (patchRow ps r).droppedAt = r.droppedAt := by
  induction ps generalizing r with
  | nil => exact ⟨rfl, rfl⟩
  | cons p ps ih =>
    have hrest : Spares r.id ps := fun q hq => h q (List.mem_cons_of_mem p hq)
    have hcons : patchRow (p :: ps) r = patchRow ps (if r.id = p.1 then p.2.patch r else r) := rfl
    rw [hcons]
    split
    · rename_i he
      obtain ⟨hst, hdr⟩ := h p List.mem_cons_self he.symm
      have hpatch := ih (r := p.2.patch r) hrest
      refine ⟨hpatch.1.trans ?_, hpatch.2.trans ?_⟩
      · simp [EnrollmentData.patch, hst]
      · simp [EnrollmentData.patch, hdr]
    · exact ih hrest

/-- A row that the log neither inserts nor moves. -/
theorem turns_kept (hs : Sane c) {x : EnrollmentId} (hps : Spares x (patchesOf c.log))
    (hins : ∀ r ∈ insertsOf c.log, r.id ≠ x) :
    Fate.kept.Turns (c.world.db.enrollment? x) (c.view.db.enrollment? x) := by
  cases hx : c.world.db.enrollment? x with
  | none =>
    rw [view_new hs hx, Keyed.lookup_none.mpr hins]
    rfl
  | some r =>
    obtain ⟨-, rfl⟩ := enrollment?_mem hx
    obtain ⟨hst, hdr⟩ := patchRow_spares hps
    rw [view_known hs hx]
    exact congrArg some (Prod.ext hst hdr)

/-- The row that the log inserts. -/
theorem turns_created (hs : Sane c) {r : Enrollment} (hins : insertsOf c.log = [r])
    (hst : r.status = .ENROLLED ∨ r.status = .WAITLISTED) (hdr : r.droppedAt = none) :
    Fate.created.Turns (c.world.db.enrollment? r.id) (c.view.db.enrollment? r.id) := by
  have hr : r ∈ insertsOf c.log := hins ▸ List.mem_singleton_self r
  exact ⟨enrollment?_none (hs.inserts r hr).1.unused, r, view_inserted hs hins, hst, hdr⟩

/-- A row that the log moves, once. -/
theorem view_moved (hv : c.world.Valid) (hs : Sane c) {r : Enrollment} {d : EnrollmentData}
    (hr : r ∈ c.world.db.enrollments) (hnd : ((patchesOf c.log).map Prod.fst).Nodup)
    (hp : (r.id, d) ∈ patchesOf c.log) :
    c.world.db.enrollment? r.id = some r ∧ c.view.db.enrollment? r.id = some (d.patch r) := by
  have hx := hv.db.enrollment?_of_mem hr
  exact ⟨hx, (view_known hs hx).trans (congrArg some (patchRow_of_mem hnd hp rfl))⟩

theorem active_iff {r : Enrollment} :
    r.active = true ↔ r.status = .ENROLLED ∨ r.status = .WAITLISTED := by
  unfold Enrollment.active
  cases r.status <;> simp [EnrollmentStatus.active]

theorem turns_departed (hv : c.world.Valid) (hs : Sane c) {r : Enrollment} {t : Time} (b : Bool)
    (hr : r ∈ c.world.db.enrollments) (ha : r.active = true)
    (hnd : ((patchesOf c.log).map Prod.fst).Nodup) (hp : (r.id, departure t) ∈ patchesOf c.log) :
    (Fate.departed b).Turns (c.world.db.enrollment? r.id) (c.view.db.enrollment? r.id) := by
  obtain ⟨hx, hx'⟩ := view_moved hv hs hr hnd hp
  exact ⟨r, _, hx, hx', active_iff.mp ha, rfl, rfl⟩

theorem turns_promoted (hv : c.world.Valid) (hs : Sane c) {r : Enrollment} {t : Time}
    (hr : r ∈ c.world.db.enrollments) (hw : r.status = .WAITLISTED)
    (hnd : ((patchesOf c.log).map Prod.fst).Nodup) (hp : (r.id, promotion t) ∈ patchesOf c.log) :
    Fate.promoted.Turns (c.world.db.enrollment? r.id) (c.view.db.enrollment? r.id) := by
  obtain ⟨hx, hx'⟩ := view_moved hv hs hr hnd hp
  exact ⟨r, _, hx, hx', hw, rfl, rfl⟩

/-- Counting what tells of `x`, when each turn tells of its own row. -/
theorem countP_turns {α : Type} {f : Turn → α} {p : α → Bool} {x : EnrollmentId} {turns : List Turn}
    (hf : ∀ u ∈ turns, p (f u) = (u.row.id == x)) (hnd : (turns.map fun u => u.row.id).Nodup) :
    (turns.map f).countP p = if x ∈ turns.map fun u => u.row.id then 1 else 0 := by
  induction turns with
  | nil => rfl
  | cons u turns ih =>
    obtain ⟨hu, hnd'⟩ := List.nodup_cons.mp hnd
    have hrest := ih (fun v hv => hf v (List.mem_cons_of_mem u hv)) hnd'
    rw [List.map_cons, List.countP_cons, hrest, hf u List.mem_cons_self]
    by_cases hx : u.row.id = x
    · subst hx
      simp [hu]
    · have hx' : x ≠ u.row.id := Ne.symm hx
      simp [hx, hx']

/-! ## 4. The fate of a row in each request -/

/-- The log says nothing of row `x`. -/
theorem fares_kept (hs : Sane c) {x : EnrollmentId} (hps : Spares x (patchesOf c.log))
    (hins : ∀ r ∈ insertsOf c.log, r.id ≠ x)
    (hev : ∀ e ∈ eventsOf c.log, e.departs x = false)
    (hnot : ∀ n ∈ noticesOf c.log, ∀ t, n.tells t x = false) :
    Fares x .kept c.world.db c.view.db := by
  refine .of_log (turns_kept hs hps hins) ?_ fun t => ?_
  · exact List.countP_eq_zero.mpr fun e he => by simp [hev e he]
  · rw [Fate.notices_kept]
    exact List.countP_eq_zero.mpr fun n hn => by simp [hnot n hn t]

theorem fares_log_nil (hs : Sane c) (hlog : c.log = []) (x : EnrollmentId) :
    Fares x .kept c.world.db c.view.db := by
  refine fares_kept hs (.of_ne ?_) ?_ ?_ ?_ <;> rw [hlog]
  · exact fun p hp => absurd hp List.not_mem_nil
  · exact fun r hr => absurd hr List.not_mem_nil
  · exact fun e he => absurd he List.not_mem_nil
  · exact fun n hn => absurd hn List.not_mem_nil

/-- A request that only inserts row `r`. -/
theorem fares_inserted (hs : Sane c) {r : Enrollment} {e : AuditOutbox}
    {ks : List (SectionId × SectionData)} (hp : Parts c.log [] [r] ks [e])
    (hnot : noticesOf c.log = []) (hst : r.status = .ENROLLED ∨ r.status = .WAITLISTED)
    (hdr : r.droppedAt = none) (he : ∀ x, e.departs x = false) (x : EnrollmentId) :
    ∃ f, Fares x f c.world.db c.view.db ∧ (f = .kept ∨ f = .created) := by
  by_cases hx : r.id = x
  · subst hx
    refine ⟨.created, .of_log (turns_created hs hp.inserts hst hdr) ?_ fun t => ?_, .inr rfl⟩
    · rw [hp.events]
      simp [he, Fate.departures]
    · rw [hnot, Fate.notices_created]
      rfl
  · refine ⟨.kept, fares_kept hs (.of_ne ?_) ?_ ?_ ?_, .inl rfl⟩
    · rw [hp.patches]
      exact fun p hp' => absurd hp' List.not_mem_nil
    · rw [hp.inserts]
      exact fun r' hr' => List.mem_singleton.mp hr' ▸ hx
    · rw [hp.events]
      exact fun e' he' => List.mem_singleton.mp he' ▸ he x
    · rw [hnot]
      exact fun n hn => absurd hn List.not_mem_nil

theorem EnrollOutcome.fares {input : EnrollDto} {u : UserId} {actor : RequestActor}
    (hv : c.world.Valid) (h : EnrollOutcome X op input u actor c) (x : EnrollmentId) :
    ∃ f, Fares x f c.world.db c.view.db ∧ (f = .kept ∨ f = .created) := by
  have hs : Sane c := EnrollOutcome.sane hv h
  cases h with
  | already log => exact ⟨.kept, fares_log_nil hs log x, .inl rfl⟩
  | seated sec live y t t' n lock seat fresh checked drawn log =>
    refine fares_inserted hs (.of_seated log) ?_ (.inl rfl) rfl (fun _ => rfl) x
    rw [log]
    rfl
  | queued sec live y t t' n p lock full cap position fresh checked drawn log =>
    refine fares_inserted hs (.of_queued log) ?_ (.inr rfl) rfl (fun _ => rfl) x
    rw [log]
    rfl

@[simp] theorem noticesOf_seatBack (r : Enrollment) : noticesOf (seatBack r) = [] := by
  unfold seatBack
  split <;> rfl

theorem departs_drop (actor : RequestActor) (r : Enrollment) (n : OutboxId) (t : Time)
    (x : EnrollmentId) : ((dropEvent actor r).row n t).departs x = (r.id == x) := by
  have htarget : (AuditTarget.enrollmentTarget r.id == .enrollmentTarget x) = (r.id == x) := by
    rw [Bool.eq_iff_iff, beq_iff_eq, beq_iff_eq, AuditTarget.enrollmentTarget.injEq]
  unfold dropEvent
  split <;> exact htarget

/-- A request that gives up row `r`, and may insert another. -/
theorem fares_given_up (hv : c.world.Valid) (hs : Sane c) {r : Enrollment} {t : Time}
    {is : List Enrollment} {ks : List (SectionId × SectionData)} {e : AuditOutbox}
    (hp : Parts c.log [(r.id, departure t)] is ks [e]) (hnot : noticesOf c.log = [])
    (hr : r ∈ c.world.db.enrollments) (ha : r.active = true)
    (his : ∀ y ∈ is, is = [y] ∧ y.status = .ENROLLED ∧ y.droppedAt = none)
    (he : ∀ x, e.departs x = (r.id == x)) (x : EnrollmentId) :
    ∃ f, Fares x f c.world.db c.view.db ∧
      (f = .kept ∨ f = .departed false ∧ r.id = x ∨ f = .created ∧ is ≠ []) := by
  have hquiet : ∀ t, (noticesOf c.log).countP (·.tells t x) = 0 := fun t => by rw [hnot]; rfl
  have hevents : (eventsOf c.log).countP (·.departs x) = if r.id = x then 1 else 0 := by
    rw [hp.events]
    simp [he]
  by_cases hx : r.id = x
  · subst hx
    have hnd : ((patchesOf c.log).map Prod.fst).Nodup := hp.patches ▸ List.nodup_singleton _
    have hmem : (r.id, departure t) ∈ patchesOf c.log := hp.patches ▸ List.mem_singleton_self _
    refine ⟨.departed false, .of_log (turns_departed hv hs false hr ha hnd hmem) ?_ fun t => ?_,
      .inr (.inl ⟨rfl, rfl⟩)⟩
    · rw [hevents, if_pos rfl]
      rfl
    · rw [hquiet, Fate.notices_given_up]
  · by_cases hy : ∃ y ∈ is, y.id = x
    · obtain ⟨y, hy, rfl⟩ := hy
      obtain ⟨hone, hst, hdr⟩ := his y hy
      have hins : insertsOf c.log = [y] := hp.inserts.trans hone
      refine ⟨.created, .of_log (turns_created hs hins (.inl hst) hdr) ?_ fun t => ?_,
        .inr (.inr ⟨rfl, List.ne_nil_of_mem hy⟩)⟩
      · rw [hevents, if_neg hx]
        rfl
      · rw [hquiet, Fate.notices_created]
    · refine ⟨.kept, .of_log (turns_kept hs (.of_ne ?_) ?_) ?_ fun t => ?_, .inl rfl⟩
      · rw [hp.patches]
        exact fun p hp' => List.mem_singleton.mp hp' ▸ hx
      · rw [hp.inserts]
        exact fun y hy' hid => hy ⟨y, hy', hid⟩
      · rw [hevents, if_neg hx]
        rfl
      · rw [hquiet, Fate.notices_kept]

theorem DropOutcome.fares {id : EnrollmentId} {actor : RequestActor} {r : Enrollment}
    {droppedAt t : Time} {n : OutboxId} (hv : c.world.Valid)
    (h : DropOutcome X op id actor r droppedAt t n c) (x : EnrollmentId) :
    ∃ f, Fares x f c.world.db c.view.db ∧ (f = .kept ∨ f = .departed false ∧ id = x) := by
  have hnot : noticesOf c.log = [] := by
    rw [h.log, List.cons_append]
    exact (noticesOf_append (seatBack r) _).trans (by rw [noticesOf_seatBack]; rfl)
  obtain ⟨f, hf, hcase⟩ := fares_given_up hv (h.sane hv) h.parts hnot h.own.mem h.active
    (by simp) (departs_drop actor r n t) x
  refine ⟨f, hf, ?_⟩
  rcases hcase with hk | hd | ⟨-, hno⟩
  · exact .inl hk
  · exact .inr (h.id ▸ hd)
  · exact absurd rfl hno

theorem SwapOutcome.fares {id : EnrollmentId} {input : SwapDto} {u : UserId}
    {actor : RequestActor} {r : Enrollment} {sec : SectionJoin} {live : Section}
    {y : EnrollmentId} {droppedAt t t' : Time} {n : OutboxId} (hv : c.world.Valid)
    (h : SwapOutcome X op id input u actor r sec live y droppedAt t t' n c) (x : EnrollmentId) :
    ∃ f, Fares x f c.world.db c.view.db ∧
      (f = .kept ∨ f = .departed false ∧ id = x ∨ f = .created) := by
  have hnot : noticesOf c.log = [] := by
    rw [h.log, List.cons_append]
    exact (noticesOf_append (seatBack r) _).trans (by rw [noticesOf_seatBack]; rfl)
  obtain ⟨f, hf, hcase⟩ := fares_given_up hv (h.sane hv) h.parts hnot h.own.mem h.active
    (by simp [seatRow, EnrollmentCreate.row]) (fun _ => rfl) x
  exact ⟨f, hf, h.id ▸ hcase.imp_right (.imp_right And.left)⟩

/-- The notices of some promotion turns. -/
def promotionNotices (sec : SectionJoin) (turns : List Turn) : List Notification :=
  turns.map (fun u => (promotedNotice sec ((promotion u.stamp).patch u.row)).row u.noticedAt)

/-- The notices of some expiry turns. -/
def expiryNotices (s : SectionId) (turns : List Turn) : List Notification :=
  turns.map (fun u => (expiredNotice s u.row).row u.noticedAt)

theorem noticesOf_promoted (sec : SectionJoin) (turns : List Turn) :
    noticesOf (turns.flatMap (Turn.promoted sec)) = promotionNotices sec turns := by
  induction turns with
  | nil => rfl
  | cons u turns ih =>
    rw [List.flatMap_cons, noticesOf_append, ih]
    rfl

theorem noticesOf_expired (s : SectionId) (turns : List Turn) :
    noticesOf (turns.flatMap (Turn.expired s)) = expiryNotices s turns := by
  induction turns with
  | nil => rfl
  | cons u turns ih =>
    rw [List.flatMap_cons, noticesOf_append, ih]
    rfl

/-- Each turn has its own notice. -/
theorem countP_tells {f : Turn → Notification} {T : NotificationType} {turns : List Turn}
    (htype : ∀ u, (f u).type = T) (hid : ∀ u, (f u).payload.enrollmentId = u.row.id)
    (hnd : (turns.map fun u => u.row.id).Nodup) (t : NotificationType) (x : EnrollmentId) :
    (turns.map f).countP (·.tells t x)
      = if T = t ∧ x ∈ turns.map fun u => u.row.id then 1 else 0 := by
  by_cases ht : T = t
  · have htells : ∀ u ∈ turns, (f u).tells t x = (u.row.id == x) := fun u _ => by
      simp [Notification.tells, htype, hid, ht]
    rw [countP_turns htells hnd]
    simp [ht]
  · rw [if_neg fun h => ht h.1]
    refine List.countP_eq_zero.mpr fun n hn => ?_
    obtain ⟨u, -, rfl⟩ := List.mem_map.mp hn
    simp [Notification.tells, htype, ht]

theorem departures_ids (turns : List Turn) :
    (departures turns).map Prod.fst = turns.map fun u => u.row.id := by
  unfold departures
  rw [List.map_map]
  rfl

theorem promotions_rows (turns : List Turn) :
    (promotions turns).map Prod.fst = turns.map fun u => u.row.id := by
  rw [promotions_ids, List.map_map]
  rfl

theorem departs_expired (r : Enrollment) (n : OutboxId) (t : Time) (x : EnrollmentId) :
    ((expiredEvent r).row n t).departs x = (r.id == x) := by
  have htarget : (AuditTarget.enrollmentTarget r.id == .enrollmentTarget x) = (r.id == x) := by
    rw [Bool.eq_iff_iff, beq_iff_eq, beq_iff_eq, AuditTarget.enrollmentTarget.injEq]
  exact htarget

theorem PromotionOutcome.fares {s : SectionId} {sec : SectionJoin} {turns : List Turn}
    (hv : c.world.Valid) (h : PromotionOutcome X op s sec turns c) (x : EnrollmentId) :
    ∃ f, Fares x f c.world.db c.view.db ∧ (f = .kept ∨ f = .promoted) := by
  have hs : Sane c := h.sane hv
  have hnd : (turns.map fun u => u.row.id).Nodup := by
    refine nodup_turns ?_ h.rows
    rw [List.map_take]
    exact (hv.db.nodup_byPosition s).sublist (List.take_sublist _ _)
  have hnd' : ((patchesOf c.log).map Prod.fst).Nodup := by
    rw [h.parts.patches, promotions_rows]
    exact hnd
  have hevents : (eventsOf c.log).countP (·.departs x) = 0 := by
    rw [h.parts.events]
    refine List.countP_eq_zero.mpr fun e he => ?_
    obtain ⟨u, -, rfl⟩ := List.mem_map.mp he
    exact Bool.false_ne_true
  have hnotices : noticesOf c.log = promotionNotices sec turns := by
    rw [h.log, noticesOf_append, noticesOf_promoted]
    exact List.append_nil _
  have hcount : ∀ t, (noticesOf c.log).countP (·.tells t x)
      = if NotificationType.WAITLIST_PROMOTED = t ∧ x ∈ turns.map fun u => u.row.id
        then 1 else 0 := by
    rw [hnotices]
    intro t
    refine countP_tells ?_ ?_ hnd t x <;> exact fun _ => rfl
  by_cases hx : x ∈ turns.map fun u => u.row.id
  · obtain ⟨u, hu, rfl⟩ := List.mem_map.mp hx
    obtain ⟨hmem, -, hw⟩ := mem_waiting.mp (h.waiting hu)
    have hp : (u.row.id, promotion u.stamp) ∈ patchesOf c.log := by
      rw [h.parts.patches]
      exact List.mem_map_of_mem hu
    refine ⟨.promoted, .of_log (turns_promoted hv hs hmem hw hnd' hp) hevents fun t => ?_, .inr rfl⟩
    rw [hcount]
    cases t <;> simp [hx, Fate.notices]
  · refine ⟨.kept, .of_log (turns_kept hs (.of_ne ?_) ?_) hevents fun t => ?_, .inl rfl⟩
    · rw [h.parts.patches]
      intro p hp hid
      refine hx ?_
      rw [← promotions_rows, ← hid]
      exact List.mem_map_of_mem hp
    · rw [h.parts.inserts]
      exact fun r hr => absurd hr List.not_mem_nil
    · rw [hcount, Fate.notices_kept]
      simp [hx]

theorem ExpiryOutcome.fares {s : SectionId} {live : Section} {turns : List Turn}
    (hv : c.world.Valid) (h : ExpiryOutcome X op s live turns c) (x : EnrollmentId) :
    ∃ f, Fares x f c.world.db c.view.db ∧ (f = .kept ∨ f = .departed true) := by
  have hs : Sane c := h.sane hv
  have hnd : (turns.map fun u => u.row.id).Nodup := nodup_turns (hv.db.nodup_waiting s) h.rows
  have hnd' : ((patchesOf c.log).map Prod.fst).Nodup := by
    rw [h.parts.patches, departures_ids]
    exact hnd
  have hevents : (eventsOf c.log).countP (·.departs x)
      = if x ∈ turns.map fun u => u.row.id then 1 else 0 := by
    rw [h.parts.events]
    exact countP_turns (fun u _ => departs_expired u.row u.outboxId u.eventAt x) hnd
  have hnotices : noticesOf c.log = expiryNotices s turns := by
    rw [h.log, noticesOf_expired]
  have hcount : ∀ t, (noticesOf c.log).countP (·.tells t x)
      = if NotificationType.WAITLIST_EXPIRED = t ∧ x ∈ turns.map fun u => u.row.id
        then 1 else 0 := by
    rw [hnotices]
    intro t
    refine countP_tells ?_ ?_ hnd t x <;> exact fun _ => rfl
  by_cases hx : x ∈ turns.map fun u => u.row.id
  · obtain ⟨u, hu, rfl⟩ := List.mem_map.mp hx
    obtain ⟨own, ha⟩ := OwnRow.of_waiting h.lock.held (h.waiting hu)
    have hp : (u.row.id, departure u.stamp) ∈ patchesOf c.log := by
      rw [h.parts.patches]
      exact List.mem_map_of_mem hu
    refine ⟨.departed true, .of_log (turns_departed hv hs true own.mem ha hnd' hp) ?_ fun t => ?_,
      .inr rfl⟩
    · rw [hevents, if_pos hx]
      rfl
    · rw [hcount]
      cases t <;> simp [hx, Fate.notices]
  · refine ⟨.kept, .of_log (turns_kept hs (.of_ne ?_) ?_) ?_ fun t => ?_, .inl rfl⟩
    · rw [h.parts.patches]
      intro p hp hid
      refine hx ?_
      rw [← departures_ids, ← hid]
      exact List.mem_map_of_mem hp
    · rw [h.parts.inserts]
      exact fun r hr => absurd hr List.not_mem_nil
    · rw [hevents, if_neg hx]
      rfl
    · rw [hcount, Fate.notices_kept]
      simp [hx]

/-- Renumbering moves no row out of the queue. -/
theorem ReorderOutcome.fares {s : SectionId} {dto : ReorderWaitlistDto} {actor : RequestActor}
    {live : Section} {t : Time} {n : OutboxId} (hv : c.world.Valid)
    (h : ReorderOutcome X op s dto actor live t n c) (x : EnrollmentId) :
    Fares x .kept c.world.db c.view.db := by
  refine fares_kept (h.sane hv) ?_ ?_ ?_ ?_
  · rw [h.parts.patches]
    intro p hp _
    obtain ⟨q, -, rfl⟩ := List.mem_map.mp hp
    exact ⟨rfl, rfl⟩
  · rw [h.parts.inserts]
    exact fun r hr => absurd hr List.not_mem_nil
  · rw [h.parts.events]
    exact fun e he => List.mem_singleton.mp he ▸ rfl
  · rw [h.log]
    intro m hm
    obtain ⟨wr, hwr, hm⟩ := List.mem_filterMap.mp hm
    rcases List.mem_append.mp hwr with hwr | hwr
    · obtain ⟨p, -, rfl⟩ := List.mem_map.mp hwr
      exact absurd hm (by simp [Write.notice?])
    · rw [List.mem_singleton.mp hwr] at hm
      exact absurd hm (by simp [Write.notice?])

theorem UpdateOutcome.fares {s : SectionId} {dto : UpdateSectionDto} {actor : RequestActor}
    {live : Section} {t : Time} {n : OutboxId} (hv : c.world.Valid)
    (h : UpdateOutcome X op s dto actor live t n c) (x : EnrollmentId) :
    Fares x .kept c.world.db c.view.db := by
  refine fares_kept (h.sane hv) (.of_ne ?_) ?_ ?_ ?_
  · rw [h.parts.patches]
    exact fun p hp => absurd hp List.not_mem_nil
  · rw [h.parts.inserts]
    exact fun r hr => absurd hr List.not_mem_nil
  · rw [h.parts.events]
    exact fun e he => List.mem_singleton.mp he ▸ rfl
  · rw [h.log]
    exact fun m hm => absurd hm List.not_mem_nil

/-- **Every request gives every row one fate.** -/
theorem Outcome.fares (hv : c.world.Valid) (h : Outcome X op c) (x : EnrollmentId) :
    ∃ f, Fares x f c.world.db c.view.db ∧ f.Of x op := by
  cases op with
  | enroll input u actor =>
    obtain ⟨f, hf, rfl | rfl⟩ := EnrollOutcome.fares hv h x
    · exact ⟨_, hf, trivial⟩
    · exact ⟨_, hf, .inl ⟨input, u, actor, rfl⟩⟩
  | drop id u actor =>
    obtain ⟨r, droppedAt, t, n, h⟩ := h
    obtain ⟨f, hf, rfl | ⟨rfl, rfl⟩⟩ := h.fares hv x
    · exact ⟨_, hf, trivial⟩
    · exact ⟨_, hf, .inl ⟨u, actor, rfl⟩⟩
  | swap id input u actor =>
    rcases h with h | ⟨r, sec, live, y, droppedAt, t, t', n, h⟩
    · exact ⟨.kept, fares_log_nil (.of_log_nil hv h) h x, trivial⟩
    · obtain ⟨f, hf, rfl | ⟨rfl, rfl⟩ | rfl⟩ := h.fares hv x
      · exact ⟨_, hf, trivial⟩
      · exact ⟨_, hf, .inr ⟨input, u, actor, rfl⟩⟩
      · exact ⟨_, hf, .inr ⟨id, input, u, actor, rfl⟩⟩
  | runPromotion s =>
    rcases h with h | ⟨sec, turns, h⟩
    · exact ⟨.kept, fares_log_nil (.of_log_nil hv h) h x, trivial⟩
    · obtain ⟨f, hf, rfl | rfl⟩ := h.fares hv x
      · exact ⟨_, hf, trivial⟩
      · exact ⟨_, hf, s, rfl⟩
  | reorder s dto actor =>
    obtain ⟨live, t, n, h⟩ := h
    exact ⟨.kept, h.fares hv x, trivial⟩
  | expireSectionWaitlist s =>
    rcases h with ⟨h, -⟩ | ⟨live, turns, h⟩
    · exact ⟨.kept, fares_log_nil (.of_log_nil hv h) h x, trivial⟩
    · obtain ⟨f, hf, rfl | rfl⟩ := h.fares hv x
      · exact ⟨_, hf, trivial⟩
      · exact ⟨_, hf, s, rfl⟩
  | updateSection s dto actor =>
    obtain ⟨live, t, n, h⟩ := h
    exact ⟨.kept, h.fares hv x, trivial⟩

/-! ## 5. The fate of a row in each step -/

/-- A fate other than `kept` is brought about by the request that the step commits. -/
def Fate.By (x : EnrollmentId) (f : Fate) (sys : Sys) (l : Label registrar) : Prop :=
  f ≠ .kept → ∃ t ses, l = .commit t ∧ sys.sessions t = some ses ∧ f.Of x ses.op

/-- **Every step gives every row one fate.** -/
theorem fares_of_step {sys sys' : Sys} {l : Label registrar} (hG : (discipline X).Good sys)
    (hs : sys.step l = some sys') (x : EnrollmentId) :
    ∃ f, Fares x f sys.world.db sys'.world.db ∧ f.By x sys l := by
  have hm := moves_of_step hG hs
  generalize sys'.world = w' at hm
  cases hm with
  | commit t ses a ht hp ho =>
    obtain ⟨f, hf, hop⟩ := ho.fares hG.inv.1 x
    exact ⟨f, hf, fun _ => ⟨t, ses, rfl, ht, hop⟩⟩
  | env e => exact ⟨.kept, by cases e <;> exact .of_eq rfl rfl rfl, fun h => absurd rfl h⟩
  | draw _ n hn => exact ⟨.kept, .of_eq rfl rfl rfl, fun h => absurd rfl h⟩

/-! ## 6. What the fates add up to -/

/-- 1 when row `x` is DROPPED. -/
def Db.gone (db : Db) (x : EnrollmentId) : Nat :=
  if (db.enrollment? x).any (fun r => r.status == .DROPPED) then 1 else 0

/-- 1 when row `x` may still be promoted: it waits, or is not there yet. -/
def Db.hopeful (db : Db) (x : EnrollmentId) : Nat :=
  if (db.enrollment? x).all Enrollment.waitlisted then 1 else 0

/-- `droppedAt` is set exactly when the row is DROPPED. -/
def Enrollment.Stamped (r : Enrollment) : Prop := r.droppedAt.isSome = true ↔ r.status = .DROPPED

/-- The events and notices about row `x` between two databases, by its status. -/
structure Tally (x : EnrollmentId) (db db' : Db) : Prop where
  departures : db'.departures x + db.gone x = db.departures x + db'.gone x
  expiries : db'.notices .WAITLIST_EXPIRED x + db.departures x
    ≤ db.notices .WAITLIST_EXPIRED x + db'.departures x
  promotions : db'.notices .WAITLIST_PROMOTED x + db'.hopeful x
    ≤ db.notices .WAITLIST_PROMOTED x + db.hopeful x
  stamped : (∀ r, db.enrollment? x = some r → r.Stamped) →
    ∀ r, db'.enrollment? x = some r → r.Stamped

theorem Tally.refl (x : EnrollmentId) (db : Db) : Tally x db db :=
  ⟨rfl, Nat.le_refl _, Nat.le_refl _, fun h => h⟩

theorem Tally.trans {x : EnrollmentId} {db db' db'' : Db} (h : Tally x db db')
    (h' : Tally x db' db'') : Tally x db db'' := by
  have hd := h.departures
  have hd' := h'.departures
  have he := h.expiries
  have he' := h'.expiries
  have hp := h.promotions
  have hp' := h'.promotions
  refine ⟨?_, ?_, ?_, fun hs => h'.stamped (h.stamped hs)⟩ <;> omega

/-- **One fate keeps the tally.** -/
theorem Fares.tally {x : EnrollmentId} {f : Fate} {db db' : Db} (h : Fares x f db db') :
    Tally x db db' := by
  have hrow := h.row
  have hev := h.departures
  have hexp := h.notices .WAITLIST_EXPIRED
  have hpro := h.notices .WAITLIST_PROMOTED
  cases f with
  | kept =>
    have hst : (db'.enrollment? x).map Enrollment.status
        = (db.enrollment? x).map Enrollment.status := by
      have hfst := congrArg (Option.map Prod.fst) hrow
      rw [Option.map_map, Option.map_map] at hfst
      exact hfst
    have hgone : db'.gone x = db.gone x := by
      have hany (o : Option Enrollment) : o.any (fun r => r.status == .DROPPED)
          = (o.map Enrollment.status).any (· == .DROPPED) := by cases o <;> rfl
      unfold Db.gone
      rw [hany, hany, hst]
    have hhope : db'.hopeful x = db.hopeful x := by
      have hall (o : Option Enrollment) : o.all Enrollment.waitlisted
          = (o.map Enrollment.status).all (· == .WAITLISTED) := by cases o <;> rfl
      unfold Db.hopeful
      rw [hall, hall, hst]
    simp only [Fate.departures, Fate.notices_kept] at hev hexp hpro
    refine ⟨by omega, by omega, by omega, fun hs r' hr' => ?_⟩
    unfold Fate.Turns at hrow
    rw [hr'] at hrow
    obtain ⟨r, hr, hcols⟩ := Option.map_eq_some_iff.mp hrow.symm
    obtain ⟨hst', hdr'⟩ := Prod.mk.inj hcols
    have hstamped := hs r hr
    unfold Enrollment.Stamped at hstamped ⊢
    rwa [← hst', ← hdr']
  | created =>
    obtain ⟨hnone, r', hr', hst, hdr⟩ := hrow
    simp only [Fate.departures, Fate.notices_created] at hev hexp hpro
    have hgone : db'.gone x = 0 ∧ db.gone x = 0 ∧ db.hopeful x = 1 := by
      unfold Db.gone Db.hopeful
      rcases hst with hst | hst <;> simp [hr', hnone, hst]
    have hle : db'.hopeful x ≤ 1 := by
      unfold Db.hopeful
      split <;> simp
    refine ⟨by omega, by omega, by omega, fun _ r hr => ?_⟩
    obtain rfl := Option.some.inj (hr'.symm.trans hr)
    unfold Enrollment.Stamped
    rcases hst with hst | hst <;> simp [hst, hdr]
  | departed b =>
    obtain ⟨r, r', hr, hr', hst, hst', hdr'⟩ := hrow
    have hgone : db'.gone x = 1 ∧ db.gone x = 0 ∧ db'.hopeful x = 0 := by
      unfold Db.gone Db.hopeful
      rcases hst with hst | hst <;> simp [hr, hr', hst, hst', Enrollment.waitlisted]
    have hnot : Fate.notices .WAITLIST_EXPIRED (.departed b) ≤ 1 ∧
        Fate.notices .WAITLIST_PROMOTED (.departed b) = 0 := by
      cases b <;> decide
    have hone : Fate.departures (.departed b) = 1 := rfl
    refine ⟨by omega, by omega, by omega, fun _ r₁ hr₁ => ?_⟩
    obtain rfl := Option.some.inj (hr'.symm.trans hr₁)
    unfold Enrollment.Stamped
    simp [hst', hdr']
  | promoted =>
    obtain ⟨r, r', hr, hr', hst, hst', hdr'⟩ := hrow
    have hgone : db'.gone x = 0 ∧ db.gone x = 0 ∧ db.hopeful x = 1 ∧ db'.hopeful x = 0 := by
      unfold Db.gone Db.hopeful
      simp [hr, hr', hst, hst', Enrollment.waitlisted]
    have hnot : Fate.notices .WAITLIST_EXPIRED .promoted = 0 ∧
        Fate.notices .WAITLIST_PROMOTED .promoted = 1 := by decide
    have hzero : Fate.departures .promoted = 0 := rfl
    refine ⟨by omega, by omega, by omega, fun hs r₁ hr₁ => ?_⟩
    obtain rfl := Option.some.inj (hr'.symm.trans hr₁)
    have hstamped := hs r hr
    unfold Enrollment.Stamped at hstamped ⊢
    rw [hdr', hst']
    simpa [hst] using hstamped

/-! ## 7. Whole lives -/

/-- Row `x` is there, not DROPPED before and DROPPED after. -/
def Departs (x : EnrollmentId) (w w' : World) : Prop :=
  (∃ r, w.db.enrollment? x = some r ∧ r.status ≠ .DROPPED) ∧
    ∃ r, w'.db.enrollment? x = some r ∧ r.status = .DROPPED

/-- A departure, told of once, with a notice if it is an expiry and only then. -/
structure Departure (x : EnrollmentId) (op : Op) (db db' : Db) : Prop where
  event : db'.departures x = db.departures x + 1
  notice : (∃ s, op = .expireSectionWaitlist s) ∧
      db'.notices .WAITLIST_EXPIRED x = db.notices .WAITLIST_EXPIRED x + 1 ∨
    ((∃ u actor, op = .drop x u actor) ∨ ∃ input u actor, op = .swap x input u actor) ∧
      db'.notices .WAITLIST_EXPIRED x = db.notices .WAITLIST_EXPIRED x

/-- The fate of a row that departs. -/
theorem Fares.departed {x : EnrollmentId} {f : Fate} {w w' : World} (h : Fares x f w.db w'.db)
    (hd : Departs x w w') : ∃ b, f = .departed b := by
  obtain ⟨⟨r, hr, hst⟩, r', hr', hst'⟩ := hd
  have hrow := h.row
  rw [hr, hr'] at hrow
  cases f with
  | kept =>
    have hcols := Option.some.inj hrow
    exact absurd ((Prod.mk.inj hcols).1.symm.trans hst') hst
  | created => exact absurd hrow.1 (by simp)
  | promoted =>
    obtain ⟨-, r₁, -, he, -, henr, -⟩ := hrow
    obtain rfl := Option.some.inj he
    exact absurd (henr.symm.trans hst') (by simp)
  | departed b => exact ⟨b, rfl⟩

theorem Fares.departure {x : EnrollmentId} {b : Bool} {db db' : Db}
    (h : Fares x (.departed b) db db') (hop : (Fate.departed b).Of x op) :
    Departure x op db db' := by
  refine ⟨h.departures, ?_⟩
  cases b with
  | true => exact .inl ⟨hop, h.notices .WAITLIST_EXPIRED⟩
  | false => exact .inr ⟨hop, h.notices .WAITLIST_EXPIRED⟩

theorem final_run {C : Sys → Label registrar → Prop} {w : World} (hv : w.Valid) {sys₀ sys : Sys}
    (hr₀ : Txn.Sys.Reach C (Txn.Sys.init w) sys₀) (hr : Txn.Sys.Reach C sys₀ sys)
    {x : EnrollmentId} {r : Enrollment} (hx : sys₀.world.db.enrollment? x = some r)
    (ha : r.active = false) : sys.world.db.enrollment? x = some r := by
  have hvalid : sys.world.Valid := (locks_run hv (hr₀.trans hr)).inv.1
  obtain ⟨hmem, rfl⟩ := enrollment?_mem hx
  obtain ⟨r', hr', -, -, -, hsame⟩ := (grows_run hv hr₀ hr).rows r hmem
  obtain rfl := hsame ha
  exact hvalid.db.enrollment?_of_mem hr'

theorem tally_run {C : Sys → Label registrar → Prop} {w : World} (hv : w.Valid) {sys : Sys}
    (hr : Txn.Sys.Reach C (Txn.Sys.init w) sys) (x : EnrollmentId) :
    Tally x w.db sys.world.db := by
  induction hr with
  | refl => exact Tally.refl x w.db
  | tail hr _ hs ih =>
    obtain ⟨f, hf, -⟩ := fares_of_step (locks_run hv hr) hs x
    exact ih.trans hf.tally

/-- What holds of row `x` over a history that began at `w` and has come to `sys`. -/
structure LifeCycle (x : EnrollmentId) (w : World) (sys : Sys) : Prop where
  /-- whatever comes next, the row keeps its status, or is created, departs or is promoted with one
  event and notice as it should, by a commit of a request of that kind -/
  step : ∀ l sys', sys.step l = some sys' →
    ∃ f, Fares x f sys.world.db sys'.world.db ∧ f.By x sys l
  /-- a departure is the commit of a drop, swap or expiry -/
  departing : ∀ l sys', sys.step l = some sys' → Departs x sys.world sys'.world →
    ∃ t ses, l = .commit t ∧ sys.sessions t = some ses ∧
      Departure x ses.op sys.world.db sys'.world.db
  /-- a DROPPED or COMPLETED row never changes again -/
  final : ∀ sys', Txn.Sys.Reach (fun _ _ => True) sys sys' → ∀ r,
    sys.world.db.enrollment? x = some r → r.status = .DROPPED ∨ r.status = .COMPLETED →
      sys'.world.db.enrollment? x = some r
  /-- `droppedAt` is set exactly when the row is DROPPED, unless the row came otherwise -/
  stamped : (∀ r, w.db.enrollment? x = some r → r.Stamped) →
    ∀ r, sys.world.db.enrollment? x = some r → r.Stamped
  /-- once the row has departed, no later step makes it depart -/
  once : ∀ l sys₁, sys.step l = some sys₁ → Departs x sys.world sys₁.world →
    ∀ sys₂, Txn.Sys.Reach (fun _ _ => True) sys₁ sys₂ → ∀ l' sys₃, sys₂.step l' = some sys₃ →
      ¬ Departs x sys₂.world sys₃.world
  /-- there is one event for a departure of the whole history, and none without one -/
  departures : sys.world.db.departures x + w.db.gone x = w.db.departures x + sys.world.db.gone x
  /-- at most that departure was an expiry -/
  expiries : sys.world.db.notices .WAITLIST_EXPIRED x + w.db.departures x
    ≤ w.db.notices .WAITLIST_EXPIRED x + sys.world.db.departures x
  /-- at most one promotion is ever announced, and none to a row that has left the queue -/
  promotions : sys.world.db.notices .WAITLIST_PROMOTED x + sys.world.db.hopeful x
    ≤ w.db.notices .WAITLIST_PROMOTED x + w.db.hopeful x

/-- **The life cycle of an enrollment.**  However the transactions interleave, every row lives
by it. -/
theorem enrollment_life_cycle {w : World} (hv : w.Valid) {sys : Sys}
    (hr : Txn.Sys.Reach (fun _ _ => True) (Txn.Sys.init w) sys) (x : EnrollmentId) :
    LifeCycle x w sys where
  step l sys' hs := fares_of_step (locks_run hv hr) hs x
  departing l sys' hs hd := by
    obtain ⟨f, hf, hby⟩ := fares_of_step (locks_run hv hr) hs x
    obtain ⟨b, rfl⟩ := hf.departed hd
    obtain ⟨t, ses, hl, ht, hop⟩ := hby (by simp)
    exact ⟨t, ses, hl, ht, hf.departure hop⟩
  final sys' hr' r hx hst := by
    have ha : r.active = false := by
      rcases hst with hst | hst <;> simp [Enrollment.active, EnrollmentStatus.active, hst]
    exact final_run hv hr hr' hx ha
  stamped := (tally_run hv hr x).stamped
  once := by
    rintro l sys₁ hs ⟨-, r, hx, hst⟩ sys₂ hr₂ l' sys₃ - ⟨⟨r₂, hx₂, hst₂⟩, -⟩
    have ha : r.active = false := by simp [Enrollment.active, EnrollmentStatus.active, hst]
    have hlast := final_run hv (hr.tail trivial hs) hr₂ hx ha
    obtain rfl := Option.some.inj (hlast.symm.trans hx₂)
    exact hst₂ hst
  departures := (tally_run hv hr x).departures
  expiries := (tally_run hv hr x).expiries
  promotions := (tally_run hv hr x).promotions

namespace Campus

/-- After that, student 1 drops section 10. -/
def leaving : List (Label registrar) := busy ++ serve 2 (.drop 100 1 (actor 1)) 7 0

set_option maxRecDepth 4000 in
theorem leaving_runs : (Txn.Sys.run (Txn.Sys.init world) leaving).isSome = true := by decide

def afterLeaving : Sys := (Txn.Sys.run (Txn.Sys.init world) leaving).get leaving_runs

theorem leaving_reached : Txn.Sys.Reach (fun _ _ => True) (Txn.Sys.init world) afterLeaving :=
  .of_run .refl (fun _ _ _ => trivial) (Option.some_get leaving_runs).symm

theorem life_cycle_leaving : LifeCycle 100 world afterLeaving :=
  enrollment_life_cycle world_valid leaving_reached 100

end Campus

end Enroll
