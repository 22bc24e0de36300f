/-
# What the audit events of a request say

Every commit appends the events of its log to the outbox.  `Tells` is what they say: replayed on the
tables before the commit they give the tables after it, each records what it finds, and all their
ids were drawn while the request held every section that they concern.  `Outcome.tells` proves it
of every request.

Drops, promotions and expiries are one kind: rows are settled one after the other, with an event
each (`tells_settled`).  Seats and places in the queue are another: one row is new
(`tells_created`).
-/
import Enroll.AuditReplay
import Enroll.Registrar

namespace Enroll

open Txn (Ctx)

variable {X : Extra} {op : Op} {c c' : Ctx postgres}

/-! ## 1. Tables and growth -/

theorem Grows.enrollment? {w w' : World} (h : Grows w w') (hv' : w'.Valid) {x : EnrollmentId}
    {r : Enrollment} (hr : w.db.enrollment? x = some r) :
    ∃ r', w'.db.enrollment? x = some r' ∧ r'.sectionId = r.sectionId := by
  obtain ⟨hmem, rfl⟩ := enrollment?_mem hr
  obtain ⟨r', hr', hid, -, hsec, -⟩ := h.rows r hmem
  exact ⟨r', hid ▸ hv'.db.enrollment?_of_mem hr', hsec⟩

theorem Grows.named {w w' : World} (h : Grows w w') (hv' : w'.Valid) {e : AuditOutbox}
    (he : e.Named w.db) : e.Named w'.db := by
  constructor
  · intro x hx
    obtain ⟨r, hr⟩ := he.known x hx
    obtain ⟨r', hr', -⟩ := h.enrollment? hv' hr
    exact ⟨r', hr'⟩
  · intro x p ht ha
    obtain ⟨r, hr, hsec⟩ := he.placed x p ht ha
    obtain ⟨r', hr', hsec'⟩ := h.enrollment? hv' hr
    exact ⟨r', hr', hsec'.trans hsec⟩

theorem Grows.sectioned {w w' : World} (h : Grows w w') (hv' : w'.Valid) {T : Tables}
    (hT : Sectioned w.db T) : Sectioned w'.db T := by
  intro x p hp
  obtain ⟨r, hr, hsec⟩ := hT x p hp
  obtain ⟨r', hr', hsec'⟩ := h.enrollment? hv' hr
  exact ⟨r', hr', hsec'.trans hsec⟩

/-- What a committed event concerns stays what it is. -/
theorem Grows.concerns {w w' : World} (h : Grows w w') (hv' : w'.Valid) {e : AuditOutbox}
    (he : e.Named w.db) (s : SectionId) : e.concerns w'.db s = e.concerns w.db s := by
  refine Bool.eq_iff_iff.mpr ?_
  rw [AuditOutbox.concerns_iff, AuditOutbox.concerns_iff]
  refine or_congr_right ⟨?_, ?_⟩
  · rintro ⟨x, hx, r', hr', hsec'⟩
    obtain ⟨r, hr⟩ := he.known x hx
    obtain ⟨r'', hr'', hsec⟩ := h.enrollment? hv' hr
    obtain rfl := Option.some.inj (hr'.symm.trans hr'')
    exact ⟨x, hx, r, hr, hsec.symm.trans hsec'⟩
  · rintro ⟨x, hx, r, hr, hsec⟩
    obtain ⟨r', hr', hsec'⟩ := h.enrollment? hv' hr
    exact ⟨x, hx, r', hr', hsec'.trans hsec⟩

theorem sectioned_tables {db : Db} : Sectioned db db.tables := by
  intro x p hp
  obtain ⟨r, hr, rfl⟩ := Option.map_eq_some_iff.mp hp
  exact ⟨r, hr, rfl⟩

/-! ## 2. The tables after a commit -/

/-- The section updates leave the limits alone. -/
def KeepsLimits (ps : List (SectionId × SectionData)) : Prop :=
  ∀ p ∈ ps, ∀ sec, (p.2.patch sec).limits = sec.limits

theorem KeepsLimits.patchSection {ps : List (SectionId × SectionData)} (h : KeepsLimits ps)
    (s : SectionId) (sec : Section) : (Enroll.patchSection s ps sec).limits = sec.limits := by
  induction ps generalizing sec with
  | nil => rfl
  | cons p ps ih =>
    rw [patchSection_cons, ih fun q hq => h q (List.mem_cons_of_mem p hq)]
    split
    · exact h p List.mem_cons_self sec
    · rfl

theorem keepsLimits_seatBack (r : Enrollment) : KeepsLimits (seatBackCounters r) := by
  intro p hp sec
  rw [(mem_seatBackCounters hp).1]
  rfl

theorem KeepsLimits.view (h : KeepsLimits (countersOf c.log)) (s : SectionId) :
    c.view.db.tables.limits s = c.world.db.tables.limits s := by
  have hview : c.view.db.tables.limits s
      = (c.view.db.section? s).map Section.limits := rfl
  rw [hview, view_section?, Option.map_map]
  exact congrArg (fun f => (c.world.db.section? s).map f) (funext fun sec => h.patchSection s sec)

/-! ## 3. What the events of a request say -/

/-- The events `es` of a request tell its commit, and are about the sections `ss`. -/
structure Tells (X : Extra) (op : Op) (ss : List SectionId) (c : Ctx postgres)
    (es : List AuditOutbox) : Prop where
  events : eventsOf c.log = es
  named : ∀ e ∈ es, e.Named c.view.db
  about : ∀ e ∈ es, ∀ s, e.concerns c.view.db s = true → s ∈ ss
  drawn : ∀ e ∈ es, Drawn X op ss e.id c
  ascending : es.Pairwise fun a b => a.id < b.id
  tables : replay es c.world.db.tables = c.view.db.tables
  recorded : ∀ l e r, es = l ++ e :: r → e.Recorded (replay l c.world.db.tables)

theorem Tells.of_log_nil (h : c.log = []) : Tells X op [] c [] where
  events := by rw [h]; rfl
  named _ he := absurd he List.not_mem_nil
  about _ he := absurd he List.not_mem_nil
  drawn _ he := absurd he List.not_mem_nil
  ascending := List.Pairwise.nil
  tables := by rw [view_of_log_nil h]; rfl
  recorded l e r hes := absurd hes (by simp)

/-- A single event. -/
theorem Tells.single {ss : List SectionId} {e : AuditOutbox} (hev : eventsOf c.log = [e])
    (hnamed : e.Named c.view.db) (habout : ∀ s, e.concerns c.view.db s = true → s ∈ ss)
    (hdrawn : Drawn X op ss e.id c) (hplaces : ∀ x,
      e.onEnrollment x (c.world.db.tables.places x) = c.view.db.tables.places x)
    (hlimits : ∀ s, e.onSection s (c.world.db.tables.limits s) = c.view.db.tables.limits s)
    (hrec : e.Recorded c.world.db.tables) : Tells X op ss c [e] where
  events := hev
  named _ he := List.mem_singleton.mp he ▸ hnamed
  about _ he := List.mem_singleton.mp he ▸ habout
  drawn _ he := List.mem_singleton.mp he ▸ hdrawn
  ascending := List.pairwise_singleton _ _
  tables := Tables.ext' hplaces hlimits
  recorded l e' r hes := by
    cases l with
    | nil =>
      obtain ⟨rfl, -⟩ := List.cons.inj hes
      exact hrec
    | cons a l => exact absurd hes (by simp)

/-! ### Enrollments that are settled -/

/-- The event takes the row `r` to where the update `d` takes it, and names no other. -/
structure Settles (r : Enrollment) (d : EnrollmentData) (e : AuditOutbox) : Prop where
  target : e.target = .enrollmentTarget r.id
  names : e.enrollments = [r.id]
  acts : e.onEnrollment r.id (some r.placement) = some (d.patch r).placement
  before : ∃ f, e.payload.before = some f ∧ f.enrollmentId = none ∧ f.Describes r.placement
  placed : ∀ p, e.after.placement = some p → p.sectionId = r.sectionId

theorem settles_drop (r : Enrollment) (actor : RequestActor) (droppedAt t : Time)
    (n : OutboxId) : Settles r (departure droppedAt) ((dropEvent actor r).row n t) := by
  unfold dropEvent
  split
  · constructor
    · rfl
    · rfl
    · exact if_pos rfl
    · exact ⟨_, rfl, rfl, by rintro s ⟨⟩; rfl, by rintro st ⟨⟩; rfl, by rintro m ⟨⟩⟩
    · rintro p ⟨⟩
      rfl
  · constructor
    · rfl
    · rfl
    · exact if_pos rfl
    · exact ⟨_, rfl, rfl, by rintro s ⟨⟩, by rintro st ⟨⟩; rfl, by rintro m ⟨⟩; rfl⟩
    · rintro p ⟨⟩

theorem settles_promoted {r : Enrollment} (hw : r.status = .WAITLISTED) (enrolledAt t : Time)
    (n : OutboxId) :
    Settles r (promotion enrolledAt)
      ((promotedEvent r ((promotion enrolledAt).patch r)).row n t) := by
  constructor
  · rfl
  · rfl
  · exact if_pos rfl
  · exact ⟨_, rfl, rfl, by rintro s ⟨⟩, by rintro st ⟨⟩; exact hw, by rintro m ⟨⟩; rfl⟩
  · rintro p ⟨⟩
    rfl

theorem settles_expired {r : Enrollment} (hw : r.status = .WAITLISTED) (droppedAt t : Time)
    (n : OutboxId) : Settles r (departure droppedAt) ((expiredEvent r).row n t) := by
  constructor
  · rfl
  · rfl
  · exact if_pos rfl
  · exact ⟨_, rfl, rfl, by rintro s ⟨⟩, by rintro st ⟨⟩; exact hw, by rintro m ⟨⟩; rfl⟩
  · rintro p ⟨⟩

section Settled

variable {ι : Type} {us : List ι} {row : ι → Enrollment} {data : ι → EnrollmentData}
  {event : ι → AuditOutbox} {T : Tables} {x : EnrollmentId}

theorem Settles.idle {r : Enrollment} {d : EnrollmentData} {e : AuditOutbox} (h : Settles r d e)
    (hx : r.id ≠ x) (p : Option Placement) : e.onEnrollment x p = p := by
  refine onEnrollment_idle (fun hmem => hx ?_) p
  rw [h.names] at hmem
  exact (List.mem_singleton.mp hmem).symm

/-- Rows that the events do not name. -/
theorem replay_settled_ne (hset : ∀ u ∈ us, Settles (row u) (data u) (event u))
    (hx : ∀ u ∈ us, (row u).id ≠ x) : (replay (us.map event) T).places x = T.places x := by
  rw [replay_places]
  refine History.replay_idle fun e he => ?_
  obtain ⟨u, hu, rfl⟩ := List.mem_map.mp he
  exact (hset u hu).idle (hx u hu)

/-- **One row after the other is settled.** -/
theorem replay_settled (hset : ∀ u ∈ us, Settles (row u) (data u) (event u))
    (hnd : (us.map fun u => (row u).id).Nodup) {r : Enrollment}
    (hT : T.places r.id = some r.placement) (hrow : ∀ u ∈ us, (row u).id = r.id → row u = r) :
    (replay (us.map event) T).places r.id
      = some (patchRow (us.map fun u => ((row u).id, data u)) r).placement := by
  induction us generalizing T r with
  | nil => exact hT
  | cons u us ih =>
    obtain ⟨hu, hnd'⟩ := List.nodup_cons.mp hnd
    have hset' := fun v hv => hset v (List.mem_cons_of_mem u hv)
    have hstep : (T.step (event u)).places r.id
        = (event u).onEnrollment r.id (T.places r.id) := rfl
    by_cases he : (row u).id = r.id
    · obtain rfl := hrow u List.mem_cons_self he
      have hacts : (T.step (event u)).places (row u).id
          = some ((data u).patch (row u)).placement := by
        rw [hstep, hT]
        exact (hset u List.mem_cons_self).acts
      rw [List.map_cons, List.map_cons, patchRow_cons, if_pos rfl]
      refine ih hset' hnd' (r := (data u).patch (row u)) hacts fun v hv hid => ?_
      exact absurd (List.mem_map.mpr ⟨v, hv, hid⟩) hu
    · rw [List.map_cons, List.map_cons, patchRow_cons, if_neg (Ne.symm he)]
      refine ih hset' hnd' ?_ fun v hv => hrow v (List.mem_cons_of_mem u hv)
      rw [hstep, (hset u List.mem_cons_self).idle he]
      exact hT

variable (us row data event) in
/-- **A request that settles rows tells its commit.** -/
theorem tells_settled {ss : List SectionId} (hv : c.world.Valid) (hs : Sane c)
    (hpatches : patchesOf c.log = us.map fun u => ((row u).id, data u))
    (hins : insertsOf c.log = []) (hlimits : KeepsLimits (countersOf c.log))
    (hev : eventsOf c.log = us.map event)
    (hset : ∀ u ∈ us, Settles (row u) (data u) (event u))
    (hnd : (us.map fun u => (row u).id).Nodup)
    (hown : ∀ u ∈ us, row u ∈ c.world.db.enrollments ∧ (row u).sectionId ∈ ss)
    (hdrawn : ∀ u ∈ us, Drawn X op ss (event u).id c)
    (hasc : (us.map event).Pairwise fun a b => a.id < b.id) :
    Tells X op ss c (us.map event) := by
  have hworld : ∀ u ∈ us, c.world.db.enrollment? (row u).id = some (row u) := fun u hu =>
    hv.db.enrollment?_of_mem (hown u hu).1
  have hview : ∀ u ∈ us, ∃ r, c.view.db.enrollment? (row u).id = some r ∧
      r.sectionId = (row u).sectionId := fun u hu =>
    ⟨_, view_known hs (hworld u hu), patchRow_sectionId _ _⟩
  constructor
  · exact hev
  · intro e he
    obtain ⟨u, hu, rfl⟩ := List.mem_map.mp he
    obtain ⟨r, hr, hsec⟩ := hview u hu
    constructor
    · intro x hx
      rw [(hset u hu).names, List.mem_singleton] at hx
      exact ⟨r, hx ▸ hr⟩
    · intro x p ht ha
      have hx : (row u).id = x :=
        AuditTarget.enrollmentTarget.inj ((hset u hu).target.symm.trans ht)
      exact ⟨r, hx ▸ hr, hsec.trans ((hset u hu).placed p ha).symm⟩
  · intro e he s hc
    obtain ⟨u, hu, rfl⟩ := List.mem_map.mp he
    obtain ⟨r, hr, hsec⟩ := hview u hu
    rcases AuditOutbox.concerns_iff.mp hc with ht | ⟨x, hx, r', hr', hsec'⟩
    · exact absurd ((hset u hu).target.symm.trans ht) (by simp)
    · rw [(hset u hu).names, List.mem_singleton] at hx
      subst hx
      obtain rfl := Option.some.inj (hr.symm.trans hr')
      exact hsec'.symm.trans hsec ▸ (hown u hu).2
  · intro e he
    obtain ⟨u, hu, rfl⟩ := List.mem_map.mp he
    exact hdrawn u hu
  · exact hasc
  · refine Tables.ext' (fun x => ?_) fun s => ?_
    · have hafter : c.view.db.tables.places x
          = (c.view.db.enrollment? x).map Enrollment.placement := rfl
      cases hx : c.world.db.enrollment? x with
      | none =>
        have hnone : c.world.db.tables.places x = none := congrArg (Option.map _) hx
        rw [hafter, view_new hs hx, hins, replay_settled_ne hset, hnone]
        · rfl
        · rintro u hu rfl
          exact absurd (hx.symm.trans (hworld u hu)) (by simp)
      | some r =>
        obtain ⟨hmem, rfl⟩ := enrollment?_mem hx
        rw [hafter, view_known hs hx, hpatches]
        refine replay_settled hset hnd (congrArg (Option.map _) hx) fun u hu hid => ?_
        exact Keyed.eq_of_key_eq hv.db.enrollment_id (hown u hu).1 hmem hid
    · rw [hlimits.view, replay_limits]
      refine History.replay_idle fun e he => ?_
      obtain ⟨u, hu, rfl⟩ := List.mem_map.mp he
      exact onSection_idle (by rw [(hset u hu).target]; simp)
  · intro l e r hes
    obtain ⟨us₁, us₂, rfl, rfl, htail⟩ := List.map_eq_append_iff.mp hes
    obtain ⟨u, us₃, rfl, rfl, -⟩ := List.map_eq_cons_iff.mp htail
    have hu : u ∈ us₁ ++ u :: us₃ := List.mem_append_right us₁ List.mem_cons_self
    have hfirst : ∀ v ∈ us₁, (row v).id ≠ (row u).id := by
      rw [List.map_append, List.nodup_append] at hnd
      intro v hv
      exact hnd.2.2 _ (List.mem_map_of_mem hv) _ (List.mem_map_of_mem List.mem_cons_self)
    have hplace : (replay (us₁.map event) c.world.db.tables).places (row u).id
        = some (row u).placement := by
      rw [replay_settled_ne (fun v hv => hset v (List.mem_append_left _ hv)) hfirst]
      exact congrArg (Option.map _) (hworld u hu)
    obtain ⟨f, hf, hid, hd⟩ := (hset u hu).before
    unfold AuditOutbox.Recorded
    rw [(hset u hu).target]
    simp only [hf, hid]
    exact ⟨_, hplace, hd⟩

end Settled

theorem DropOutcome.tells {id : EnrollmentId} {actor : RequestActor} {r : Enrollment}
    {droppedAt t : Time} {n : OutboxId} (hv : c.world.Valid)
    (h : DropOutcome X op id actor r droppedAt t n c) :
    Tells X op [r.sectionId] c [(dropEvent actor r).row n t] := by
  refine tells_settled [()] (fun _ => r) (fun _ => departure droppedAt)
    (fun _ => (dropEvent actor r).row n t) hv (h.sane hv) h.parts.patches h.parts.inserts ?_
    h.parts.events ?_ ?_ ?_ ?_ ?_
  · rw [h.parts.counters]
    exact keepsLimits_seatBack r
  · exact fun _ _ => settles_drop r actor droppedAt t n
  · exact List.nodup_singleton _
  · exact fun _ _ => ⟨h.own.mem, List.mem_singleton_self _⟩
  · exact fun _ _ => h.drawn
  · exact List.pairwise_singleton _ _

theorem DrawnInOrder.events {s : SectionId} {turns : List Turn} {event : Turn → AuditOutbox}
    (h : DrawnInOrder X op s turns c) (hid : ∀ u, (event u).id = u.outboxId) :
    (turns.map event).Pairwise fun a b => a.id < b.id := by
  rw [List.pairwise_map]
  simp only [hid]
  exact List.pairwise_map.mp h.ascending

theorem PromotionOutcome.tells {s : SectionId} {sec : SectionJoin} {turns : List Turn}
    (hv : c.world.Valid) (h : PromotionOutcome X op s sec turns c) :
    Tells X op [s] c (promotionEvents turns) := by
  refine tells_settled turns Turn.row (fun u => promotion u.stamp) (fun u =>
    (promotedEvent u.row ((promotion u.stamp).patch u.row)).row u.outboxId u.eventAt) hv
    (h.sane hv) h.parts.patches h.parts.inserts ?_ h.parts.events ?_ ?_ ?_ ?_ ?_
  · rw [h.parts.counters]
    intro p hp sec'
    rw [List.mem_singleton.mp hp]
    rfl
  · exact fun u hu =>
      settles_promoted (mem_waiting.mp (h.waiting hu)).2.2 u.stamp u.eventAt u.outboxId
  · refine nodup_turns ?_ h.rows
    rw [List.map_take]
    exact (hv.db.nodup_byPosition s).sublist (List.take_sublist _ _)
  · intro u hu
    obtain ⟨hmem, hsec, -⟩ := mem_waiting.mp (h.waiting hu)
    exact ⟨hmem, hsec ▸ List.mem_singleton_self _⟩
  · exact h.drawn.drawn
  · exact h.drawn.events fun _ => rfl

theorem ExpiryOutcome.tells {s : SectionId} {live : Section} {turns : List Turn}
    (hv : c.world.Valid) (h : ExpiryOutcome X op s live turns c) :
    Tells X op [s] c (expiryEvents turns) := by
  refine tells_settled turns Turn.row (fun u => departure u.stamp)
    (fun u => (expiredEvent u.row).row u.outboxId u.eventAt) hv (h.sane hv) h.parts.patches
    h.parts.inserts ?_ h.parts.events ?_ ?_ ?_ ?_ ?_
  · rw [h.parts.counters]
    exact fun _ hp => absurd hp List.not_mem_nil
  · exact fun u hu =>
      settles_expired (mem_waiting.mp (h.waiting hu)).2.2 u.stamp u.eventAt u.outboxId
  · exact nodup_turns (hv.db.nodup_waiting s) h.rows
  · intro u hu
    obtain ⟨hmem, hsec, -⟩ := mem_waiting.mp (h.waiting hu)
    exact ⟨hmem, hsec ▸ List.mem_singleton_self _⟩
  · exact h.drawn.drawn
  · exact h.drawn.events fun _ => rfl

/-! ### Rows that are new -/

/-- The event places the new row `r`. -/
structure Places (r : Enrollment) (e : AuditOutbox) : Prop where
  target : e.target = .enrollmentTarget r.id
  acts : ∀ p, e.onEnrollment r.id p = some r.placement
  placed : e.after.placement = some r.placement

theorem Places.named {r : Enrollment} {e : AuditOutbox} (h : Places r e) (hs : Sane c)
    (hins : insertsOf c.log = [r])
    (hknown : ∀ x ∈ e.enrollments, x ≠ r.id → ∃ r', c.world.db.enrollment? x = some r') :
    e.Named c.view.db := by
  constructor
  · intro x hx
    by_cases he : x = r.id
    · exact ⟨r, he ▸ view_inserted hs hins⟩
    · obtain ⟨r', hr'⟩ := hknown x hx he
      exact ⟨_, view_known hs hr'⟩
  · intro x p ht ha
    have hx : r.id = x := AuditTarget.enrollmentTarget.inj (h.target.symm.trans ht)
    obtain rfl := Option.some.inj (h.placed.symm.trans ha)
    exact ⟨r, hx ▸ view_inserted hs hins, rfl⟩

/-- A row that the event does not name. -/
theorem view_unnamed (hs : Sane c) {r : Enrollment} (hins : insertsOf c.log = [r])
    {e : AuditOutbox} {x : EnrollmentId} (hx : x ∉ e.enrollments) (hne : x ≠ r.id)
    (hpatches : ∀ p ∈ patchesOf c.log, p.1 ≠ x) :
    e.onEnrollment x (c.world.db.tables.places x) = c.view.db.tables.places x := by
  have hview : c.view.db.enrollment? x = c.world.db.enrollment? x := by
    cases hrow : c.world.db.enrollment? x with
    | none =>
      rw [view_new hs hrow, hins]
      simp [Keyed.lookup, Ne.symm hne]
    | some r' =>
      obtain ⟨-, rfl⟩ := enrollment?_mem hrow
      rw [view_known hs hrow, patchRow_of_ne hpatches]
  rw [onEnrollment_idle hx]
  exact (congrArg (Option.map Enrollment.placement) hview).symm

/-- **A request that inserts a row tells its commit.** -/
theorem tells_created {r : Enrollment} {e : AuditOutbox} (hs : Sane c)
    (hpatches : patchesOf c.log = []) (hins : insertsOf c.log = [r])
    (hlimits : KeepsLimits (countersOf c.log)) (hev : eventsOf c.log = [e]) (h : Places r e)
    (hnames : e.enrollments = [r.id]) (hbefore : e.payload.before = none)
    (hdrawn : Drawn X op [r.sectionId] e.id c) : Tells X op [r.sectionId] c [e] := by
  have hmem : ∀ {x}, x ∈ e.enrollments → x = r.id := by
    intro x hx
    rw [hnames] at hx
    exact List.mem_singleton.mp hx
  have hr : r ∈ insertsOf c.log := hins ▸ List.mem_singleton_self r
  have hnone : c.world.db.tables.places r.id = none :=
    congrArg (Option.map _) (enrollment?_none (hs.inserts r hr).1.unused)
  refine .single hev (h.named hs hins fun x hx hne => absurd (hmem hx) hne) ?_ hdrawn ?_ ?_ ?_
  · intro s hc
    rcases AuditOutbox.concerns_iff.mp hc with ht | ⟨x, hx, r', hr', rfl⟩
    · exact absurd (h.target.symm.trans ht) (by simp)
    · obtain rfl := hmem hx
      obtain rfl := Option.some.inj (hr'.symm.trans (view_inserted hs hins))
      exact List.mem_singleton_self _
  · intro x
    by_cases he : x = r.id
    · subst he
      rw [h.acts]
      exact (congrArg (Option.map Enrollment.placement) (view_inserted hs hins)).symm
    · refine view_unnamed hs hins (fun hx => he (hmem hx)) he ?_
      rw [hpatches]
      exact fun _ hp => absurd hp List.not_mem_nil
  · intro s
    rw [hlimits.view]
    exact onSection_idle (by rw [h.target]; simp) _
  · unfold AuditOutbox.Recorded
    rw [h.target]
    simp only [hbefore]
    exact hnone

theorem keepsLimits_counter (s : SectionId) (n : Int) : KeepsLimits [(s, counter n)] := by
  intro p hp sec
  rw [List.mem_singleton.mp hp]
  rfl

theorem EnrollOutcome.tells {input : EnrollDto} {u : UserId} {actor : RequestActor}
    (hv : c.world.Valid) (h : EnrollOutcome X op input u actor c) :
    ∃ ss es, Tells X op ss c es := by
  have hs := h.sane hv
  cases h with
  | already log => exact ⟨_, _, .of_log_nil log⟩
  | seated sec live x t t' n lock seat fresh checked drawn log =>
    have hparts := Parts.of_seated log
    refine ⟨_, _, tells_created hs hparts.patches hparts.inserts ?_ hparts.events ?_ rfl rfl drawn⟩
    · rw [hparts.counters]
      exact keepsLimits_counter input.sectionId 1
    · exact ⟨rfl, fun p => if_pos rfl, rfl⟩
  | queued sec live x t t' n p lock full cap position fresh checked drawn log =>
    have hparts := Parts.of_queued log
    refine ⟨_, _, tells_created hs hparts.patches hparts.inserts ?_ hparts.events ?_ rfl rfl drawn⟩
    · rw [hparts.counters]
      exact fun _ hp => absurd hp List.not_mem_nil
    · exact ⟨rfl, fun p => if_pos rfl, rfl⟩

/-- A swap is one event about two rows. -/
theorem SwapOutcome.tells {id : EnrollmentId} {input : SwapDto} {u : UserId}
    {actor : RequestActor} {r : Enrollment} {sec : SectionJoin} {live : Section}
    {x : EnrollmentId} {droppedAt t t' : Time} {n : OutboxId} (hv : c.world.Valid)
    (h : SwapOutcome X op id input u actor r sec live x droppedAt t t' n c) :
    Tells X op [r.sectionId, input.targetSectionId] c
      [(swappedEvent u actor r r ((seatRow u input.targetSectionId).row x t)).row n t'] := by
  have hs := h.sane hv
  have hins := h.parts.inserts
  have hsource : c.world.db.enrollment? r.id = some r := hv.db.enrollment?_of_mem h.own.mem
  have hnone := enrollment?_none h.fresh.unused
  have hne : r.id ≠ x := by
    rintro rfl
    exact absurd (hsource.symm.trans hnone) (by simp)
  have hview : c.view.db.enrollment? r.id = some ((departure droppedAt).patch r) := by
    rw [view_known hs hsource, h.parts.patches]
    exact congrArg some (if_pos rfl)
  have hmem : ∀ {y}, y ∈ AuditOutbox.enrollments ((swappedEvent u actor r r
      ((seatRow u input.targetSectionId).row x t)).row n t') → y = x ∨ y = r.id := by
    intro y hy
    simpa [AuditOutbox.enrollments, swappedEvent, RecordEventParams.row, AuditOutbox.before,
      AuditOutbox.after, EnrollmentCreate.row] using hy
  have hplaces : Places ((seatRow u input.targetSectionId).row x t)
      ((swappedEvent u actor r r ((seatRow u input.targetSectionId).row x t)).row n t') :=
    ⟨rfl, fun p => if_pos rfl, rfl⟩
  refine .single h.parts.events (hplaces.named hs hins ?_) ?_ h.drawn ?_ ?_ ?_
  · intro y hy hyx
    rcases hmem hy with rfl | rfl
    · exact absurd rfl hyx
    · exact ⟨r, hsource⟩
  · intro s hc
    rcases AuditOutbox.concerns_iff.mp hc with ht | ⟨y, hy, r', hr', rfl⟩
    · exact absurd (hplaces.target.symm.trans ht) (by simp)
    · rcases hmem hy with rfl | rfl
      · obtain rfl := Option.some.inj (hr'.symm.trans (view_inserted hs hins))
        exact List.mem_cons_of_mem _ (List.mem_singleton_self _)
      · obtain rfl := Option.some.inj (hr'.symm.trans hview)
        exact List.mem_cons_self
  · intro y
    by_cases hyx : y = x
    · subst hyx
      exact (hplaces.acts _).trans
        (congrArg (Option.map Enrollment.placement) (view_inserted hs hins)).symm
    · by_cases hyr : y = r.id
      · subst hyr
        have hbefore : c.world.db.tables.places r.id = some r.placement :=
          congrArg (Option.map _) hsource
        have hafter : c.view.db.tables.places r.id
            = some (Placement.settle .DROPPED r.placement) := congrArg (Option.map _) hview
        rw [hbefore, hafter]
        refine (if_neg ?_).trans (if_pos rfl)
        exact fun ht => hyx (AuditTarget.enrollmentTarget.inj ht).symm
      · refine view_unnamed hs hins (fun hy => (hmem hy).elim hyx hyr) hyx ?_
        rw [h.parts.patches]
        intro p hp
        rw [List.mem_singleton.mp hp]
        exact Ne.symm hyr
  · intro s
    have hlimits : KeepsLimits (countersOf c.log) := by
      rw [h.parts.counters]
      intro p hp
      rcases List.mem_append.mp hp with hp | hp
      · exact keepsLimits_seatBack r p hp
      · exact keepsLimits_counter input.targetSectionId 1 p hp
    rw [hlimits.view]
    exact onSection_idle (by rw [hplaces.target]; simp) _
  · exact ⟨r.placement, congrArg (Option.map _) hsource,
      by rintro s ⟨⟩; rfl, by rintro st ⟨⟩; rfl, by rintro m ⟨⟩⟩

/-! ### Waitlists and limits -/

/-- The waitlist as it stands. -/
theorem isWaitlist_wl {db : Db} (hv : db.Valid) (s : SectionId) :
    db.tables.IsWaitlist s (db.wl s) := by
  have hplace : ∀ r ∈ db.waiting s, db.tables.places r.id = some r.placement := fun r hr =>
    congrArg (Option.map _) (hv.enrollment?_of_mem (mem_waiting.mp hr).1)
  constructor
  · exact hv.nodup_wl s
  · intro x
    rw [mem_wl]
    constructor
    · rintro ⟨r, hr, rfl⟩
      obtain ⟨-, hsec, hst⟩ := mem_waiting.mp hr
      exact ⟨r.placement, hplace r hr, hsec, hst⟩
    · rintro ⟨p, hp, hsec, hst⟩
      obtain ⟨r, hr, rfl⟩ := Option.map_eq_some_iff.mp hp
      obtain ⟨hmem, rfl⟩ := enrollment?_mem hr
      exact ⟨r, mem_waiting.mpr ⟨hmem, hsec, hst⟩, rfl⟩
  · have htotal : Std.Total (fun a b : Enrollment =>
        positionLe a.waitlistPosition b.waitlistPosition = true) := ⟨fun _ _ => positionLe_total _ _⟩
    have htrans : IsTrans Enrollment (fun a b : Enrollment =>
        positionLe a.waitlistPosition b.waitlistPosition = true) := ⟨fun _ _ _ => positionLe_trans⟩
    refine List.pairwise_map.mpr ((List.pairwise_insertionSort (fun a b : Enrollment =>
      positionLe a.waitlistPosition b.waitlistPosition = true) _).imp_of_mem ?_)
    intro a b ha hb hab
    rw [hplace a (mem_byPosition.mp ha), hplace b (mem_byPosition.mp hb)]
    exact hab

theorem ReorderOutcome.tells {s : SectionId} {dto : ReorderWaitlistDto} {actor : RequestActor}
    {live : Section} {t : Time} {n : OutboxId} (hv : c.world.Valid)
    (h : ReorderOutcome X op s dto actor live t n c) : Tells X op [s] c
      [(reorderedEvent s actor (c.world.db.wl s) dto.orderedEnrollmentIds).row n t] := by
  have hs := h.sane hv
  have hlisted : ∀ x ∈ dto.orderedEnrollmentIds, ∃ r, c.world.db.enrollment? x = some r ∧
      r.sectionId = s := by
    intro x hx
    obtain ⟨r, hr, rfl⟩ := mem_wl.mp (h.perm.mem_iff.mp hx)
    obtain ⟨hmem, hsec, -⟩ := mem_waiting.mp hr
    exact ⟨r, hv.db.enrollment?_of_mem hmem, hsec⟩
  refine .single h.parts.events ⟨?_, ?_⟩ ?_ h.drawn ?_ ?_ ?_
  · intro x hx
    obtain ⟨r, hr, -⟩ := hlisted x hx
    exact ⟨_, view_known hs hr⟩
  · rintro x p ⟨⟩
  · intro s' hc
    rcases AuditOutbox.concerns_iff.mp hc with ht | ⟨x, hx, r', hr', rfl⟩
    · exact AuditTarget.sectionTarget.inj ht ▸ List.mem_singleton_self _
    · obtain ⟨r, hr, rfl⟩ := hlisted x hx
      obtain rfl := Option.some.inj (hr'.symm.trans (view_known hs hr))
      rw [patchRow_sectionId]
      exact List.mem_singleton_self _
  · intro x
    cases hrow : c.world.db.enrollment? x with
    | none =>
      have hview : c.view.db.enrollment? x = none := by
        rw [view_new hs hrow, h.parts.inserts]
        rfl
      have hbefore : c.world.db.tables.places x = none := congrArg (Option.map _) hrow
      have hafter : c.view.db.tables.places x = none := congrArg (Option.map _) hview
      rw [hbefore, hafter]
      rfl
    | some r =>
      obtain ⟨-, rfl⟩ := enrollment?_mem hrow
      have hview := view_known hs hrow
      rw [h.parts.patches, patchRow_placements dto.unique] at hview
      have hbefore : c.world.db.tables.places r.id = some r.placement :=
        congrArg (Option.map _) hrow
      have hafter : c.view.db.tables.places r.id = _ :=
        congrArg (Option.map Enrollment.placement) hview
      rw [hbefore, hafter]
      refine congrArg some ?_
      have hids : ∀ p : Placement, p.listed dto.orderedEnrollmentIds r.id
          = if r.id ∈ dto.orderedEnrollmentIds then
              { p with waitlistPosition := some (dto.orderedEnrollmentIds.idxOf r.id + 1 : Nat) }
            else p := fun _ => rfl
      refine (hids r.placement).trans ?_
      split
      · rw [Nat.zero_add]
        rfl
      · rfl
  · intro s'
    have hlimits : KeepsLimits (countersOf c.log) := by
      rw [h.parts.counters]
      exact fun _ hp => absurd hp List.not_mem_nil
    rw [hlimits.view]
    exact if_neg fun ha => absurd ha.1 (by simp [reorderedEvent, RecordEventParams.row])
  · refine ⟨?_, by rintro m ⟨⟩, by rintro m ⟨⟩⟩
    rintro ids ⟨⟩
    exact isWaitlist_wl hv.db s

theorem UpdateOutcome.tells {s : SectionId} {dto : UpdateSectionDto} {actor : RequestActor}
    {live : Section} {t : Time} {n : OutboxId} (hv : c.world.Valid)
    (h : UpdateOutcome X op s dto actor live t n c) : Tells X op [s] c
      [(sectionUpdatedEvent s actor live ((dto.capacity.getD none).getD live.capacity)
        (dto.waitlistCap.getD live.waitlistCap)).row n t] := by
  have hs := h.sane hv
  have hlive : c.world.db.tables.limits s = some live.limits := congrArg (Option.map _) h.lock.row
  refine .single h.parts.events ⟨?_, ?_⟩ ?_ h.drawn ?_ ?_ ?_
  · exact fun x hx => absurd hx List.not_mem_nil
  · rintro x p ⟨⟩
  · intro s' hc
    rcases AuditOutbox.concerns_iff.mp hc with ht | ⟨x, hx, -⟩
    · exact AuditTarget.sectionTarget.inj ht ▸ List.mem_singleton_self _
    · exact absurd hx List.not_mem_nil
  · intro x
    have hview : c.view.db.enrollment? x = c.world.db.enrollment? x := by
      rw [view_enrollment? hs, h.parts.patches, h.parts.inserts]
      cases c.world.db.enrollment? x <;> rfl
    exact (congrArg (Option.map Enrollment.placement) hview).symm
  · intro s'
    have hview : c.view.db.tables.limits s' = (c.view.db.section? s').map Section.limits := rfl
    rw [hview, view_section?, h.parts.counters, Option.map_map]
    by_cases he : s' = s
    · subst he
      rw [hlive, h.lock.row]
      refine (if_pos ⟨rfl, rfl⟩).trans (congrArg some ?_)
      rw [Function.comp_apply, patchSection_single, if_pos rfl]
      rfl
    · refine (if_neg fun ha => he (AuditTarget.sectionTarget.inj ha.2).symm).trans ?_
      refine congrArg (fun f => (c.world.db.section? s').map f) (funext fun sec => ?_)
      exact (congrArg Section.limits (if_neg he)).symm
  · refine ⟨by rintro ids ⟨⟩, ?_, ?_⟩
    · rintro m ⟨⟩
      exact ⟨_, hlive, rfl⟩
    · rintro m ⟨⟩
      exact ⟨_, hlive, rfl⟩

/-- **The events of a commit tell it.** -/
theorem Outcome.tells (hv : c.world.Valid) (h : Outcome X op c) : ∃ ss es, Tells X op ss c es := by
  cases op with
  | enroll input u actor => exact EnrollOutcome.tells hv h
  | drop id u actor =>
    obtain ⟨r, droppedAt, t, n, h⟩ := h
    exact ⟨_, _, h.tells hv⟩
  | swap id input u actor =>
    rcases h with h | ⟨r, sec, live, x, droppedAt, t, t', n, h⟩
    · exact ⟨_, _, .of_log_nil h⟩
    · exact ⟨_, _, h.tells hv⟩
  | runPromotion s =>
    rcases h with h | ⟨sec, turns, h⟩
    · exact ⟨_, _, .of_log_nil h⟩
    · exact ⟨_, _, h.tells hv⟩
  | reorder s dto actor =>
    obtain ⟨live, t, n, h⟩ := h
    exact ⟨_, _, h.tells hv⟩
  | expireSectionWaitlist s =>
    rcases h with ⟨h, -⟩ | ⟨live, turns, h⟩
    · exact ⟨_, _, .of_log_nil h⟩
    · exact ⟨_, _, h.tells hv⟩
  | updateSection s dto actor =>
    obtain ⟨live, t, n, h⟩ := h
    exact ⟨_, _, h.tells hv⟩

end Enroll
