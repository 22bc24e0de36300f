/-
# The registrar under any schedule

`Outcome` and `Failed` are what each request has done when it commits and why it fails.  Each
method meets them under any rely (`Op.body_spec`), and every outcome is sane (`Outcome.sane`): its
log stays under the locks it holds and within the schema.  So the sessions of the registrar fit
together (`registrar_sound`), and in every reachable state a session that is about to commit has
its outcome in the world it commits to.

A property that relies on more than the locks is an `Extra`; for it `registrar_sound` asks what
is special to it, that every commit keeps its invariant and is tolerated by the others.
-/
import Enroll.Commit

namespace Enroll

open Txn (Ctx Prog Forward wp wp_bind Discipline Session Label)

variable {X : Extra} {op : Op} {c c' : Ctx postgres}

/-! ## 1. The parts of each log -/

/-- A log, by its parts. -/
structure Parts (log : List Write) (patches : List (EnrollmentId × EnrollmentData))
    (inserts : List Enrollment) (counters : List (SectionId × SectionData))
    (events : List AuditOutbox) : Prop where
  patches : patchesOf log = patches
  inserts : insertsOf log = inserts
  counters : countersOf log = counters
  events : eventsOf log = events

theorem Parts.of_seated {log : List Write} {r : Enrollment} {s : SectionId} {d : SectionData}
    {e : AuditOutbox} (h : log = [.enrollmentInsert r, .sectionPatch s d, .auditInsert e]) :
    Parts log [] [r] [(s, d)] [e] := by
  subst h
  exact ⟨rfl, rfl, rfl, rfl⟩

theorem Parts.of_queued {log : List Write} {r : Enrollment} {e : AuditOutbox}
    (h : log = [.enrollmentInsert r, .auditInsert e]) : Parts log [] [r] [] [e] := by
  subst h
  exact ⟨rfl, rfl, rfl, rfl⟩

/-- The section update of a seat given back. -/
def seatBackCounters (r : Enrollment) : List (SectionId × SectionData) :=
  if r.status = .ENROLLED then [(r.sectionId, counter (-1))] else []

theorem seatBack_parts (r : Enrollment) : Parts (seatBack r) [] [] (seatBackCounters r) [] := by
  unfold seatBack seatBackCounters
  split <;> exact ⟨rfl, rfl, rfl, rfl⟩

theorem Parts.append {l l' : List Write} {p p' : List (EnrollmentId × EnrollmentData)}
    {i i' : List Enrollment} {k k' : List (SectionId × SectionData)} {e e' : List AuditOutbox}
    (h : Parts l p i k e) (h' : Parts l' p' i' k' e') :
    Parts (l ++ l') (p ++ p') (i ++ i') (k ++ k') (e ++ e') := by
  refine ⟨?_, ?_, ?_, ?_⟩
  · rw [patchesOf_append, h.patches, h'.patches]
  · rw [insertsOf_append, h.inserts, h'.inserts]
  · rw [countersOf_append, h.counters, h'.counters]
  · rw [eventsOf_append, h.events, h'.events]

theorem DropOutcome.parts {id : EnrollmentId} {actor : RequestActor} {r : Enrollment}
    {droppedAt t : Time} {n : OutboxId} (h : DropOutcome X op id actor r droppedAt t n c) :
    Parts c.log [(r.id, departure droppedAt)] [] (seatBackCounters r)
      [(dropEvent actor r).row n t] := by
  have hhead : Parts [.enrollmentPatch r.id (departure droppedAt)]
      [(r.id, departure droppedAt)] [] [] [] := ⟨rfl, rfl, rfl, rfl⟩
  have htail : Parts [.auditInsert ((dropEvent actor r).row n t)] [] [] []
      [(dropEvent actor r).row n t] := ⟨rfl, rfl, rfl, rfl⟩
  have hparts := (hhead.append (seatBack_parts r)).append htail
  rw [h.log]
  simpa only [List.append_nil, List.nil_append, List.singleton_append] using hparts

/-- The events of some promotion turns. -/
def promotionEvents (turns : List Turn) : List AuditOutbox :=
  turns.map (fun u =>
    (promotedEvent u.row ((promotion u.stamp).patch u.row)).row u.outboxId u.eventAt)

/-- The updates of some expiry turns. -/
def departures (turns : List Turn) : List (EnrollmentId × EnrollmentData) :=
  turns.map (fun u => (u.row.id, departure u.stamp))

/-- The events of some expiry turns. -/
def expiryEvents (turns : List Turn) : List AuditOutbox :=
  turns.map (fun u => (expiredEvent u.row).row u.outboxId u.eventAt)

theorem promoted_parts (sec : SectionJoin) (turns : List Turn) :
    Parts (turns.flatMap (Turn.promoted sec)) (promotions turns) [] []
      (promotionEvents turns) := by
  induction turns with
  | nil => exact ⟨rfl, rfl, rfl, rfl⟩
  | cons u turns ih =>
    rw [List.flatMap_cons]
    exact Parts.append (l := Turn.promoted sec u) ⟨rfl, rfl, rfl, rfl⟩ ih

theorem expired_parts (s : SectionId) (turns : List Turn) :
    Parts (turns.flatMap (Turn.expired s)) (departures turns) [] [] (expiryEvents turns) := by
  induction turns with
  | nil => exact ⟨rfl, rfl, rfl, rfl⟩
  | cons u turns ih =>
    rw [List.flatMap_cons]
    exact Parts.append (l := Turn.expired s u) ⟨rfl, rfl, rfl, rfl⟩ ih

theorem placements_parts (ps : List (EnrollmentId × EnrollmentData)) :
    Parts (ps.map (fun p => .enrollmentPatch p.1 p.2)) ps [] [] [] := by
  induction ps with
  | nil => exact ⟨rfl, rfl, rfl, rfl⟩
  | cons p ps ih =>
    rw [List.map_cons]
    exact Parts.append (l := [.enrollmentPatch p.1 p.2]) ⟨rfl, rfl, rfl, rfl⟩ ih

theorem SwapOutcome.parts {id : EnrollmentId} {input : SwapDto} {u : UserId}
    {actor : RequestActor} {r : Enrollment} {sec : SectionJoin} {live : Section}
    {x : EnrollmentId} {droppedAt t t' : Time} {n : OutboxId}
    (h : SwapOutcome X op id input u actor r sec live x droppedAt t t' n c) :
    Parts c.log [(r.id, departure droppedAt)] [(seatRow u input.targetSectionId).row x t]
      (seatBackCounters r ++ [(input.targetSectionId, counter 1)])
      [(swappedEvent u actor r r ((seatRow u input.targetSectionId).row x t)).row n t'] := by
  have hhead : Parts [.enrollmentPatch r.id (departure droppedAt)]
      [(r.id, departure droppedAt)] [] [] [] := ⟨rfl, rfl, rfl, rfl⟩
  have htail : Parts [.enrollmentInsert ((seatRow u input.targetSectionId).row x t),
        .sectionPatch input.targetSectionId (counter 1),
        .auditInsert ((swappedEvent u actor r r
          ((seatRow u input.targetSectionId).row x t)).row n t')]
      [] [(seatRow u input.targetSectionId).row x t] [(input.targetSectionId, counter 1)]
      [(swappedEvent u actor r r ((seatRow u input.targetSectionId).row x t)).row n t'] :=
    ⟨rfl, rfl, rfl, rfl⟩
  have hparts := (hhead.append (seatBack_parts r)).append htail
  rw [h.log]
  simpa only [List.append_nil, List.nil_append, List.singleton_append] using hparts

theorem PromotionOutcome.parts {s : SectionId} {sec : SectionJoin} {turns : List Turn}
    (h : PromotionOutcome X op s sec turns c) :
    Parts c.log (promotions turns) []
      [(s, counterSet (sec.sec.enrolledCount + turns.length))] (promotionEvents turns) := by
  have htail : Parts [.sectionPatch s (counterSet (sec.sec.enrolledCount + turns.length))] [] []
      [(s, counterSet (sec.sec.enrolledCount + turns.length))] [] := ⟨rfl, rfl, rfl, rfl⟩
  have hparts := (promoted_parts sec turns).append htail
  rw [h.log]
  simpa only [List.append_nil, List.nil_append] using hparts

theorem ExpiryOutcome.parts {s : SectionId} {live : Section} {turns : List Turn}
    (h : ExpiryOutcome X op s live turns c) :
    Parts c.log (departures turns) [] [] (expiryEvents turns) := by
  rw [h.log]
  exact expired_parts s turns

theorem ReorderOutcome.parts {s : SectionId} {dto : ReorderWaitlistDto} {actor : RequestActor}
    {live : Section} {t : Time} {n : OutboxId}
    (h : ReorderOutcome X op s dto actor live t n c) :
    Parts c.log (placements dto.orderedEnrollmentIds 0) [] []
      [(reorderedEvent s actor (c.world.db.wl s) dto.orderedEnrollmentIds).row n t] := by
  have htail : Parts [.auditInsert
        ((reorderedEvent s actor (c.world.db.wl s) dto.orderedEnrollmentIds).row n t)] [] [] []
      [(reorderedEvent s actor (c.world.db.wl s) dto.orderedEnrollmentIds).row n t] :=
    ⟨rfl, rfl, rfl, rfl⟩
  have hparts := (placements_parts (placements dto.orderedEnrollmentIds 0)).append htail
  rw [h.log]
  simpa only [List.append_nil, List.nil_append] using hparts

theorem UpdateOutcome.parts {s : SectionId} {dto : UpdateSectionDto} {actor : RequestActor}
    {live : Section} {t : Time} {n : OutboxId}
    (h : UpdateOutcome X op s dto actor live t n c) :
    Parts c.log [] [] [(s, limits ((dto.capacity.getD none).getD live.capacity)
        (dto.waitlistCap.getD live.waitlistCap))]
      [(sectionUpdatedEvent s actor live ((dto.capacity.getD none).getD live.capacity)
        (dto.waitlistCap.getD live.waitlistCap)).row n t] := by
  rw [h.log]
  exact ⟨rfl, rfl, rfl, rfl⟩

/-! ## 2. Every outcome is sane -/

/-- A log is sane when its parts are: it updates active rows of locked sections, inserts a fresh
row at most, and its section updates pass the `CHECK`. -/
theorem Sane.of_parts {ps : List (EnrollmentId × EnrollmentData)} {is : List Enrollment}
    {ks : List (SectionId × SectionData)} {es : List AuditOutbox} (hv : c.world.Valid)
    (hp : Parts c.log ps is ks es)
    (hps : ∀ p ∈ ps, ∃ r, OwnRow c r ∧ r.id = p.1 ∧ r.active = true)
    (his : ∀ r ∈ is, Fresh c r ∧ c.world.db.section? r.sectionId ≠ none)
    (hone : is.length ≤ 1) (hks : ∀ p ∈ ks, c.held (.sectionRow p.1))
    (hseats : ∀ s sec, c.world.db.section? s = some sec →
      (patchSection s ks sec).checkSeats = true)
    (hes : ∀ e ∈ es, e.id ≤ c.world.seq) : Sane c where
  patches := by
    rw [hp.patches]
    intro p hp' r hr he
    obtain ⟨r', own, hid, ha⟩ := hps p hp'
    rw [Keyed.eq_of_key_eq hv.db.enrollment_id hr own.mem (he.trans hid.symm)]
    exact ⟨own.held, ha⟩
  known := by
    rw [hp.patches]
    intro p hp'
    obtain ⟨r', own, hid, -⟩ := hps p hp'
    exact hasEnrollment_iff.mpr ⟨r', own.mem, hid⟩
  inserts := by rw [hp.inserts]; exact his
  single := by rw [hp.inserts]; exact hone
  counters := by rw [hp.counters]; exact hks
  seats := by rw [hp.counters]; exact hseats
  events := by rw [hp.events]; exact hes

/-- A waitlisted row of a locked section. -/
theorem OwnRow.of_waiting {s : SectionId} {r : Enrollment} (hs : c.held (.sectionRow s))
    (hr : r ∈ c.world.db.waiting s) : OwnRow c r ∧ r.active = true := by
  obtain ⟨hmem, hsec, hst⟩ := mem_waiting.mp hr
  exact ⟨⟨hsec ▸ hs, hmem⟩, by simp [Enrollment.active, hst, EnrollmentStatus.active]⟩

theorem checkSeats_of_valid (hv : c.world.Valid) {s : SectionId} {sec : Section}
    (h : c.world.db.section? s = some sec) : sec.checkSeats = true :=
  decide_eq_true (hv.db.seats sec (section?_mem h).1)

theorem checkSeats_counter {sec : Section} {n : Int} (h : 0 ≤ sec.enrolledCount + n)
    (h' : sec.enrolledCount + n ≤ sec.capacity) : ((counter n).patch sec).checkSeats = true :=
  decide_eq_true ⟨h, h'⟩

/-- One section update, of a section whose row is known. -/
theorem seats_of_single (hv : c.world.Valid) {s : SectionId} {live : Section}
    (lock : Locked c s live) {d : SectionData} (hd : (d.patch live).checkSeats = true) :
    ∀ s' sec, c.world.db.section? s' = some sec →
      (patchSection s' [(s, d)] sec).checkSeats = true := by
  intro s' sec hsec
  rw [patchSection_single]
  split
  · rename_i he
    subst he
    rw [lock.row, Option.some.injEq] at hsec
    exact hsec ▸ hd
  · exact checkSeats_of_valid hv hsec

theorem mem_seatBackCounters {r : Enrollment} {p : SectionId × SectionData}
    (h : p ∈ seatBackCounters r) : p = (r.sectionId, counter (-1)) ∧ r.status = .ENROLLED := by
  unfold seatBackCounters at h
  split at h
  · exact ⟨List.mem_singleton.mp h, ‹_›⟩
  · exact absurd h List.not_mem_nil

/-- Giving back a counted seat. -/
theorem seats_of_seatBack (hv : c.world.Valid) {r : Enrollment} (hc : Counted c r) :
    ∀ s sec, c.world.db.section? s = some sec →
      (patchSection s (seatBackCounters r) sec).checkSeats = true := by
  intro s sec hsec
  unfold seatBackCounters
  split
  · rename_i henr
    rw [patchSection_single]
    split
    · rename_i he
      subst he
      have := hc henr sec hsec
      have hv' := hv.db.seats sec (section?_mem hsec).1
      exact checkSeats_counter (by omega) (by omega)
    · exact checkSeats_of_valid hv hsec
  · exact checkSeats_of_valid hv hsec

/-- Giving back a seat here and taking one there. -/
theorem seats_of_move (hv : c.world.Valid) {r : Enrollment} {s : SectionId} {live : Section}
    (hc : Counted c r) (other : r.sectionId ≠ s) (lock : Locked c s live)
    (seat : live.enrolledCount < live.capacity) :
    ∀ s' sec, c.world.db.section? s' = some sec →
      (patchSection s' (seatBackCounters r ++ [(s, counter 1)]) sec).checkSeats = true := by
  intro s' sec hsec
  rw [patchSection_append, patchSection_single]
  split
  · rename_i he
    subst he
    rw [patchSection_of_ne fun p hp => by rw [(mem_seatBackCounters hp).1]; exact Ne.symm other]
    rw [lock.row, Option.some.injEq] at hsec
    subst hsec
    have := lock.seats hv
    exact checkSeats_counter (by omega) (by omega)
  · exact seats_of_seatBack hv hc s' sec hsec

theorem Locked.exists {s : SectionId} {live : Section} (lock : Locked c s live) :
    c.world.db.section? s ≠ none := by
  rw [lock.row]
  simp

theorem EnrollOutcome.sane {input : EnrollDto} {u : UserId} {actor : RequestActor}
    (hv : c.world.Valid) (h : EnrollOutcome X op input u actor c) : Sane c := by
  cases h with
  | already log => exact .of_log_nil hv log
  | seated sec live x t t' n lock seat fresh checked drawn log =>
    have hseats := lock.seats hv
    refine .of_parts hv (.of_seated log) ?_ ?_ (Nat.le_refl 1) ?_ ?_ ?_
    · simp
    · simpa using ⟨fresh, lock.exists⟩
    · simpa using lock.held
    · exact seats_of_single hv lock (checkSeats_counter (by omega) (by omega))
    · simpa [eventsOf, Write.event?] using drawn.le
  | queued sec live x t t' n p lock full cap position fresh checked drawn log =>
    refine .of_parts hv (.of_queued log) ?_ ?_ (Nat.le_refl 1) ?_ ?_ ?_
    · simp
    · simpa using ⟨fresh, lock.exists⟩
    · simp
    · exact fun s sec hs => checkSeats_of_valid hv hs
    · simpa [eventsOf, Write.event?] using drawn.le

theorem DropOutcome.sane {id : EnrollmentId} {actor : RequestActor} {r : Enrollment}
    {droppedAt t : Time} {n : OutboxId} (hv : c.world.Valid)
    (h : DropOutcome X op id actor r droppedAt t n c) : Sane c := by
  refine .of_parts hv h.parts ?_ (by simp) (Nat.zero_le 1) ?_ (seats_of_seatBack hv h.counted) ?_
  · simpa using ⟨r, h.own, rfl, h.active⟩
  · exact fun p hp => (mem_seatBackCounters hp).1 ▸ h.own.held
  · simpa using h.drawn.le

theorem SwapOutcome.sane {id : EnrollmentId} {input : SwapDto} {u : UserId}
    {actor : RequestActor} {r : Enrollment} {sec : SectionJoin} {live : Section}
    {x : EnrollmentId} {droppedAt t t' : Time} {n : OutboxId} (hv : c.world.Valid)
    (h : SwapOutcome X op id input u actor r sec live x droppedAt t t' n c) : Sane c := by
  refine .of_parts hv h.parts ?_ ?_ (Nat.le_refl 1) ?_
    (seats_of_move hv h.counted h.other h.lock h.seat) ?_
  · simpa using ⟨r, h.own, rfl, h.active⟩
  · simpa using ⟨h.fresh, h.lock.exists⟩
  · intro p hp
    rcases List.mem_append.mp hp with hp | hp
    · exact (mem_seatBackCounters hp).1 ▸ h.own.held
    · exact List.mem_singleton.mp hp ▸ h.lock.held
  · simpa using h.drawn.le

theorem PromotionOutcome.sane {s : SectionId} {sec : SectionJoin} {turns : List Turn}
    (hv : c.world.Valid) (h : PromotionOutcome X op s sec turns c) : Sane c := by
  have hseats := h.lock.seats hv
  refine .of_parts hv h.parts ?_ (by simp) (Nat.zero_le 1) ?_
    (seats_of_single hv h.lock (decide_eq_true ⟨?_, h.seats⟩)) ?_
  · intro p hp
    obtain ⟨u, hu, rfl⟩ := List.mem_map.mp hp
    obtain ⟨own, ha⟩ := OwnRow.of_waiting h.lock.held (h.waiting hu)
    exact ⟨u.row, own, rfl, ha⟩
  · simpa using h.lock.held
  · show 0 ≤ sec.sec.enrolledCount + (turns.length : Int)
    omega
  · intro e he
    obtain ⟨u, hu, rfl⟩ := List.mem_map.mp he
    exact (h.drawn.drawn u hu).le

theorem ExpiryOutcome.sane {s : SectionId} {live : Section} {turns : List Turn}
    (hv : c.world.Valid) (h : ExpiryOutcome X op s live turns c) : Sane c := by
  refine .of_parts hv h.parts ?_ (by simp) (Nat.zero_le 1) (by simp)
    (fun s sec hs => checkSeats_of_valid hv hs) ?_
  · intro p hp
    obtain ⟨u, hu, rfl⟩ := List.mem_map.mp hp
    obtain ⟨own, ha⟩ := OwnRow.of_waiting h.lock.held (h.waiting hu)
    exact ⟨u.row, own, rfl, ha⟩
  · intro e he
    obtain ⟨u, hu, rfl⟩ := List.mem_map.mp he
    exact (h.drawn.drawn u hu).le

theorem ReorderOutcome.sane {s : SectionId} {dto : ReorderWaitlistDto} {actor : RequestActor}
    {live : Section} {t : Time} {n : OutboxId} (hv : c.world.Valid)
    (h : ReorderOutcome X op s dto actor live t n c) : Sane c := by
  refine .of_parts hv h.parts ?_ (by simp) (Nat.zero_le 1) (by simp)
    (fun s sec hs => checkSeats_of_valid hv hs) ?_
  · intro p hp
    obtain ⟨r, hr, hid⟩ := h.waiting hp
    obtain ⟨own, ha⟩ := OwnRow.of_waiting h.lock.held hr
    exact ⟨r, own, hid, ha⟩
  · simpa using h.drawn.le

theorem UpdateOutcome.sane {s : SectionId} {dto : UpdateSectionDto} {actor : RequestActor}
    {live : Section} {t : Time} {n : OutboxId} (hv : c.world.Valid)
    (h : UpdateOutcome X op s dto actor live t n c) : Sane c := by
  refine .of_parts hv h.parts (by simp) (by simp) (Nat.zero_le 1) ?_
    (seats_of_single hv h.lock (decide_eq_true ⟨(h.lock.seats hv).1, h.enough⟩)) ?_
  · simpa using h.lock.held
  · simpa using h.drawn.le

/-! ## 3. What each request does -/

/-- What a request is about to commit. -/
def Outcome (X : Extra) (op : Op) (c : Ctx postgres) : Prop :=
  match op with
  | .enroll input u actor => EnrollOutcome X op input u actor c
  | .drop id _ actor => ∃ r droppedAt t n, DropOutcome X op id actor r droppedAt t n c
  | .swap id input u actor => SwapEnds X op id input u actor c
  | .runPromotion s => PromotionEnds X op s c
  | .reorder s dto actor => ∃ live t n, ReorderOutcome X op s dto actor live t n c
  | .expireSectionWaitlist s => ExpiryEnds X op s c
  | .updateSection s dto actor => ∃ live t n, UpdateOutcome X op s dto actor live t n c

/-- What is known of a request that failed. -/
def Failed (op : Op) (e : Failure) (c : Ctx postgres) : Prop :=
  ChecksOut e c ∧
    match op with
    | .reorder s dto _ => ReorderRefused s dto c
    | _ => True

theorem Outcome.later (h : Outcome X op c) (hl : Later X op c c') (hlog : c'.log = c.log) :
    Outcome X op c' := by
  cases op with
  | enroll input u actor => exact EnrollOutcome.later h hl hlog
  | drop id u actor =>
    obtain ⟨r, droppedAt, t, n, h⟩ := h
    exact ⟨r, droppedAt, t, n, h.later hl hlog⟩
  | swap id input u actor =>
    rcases h with h | ⟨r, sec, live, x, droppedAt, t, t', n, h⟩
    · exact Or.inl (hlog.trans h)
    · exact Or.inr ⟨r, sec, live, x, droppedAt, t, t', n, h.later hl hlog⟩
  | runPromotion s =>
    rcases h with h | ⟨sec, turns, h⟩
    · exact Or.inl (hlog.trans h)
    · exact Or.inr ⟨sec, turns, h.later hl hlog⟩
  | reorder s dto actor =>
    obtain ⟨live, t, n, h⟩ := h
    exact ⟨live, t, n, h.later hl hlog⟩
  | expireSectionWaitlist s =>
    rcases h with ⟨h, hs⟩ | ⟨live, turns, h⟩
    · exact Or.inl ⟨hlog.trans h, hl.rely.grows.section?_none hs⟩
    · exact Or.inr ⟨live, turns, h.later hl hlog⟩
  | updateSection s dto actor =>
    obtain ⟨live, t, n, h⟩ := h
    exact ⟨live, t, n, h.later hl hlog⟩

theorem Outcome.sane (hv : c.world.Valid) (h : Outcome X op c) : Sane c := by
  cases op with
  | enroll input u actor => exact EnrollOutcome.sane hv h
  | drop id u actor =>
    obtain ⟨r, droppedAt, t, n, h⟩ := h
    exact h.sane hv
  | swap id input u actor =>
    rcases h with h | ⟨r, sec, live, x, droppedAt, t, t', n, h⟩
    · exact .of_log_nil hv h
    · exact h.sane hv
  | runPromotion s =>
    rcases h with h | ⟨sec, turns, h⟩
    · exact .of_log_nil hv h
    · exact h.sane hv
  | reorder s dto actor =>
    obtain ⟨live, t, n, h⟩ := h
    exact h.sane hv
  | expireSectionWaitlist s =>
    rcases h with ⟨h, -⟩ | ⟨live, turns, h⟩
    · exact .of_log_nil hv h
    · exact h.sane hv
  | updateSection s dto actor =>
    obtain ⟨live, t, n, h⟩ := h
    exact h.sane hv

/-- The row a commit inserts: enroll seats it or queues it, or swap seats it. -/
inductive NewRow (c : Ctx postgres) : Op → Enrollment → Prop
  | seated {input : EnrollDto} {u : UserId} {actor : RequestActor} (live : Section)
      (x : EnrollmentId) (t : Time) (lock : Locked c input.sectionId live)
      (seat : live.enrolledCount < live.capacity) :
      NewRow c (.enroll input u actor) ((seatRow u input.sectionId).row x t)
  | queued {input : EnrollDto} {u : UserId} {actor : RequestActor} (x : EnrollmentId) (t : Time)
      (p : Int) : NewRow c (.enroll input u actor) ((queueRow u input.sectionId p).row x t)
  | moved {id : EnrollmentId} {input : SwapDto} {u : UserId} {actor : RequestActor}
      (live : Section) (x : EnrollmentId) (t : Time)
      (lock : Locked c input.targetSectionId live) (seat : live.enrolledCount < live.capacity) :
      NewRow c (.swap id input u actor) ((seatRow u input.targetSectionId).row x t)

/-- The other operations insert no row. -/
theorem Outcome.newRow (h : Outcome X op c) {r : Enrollment} (hr : r ∈ insertsOf c.log) :
    NewRow c op r := by
  have hnone : insertsOf c.log ≠ [] := List.ne_nil_of_mem hr
  have hnil : c.log ≠ [] := fun hlog => hnone (by rw [hlog]; rfl)
  cases op with
  | enroll input u actor =>
    have henroll : EnrollOutcome X (.enroll input u actor) input u actor c := h
    cases henroll with
    | already log => exact absurd log hnil
    | seated sec live x t t' n lock seat fresh checked drawn log =>
      rw [(Parts.of_seated log).inserts, List.mem_singleton] at hr
      subst hr
      exact .seated live x t lock seat
    | queued sec live x t t' n p lock full cap position fresh checked drawn log =>
      rw [(Parts.of_queued log).inserts, List.mem_singleton] at hr
      subst hr
      exact .queued x t p
  | drop id u actor =>
    obtain ⟨r', droppedAt, t, n, h⟩ := h
    exact absurd h.parts.inserts hnone
  | swap id input u actor =>
    rcases h with hlog | ⟨r', sec, live, x, droppedAt, t, t', n, h⟩
    · exact absurd hlog hnil
    · rw [h.parts.inserts, List.mem_singleton] at hr
      subst hr
      exact .moved live x t h.lock h.seat
  | runPromotion s =>
    rcases h with hlog | ⟨sec, turns, h⟩
    · exact absurd hlog hnil
    · exact absurd h.parts.inserts hnone
  | reorder s dto actor =>
    obtain ⟨live, t, n, h⟩ := h
    exact absurd h.parts.inserts hnone
  | expireSectionWaitlist s =>
    rcases h with ⟨hlog, -⟩ | ⟨live, turns, h⟩
    · exact absurd hlog hnil
    · exact absurd h.parts.inserts hnone
  | updateSection s dto actor =>
    obtain ⟨live, t, n, h⟩ := h
    exact absurd h.parts.inserts hnone

theorem ChecksOut.later {e : Failure} (h : ChecksOut e c) (hl : Later X op c c') :
    ChecksOut e c' := by
  intro he
  obtain ⟨s, sec, r, lock, hle, hr, hst⟩ := h he
  exact ⟨s, sec, r, lock.later hl, hle, by rw [Later.rowsOf hl lock.held]; exact hr, hst⟩

theorem ReorderRefused.later {s : SectionId} {dto : ReorderWaitlistDto}
    (h : ReorderRefused s dto c) (hl : Later X op c c') : ReorderRefused s dto c' := by
  rcases h with h | ⟨live, lock, hno⟩
  · exact Or.inl (hl.rely.grows.section?_none h)
  · refine Or.inr ⟨live, lock.later hl, ?_⟩
    rw [Later.wl hl lock.held]
    exact hno

theorem Failed.later {e : Failure} {o : Op} (h : Failed o e c) (hl : Later X op c c') :
    Failed o e c' := by
  refine ⟨h.1.later hl, ?_⟩
  have hrest := h.2
  cases o with
  | reorder s dto actor => exact ReorderRefused.later hrest hl
  | enroll input u actor => trivial
  | drop id u actor => trivial
  | swap id input u actor => trivial
  | runPromotion s => trivial
  | expireSectionWaitlist s => trivial
  | updateSection s dto actor => trivial

/-- A method's specification, as that of its request. -/
theorem wp_request {α : Type} {p : Tx α} {f : α → Out} {P : α → Ctx postgres → Prop}
    {F : Failure → Ctx postgres → Prop} (h : wp (Others X op) DrawsOnly p (Ends P F) c)
    (hP : ∀ a c, P a c → Outcome X op c) (hF : ∀ e c, F e c → Failed op e c) :
    wp (Others X op) DrawsOnly (p >>= fun a => pure (f a))
      (Ends (fun _ => Outcome X op) (Failed op)) c := by
  refine wp_bind (Txn.wp_mono ?_ h)
  intro r c' hr
  cases r with
  | ok a => exact hP a c' hr
  | error e => exact hF e c' hr

theorem Failed.of_ne {e : Failure} (ho : ∀ s dto actor, op ≠ .reorder s dto actor)
    (h : e ≠ .db .checkViolation) : Failed op e c := by
  refine ⟨fun he => absurd he h, ?_⟩
  cases op with
  | reorder s dto actor => exact absurd rfl (ho s dto actor)
  | enroll input u actor => trivial
  | drop id u actor => trivial
  | swap id input u actor => trivial
  | runPromotion s => trivial
  | expireSectionWaitlist s => trivial
  | updateSection s dto actor => trivial

/-- **Each request ends in its outcome, or fails for a known reason.** -/
theorem Op.body_spec (hlog : c.log = []) :
    wp (Others X op) DrawsOnly op.body (Ends (fun _ => Outcome X op) (Failed op)) c := by
  cases op with
  | enroll input u actor =>
    exact wp_request (enroll_spec hlog) (fun _ _ h => h) fun _ _ h => .of_ne (by simp) h
  | drop id u actor =>
    exact wp_request (drop_spec hlog) (fun _ _ h => h) fun _ _ h => ⟨h, trivial⟩
  | swap id input u actor =>
    exact wp_request (swap_spec hlog) (fun _ _ h => h) fun _ _ h => ⟨h, trivial⟩
  | runPromotion s =>
    exact wp_request (runPromotion_spec hlog) (fun _ _ h => h) fun _ _ h => .of_ne (by simp) h
  | reorder s dto actor =>
    exact wp_request (reorder_spec hlog) (fun _ _ h => h) fun _ _ h =>
      ⟨fun he => absurd he h.1, h.2⟩
  | expireSectionWaitlist s =>
    exact wp_request (expireSectionWaitlist_spec hlog) (fun _ _ h => h) fun _ _ h =>
      .of_ne (by simp) h
  | updateSection s dto actor =>
    exact wp_request (updateSection_spec hlog) (fun _ _ h => h) fun _ _ h => .of_ne (by simp) h

/-! ## 4. The discipline -/

/-- The registrar's discipline under a further condition. -/
def discipline (X : Extra) : Discipline registrar where
  inv w := w.Valid ∧ X.inv w
  rely := Others X
  calm := Others Extra.none
  guar _ := DrawsOnly
  post op := Ends (fun _ => Outcome X op) (Failed op)
  refl _ _ h := Others.refl h.1 h.2
  trans _ _ _ _ h h' := h.trans h'
  calm_trans _ _ _ _ h h' := h.trans h'
  calm_of_rely _ _ _ h := ⟨h.valid, trivial, h.same, h.grows, trivial⟩

theorem registrar_start (X : Extra) (op : Op) {w : World} :
    (discipline X).controlled op op.body (Ctx.start w) := by
  have hspec : wp (Others X op) DrawsOnly op.body
      (Ends (fun _ => Outcome X op) (Failed op)) (Ctx.start w) := Op.body_spec rfl
  refine Txn.wp_mono ?_ hspec
  intro r c hr
  cases r with
  | ok a => exact fun w' hw => Outcome.later hr (Quiet.of_others hw).later rfl
  | error e => exact fun w' hw => Failed.later hr (Quiet.of_others (X := Extra.none) hw).later

/-- The world as the others find it after a commit. -/
theorem commit_calm {sys : Sys} {t t' : Nat} {ses ses' : Session registrar}
    (hv : sys.world.Valid) (hne : t' ≠ t) (ho : Outcome X ses.op (sys.ctx t ses)) :
    Others Extra.none ses'.op (sys.ctx t' ses') (sys.ctx t ses).view := by
  have hs : Sane (sys.ctx t ses) := ho.sane hv
  refine ⟨hs.valid hv, trivial, fun k hk => hs.covered.same fun hk' => ?_, hs.covered.grows,
    trivial⟩
  exact hne (Option.some.inj (Eq.trans (Eq.symm hk) hk'))

/-- What a property beyond the locks has to show: each commit keeps its invariant and is tolerated
by the other sessions that have not failed, and so is each change from outside. -/
structure Fits (X : Extra) (C : Sys → Label registrar → Prop) (J : Sys → Prop) : Prop where
  inv : ∀ sys t ses, C sys (.commit t) → J sys → (discipline X).Good sys → sys.sessions t = some ses →
    ∀ a, ses.prog = .pure a → Outcome X ses.op (sys.ctx t ses) → X.inv (sys.ctx t ses).view
  holds : ∀ sys t ses t' ses', C sys (.commit t) → J sys → (discipline X).Good sys →
    sys.sessions t = some ses → ∀ a, ses.prog = .pure a → Outcome X ses.op (sys.ctx t ses) → t' ≠ t →
      sys.sessions t' = some ses' → (∀ e, ses'.prog ≠ .throw e) →
        X.holds ses'.op (sys.ctx t' ses') (sys.ctx t ses).view
  env_inv : ∀ sys e, C sys (.env e) → (discipline X).Good sys → X.inv (sys.world.env e)
  env_holds : ∀ sys e, C sys (.env e) → (discipline X).Good sys → ∀ t ses,
    sys.sessions t = some ses → X.holds ses.op (sys.ctx t ses) (sys.world.env e)

/-- An invariant that every commit and every change from outside keeps fits. -/
theorem Fits.ofInv {P : World → Prop} {h : ∀ w n, w.seq ≤ n → P w → P { w with seq := n }}
    {C : Sys → Label registrar → Prop} {J : Sys → Prop}
    (hcommit : ∀ {op : Op} {c : Ctx postgres}, c.world.Valid → P c.world →
      Outcome (Extra.ofInv P h) op c → P c.view)
    (henv : ∀ w e, P w → P (w.env e)) : Fits (Extra.ofInv P h) C J where
  inv _ _ _ _ _ hG _ _ _ ho := hcommit hG.inv.1 hG.inv.2 ho
  holds _ _ _ _ _ _ _ _ _ _ _ _ _ _ _ := trivial
  env_inv _ e _ hG := henv _ e hG.inv.2
  env_holds _ _ _ _ _ _ _ := trivial

/-- No further condition. -/
theorem Fits.none (C : Sys → Label registrar → Prop) (J : Sys → Prop) : Fits Extra.none C J where
  inv _ _ _ _ _ _ _ _ _ _ := trivial
  holds _ _ _ _ _ _ _ _ _ _ _ _ _ _ _ := trivial
  env_inv _ _ _ _ := trivial
  env_holds _ _ _ _ _ _ _ := trivial

theorem World.Valid.env {w : World} (h : w.Valid) (e : EnvChange) : World.Valid (w.env e) := by
  cases e with
  | tick ms => exact ⟨h.db, h.outbox_seq⟩
  | reference r =>
    exact ⟨⟨h.db.section_id, h.db.enrollment_id, h.db.section_fkey, h.db.seats, h.db.one_active⟩,
      h.outbox_seq⟩

theorem Same.env (k : Key) (w : World) (e : EnvChange) : World.Same k w (w.env e) := by
  cases k with
  | sectionRow s => cases e <;> exact ⟨rfl, rfl⟩
  | enrollmentRow x => cases e <;> exact rfl
  | activePair u s => trivial

theorem Grows.env (w : World) (e : EnvChange) : Grows w (w.env e) := by
  cases e with
  | tick ms => exact { Grows.refl w with now := Nat.le_add_right _ _ }
  | reference r => exact { Grows.refl w with }

/-- **The sessions of the registrar fit together.** -/
theorem registrar_sound {C : Sys → Label registrar → Prop} {J : Sys → Prop}
    (h : Fits X C J) : (discipline X).Sound C J where
  start sys t op _ _ _ := registrar_start X op
  inv sys l hC hJ hG t ses w ht hw := by
    rcases hw with ⟨-, hw⟩ | ⟨rfl, a, hp, ho, rfl⟩
    · have hothers : Others X ses.op (sys.ctx t ses) w := hw.others hG.inv.1 hG.inv.2
      exact ⟨hothers.valid, hothers.inv⟩
    · exact ⟨(Outcome.sane hG.inv.1 ho).valid hG.inv.1, h.inv sys t ses hC hJ hG ht a hp ho⟩
  others sys l hC hJ hG t ses w ht hw t' ses' hne ht' := by
    rcases hw with ⟨-, hw⟩ | ⟨rfl, a, hp, ho, rfl⟩
    · have hothers : Others X ses'.op (sys.ctx t' ses') w := by
        have hdraw : DrawsOnly (sys.ctx t' ses') w := hw
        exact hdraw.others hG.inv.1 hG.inv.2
      exact (discipline X).tolerates_of_rely hothers
    · have hcalm : Others Extra.none ses'.op (sys.ctx t' ses') (sys.ctx t ses).view :=
        commit_calm hG.inv.1 hne ho
      have hrely (hlive : ∀ e, ses'.prog ≠ .throw e) :
          Others X ses'.op (sys.ctx t' ses') (sys.ctx t ses).view :=
        ⟨hcalm.valid, h.inv sys t ses hC hJ hG ht a hp ho, hcalm.same, hcalm.grows,
          h.holds sys t ses t' ses' hC hJ hG ht a hp ho hne ht' hlive⟩
      cases hp' : ses'.prog with
      | throw e => exact hcalm
      | pure b => exact hrely (by simp [hp'])
      | stmt s k => exact hrely (by simp [hp'])
  env_inv sys e hC hJ hG := ⟨hG.inv.1.env e, h.env_inv sys e hC hG⟩
  env_rely sys e hC hJ hG t ses ht := (discipline X).tolerates_of_rely
    ⟨hG.inv.1.env e, h.env_inv sys e hC hG, fun k _ => Same.env k _ e, Grows.env _ e,
      h.env_holds sys e hC hG t ses ht⟩

/-! ## 5. What a step does to the world -/

/-- The ways a step changes the committed world. -/
inductive Moves (X : Extra) (sys : Sys) : Label registrar → World → Prop
  /-- a session commits its outcome -/
  | commit (t : Nat) (ses : Session registrar) (a : Out) (ht : sys.sessions t = some ses)
      (hp : ses.prog = .pure a) (ho : Outcome X ses.op (sys.ctx t ses)) :
      Moves X sys (.commit t) (sys.ctx t ses).view
  /-- the outside changes it -/
  | env (e : EnvChange) : Moves X sys (.env e) (sys.world.env e)
  /-- nothing but the audit sequence moves -/
  | draw (l : Label registrar) (n : OutboxId) (hn : sys.world.seq ≤ n) :
      Moves X sys l { sys.world with seq := n }

theorem moves_of_step {sys sys' : Sys} {l : Label registrar} (hG : (discipline X).Good sys)
    (hs : sys.step l = some sys') : Moves X sys l sys'.world := by
  have hsame : Moves X sys l sys.world := .draw l sys.world.seq (Nat.le_refl _)
  cases l with
  | begin t op =>
    obtain ⟨-, rfl⟩ := Discipline.begin_cases hs
    exact hsame
  | exec t x =>
    obtain ⟨ses, s, k, r, c', ht, hp, -, hr, ses', -, -, -, -, -, hctx⟩ :=
      Discipline.stepExec_cases hs
    obtain ⟨n, hn, hw⟩ := (hG.exec ht hp hr).1
    have : sys'.world = { sys.world with seq := n } := by
      rw [← hctx] at hw
      exact hw
    rw [this]
    exact .draw _ n hn
  | commit t =>
    obtain ⟨ses, a, ht, hp, rfl⟩ := Discipline.commit_cases hs
    exact .commit t ses a ht hp (hG.post ht hp)
  | rollback t =>
    obtain ⟨ses, e, -, -, rfl⟩ := Discipline.rollback_cases hs
    exact hsame
  | crash t =>
    rw [Discipline.crash_cases hs]
    exact hsame
  | env e =>
    rw [Discipline.env_cases hs]
    exact .env e

/-- **The run rule for the registrar.** -/
theorem registrar_run {C : Sys → Label registrar → Prop} {J : Sys → Prop} (h : Fits X C J)
    (hJ : ∀ sys l sys', C sys l → J sys → (discipline X).Good sys → sys.step l = some sys' →
      J sys') {w : World} (hv : w.Valid) (hi : X.inv w) (hJ₀ : J (Txn.Sys.init w)) {sys : Sys}
    (hr : Txn.Sys.Reach C (Txn.Sys.init w) sys) : (discipline X).Good sys ∧ J sys :=
  Discipline.Reach.good (registrar_sound h) hJ hr (Discipline.good_init ⟨hv, hi⟩) hJ₀

theorem grows_of_step {sys sys' : Sys} {l : Label registrar} (hG : (discipline X).Good sys)
    (hs : sys.step l = some sys') : Grows sys.world sys'.world := by
  have hm := moves_of_step hG hs
  generalize sys'.world = w' at hm
  cases hm with
  | commit t ses a ht hp ho => exact (Outcome.sane hG.inv.1 ho).grows
  | env e => exact Grows.env _ e
  | draw _ n hn => exact Grows.seq_bump _ hn

/-- The locks alone are enough for every run. -/
theorem locks_run {C : Sys → Label registrar → Prop} {w : World} (hv : w.Valid) {sys : Sys}
    (hr : Txn.Sys.Reach C (Txn.Sys.init w) sys) : (discipline Extra.none).Good sys :=
  (registrar_run (J := fun _ => True) (Fits.none _ _) (fun _ _ _ _ _ _ _ => trivial) hv trivial
    trivial hr).1

/-- **Nothing final is ever undone.** -/
theorem grows_run {C : Sys → Label registrar → Prop} {w : World} (hv : w.Valid) {sys₀ sys : Sys}
    (hr₀ : Txn.Sys.Reach C (Txn.Sys.init w) sys₀) (hr : Txn.Sys.Reach C sys₀ sys) :
    Grows sys₀.world sys.world := by
  induction hr with
  | refl => exact Grows.refl _
  | tail hr' _ hs ih => exact ih.trans (grows_of_step (locks_run hv (hr₀.trans hr')) hs)

/-- A step of somebody else, as an open session finds it. -/
theorem others_of_step {sys sys' : Sys} {l : Label registrar}
    (hG : (discipline Extra.none).Good sys) (hs : sys.step l = some sys') {t : Nat}
    (ses : Session registrar) (hl : l.session ≠ some t) :
    Others Extra.none ses.op (sys.ctx t ses) sys'.world := by
  have hm := moves_of_step hG hs
  generalize sys'.world = w' at hm
  cases hm with
  | commit t' ses' a ht' hp ho =>
    exact commit_calm hG.inv.1 (fun he => hl (congrArg some he.symm)) ho
  | env e => exact ⟨hG.inv.1.env e, trivial, fun k _ => Same.env k _ e, Grows.env _ e, trivial⟩
  | draw _ n hn =>
    exact ⟨hG.inv.1.seq hn, trivial, fun k _ => Same.seq k _ n, Grows.seq_bump _ hn, trivial⟩

/-! ## 6. A small campus

Two sections of one course with one seat each, three students and an administrator who studies, and
no registration rules in the way.  The concrete runs of the later modules start here. -/

namespace Campus

def reference : Reference where
  users := [⟨1, [.STUDENT], none, none⟩, ⟨2, [.STUDENT], none, none⟩, ⟨3, [.STUDENT], none, none⟩,
    ⟨4, [.STUDENT, .ADMIN], none, none⟩]
  course _ := ⟨"CS101", 3⟩
  term _ := ⟨0, 1000, 18⟩
  registrationWindows := []
  advisorHolds := []
  overloadApprovals := []
  coursePrerequisites := []

def sections : List Section :=
  [⟨10, "001", 5, 7, "MWF 9:00-9:50", 1, 0, none⟩, ⟨11, "002", 5, 7, "TR 9:00-9:50", 1, 0, none⟩]

/-- The campus before anybody has registered. -/
def world : World := ⟨⟨reference, sections, [], [], []⟩, 10, 0⟩

def actor (userId : UserId) : RequestActor := ⟨userId, none, none⟩

/-- Student `u` asks for section `s`. -/
def enroll (u : UserId) (s : SectionId) : Op := .enroll ⟨s⟩ u (actor u)

/-- The next `n` statements of session `t`; a uuid it draws is `x`. -/
def execs (t n : Nat) (x : EnrollmentId) : List (Label registrar) := List.replicate n (.exec t x)

/-- Session `t` serves `op` in `n` statements, and commits. -/
def serve (t : Nat) (op : Op) (n : Nat) (x : EnrollmentId) : List (Label registrar) :=
  .begin t op :: execs t n x ++ [.commit t]

theorem world_valid : world.Valid := by
  refine ⟨⟨by decide, by decide, ?_, by decide, ?_⟩, ?_⟩ <;>
    · intro r hr
      exact absurd hr List.not_mem_nil

/-- Student 1 takes the seat of section 10, and student 2 queues for it. -/
def busy : List (Label registrar) := serve 0 (enroll 1 10) 13 100 ++ serve 1 (enroll 2 10) 14 101

set_option maxRecDepth 4000 in
theorem busy_runs : (Txn.Sys.run (Txn.Sys.init world) busy).isSome = true := by decide

/-- The campus after that. -/
def afterBusy : Sys := (Txn.Sys.run (Txn.Sys.init world) busy).get busy_runs

theorem busy_reached : Txn.Sys.Reach (fun _ _ => True) (Txn.Sys.init world) afterBusy :=
  .of_run .refl (fun _ _ _ => trivial) (Option.some_get busy_runs).symm

/-- Student 1 has the seat of section 10, and students 2, 3 and 4 queue for it. -/
def queueing : List (Label registrar) :=
  busy ++ serve 2 (enroll 3 10) 14 102 ++ serve 3 (enroll 4 10) 14 103

/-- Student 1 is about to commit the seat of section 10, with nobody else about. -/
def alone : List (Label registrar) := .begin 0 (enroll 1 10) :: execs 0 13 100

set_option maxRecDepth 4000 in
theorem alone_runs : (Txn.Sys.run (Txn.Sys.init world) alone).isSome = true := by decide

def afterAlone : Sys := (Txn.Sys.run (Txn.Sys.init world) alone).get alone_runs

set_option maxRecDepth 4000 in
theorem alone_commits : (afterAlone.step (.commit 0)).isSome = true := by decide

/-- The campus with one student in section 10. -/
def seated : Sys := (afterAlone.step (.commit 0)).get alone_commits

theorem seated_reached : Txn.Sys.Reach (fun _ _ => True) (Txn.Sys.init world) seated :=
  (Txn.Sys.Reach.of_run .refl (fun _ _ _ => trivial) (Option.some_get alone_runs).symm).tail trivial
    (Option.some_get alone_commits).symm

end Campus

end Enroll
