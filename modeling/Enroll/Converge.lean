/-
# Repeat enrolls converge

A student who asks for a section many times at once gets one row.  All the requests pass the checks
before the lock together, but the read under the lock is authoritative: the first one to hold the
section's lock without finding an active row inserts one, and from then on, as long as nothing takes
the row away (`Spared`), every other finds it and answers with it, whether it is still WAITLISTED or
promoted by then.

What carries this along a run is `Converging`: every row the student has gained in the section is
active, so by the schema there is one at most; each audit row of a creation came with a row; and
every answer so far names the active row.
-/
import Enroll.Replies
import Enroll.Seats
import Enroll.Txn.Trace

namespace Enroll

open Txn (Ctx Session Label Discipline)

variable {X : Extra} {op : Op} {c : Ctx postgres} {u : UserId} {s : SectionId} {w w' : World}

/-! ## 1. What is counted -/

/-- The rows of the student in the section that were not there at `w`. -/
def newRows (u : UserId) (s : SectionId) (w w' : World) : Nat :=
  (w'.db.rowsOf s).countP (fun r => r.studentId == u && !w.db.hasEnrollment r.id)

/-- The audit row of a creation: the student took a seat of the section or a place in its queue. -/
def creates (u : UserId) (s : SectionId) (e : AuditOutbox) : Bool :=
  (e.action == .ENROLLMENT_CREATED || e.action == .ENROLLMENT_WAITLISTED) &&
    e.actor.userId == some u && e.payload.after.bind AuditFields.sectionId == some s

/-- The seats that the student holds. -/
def seatsOf (u : UserId) (rows : List Enrollment) : Nat :=
  rows.countP (fun r => r.enrolled && r.studentId == u)

/-- The seats that the others hold. -/
def seatsOfOthers (u : UserId) (rows : List Enrollment) : Nat :=
  rows.countP (fun r => r.enrolled && !(r.studentId == u))

theorem enrolledRows_split (u : UserId) (rows : List Enrollment) :
    enrolledRows rows = seatsOf u rows + seatsOfOthers u rows := by
  unfold enrolledRows seatsOf seatsOfOthers
  induction rows with
  | nil => rfl
  | cons r rows ih =>
    rw [List.countP_cons, List.countP_cons, List.countP_cons, ih]
    cases r.enrolled <;> cases r.studentId == u <;> simp <;> omega

/-- Where at most one row has a property, at most one is counted. -/
theorem countP_le_one {α : Type} {p : α → Bool} {l : List α} (hnd : l.Nodup)
    (h : ∀ a ∈ l, ∀ b ∈ l, p a = true → p b = true → a = b) : l.countP p ≤ 1 := by
  rw [List.countP_eq_length_filter]
  have hnd' : (l.filter p).Nodup := hnd.filter p
  have hall : ∀ a ∈ l.filter p, ∀ b ∈ l.filter p, a = b := by
    intro a ha b hb
    obtain ⟨ha, hpa⟩ := List.mem_filter.mp ha
    obtain ⟨hb, hpb⟩ := List.mem_filter.mp hb
    exact h a ha b hb hpa hpb
  match hl : l.filter p with
  | [] => exact Nat.zero_le 1
  | [a] => exact Nat.le_refl 1
  | a :: b :: t =>
    rw [hl] at hnd' hall
    have hab := hall a List.mem_cons_self b (List.mem_cons_of_mem a List.mem_cons_self)
    exact absurd (hab ▸ List.mem_cons_self) (List.nodup_cons.mp hnd').1

theorem nodup_rowsOf (hv : w.Valid) (s : SectionId) : (w.db.rowsOf s).Nodup :=
  ((hv.db.enrollment_id).of_map _).filter _

/-- The student holds one seat of a section at most. -/
theorem seatsOf_le_one (hv : w.Valid) (u : UserId) (s : SectionId) :
    seatsOf u (w.db.rowsOf s) ≤ 1 := by
  refine countP_le_one (nodup_rowsOf hv s) fun r hr r' hr' h h' => ?_
  obtain ⟨hmem, hs⟩ := mem_rowsOf.mp hr
  obtain ⟨hmem', hs'⟩ := mem_rowsOf.mp hr'
  simp only [Bool.and_eq_true, Enrollment.enrolled, beq_iff_eq] at h h'
  have ha : r.active = true := by simp [Enrollment.active, h.1, EnrollmentStatus.active]
  have ha' : r'.active = true := by simp [Enrollment.active, h'.1, EnrollmentStatus.active]
  exact hv.db.one_active r hmem r' hmem' ha ha' (h.2.trans h'.2.symm) (hs.trans hs'.symm)

/-! ## 2. What a commit does to the student's row -/

/-- The requests that take rows away. -/
def Op.departs : Op → Bool
  | .drop _ _ _ => true
  | .swap _ _ _ _ => true
  | .expireSectionWaitlist _ => true
  | .enroll _ _ _ => false
  | .runPromotion _ => false
  | .reorder _ _ _ => false
  | .updateSection _ _ _ => false

/-- The step commits no drop, swap or expiry of a row of the student in the section. -/
def Spared (u : UserId) (s : SectionId) (sys : Sys) (l : Label registrar) : Prop :=
  ∀ t ses, l = .commit t → sys.sessions t = some ses → ses.op.departs = true →
    ∀ p ∈ patchesOf ses.log, ∀ r ∈ sys.world.db.rowsOf s, r.id = p.1 → r.studentId ≠ u

/-- What every update keeps, the updates together keep. -/
theorem patchRow_keeps {f : Enrollment → Bool} {ps : List (EnrollmentId × EnrollmentData)}
    (h : ∀ p ∈ ps, ∀ r, f r = true → f (p.2.patch r) = true) {r : Enrollment} (hr : f r = true) :
    f (patchRow ps r) = true := by
  induction ps generalizing r with
  | nil => exact hr
  | cons p ps ih =>
    rw [patchRow_cons]
    refine ih (fun q hq => h q (List.mem_cons_of_mem p hq)) ?_
    split
    · exact h p List.mem_cons_self r hr
    · exact hr

/-- A row in play, or with a seat, stays so unless a request takes it away. -/
structure Stays (ps : List (EnrollmentId × EnrollmentData)) (r : Enrollment) : Prop where
  active : r.active = true → (patchRow ps r).active = true
  enrolled : r.enrolled = true → (patchRow ps r).enrolled = true

theorem Stays.of_ne {ps : List (EnrollmentId × EnrollmentData)} {r : Enrollment}
    (h : ∀ p ∈ ps, p.1 ≠ r.id) : Stays ps r := by
  have hsame := patchRow_of_ne h
  exact ⟨fun hr => hsame.symm ▸ hr, fun hr => hsame.symm ▸ hr⟩

theorem Stays.promotions (turns : List Turn) (r : Enrollment) : Stays (promotions turns) r := by
  have hseat : ∀ p ∈ Enroll.promotions turns, ∀ r, (p.2.patch r).status = .ENROLLED := by
    intro p hp r
    obtain ⟨v, -, rfl⟩ := List.mem_map.mp hp
    rfl
  refine ⟨patchRow_keeps fun p hp r _ => ?_, patchRow_keeps fun p hp r _ => ?_⟩
  · simp [Enrollment.active, hseat p hp r, EnrollmentStatus.active]
  · simp [Enrollment.enrolled, hseat p hp r]

theorem Stays.placements (ids : List EnrollmentId) (r : Enrollment) :
    Stays (placements ids 0) r := by
  have hstatus : ∀ p ∈ Enroll.placements ids 0, ∀ r, (p.2.patch r).status = r.status := by
    intro p hp r
    obtain ⟨q, -, rfl⟩ := List.mem_map.mp hp
    rfl
  refine ⟨patchRow_keeps fun p hp r hr => ?_, patchRow_keeps fun p hp r hr => ?_⟩
  · rw [Enrollment.active, hstatus p hp r]
    exact hr
  · rw [Enrollment.enrolled, hstatus p hp r]
    exact hr

/-- **A commit that takes the row not away leaves it in play.** -/
theorem Outcome.stays (h : Outcome X op c) {r : Enrollment}
    (hspared : op.departs = true → ∀ p ∈ patchesOf c.log, p.1 ≠ r.id) :
    Stays (patchesOf c.log) r := by
  have hnone : patchesOf c.log = [] → Stays (patchesOf c.log) r := by
    intro he
    rw [he]
    exact .of_ne fun _ hp => absurd hp List.not_mem_nil
  have hnil : c.log = [] → Stays (patchesOf c.log) r := fun he => hnone (by rw [he]; rfl)
  cases op with
  | enroll input u actor =>
    cases h with
    | already log => exact hnil log
    | seated sec live x t t' n lock seat fresh checked drawn log =>
      exact hnone (Parts.of_seated log).patches
    | queued sec live x t t' n p lock full cap position fresh checked drawn log =>
      exact hnone (Parts.of_queued log).patches
  | drop id u actor => exact .of_ne (hspared rfl)
  | swap id input u actor => exact .of_ne (hspared rfl)
  | runPromotion s =>
    rcases h with log | ⟨sec, turns, h⟩
    · exact hnil log
    · rw [h.parts.patches]
      exact .promotions turns r
  | reorder s dto actor =>
    obtain ⟨live, t, n, h⟩ := h
    rw [h.parts.patches]
    exact .placements _ r
  | expireSectionWaitlist s => exact .of_ne (hspared rfl)
  | updateSection s dto actor =>
    obtain ⟨live, t, n, h⟩ := h
    exact hnone h.parts.patches

/-- The rows that a commit inserts are in play. -/
theorem Outcome.inserts_active (h : Outcome X op c) : ∀ r ∈ insertsOf c.log, r.active = true := by
  intro r hr
  cases h.newRow hr with
  | seated live x t lock seat => rfl
  | queued x t p => rfl
  | moved live x t lock seat => rfl

/-- The audit row is of no creation. -/
def Uncreating (e : AuditOutbox) : Prop :=
  e.action ≠ .ENROLLMENT_CREATED ∧ e.action ≠ .ENROLLMENT_WAITLISTED

theorem countP_creates_eq_zero {es : List AuditOutbox} (h : ∀ e ∈ es, Uncreating e) :
    es.countP (creates u s) = 0 := by
  refine List.countP_eq_zero.mpr fun e he => ?_
  obtain ⟨hcreated, hwaitlisted⟩ := h e he
  simp [creates, hcreated, hwaitlisted]

theorem dropEvent_uncreating (actor : RequestActor) (r : Enrollment) (n : OutboxId) (t : Time) :
    Uncreating ((dropEvent actor r).row n t) := by
  unfold dropEvent Uncreating
  split <;> simp [RecordEventParams.row]

/-- Only an enroll creates. -/
theorem Outcome.uncreating (h : Outcome X op c) (hop : ∀ input u actor, op ≠ .enroll input u actor) :
    ∀ e ∈ eventsOf c.log, Uncreating e := by
  have hnil : c.log = [] → ∀ e ∈ eventsOf c.log, Uncreating e := by
    intro hlog
    rw [hlog]
    exact fun e he => absurd he List.not_mem_nil
  have hone {e : AuditOutbox} (hev : eventsOf c.log = [e]) (he : Uncreating e) :
      ∀ e ∈ eventsOf c.log, Uncreating e := by
    rw [hev]
    exact fun e' he' => List.mem_singleton.mp he' ▸ he
  have heach {turns : List Turn} {f : Turn → AuditOutbox} (hev : eventsOf c.log = turns.map f)
      (hf : ∀ v, Uncreating (f v)) : ∀ e ∈ eventsOf c.log, Uncreating e := by
    rw [hev]
    exact List.forall_mem_map.mpr fun v _ => hf v
  cases op with
  | enroll input u' actor => exact absurd rfl (hop input u' actor)
  | drop id u' actor =>
    obtain ⟨r, droppedAt, t, n, h⟩ := h
    exact hone h.parts.events (dropEvent_uncreating actor r n t)
  | swap id input u' actor =>
    rcases h with log | ⟨r, sec, live, x, droppedAt, t, t', n, h⟩
    · exact hnil log
    · exact hone h.parts.events (by simp [Uncreating, swappedEvent, RecordEventParams.row])
  | runPromotion s' =>
    rcases h with log | ⟨sec, turns, h⟩
    · exact hnil log
    · exact heach h.parts.events fun v => by simp [Uncreating, promotedEvent, RecordEventParams.row]
  | reorder s' dto actor =>
    obtain ⟨live, t, n, h⟩ := h
    exact hone h.parts.events (by simp [Uncreating, reorderedEvent, RecordEventParams.row])
  | expireSectionWaitlist s' =>
    rcases h with ⟨log, -⟩ | ⟨live, turns, h⟩
    · exact hnil log
    · exact heach h.parts.events fun v => by simp [Uncreating, expiredEvent, RecordEventParams.row]
  | updateSection s' dto actor =>
    obtain ⟨live, t, n, h⟩ := h
    exact hone h.parts.events (by simp [Uncreating, sectionUpdatedEvent, RecordEventParams.row])

/-- **Each audit row of a creation comes with a row of the student in the section.** -/
theorem Outcome.created (h : Outcome X op c) (u : UserId) (s : SectionId) :
    (eventsOf c.log).countP (creates u s)
      ≤ ((insertsOf c.log).filter (fun r => r.sectionId == s)).countP
          (fun r => r.studentId == u) := by
  by_cases hop : ∀ input u' actor, op ≠ .enroll input u' actor
  · rw [countP_creates_eq_zero (h.uncreating hop)]
    exact Nat.zero_le _
  · push Not at hop
    obtain ⟨input, u', actor, rfl⟩ := hop
    have hpair : ∀ (e : AuditOutbox) (r : Enrollment), eventsOf c.log = [e] →
        insertsOf c.log = [r] → e.actor.userId = some r.studentId →
        e.payload.after.bind AuditFields.sectionId = some r.sectionId →
          (eventsOf c.log).countP (creates u s)
            ≤ ((insertsOf c.log).filter (fun r => r.sectionId == s)).countP
                (fun r => r.studentId == u) := by
      intro e r hev hins hactor hsec
      rw [hev, hins]
      by_cases hs : r.sectionId = s
      · by_cases hu : r.studentId = u <;>
          simp [List.countP_cons, creates, hactor, hsec, hs, hu]
        split <;> omega
      · simp [creates, hsec, hs]
    cases h with
    | already log =>
      rw [log]
      exact Nat.le_refl 0
    | seated sec live x t t' n lock seat fresh checked drawn log =>
      exact hpair _ _ (Parts.of_seated log).events (Parts.of_seated log).inserts rfl rfl
    | queued sec live x t t' n p lock full cap position fresh checked drawn log =>
      exact hpair _ _ (Parts.of_queued log).events (Parts.of_queued log).inserts rfl rfl

/-! ## 3. The invariant -/

/-- The world since `w`: the student's new rows are in play, and each audit row of a creation came
with one. -/
structure Grown (u : UserId) (s : SectionId) (w w' : World) : Prop where
  known : ∀ x, w.db.hasEnrollment x = true → w'.db.hasEnrollment x = true
  active : ∀ r ∈ w'.db.rowsOf s, r.studentId = u → w.db.hasEnrollment r.id = false →
    r.active = true
  events : ∃ new, w'.db.auditOutbox = w.db.auditOutbox ++ new ∧
    new.countP (creates u s) ≤ newRows u s w w'

theorem Grown.refl (u : UserId) (s : SectionId) (w : World) : Grown u s w w where
  known _ h := h
  active r hr _ hnew := by
    rw [hasEnrollment_iff.mpr ⟨r, (mem_rowsOf.mp hr).1, rfl⟩] at hnew
    exact absurd hnew (by simp)
  events := ⟨[], (List.append_nil _).symm, Nat.zero_le _⟩

/-- The student gains one row of the section at most. -/
theorem Grown.one (h : Grown u s w w') (hv : w'.Valid) : newRows u s w w' ≤ 1 := by
  refine countP_le_one (nodup_rowsOf hv s) fun r hr r' hr' hp hp' => ?_
  simp only [Bool.and_eq_true, beq_iff_eq, Bool.not_eq_true'] at hp hp'
  obtain ⟨hmem, hs⟩ := mem_rowsOf.mp hr
  obtain ⟨hmem', hs'⟩ := mem_rowsOf.mp hr'
  exact hv.db.one_active r hmem r' hmem' (h.active r hr hp.1 hp.2) (h.active r' hr' hp'.1 hp'.2)
    (hp.1.trans hp'.1.symm) (hs.trans hs'.symm)

/-- The rows gained by a commit are gained. -/
theorem newRows_view (hs : Sane c) (hknown : ∀ x, w.db.hasEnrollment x = true →
    c.world.db.hasEnrollment x = true) :
    newRows u s w c.view = newRows u s w c.world
      + ((insertsOf c.log).filter (fun r => r.sectionId == s)).countP
          (fun r => r.studentId == u) := by
  unfold newRows
  rw [view_rowsOf hs.apart, List.countP_append, patchAll_eq_map, List.countP_map]
  congr 1
  · refine List.countP_congr fun r _ => ?_
    rw [Function.comp_apply, patchRow_studentId, patchRow_id]
  · refine List.countP_congr fun r hr => ?_
    have hunused := (hs.inserts r (List.mem_of_mem_filter hr)).1.unused
    have hnew : w.db.hasEnrollment r.id = false := by
      refine Bool.eq_false_iff.mpr fun hold => ?_
      rw [hknown _ hold] at hunused
      exact absurd hunused (by simp)
    simp [hnew]

theorem Grown.commit (h : Grown u s w c.world) (hv : c.world.Valid) (ho : Outcome X op c)
    (hspared : op.departs = true → ∀ p ∈ patchesOf c.log, ∀ r ∈ c.world.db.rowsOf s,
      r.id = p.1 → r.studentId ≠ u) : Grown u s w c.view := by
  have hs := ho.sane hv
  refine ⟨fun x hx => ?_, fun x hx hu hnew => ?_, ?_⟩
  · obtain ⟨r, hr, he⟩ := hasEnrollment_iff.mp (h.known x hx)
    obtain ⟨r', hr', he', -⟩ := hs.grows.rows r hr
    exact hasEnrollment_iff.mpr ⟨r', hr', he'.trans he⟩
  · obtain ⟨hmem, hsec⟩ := mem_rowsOf.mp hx
    rcases hs.mem_view.mp hmem with ⟨r, hr, rfl⟩ | hins
    · rw [patchRow_sectionId] at hsec
      rw [patchRow_studentId] at hu
      rw [patchRow_id] at hnew
      have hrow := mem_rowsOf.mpr ⟨hr, hsec⟩
      exact (ho.stays fun hd p hp he => hspared hd p hp r hrow he.symm hu).active
        (h.active r hrow hu hnew)
    · exact ho.inserts_active x hins
  · obtain ⟨new, hnew, hcount⟩ := h.events
    refine ⟨new ++ eventsOf c.log, ?_, ?_⟩
    · rw [show c.view.db.auditOutbox = _ from outbox_applyLog c.log c.world, hnew,
        List.append_assoc]
    · rw [List.countP_append, newRows_view hs h.known]
      exact Nat.add_le_add hcount (ho.created u s)

/-- The answers so far: every enroll of the student for the section that has succeeded names the
active row, and none has failed at the unique index. -/
structure Answered (u : UserId) (s : SectionId) (sys : Sys) : Prop where
  ok : ∀ t actor out, (t, Op.enroll ⟨s⟩ u actor, Except.ok out) ∈ sys.finished →
    ∃ a r, out = .enrollment a ∧ r ∈ sys.world.db.rowsOf s ∧ r.studentId = u ∧ r.active = true ∧
      a.id = r.id
  error : ∀ t input u' actor e, (t, Op.enroll input u' actor, Except.error e) ∈ sys.finished →
    e ≠ .db .uniqueViolation

/-- The student's active row is still there after a step, under its id. -/
theorem active_stays {sys sys' : Sys} {l : Label registrar} (hG : (discipline X).Good sys)
    (hC : Spared u s sys l) (hs : sys.step l = some sys') {r : Enrollment}
    (hr : r ∈ sys.world.db.rowsOf s) (hu : r.studentId = u) (ha : r.active = true) :
    ∃ r' ∈ sys'.world.db.rowsOf s, r'.studentId = u ∧ r'.active = true ∧ r'.id = r.id := by
  have hm := moves_of_step hG hs
  generalize sys'.world = w' at hm
  cases hm with
  | commit t ses a ht hp ho =>
    have hsane : Sane (sys.ctx t ses) := ho.sane hG.inv.1
    obtain ⟨hmem, hsec⟩ := mem_rowsOf.mp hr
    refine ⟨patchRow (patchesOf (sys.ctx t ses).log) r, mem_rowsOf.mpr ⟨?_, ?_⟩, ?_, ?_, ?_⟩
    · exact hsane.mem_view.mpr (Or.inl ⟨r, hmem, rfl⟩)
    · rw [patchRow_sectionId]
      exact hsec
    · rw [patchRow_studentId]
      exact hu
    · exact (ho.stays fun hd p hp he => hC t ses rfl ht hd p hp r hr he.symm hu).active ha
    · exact patchRow_id _ r
  | env e => exact ⟨r, by cases e <;> exact hr, hu, ha, rfl⟩
  | draw _ n hn => exact ⟨r, hr, hu, ha, rfl⟩

theorem Answered.step {sys sys' : Sys} {l : Label registrar} (h : Answered u s sys)
    (hG : (replying X).Good sys) (hC : Spared u s sys l) (hs : sys.step l = some sys') :
    Answered u s sys' := by
  have hold : ∀ t actor out, (t, Op.enroll ⟨s⟩ u actor, Except.ok out) ∈ sys.finished →
      ∃ a r, out = .enrollment a ∧ r ∈ sys'.world.db.rowsOf s ∧ r.studentId = u ∧
        r.active = true ∧ a.id = r.id := by
    intro t actor out hmem
    obtain ⟨a, r, hout, hr, hu, ha, hid⟩ := h.ok t actor out hmem
    obtain ⟨r', hr', hu', ha', hid'⟩ := active_stays hG.of_withPost hC hs hr hu ha
    exact ⟨a, r', hout, hr', hu', ha', hid.trans hid'.symm⟩
  cases l with
  | begin t op =>
    obtain ⟨-, rfl⟩ := Discipline.begin_cases hs
    exact ⟨hold, h.error⟩
  | exec t x =>
    obtain ⟨ses, st, k, r, c', -, -, -, -, ses', -, -, -, -, rfl, -⟩ :=
      Discipline.stepExec_cases hs
    exact ⟨hold, h.error⟩
  | commit t =>
    obtain ⟨ses, a, ht, hp, rfl⟩ := Discipline.commit_cases hs
    refine ⟨fun t' actor out hmem => ?_, fun t' input u' actor e hmem => ?_⟩
    · rcases List.mem_cons.mp hmem with he | hmem
      · -- the answer that is being given: the row it tells of is committed
        obtain ⟨-, hop, hout⟩ : t' = t ∧ Op.enroll ⟨s⟩ u actor = ses.op ∧ out = a := by
          simpa using he
        have hrep : Replied X ses.op a (sys.ctx t ses) := (hG.post ht hp).2
        rw [← hop] at hrep
        obtain ⟨b, r, hb, hreply⟩ := hrep
        exact ⟨b, r, hout.trans hb, hreply.row, hreply.student, hreply.active, hreply.id⟩
      · exact hold t' actor out hmem
    · rcases List.mem_cons.mp hmem with he | hmem
      · exact absurd he (by simp)
      · exact h.error t' input u' actor e hmem
  | rollback t =>
    obtain ⟨ses, e₀, ht, hp, rfl⟩ := Discipline.rollback_cases hs
    refine ⟨fun t' actor out hmem => ?_, fun t' input u' actor e hmem => ?_⟩
    · rcases List.mem_cons.mp hmem with he | hmem
      · exact absurd he (by simp)
      · exact hold t' actor out hmem
    · rcases List.mem_cons.mp hmem with he | hmem
      · obtain ⟨-, hop, he₀⟩ : t' = t ∧ Op.enroll input u' actor = ses.op ∧ e = e₀ := by
          simpa using he
        have hno : Unrefused ses.op e₀ (sys.ctx t ses) := (hG.post_error ht hp).2
        rw [← hop] at hno
        exact he₀ ▸ hno
      · exact h.error t' input u' actor e hmem
  | crash t =>
    rw [Discipline.crash_cases hs] at hold ⊢
    exact ⟨hold, h.error⟩
  | env e =>
    rw [Discipline.env_cases hs] at hold ⊢
    exact ⟨hold, h.error⟩

theorem Grown.step {sys sys' : Sys} {l : Label registrar} (h : Grown u s w sys.world)
    (hG : (discipline X).Good sys) (hC : Spared u s sys l) (hs : sys.step l = some sys') :
    Grown u s w sys'.world := by
  have hm := moves_of_step hG hs
  generalize sys'.world = w' at hm
  cases hm with
  | commit t ses a ht hp ho =>
    exact Grown.commit (c := sys.ctx t ses) h hG.inv.1 ho fun hd => hC t ses rfl ht hd
  | env e => cases e <;> exact ⟨h.known, h.active, h.events⟩
  | draw _ n hn => exact ⟨h.known, h.active, h.events⟩

/-! ## 4. The seats -/

/-- A step moves the counter by the seats the student gains and the seats the others gain or lose,
and the student loses none. -/
structure SeatsMove (u : UserId) (s : SectionId) (w w' : World) : Prop where
  kept : seatsOf u (w.db.rowsOf s) ≤ seatsOf u (w'.db.rowsOf s)
  counter : ∀ sec sec', w.db.section? s = some sec → w'.db.section? s = some sec' →
    sec'.enrolledCount + (seatsOf u (w.db.rowsOf s) + seatsOfOthers u (w.db.rowsOf s) : Nat)
      = sec.enrolledCount
        + (seatsOf u (w'.db.rowsOf s) + seatsOfOthers u (w'.db.rowsOf s) : Nat)

theorem seats_step {sys sys' : Sys} {l : Label registrar} (hG : (discipline X).Good sys)
    (hC : Spared u s sys l) (hs : sys.step l = some sys') :
    SeatsMove u s sys.world sys'.world := by
  have hsame : ∀ w' : World, w'.db.rowsOf s = sys.world.db.rowsOf s →
      w'.db.section? s = sys.world.db.section? s → SeatsMove u s sys.world w' := by
    intro w' hrows hsec
    refine ⟨hrows ▸ Nat.le_refl _, fun sec sec' h h' => ?_⟩
    obtain rfl : sec = sec' := Option.some.inj (h.symm.trans (hsec.symm.trans h'))
    rw [hrows]
  have hm := moves_of_step hG hs
  generalize sys'.world = w' at hm
  cases hm with
  | commit t ses a ht hp ho =>
    have hsane : Sane (sys.ctx t ses) := ho.sane hG.inv.1
    have hbal : Balanced (sys.ctx t ses) := ho.balanced hG.inv.1
    refine ⟨?_, fun sec sec' h h' => ?_⟩
    · rw [view_rowsOf hsane.apart, seatsOf, seatsOf, List.countP_append, patchAll_eq_map,
        List.countP_map]
      refine Nat.le_add_right_of_le (List.countP_mono_left fun r hr hseat => ?_)
      simp only [Bool.and_eq_true, beq_iff_eq] at hseat
      simp only [Function.comp_apply, Bool.and_eq_true, beq_iff_eq, patchRow_studentId]
      refine ⟨(ho.stays fun hd p hp he => ?_).enrolled hseat.1, hseat.2⟩
      exact hC t ses rfl ht hd p hp r hr he.symm hseat.2
    · rw [view_section?] at h'
      obtain ⟨sec₀, hsec₀, rfl⟩ := Option.map_eq_some_iff.mp h'
      obtain rfl : sec = sec₀ := Option.some.inj (h.symm.trans hsec₀)
      rw [← enrolledRows_split, ← enrolledRows_split]
      exact hbal s sec h
  | env e => cases e <;> exact hsame _ rfl rfl
  | draw _ n hn => exact hsame _ rfl rfl

theorem seats_run {C : Sys → Label registrar → Prop} (hC : ∀ sys l, C sys l → Spared u s sys l)
    {w : World} (hv : w.Valid) {sys₀ sys : Sys}
    (hr₀ : Txn.Sys.Reach C (Txn.Sys.init w) sys₀) (hr : Txn.Sys.Reach C sys₀ sys) :
    seatsOf u (sys₀.world.db.rowsOf s) ≤ seatsOf u (sys.world.db.rowsOf s) := by
  induction hr with
  | refl => exact Nat.le_refl _
  | tail hr' hc hs ih =>
    exact ih.trans (seats_step (locks_run hv (hr₀.trans hr')) (hC _ _ hc) hs).kept

/-! ## 5. Every run -/

/-- **Repeat enrolls converge.**  In a run that spares the student's rows of the section the student
gains one row at most, with one audit row of a creation at most; the student's seats never go down
and go up by one at most, and the counter moves by nothing but them and the others' seats; every
enroll that succeeds names one enrollment; and no enroll of anybody is ever refused by the unique
index. -/
theorem enrolls_converge {w : World} (hv : w.Valid) (u : UserId) (s : SectionId) {sys : Sys}
    (hr : Txn.Sys.Reach (Spared u s) (Txn.Sys.init w) sys) :
    newRows u s w sys.world ≤ 1 ∧
    (∃ new, sys.world.db.auditOutbox = w.db.auditOutbox ++ new ∧
      new.countP (creates u s) ≤ 1) ∧
    (seatsOf u (w.db.rowsOf s) ≤ seatsOf u (sys.world.db.rowsOf s) ∧
      seatsOf u (sys.world.db.rowsOf s) ≤ seatsOf u (w.db.rowsOf s) + 1 ∧
      ∀ l sys', Spared u s sys l → sys.step l = some sys' →
        SeatsMove u s sys.world sys'.world) ∧
    (∀ t t' actor actor' out out', (t, Op.enroll ⟨s⟩ u actor, Except.ok out) ∈ sys.finished →
      (t', Op.enroll ⟨s⟩ u actor', Except.ok out') ∈ sys.finished →
        ∃ a a', out = .enrollment a ∧ out' = .enrollment a' ∧ a.id = a'.id) ∧
    (∀ t ses input u' actor, sys.sessions t = some ses → ses.op = .enroll input u' actor →
      ses.prog ≠ .throw (.db .uniqueViolation)) ∧
    ∀ t input u' actor e, (t, Op.enroll input u' actor, Except.error e) ∈ sys.finished →
      e ≠ .db .uniqueViolation := by
  obtain ⟨hG, hgrown, hanswered⟩ := replying_run (X := Extra.none)
    (J := fun sys => Grown u s w sys.world ∧ Answered u s sys) (Fits.none _ _)
    (fun sys l sys' hC hJ hG hs =>
      ⟨hJ.1.step hG.of_withPost hC hs, hJ.2.step hG hC hs⟩)
    hv trivial
    ⟨Grown.refl u s w, fun _ _ _ h => absurd h List.not_mem_nil,
      fun _ _ _ _ _ h => absurd h List.not_mem_nil⟩ hr
  have hv' : sys.world.Valid := hG.inv.1
  obtain ⟨new, hnew, hcount⟩ := hgrown.events
  refine ⟨hgrown.one hv', ⟨new, hnew, hcount.trans (hgrown.one hv')⟩, ⟨?_, ?_, ?_⟩, ?_, ?_,
    hanswered.error⟩
  · exact seats_run (fun _ _ h => h) hv .refl hr
  · exact (seatsOf_le_one hv' u s).trans (Nat.le_add_left 1 _)
  · exact fun l sys' hC hs => seats_step hG.of_withPost hC hs
  · intro t t' actor actor' out out' hmem hmem'
    obtain ⟨a, r, hout, hrow, hu, ha, hid⟩ := hanswered.ok t actor out hmem
    obtain ⟨a', r', hout', hrow', hu', ha', hid'⟩ := hanswered.ok t' actor' out' hmem'
    obtain ⟨hmem, hs⟩ := mem_rowsOf.mp hrow
    obtain ⟨hmem', hs'⟩ := mem_rowsOf.mp hrow'
    obtain rfl := hv'.db.one_active r hmem r' hmem' ha ha' (hu.trans hu'.symm) (hs.trans hs'.symm)
    exact ⟨a, a', hout, hout', hid.trans hid'.symm⟩
  · intro t ses input u' actor ht hop hp
    have hno : Unrefused ses.op (.db .uniqueViolation) (sys.ctx t ses) := (hG.post_error ht hp).2
    rw [hop] at hno
    exact hno rfl

/-- The step begins no request that takes rows away. -/
def Mild (_ : Sys) (l : Label registrar) : Prop := ∀ t op, l = .begin t op → op.departs = false

/-- A run of enrolls, promotions, reorders and section updates spares every row. -/
theorem spared_of_mild {w : World} {sys : Sys} (hr : Txn.Sys.Reach Mild (Txn.Sys.init w) sys) :
    Txn.Sys.Reach (Spared u s) (Txn.Sys.init w) sys := by
  refine (Txn.Sys.Reach.mono_inv
    (J := fun sys : Sys => ∀ t ses, sys.sessions t = some ses → ses.op.departs = false)
    ?_ ?_ ?_ hr).1
  · intro sys l sys' hC hJ hs t ses ht
    rcases Txn.op_of_step hs ht with ⟨ses₀, ht₀, hop⟩ | hl
    · exact hop ▸ hJ t ses₀ ht₀
    · exact hC t ses.op hl
  · intro sys l _ hJ t ses _ ht hd
    rw [hJ t ses ht] at hd
    exact absurd hd (by simp)
  · exact fun t ses ht => absurd ht (by simp [Txn.Sys.init])

namespace Campus

/-- Student 1 asks for section 10 twice at once; both requests pass the checks before the lock. -/
def repeated : List (Label registrar) :=
  [.begin 0 (enroll 1 10), .begin 1 (enroll 1 10)] ++ execs 0 4 100 ++ execs 1 4 101 ++
    execs 0 9 100 ++ [.commit 0] ++ execs 1 2 101 ++ [.commit 1]

set_option maxRecDepth 4000 in
theorem repeated_runs : (Txn.Sys.run (Txn.Sys.init world) repeated).isSome = true := by decide

def afterRepeated : Sys := (Txn.Sys.run (Txn.Sys.init world) repeated).get repeated_runs

theorem repeated_reached : Txn.Sys.Reach (Spared 1 10) (Txn.Sys.init world) afterRepeated := by
  refine spared_of_mild (.of_run .refl (fun l hl sys t op he => ?_)
    (Option.some_get repeated_runs).symm)
  subst he
  simp only [repeated, execs, List.mem_append, List.mem_cons, List.mem_replicate, List.not_mem_nil,
    or_false, reduceCtorEq, and_false, Label.begin.injEq] at hl
  rcases hl with ⟨-, rfl⟩ | ⟨-, rfl⟩ <;> rfl

set_option maxRecDepth 4000 in
/-- There is one row, one audit row and one seat for the two answers, which name one enrollment. -/
theorem enrolls_converge_twice :
    (newRows 1 10 world afterRepeated.world ≤ 1 ∧
      (∃ new, afterRepeated.world.db.auditOutbox = world.db.auditOutbox ++ new ∧
        new.countP (creates 1 10) ≤ 1) ∧
      seatsOf 1 (afterRepeated.world.db.rowsOf 10) ≤ seatsOf 1 (world.db.rowsOf 10) + 1) ∧
    ∃ out out', afterRepeated.finished
        = [(1, enroll 1 10, .ok out'), (0, enroll 1 10, .ok out)] ∧
      ∃ a a', out = .enrollment a ∧ out' = .enrollment a' ∧ a.id = a'.id := by
  obtain ⟨hrows, hevents, ⟨-, hseats, -⟩, hsame, -⟩ :=
    enrolls_converge world_valid 1 10 repeated_reached
  refine ⟨⟨hrows, hevents, hseats⟩, _, _, rfl, ?_⟩
  refine hsame 0 1 (actor 1) (actor 1) _ _ ?_ ?_
  · exact List.mem_cons_of_mem _ (List.mem_singleton_self _)
  · exact List.mem_cons_self

end Campus

end Enroll
