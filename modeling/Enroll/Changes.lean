/-
# What a commit changes

What one commit does to one row of `Enrollment` is its `Does`, one case for each kind of request
(`Outcome.touches`); the limits of a section are set by an update of that section only
(`Outcome.limits`), and every audit row names the signature of its request (`Outcome.signed`).
-/
import Enroll.AuditEvents
import Enroll.LifeCycle

namespace Enroll

open Txn (Ctx Label)

variable {X : Extra} {op : Op} {c : Ctx postgres}

/-! ## 1. Rows -/

/-- The row before and the row after, for each request that changes one. -/
inductive Op.Does : Op → Option Enrollment → Option Enrollment → Prop
  | enrolls {input : EnrollDto} {u : UserId} {actor : RequestActor} {r : Enrollment}
      (student : r.studentId = u) : Does (.enroll input u actor) none (some r)
  | drops {u : UserId} {actor : RequestActor} (r : Enrollment) (t : Time) :
      Does (.drop r.id u actor) (some r) (some ((departure t).patch r))
  | leaves {input : SwapDto} {u : UserId} {actor : RequestActor} (r : Enrollment) (t : Time) :
      Does (.swap r.id input u actor) (some r) (some ((departure t).patch r))
  | joins {id : EnrollmentId} {input : SwapDto} {u : UserId} {actor : RequestActor}
      {r : Enrollment} (student : r.studentId = u) : Does (.swap id input u actor) none (some r)
  | promotes {s : SectionId} (r : Enrollment) (t : Time) (waits : r.status = .WAITLISTED) :
      Does (.runPromotion s) (some r) (some ((promotion t).patch r))
  | expires {s : SectionId} (r : Enrollment) (t : Time) (waits : r.status = .WAITLISTED) :
      Does (.expireSectionWaitlist s) (some r) (some ((departure t).patch r))
  | places {s : SectionId} {dto : ReorderWaitlistDto} {actor : RequestActor} (r : Enrollment)
      (n : Nat) (waits : r.status = .WAITLISTED) :
      Does (.reorder s dto actor) (some r) (some ((placeAt n).patch r))

/-- The row is as it was, or the request did it. -/
def Op.Touches (op : Op) (o o' : Option Enrollment) : Prop := o' = o ∨ op.Does o o'

theorem NewRow.does {r : Enrollment} (h : NewRow c op r) : op.Does none (some r) := by
  cases h with
  | seated live x t lock seat => exact .enrolls rfl
  | queued x t p => exact .enrolls rfl
  | moved live x t lock seat => exact .joins rfl

/-- A request touches the rows of its updates, each of which is listed once. -/
theorem touches_of_patches (hv : c.world.Valid) (hs : Sane c)
    (hnew : ∀ r ∈ insertsOf c.log, op.Does none (some r))
    (hnd : ((patchesOf c.log).map Prod.fst).Nodup)
    (hdoes : ∀ p ∈ patchesOf c.log, ∃ r ∈ c.world.db.enrollments, r.id = p.1 ∧
      op.Does (some r) (some (p.2.patch r))) (x : EnrollmentId) :
    op.Touches (c.world.db.enrollment? x) (c.view.db.enrollment? x) := by
  cases hx : c.world.db.enrollment? x with
  | none =>
    rw [view_new hs hx]
    cases hr : Keyed.lookup Enrollment.id x (insertsOf c.log) with
    | none => exact .inl rfl
    | some r => exact .inr (hnew r (Keyed.lookup_some hr).1)
  | some r =>
    obtain ⟨hmem, rfl⟩ := enrollment?_mem hx
    rw [view_known hs hx]
    by_cases hp : ∃ p ∈ patchesOf c.log, p.1 = r.id
    · obtain ⟨p, hp, hid⟩ := hp
      obtain ⟨r', hmem', hid', hd⟩ := hdoes p hp
      obtain rfl := Keyed.eq_of_key_eq hv.db.enrollment_id hmem hmem' (hid.symm.trans hid'.symm)
      rw [patchRow_of_mem hnd hp hid']
      exact .inr hd
    · exact .inl (congrArg some (patchRow_of_ne fun p hp' he => hp ⟨p, hp', he⟩))

/-- A request without updates. -/
theorem touches_of_no_patches (hv : c.world.Valid) (hs : Sane c)
    (hnew : ∀ r ∈ insertsOf c.log, op.Does none (some r)) (hp : patchesOf c.log = [])
    (x : EnrollmentId) :
    op.Touches (c.world.db.enrollment? x) (c.view.db.enrollment? x) := by
  refine touches_of_patches hv hs hnew ?_ ?_ x <;> rw [hp]
  · exact List.nodup_nil
  · exact fun p hp' => absurd hp' List.not_mem_nil

/-- A request that gives up one row. -/
theorem touches_of_departure (hv : c.world.Valid) (hs : Sane c)
    (hnew : ∀ r ∈ insertsOf c.log, op.Does none (some r)) {r : Enrollment} {t : Time}
    (hr : r ∈ c.world.db.enrollments) (hp : patchesOf c.log = [(r.id, departure t)])
    (hd : op.Does (some r) (some ((departure t).patch r))) (x : EnrollmentId) :
    op.Touches (c.world.db.enrollment? x) (c.view.db.enrollment? x) := by
  refine touches_of_patches hv hs hnew ?_ ?_ x <;> rw [hp]
  · exact List.nodup_singleton _
  · intro p hp'
    obtain rfl := List.mem_singleton.mp hp'
    exact ⟨r, hr, rfl, hd⟩

/-- **Every request does to a row what its kind does, or nothing.** -/
theorem Outcome.touches (hv : c.world.Valid) (ho : Outcome X op c) (x : EnrollmentId) :
    op.Touches (c.world.db.enrollment? x) (c.view.db.enrollment? x) := by
  have hs := ho.sane hv
  have hnew (r : Enrollment) (hr : r ∈ insertsOf c.log) : op.Does none (some r) :=
    (ho.newRow hr).does
  have hnil (hlog : c.log = []) : patchesOf c.log = [] := by
    rw [hlog]
    rfl
  cases op with
  | enroll input u actor =>
    refine touches_of_no_patches hv hs hnew ?_ x
    cases show EnrollOutcome X (.enroll input u actor) input u actor c from ho with
    | already log => exact hnil log
    | seated sec live y t t' n lock seat fresh checked drawn log =>
      exact (Parts.of_seated log).patches
    | queued sec live y t t' n p lock full cap position fresh checked drawn log =>
      exact (Parts.of_queued log).patches
  | drop id u actor =>
    obtain ⟨r, droppedAt, t, n, h⟩ := ho
    have hd : Op.Does (.drop id u actor) (some r) (some ((departure droppedAt).patch r)) :=
      h.id ▸ .drops r droppedAt
    exact touches_of_departure hv hs hnew h.own.mem h.parts.patches hd x
  | swap id input u actor =>
    rcases ho with hlog | ⟨r, sec, live, y, droppedAt, t, t', n, h⟩
    · exact touches_of_no_patches hv hs hnew (hnil hlog) x
    · have hd : Op.Does (.swap id input u actor) (some r) (some ((departure droppedAt).patch r)) :=
        h.id ▸ .leaves r droppedAt
      exact touches_of_departure hv hs hnew h.own.mem h.parts.patches hd x
  | runPromotion s =>
    rcases ho with hlog | ⟨sec, turns, h⟩
    · exact touches_of_no_patches hv hs hnew (hnil hlog) x
    · refine touches_of_patches hv hs hnew ?_ ?_ x <;> rw [h.parts.patches]
      · rw [promotions_rows]
        refine nodup_turns ?_ h.rows
        rw [List.map_take]
        exact (hv.db.nodup_byPosition s).sublist (List.take_sublist _ _)
      · intro p hp
        obtain ⟨u, hu, rfl⟩ := List.mem_map.mp hp
        obtain ⟨hmem, -, hw⟩ := mem_waiting.mp (h.waiting hu)
        exact ⟨u.row, hmem, rfl, .promotes u.row u.stamp hw⟩
  | reorder s dto actor =>
    obtain ⟨live, t, n, h⟩ := ho
    refine touches_of_patches hv hs hnew ?_ ?_ x <;> rw [h.parts.patches]
    · rw [placements_ids]
      exact h.perm.nodup_iff.mpr (hv.db.nodup_wl s)
    · intro p hp
      obtain ⟨q, hq, rfl⟩ := List.mem_map.mp hp
      obtain ⟨r, hr, hid⟩ := mem_wl.mp (h.perm.mem_iff.mp (List.fst_mem_of_mem_zipIdx hq))
      obtain ⟨hmem, -, hw⟩ := mem_waiting.mp hr
      exact ⟨r, hmem, hid, .places r q.2 hw⟩
  | expireSectionWaitlist s =>
    rcases ho with ⟨hlog, -⟩ | ⟨live, turns, h⟩
    · exact touches_of_no_patches hv hs hnew (hnil hlog) x
    · refine touches_of_patches hv hs hnew ?_ ?_ x <;> rw [h.parts.patches]
      · rw [departures_ids]
        exact nodup_turns (hv.db.nodup_waiting s) h.rows
      · intro p hp
        obtain ⟨u, hu, rfl⟩ := List.mem_map.mp hp
        obtain ⟨hmem, -, hw⟩ := mem_waiting.mp (h.waiting hu)
        exact ⟨u.row, hmem, rfl, .expires u.row u.stamp hw⟩
  | updateSection s dto actor =>
    obtain ⟨live, t, n, h⟩ := ho
    exact touches_of_no_patches hv hs hnew h.parts.patches x

/-! ## 2. Limits and signatures -/

/-- The request may set the limits of section `s`. -/
def Op.Resizes (s : SectionId) (op : Op) : Prop := ∃ dto actor, op = .updateSection s dto actor

/-- Only an update of the section sets its limits. -/
theorem Outcome.limits (ho : Outcome X op c) (s : SectionId) :
    c.view.db.tables.limits s = c.world.db.tables.limits s ∨ op.Resizes s := by
  have hkeep (h : KeepsLimits (countersOf c.log)) :
      c.view.db.tables.limits s = c.world.db.tables.limits s ∨ op.Resizes s := .inl (h.view s)
  have hnil (hlog : c.log = []) : KeepsLimits (countersOf c.log) := by
    rw [hlog]
    exact fun p hp => absurd hp List.not_mem_nil
  have hone {s' : SectionId} {d : SectionData} (hk : countersOf c.log = [(s', d)])
      (hd : ∀ sec, (d.patch sec).limits = sec.limits) : KeepsLimits (countersOf c.log) := by
    rw [hk]
    exact fun p hp => List.mem_singleton.mp hp ▸ hd
  cases op with
  | enroll input u actor =>
    cases show EnrollOutcome X (.enroll input u actor) input u actor c from ho with
    | already log => exact hkeep (hnil log)
    | seated sec live y t t' n lock seat fresh checked drawn log =>
      exact hkeep (hone (Parts.of_seated log).counters fun _ => rfl)
    | queued sec live y t t' n p lock full cap position fresh checked drawn log =>
      refine hkeep ?_
      rw [(Parts.of_queued log).counters]
      exact fun p hp => absurd hp List.not_mem_nil
  | drop id u actor =>
    obtain ⟨r, droppedAt, t, n, h⟩ := ho
    exact hkeep (h.parts.counters ▸ keepsLimits_seatBack r)
  | swap id input u actor =>
    rcases ho with hlog | ⟨r, sec, live, y, droppedAt, t, t', n, h⟩
    · exact hkeep (hnil hlog)
    · refine hkeep ?_
      rw [h.parts.counters]
      intro p hp
      rcases List.mem_append.mp hp with hp | hp
      · exact keepsLimits_seatBack r p hp
      · exact List.mem_singleton.mp hp ▸ fun _ => rfl
  | runPromotion s' =>
    rcases ho with hlog | ⟨sec, turns, h⟩
    · exact hkeep (hnil hlog)
    · exact hkeep (hone h.parts.counters fun _ => rfl)
  | reorder s' dto actor =>
    obtain ⟨live, t, n, h⟩ := ho
    refine hkeep ?_
    rw [h.parts.counters]
    exact fun p hp => absurd hp List.not_mem_nil
  | expireSectionWaitlist s' =>
    rcases ho with ⟨hlog, -⟩ | ⟨live, turns, h⟩
    · exact hkeep (hnil hlog)
    · refine hkeep ?_
      rw [h.parts.counters]
      exact fun p hp => absurd hp List.not_mem_nil
  | updateSection s' dto actor =>
    obtain ⟨live, t, n, h⟩ := ho
    by_cases he : s' = s
    · exact .inr ⟨dto, actor, he ▸ rfl⟩
    · left
      show (c.view.db.section? s).map Section.limits = (c.world.db.section? s).map Section.limits
      rw [view_section?, h.parts.counters, Option.map_map]
      refine congrArg (fun f => (c.world.db.section? s).map f) (funext fun sec => ?_)
      exact congrArg Section.limits
        (patchSection_of_ne (fun p hp => List.mem_singleton.mp hp ▸ Ne.symm he) sec)

/-- A step that changes the limits of a section commits an update of it. -/
theorem limits_of_step {sys sys' : Sys} {l : Label registrar} (hG : (discipline X).Good sys)
    (hs : sys.step l = some sys') (s : SectionId) :
    sys'.world.db.tables.limits s = sys.world.db.tables.limits s ∨
      ∃ t ses, l = .commit t ∧ sys.sessions t = some ses ∧ ses.op.Resizes s := by
  have hm := moves_of_step hG hs
  generalize sys'.world = w' at hm
  cases hm with
  | commit t ses a ht hp ho => exact (ho.limits s).imp_right fun hop => ⟨t, ses, rfl, ht, hop⟩
  | env e => cases e <;> exact .inl rfl
  | draw _ n hn => exact .inl rfl

/-- Whom the audit rows of a request name. -/
def Op.signature : Op → AuditActor
  | enroll _ u actor => actor.auditAs u
  | drop _ _ actor => actor.audit
  | swap _ _ u actor => actor.auditAs u
  | runPromotion _ => systemActor
  | reorder _ _ actor => actor.audit
  | expireSectionWaitlist _ => systemActor
  | updateSection _ _ actor => actor.audit

theorem Outcome.signed (ho : Outcome X op c) {e : AuditOutbox} (he : e ∈ eventsOf c.log) :
    e.actor = op.signature := by
  have hnil (hlog : c.log = []) : e.actor = op.signature := by
    rw [hlog] at he
    exact absurd he List.not_mem_nil
  cases op with
  | enroll input u actor =>
    cases show EnrollOutcome X (.enroll input u actor) input u actor c from ho with
    | already log => exact hnil log
    | seated sec live y t t' n lock seat fresh checked drawn log =>
      rw [(Parts.of_seated log).events] at he
      exact List.mem_singleton.mp he ▸ rfl
    | queued sec live y t t' n p lock full cap position fresh checked drawn log =>
      rw [(Parts.of_queued log).events] at he
      exact List.mem_singleton.mp he ▸ rfl
  | drop id u actor =>
    obtain ⟨r, droppedAt, t, n, h⟩ := ho
    rw [h.parts.events] at he
    obtain rfl := List.mem_singleton.mp he
    unfold dropEvent
    split <;> rfl
  | swap id input u actor =>
    rcases ho with hlog | ⟨r, sec, live, y, droppedAt, t, t', n, h⟩
    · exact hnil hlog
    · rw [h.parts.events] at he
      exact List.mem_singleton.mp he ▸ rfl
  | runPromotion s =>
    rcases ho with hlog | ⟨sec, turns, h⟩
    · exact hnil hlog
    · rw [h.parts.events] at he
      obtain ⟨u, -, rfl⟩ := List.mem_map.mp he
      rfl
  | reorder s dto actor =>
    obtain ⟨live, t, n, h⟩ := ho
    rw [h.parts.events] at he
    exact List.mem_singleton.mp he ▸ rfl
  | expireSectionWaitlist s =>
    rcases ho with ⟨hlog, -⟩ | ⟨live, turns, h⟩
    · exact hnil hlog
    · rw [h.parts.events] at he
      obtain ⟨u, -, rfl⟩ := List.mem_map.mp he
      rfl
  | updateSection s dto actor =>
    obtain ⟨live, t, n, h⟩ := ho
    rw [h.parts.events] at he
    exact List.mem_singleton.mp he ▸ rfl

end Enroll
