/-
# No wake-up is lost

A section is OPEN when it has a free seat and somebody waits for it.  Only a promotion run closes it
again, so while it is open a run must be on its way: a call still to be made, a job that waits for a
worker or for its retry, a transaction that is running, a processor that is about to fail
(`Pending`).  This is kept by every event but five: a call that Redis refuses, that the process does
not live to make, or that finds the section's last job dead; a job that fails for good; and a call
that finds the job active while its transaction has already committed.  A job that is active and has
not committed is no danger: its transaction either has not taken the section's lock yet, and will see
the seat, or it holds the lock, and then the seat cannot have been given up behind it.

`no_lost_wakeup` is the invariant for the runs without those five (`Reliable`);
`Campus.coalesced_call_is_lost` is a run with none but the fifth.  `sweep_recovers` says that the
sweep mends whatever the past of the pipeline was.
-/
import Enroll.Closing
import Enroll.Pipeline

namespace Enroll

open Txn (Ctx Session Label Discipline)

variable {X : Extra} {op : Op} {c c' : Ctx postgres} {s : SectionId}

/-! ## 1. Deadlines -/

/-- Nobody puts a deadline off. -/
def deadlines : Extra where
  inv _ := True
  holds _ c w := ∀ t,
    (w.db.ref.term t).registrationCloses ≤ (c.world.db.ref.term t).registrationCloses
  inv_seq _ _ _ h := h
  refl _ _ _ _ := Nat.le_refl _
  trans _ _ _ _ h h' t := Nat.le_trans (h' t) (h t)
  anti _ _ _ _ hw _ _ _ h t := by
    rw [hw]
    exact h t
  seq _ _ _ _ _ _ := Nat.le_refl _

theorem deadlines_fits (J : Sys → Prop) : Fits deadlines NotPutOff J where
  inv _ _ _ _ _ _ _ _ _ _ := trivial
  holds _ _ _ _ _ _ _ _ _ _ _ _ _ _ _ _ := Nat.le_of_eq (by rw [Ctx.view, applyLog_ref]; rfl)
  env_inv _ _ _ _ := trivial
  env_holds sys e hC _ _ _ _ := by
    cases e with
    | tick ms => exact fun _ => Nat.le_refl _
    | reference r => exact hC

/-! ## 2. What a commit leaves open -/

/-- The queue of a section grows only when the section is full. -/
theorem waiting_of_view (hv : c.world.Valid) (ho : Outcome X op c) {sec : Section}
    (hsec : c.view.db.section? s = some sec) (hseat : sec.enrolledCount < sec.capacity)
    (hwait : c.view.db.waiting s ≠ []) : c.world.db.waiting s ≠ [] := by
  have hs := ho.sane hv
  obtain ⟨r, hr⟩ := List.exists_mem_of_ne_nil _ hwait
  obtain ⟨hmem, hsid, hst⟩ := mem_waiting.mp hr
  have hlookup : c.view.db.enrollment? r.id = some r := (hs.valid hv).db.enrollment?_of_mem hmem
  obtain ⟨f, hf, -⟩ := ho.fares hv r.id
  have hturns := hf.row
  rw [hlookup] at hturns
  cases f with
  | kept =>
    -- the row was there, and waited there
    have hbefore : ∃ r₀, c.world.db.enrollment? r.id = some r₀ ∧ r₀.status = .WAITLISTED := by
      cases h₀ : c.world.db.enrollment? r.id with
      | none =>
        rw [h₀] at hturns
        exact absurd hturns (by simp [Fate.Turns])
      | some r₀ =>
        rw [h₀] at hturns
        simp only [Fate.Turns, Option.map_some, Option.some.injEq, Prod.mk.injEq] at hturns
        exact ⟨r₀, rfl, hturns.1.symm.trans hst⟩
    obtain ⟨r₀, h₀, hst₀⟩ := hbefore
    obtain ⟨hmem₀, -⟩ := enrollment?_mem h₀
    have hsec₀ := (reread_fixed (hs.valid hv) hs.grows h₀ hlookup).2
    exact List.ne_nil_of_mem (mem_waiting.mpr ⟨hmem₀, hsec₀.symm.trans hsid, hst₀⟩)
  | created =>
    -- a new row waits only where there was no seat
    obtain ⟨hnone, -⟩ := hturns
    have hins : r ∈ insertsOf c.log := by
      rcases hs.mem_view.mp hmem with ⟨r₀, hr₀, hpatch⟩ | hins
      · have hid : r₀.id = r.id := by
          rw [← hpatch]
          exact (patchRow_kept (fun d r => rfl) (patchesOf c.log) r₀).symm
        exact absurd hid (Keyed.lookup_none.mp hnone r₀ hr₀)
      · exact hins
    cases ho.newRow hins with
    | seated live x t lock seat => exact absurd hst (by simp [seatRow, EnrollmentCreate.row])
    | moved live x t lock seat => exact absurd hst (by simp [seatRow, EnrollmentCreate.row])
    | queued x t p =>
      rename_i input u actor
      have henroll : EnrollOutcome X (.enroll input u actor) input u actor c := ho
      cases henroll with
      | already log => exact absurd hins (by rw [log]; exact List.not_mem_nil)
      | seated sec₁ live x₁ t₁ t₁' n₁ lock seat fresh checked drawn log =>
        rw [(Parts.of_seated log).inserts, List.mem_singleton] at hins
        exact absurd (congrArg Enrollment.status hins) (by simp [seatRow, queueRow,
          EnrollmentCreate.row])
      | queued sec₁ live x₁ t₁ t₁' n₁ p₁ lock full cap position fresh checked drawn log =>
        have hsame : c.view.db.section? s = c.world.db.section? s := by
          rw [view_section?, (Parts.of_queued log).counters]
          cases c.world.db.section? s <;> rfl
        have hsid' : s = input.sectionId := hsid.symm
        rw [hsame, hsid', lock.row, Option.some.injEq] at hsec
        subst hsec
        omega
  | departed b =>
    obtain ⟨r₀, r', -, hr', -, hst', -⟩ := hturns
    obtain rfl := Option.some.inj hr'
    rw [hst] at hst'
    exact absurd hst' (by simp)
  | promoted =>
    obtain ⟨r₀, r', -, hr', -, hst', -⟩ := hturns
    obtain rfl := Option.some.inj hr'
    rw [hst] at hst'
    exact absurd hst' (by simp)

theorem view_fixed (hv : c.world.Valid) (ho : Outcome X op c) {sec' : Section}
    (h : c.view.db.section? s = some sec') :
    ∃ sec, c.world.db.section? s = some sec ∧ sec'.fixed = sec.fixed := by
  have hfixed := (ho.sane hv).grows.sections s
  rw [h, Option.map_some] at hfixed
  obtain ⟨sec, hsec, he⟩ := Option.map_eq_some_iff.mp hfixed.symm
  exact ⟨sec, hsec, he.symm⟩

/-- **What is open after a commit was open before, or the commit has opened a seat there.** -/
theorem open_of_view (hv : c.world.Valid) (ho : Outcome X op c) {sec' : Section}
    (h : Open c.view s sec') : (∃ sec, Open c.world s sec) ∨ Opens c.world c.view s := by
  obtain ⟨sec, hsec, hfixed⟩ := view_fixed hv ho h.row
  by_cases hopens : Opens c.world c.view s
  · exact Or.inr hopens
  refine Or.inl ⟨sec, hsec, ?_, waiting_of_view hv ho h.row h.seat h.waiting, ?_⟩
  · have hle : ¬ sec.free < sec'.free := fun hlt => hopens ⟨sec, sec', hsec, h.row, hlt⟩
    have := h.seat
    unfold Section.free at hle
    omega
  · have hcloses := h.closes
    rw [fixed_termId hfixed] at hcloses
    have hnow : c.view.now = c.world.now := applyLog_now c.log c.world
    have href : c.view.db.ref = c.world.db.ref := applyLog_ref c.log c.world
    rw [hnow, href] at hcloses
    exact hcloses

/-- **A promotion run leaves its section closed.** -/
theorem PromotionLeft.not_open (hv : c.world.Valid) (ho : Outcome deadlines op c)
    (h : PromotionLeft deadlines op s c) (sec' : Section) : ¬ Open c.view s sec' := by
  intro hopen
  cases h with
  | missing row =>
    obtain ⟨sec, hsec, -⟩ := view_fixed hv ho hopen.row
    exact absurd (row.symm.trans hsec) (by simp)
  | closed live lock late =>
    obtain ⟨sec, hsec, hfixed⟩ := view_fixed hv ho hopen.row
    obtain rfl := Option.some.inj (hsec.symm.trans lock.row)
    obtain ⟨c₁, hl, hlate⟩ := late
    have hdeadline : ∀ t, (c.world.db.ref.term t).registrationCloses
        ≤ (c₁.world.db.ref.term t).registrationCloses := hl.rely.extra
    have hcloses := hopen.closes
    have hnow : c.view.now = c.world.now := applyLog_now c.log c.world
    have href : c.view.db.ref = c.world.db.ref := applyLog_ref c.log c.world
    rw [fixed_termId hfixed, hnow, href] at hcloses
    exact absurd (Nat.lt_of_lt_of_le hlate (Nat.le_trans hcloses (hdeadline _)))
      (Nat.lt_irrefl _)
  | settled held full => exact hopen.waiting (full sec' hopen.row hopen.seat)

/-- Time and earlier deadlines close sections. -/
theorem Open.of_env {sys : Sys} {e : EnvChange} (hC : NotPutOff sys (.env e)) {sec : Section}
    (h : Open (sys.world.env e) s sec) : Open sys.world s sec := by
  cases e with
  | tick ms => exact ⟨h.row, h.seat, h.waiting, Nat.le_trans (Nat.le_add_right _ _) h.closes⟩
  | reference r => exact ⟨h.row, h.seat, h.waiting, Nat.le_trans h.closes (hC sec.termId)⟩

end Enroll

namespace Enroll.Promotion

open Txn (Label Session Discipline)
open Bull (Job)

variable {p p' : Pipeline} {s : SectionId}

/-- **What is open after a step of the database was open before, and no promotion run of it has just
committed; or the step announces it.** -/
theorem open_of_step {sys sys' : Sys} {l : Label registrar} (hG : (saying deadlines).Good sys)
    (hC : NotPutOff sys l) (hs : sys.step l = some sys') {sec' : Section}
    (h : Open sys'.world s sec') :
    ((∃ sec, Open sys.world s sec) ∧ ∀ t, l = .commit t → runOf sys t ≠ some s) ∨
      s ∈ announced sys' l := by
  have hm := moves_of_step hG.of_withPost hs
  cases l with
  | commit t =>
    obtain ⟨ses, out, ht, hp, rfl⟩ := Discipline.commit_cases hs
    have ho : Outcome deadlines ses.op (sys.ctx t ses) := (hG.post ht hp).1
    have hsaid := said_of_good hG ht hp
    have hview : Open (sys.ctx t ses).view s sec' := h
    rcases open_of_view hG.inv.1 ho hview with hopen | hopens
    · refine Or.inl ⟨hopen, ?_⟩
      rintro t' he hrun
      obtain rfl := Label.commit.inj he
      unfold runOf at hrun
      rw [ht] at hrun
      rw [Op.eq_of_promotes hrun] at hsaid ho
      exact hsaid.2.2.not_open hG.inv.1 ho sec' hview
    · exact Or.inr ((hsaid.opens hG.inv.1 s).mp hopens)
  | env e =>
    rw [Discipline.env_cases hs] at h
    exact Or.inl ⟨⟨sec', h.of_env hC⟩, by simp⟩
  | begin t op =>
    refine Or.inl ⟨⟨sec', ?_⟩, by simp⟩
    generalize sys'.world = w' at hm h
    cases hm
    exact ⟨h.row, h.seat, h.waiting, h.closes⟩
  | exec t x =>
    refine Or.inl ⟨⟨sec', ?_⟩, by simp⟩
    generalize sys'.world = w' at hm h
    cases hm
    exact ⟨h.row, h.seat, h.waiting, h.closes⟩
  | rollback t =>
    refine Or.inl ⟨⟨sec', ?_⟩, by simp⟩
    generalize sys'.world = w' at hm h
    cases hm
    exact ⟨h.row, h.seat, h.waiting, h.closes⟩
  | crash t =>
    refine Or.inl ⟨⟨sec', ?_⟩, by simp⟩
    generalize sys'.world = w' at hm h
    cases hm
    exact ⟨h.row, h.seat, h.waiting, h.closes⟩

/-! ## 3. A run on its way -/

/-- A promotion run of the section is on its way. -/
inductive Pending (p : Pipeline) (s : SectionId) : Prop
  | called (h : s ∈ p.calls)
  | queued (j : Job PromotePayload) (hj : p.queue.jobs s = some j)
      (h : j.state = .waiting ∨ j.state = .delayed)
  | running (t : Nat) (h : p.worker s = some (.running t))
  | retrying (h : p.worker s = some .threw)

/-- Every open section has a run on its way. -/
def Woken (p : Pipeline) : Prop := ∀ s sec, Open p.sys.world s sec → Pending p s

/-- The staff put no deadline off; anything else may go wrong. -/
def Steady (p : Pipeline) : Event → Prop
  | .db l => NotPutOff p.sys l
  | _ => True

/-- **The step condition.**  Nothing goes wrong with the call or the job of an open section. -/
def Reliable (p : Pipeline) : Event → Prop
  | .db l => NotPutOff p.sys l
  | .call s redis => (∃ sec, Open p.sys.world s sec) → redis = true ∧
      (∀ j, p.queue.jobs s = some j → j.state ≠ .failed) ∧ p.worker s ≠ some .returned
  | .lost s => ¬ ∃ sec, Open p.sys.world s sec
  | .fail s => (∃ sec, Open p.sys.world s sec) →
      ∀ j, p.queue.jobs s = some j → j.attemptsMade + 1 < j.opts.attempts
  | .sweep => True
  | .take _ _ => True
  | .complete _ => True
  | .retry _ => True

theorem Reliable.steady {e : Event} (h : Reliable p e) : Steady p e := by
  cases e <;> first | exact h | trivial

/-- What a step of the database does to the processor of a section. -/
theorem report_cases (hl : Linked p) (l : Label registrar) (s : SectionId) :
    p.report l s = p.worker s ∨ p.report l s = some .threw ∨
      ∃ t, l = .commit t ∧ runOf p.sys t = some s := by
  have hsettle (t : Nat) (r : Processing) :
      p.settle t r s = p.worker s ∨ p.settle t r s = some r ∧ runOf p.sys t = some s := by
    rw [hl.settle_apply]
    split
    · exact Or.inr ⟨rfl, (hl.runs s t).mp ‹_›⟩
    · exact Or.inl rfl
  cases l with
  | begin t op => exact Or.inl rfl
  | exec t x => exact Or.inl rfl
  | env e => exact Or.inl rfl
  | commit t =>
    rcases hsettle t .returned with h | h
    · exact Or.inl h
    · exact Or.inr (Or.inr ⟨t, rfl, h.2⟩)
  | rollback t =>
    rcases hsettle t .threw with h | h
    · exact Or.inl h
    · exact Or.inr (Or.inl h.1)
  | crash t =>
    rcases hsettle t .threw with h | h
    · exact Or.inl h
    · exact Or.inr (Or.inl h.1)

namespace Woken

theorem db (hw : Woken p) (hl : Linked p) (hG : (saying deadlines).Good p.sys)
    {l : Label registrar} (hC : NotPutOff p.sys l) (hs : p.step (.db l) = some p') : Woken p' := by
  obtain ⟨-, sys', hstep, rfl⟩ := db_cases hs
  intro s sec' hopen
  rcases open_of_step hG hC hstep hopen with ⟨⟨sec, hbefore⟩, hcommit⟩ | hcalled
  · have hworker : p.report l s = p.worker s ∨ p.report l s = some .threw := by
      rcases report_cases hl l s with h | h | ⟨t, hl, hrun⟩
      · exact Or.inl h
      · exact Or.inr h
      · exact absurd hrun (hcommit t hl)
    rcases hworker with hsame | hthrew
    · cases hw s sec hbefore with
      | called h => exact .called (List.mem_append_right _ h)
      | queued j hj h => exact .queued j hj h
      | running t h => exact .running t (hsame.trans h)
      | retrying h => exact .retrying (hsame.trans h)
    · exact .retrying hthrew
  · exact .called (List.mem_append_left _ hcalled)

/-- A call is one of several, or it leaves a live job behind. -/
theorem call (hw : Woken p) (hl : Linked p) {s₀ : SectionId} {redis : Bool}
    (hC : Reliable p (.call s₀ redis)) (hs : p.step (.call s₀ redis) = some p') : Woken p' := by
  obtain ⟨hmem, rfl⟩ := call_cases hs
  intro s sec hopen
  by_cases he : s = s₀
  · subst he
    obtain ⟨rfl, hdead, hreturned⟩ := hC ⟨sec, hopen⟩
    have hadd : enqueuePromotion s true p.queue = p.queue.add s ⟨s⟩ promoteOptions := rfl
    cases hq : p.queue.jobs s with
    | none =>
      refine .queued ⟨⟨s⟩, promoteOptions, .waiting, 0⟩ ?_ (Or.inl rfl)
      show (enqueuePromotion s true p.queue).jobs s = _
      rw [hadd, Bull.Queue.add_free hq, Bull.Queue.set_self]
    | some j =>
      have hsame : (enqueuePromotion s true p.queue).jobs s = some j := by
        rw [hadd, Bull.Queue.add_taken hq]
        exact hq
      cases hst : j.state with
      | waiting => exact .queued j hsame (Or.inl hst)
      | delayed => exact .queued j hsame (Or.inr hst)
      | completed => exact absurd hst (hl.promotes s j hq).state
      | failed => exact absurd hst (hdead j hq)
      | active =>
        -- the job is active, and its transaction has not committed
        cases hproc : p.worker s with
        | none => exact absurd hproc ((hl.active s).mpr ⟨j, hq, hst⟩)
        | some proc =>
          cases proc with
          | running t => exact .running t hproc
          | returned => exact absurd hproc hreturned
          | threw => exact .retrying hproc
  · cases hw s sec hopen with
    | called h => exact .called ((List.mem_erase_of_ne he).mpr h)
    | queued j hj h =>
      refine .queued j ?_ h
      show (enqueuePromotion s₀ redis p.queue).jobs s = some j
      unfold enqueuePromotion
      split
      · cases hq : p.queue.jobs s₀ with
        | none =>
          rw [Bull.Queue.add_free hq, Bull.Queue.set_of_ne he]
          exact hj
        | some j₀ =>
          rw [Bull.Queue.add_taken hq]
          exact hj
      · exact hj
    | running t h => exact .running t h
    | retrying h => exact .retrying h

/-- An event of a job leaves the other sections' jobs as they are. -/
theorem other_job {e : Bull.Queue.Event} {s₀ : SectionId} {q : PromoteQueue} (hl : Linked p)
    (hq : p.queue.step s₀ e = some q) (hne : s ≠ s₀) {j : Job PromotePayload}
    (hj : p.queue.jobs s = some j) (h : j.state = .waiting ∨ j.state = .delayed) :
    q.jobs s = some j := by
  obtain ⟨j₀, hj₀, hcases⟩ := Bull.Queue.step_cases hq
  rcases hcases with ⟨-, -, rfl⟩ | ⟨-, -, rfl⟩ | ⟨-, -, rfl⟩ | ⟨-, -, -, rfl⟩ | ⟨-, -, -, rfl⟩
  · exact (Bull.Queue.set_of_ne hne _).trans hj
  · exact (Bull.Queue.set_of_ne hne _).trans hj
  · exact (Bull.Queue.set_of_ne hne _).trans hj
  · exact (Bull.Queue.set_of_ne hne _).trans hj
  · refine Bull.Queue.keepFailed_thrown hl.kept _ hj hne ?_
    rcases h with h | h <;> simp [h]

/-- An event of a job, and of nothing else: what is to be said is about its own section. -/
theorem job (hw : Woken p) (hl : Linked p) {e : Bull.Queue.Event} {s₀ : SectionId}
    {q : PromoteQueue} (hq : p.queue.step s₀ e = some q) {sys' : Sys}
    (hworld : sys'.world = p.sys.world) {worker : SectionId → Option Processing}
    (hworker : ∀ s, s ≠ s₀ → worker s = p.worker s)
    (hself : ∀ sec, Open p.sys.world s₀ sec → Pending p s₀ →
      Pending { p with sys := sys', queue := q, worker := worker } s₀) :
    Woken { p with sys := sys', queue := q, worker := worker } := by
  intro s sec hopen
  have hbefore : Open p.sys.world s sec := hworld ▸ hopen
  by_cases he : s = s₀
  · subst he
    exact hself sec hbefore (hw s sec hbefore)
  · cases hw s sec hbefore with
    | called h => exact .called h
    | queued j hj h => exact .queued j (other_job hl hq he hj h) h
    | running t h => exact .running t ((hworker s he).trans h)
    | retrying h => exact .retrying ((hworker s he).trans h)

/-- **Every reliable step keeps every open section woken.** -/
theorem step (hw : Woken p) (hl : Linked p) (hG : (saying deadlines).Good p.sys) {e : Event}
    (hC : Reliable p e) (hs : p.step e = some p') : Woken p' := by
  cases e with
  | db l => exact hw.db hl hG hC hs
  | call s redis => exact hw.call hl hC hs
  | lost s₀ =>
    obtain ⟨hmem, rfl⟩ := lost_cases hs
    intro s sec hopen
    have hne : s ≠ s₀ := fun he => hC ⟨sec, he ▸ hopen⟩
    cases hw s sec hopen with
    | called h => exact .called ((List.mem_erase_of_ne hne).mpr h)
    | queued j hj h => exact .queued j hj h
    | running t h => exact .running t h
    | retrying h => exact .retrying h
  | sweep =>
    rw [← Option.some.inj hs]
    intro s sec hopen
    cases hw s sec hopen with
    | called h => exact .called (List.mem_append_right _ h)
    | queued j hj h => exact .queued j hj h
    | running t h => exact .running t h
    | retrying h => exact .retrying h
  | take s₀ t =>
    obtain ⟨j, q, sys', hj, hq, hbegin, rfl⟩ := take_cases hs
    have hworld : sys'.world = p.sys.world := by
      obtain ⟨-, rfl⟩ := Discipline.begin_cases hbegin
      rfl
    refine hw.job hl hq hworld (fun s he => Function.update_of_ne he _ _) fun sec _ _ => ?_
    exact .running t (Function.update_self _ _ _)
  | complete s₀ =>
    obtain ⟨hret, q, hq, rfl⟩ := complete_cases hs
    refine hw.job hl hq rfl (fun s he => Function.update_of_ne he _ _) fun sec _ hpend => ?_
    -- the job was active and its processor had returned, so a call is still to be made
    obtain ⟨j₁, hj₁, hst₁⟩ := (hl.active s₀).mp (by simp [hret])
    cases hpend with
    | called h => exact .called h
    | queued j hj h =>
      obtain rfl := Option.some.inj (hj.symm.trans hj₁)
      rw [hst₁] at h
      exact absurd h (by simp)
    | running t h => exact absurd (h.symm.trans hret) (by simp)
    | retrying h => exact absurd (h.symm.trans hret) (by simp)
  | fail s₀ =>
    obtain ⟨hthrew, q, hq, rfl⟩ := fail_cases hs
    refine hw.job hl hq rfl (fun s he => Function.update_of_ne he _ _) fun sec hopen _ => ?_
    -- there are attempts left
    obtain ⟨j, hj, hcases⟩ := Bull.Queue.step_cases hq
    have hleft := hC ⟨sec, hopen⟩ j hj
    have hthrown : (Bull.Queue.Job.thrown j).state = .delayed := if_pos hleft
    rcases hcases with ⟨he, -⟩ | ⟨he, -⟩ | ⟨he, -⟩ | ⟨-, -, -, rfl⟩ | ⟨-, -, hdead, -⟩
    · exact absurd he (by simp)
    · exact absurd he (by simp)
    · exact absurd he (by simp)
    · exact .queued _ (Bull.Queue.set_self _ _) (Or.inr hthrown)
    · rw [hthrown] at hdead
      exact absurd hdead (by simp)
  | retry s₀ =>
    obtain ⟨q, hq, rfl⟩ := retry_cases hs
    refine hw.job hl hq rfl (fun s _ => rfl) fun sec _ _ => ?_
    obtain ⟨j, hj, hcases⟩ := Bull.Queue.step_cases hq
    rcases hcases with ⟨he, -⟩ | ⟨-, -, rfl⟩ | ⟨he, -⟩ | ⟨he, -⟩ | ⟨he, -⟩
    · exact absurd he (by simp)
    · exact .queued _ (Bull.Queue.set_self _ _) (Or.inl rfl)
    · exact absurd he (by simp)
    · exact absurd he (by simp)
    · exact absurd he (by simp)

end Woken

/-! ## 4. Every run -/

/-- The database under the pipeline is a registrar's. -/
theorem good_step {e : Event} (hG : (saying deadlines).Good p.sys) (hC : Steady p e)
    (hs : p.step e = some p') : (saying deadlines).Good p'.sys := by
  have hsound : (saying deadlines).Sound NotPutOff fun _ => True :=
    (registrar_sound (deadlines_fits _)).withPost (saying_start deadlines)
  cases e with
  | db l =>
    obtain ⟨-, sys', hstep, rfl⟩ := db_cases hs
    exact hG.step hsound trivial hC hstep
  | call s redis =>
    obtain ⟨-, rfl⟩ := call_cases hs
    exact hG
  | lost s =>
    obtain ⟨-, rfl⟩ := lost_cases hs
    exact hG
  | sweep =>
    rw [← Option.some.inj hs]
    exact hG
  | take s t =>
    obtain ⟨j, q, sys', -, -, hbegin, rfl⟩ := take_cases hs
    exact hG.step hsound trivial (l := .begin t (.runPromotion j.data.sectionId)) trivial hbegin
  | complete s =>
    obtain ⟨-, q, -, rfl⟩ := complete_cases hs
    exact hG
  | fail s =>
    obtain ⟨-, q, -, rfl⟩ := fail_cases hs
    exact hG
  | retry s =>
    obtain ⟨q, -, rfl⟩ := retry_cases hs
    exact hG

/-- The pipeline, under control and with its parts linked. -/
def Sound (p : Pipeline) : Prop := (saying deadlines).Good p.sys ∧ Linked p

theorem Sound.step {e : Event} (h : Sound p) (hC : Steady p e) (hs : p.step e = some p') :
    Sound p' := ⟨good_step h.1 hC hs, h.2.step hs⟩

theorem sound_init {w : World} (hv : w.Valid) : Sound (.init w) :=
  ⟨Discipline.good_init ⟨hv, trivial⟩, linked_init w⟩

theorem sound_run {w : World} (hv : w.Valid)
    (hr : Machine.Reach Pipeline.step Steady (.init w) p) : Sound p :=
  hr.inv (I := Sound) (sound_init hv) fun _ _ _ hC h hs => h.step hC hs

theorem woken_run (h : Sound p) (hw : Woken p)
    (hr : Machine.Reach Pipeline.step Reliable p p') : Sound p' ∧ Woken p' :=
  hr.inv (I := fun p => Sound p ∧ Woken p) ⟨h, hw⟩ fun _ _ _ hC h hs =>
    ⟨h.1.step hC.steady hs, h.2.step h.1.2 h.1.1 hC hs⟩

/-- Nothing is to be done: no call to make, and every job is dead. -/
def Resting (p : Pipeline) : Prop :=
  p.calls = [] ∧ ∀ s j, p.queue.jobs s = some j → j.state = .failed

/-- A pipeline at rest has nothing on its way. -/
theorem Resting.not_pending (h : Resting p) (hl : Linked p) : ¬ Pending p s := by
  have hidle (proc : Processing) : p.worker s ≠ some proc := fun hs => by
    obtain ⟨j, hj, hst⟩ := (hl.active s).mp (by simp [hs])
    rw [h.2 s j hj] at hst
    exact absurd hst (by simp)
  intro hpend
  cases hpend with
  | called hs =>
    rw [h.1] at hs
    exact absurd hs List.not_mem_nil
  | queued j hj hst =>
    rw [h.2 s j hj] at hst
    exact absurd hst (by simp)
  | running t hs => exact hidle _ hs
  | retrying hs => exact hidle _ hs

/-- **No wake-up is lost in a reliable run**: an open section has a run on its way, and when the
pipeline comes to rest no section is open. -/
theorem no_lost_wakeup {w : World} (hv : w.Valid) (h₀ : ∀ s sec, ¬ Open w s sec)
    (hr : Machine.Reach Pipeline.step Reliable (.init w) p) :
    (∀ s sec, Open p.sys.world s sec → Pending p s) ∧
      (Resting p → ∀ s sec, ¬ Open p.sys.world s sec) := by
  obtain ⟨h, hw⟩ := woken_run (sound_init hv) (fun s sec hopen => absurd hopen (h₀ s sec)) hr
  exact ⟨hw, fun hrest s sec hopen => hrest.not_pending h.2 (hw s sec hopen)⟩

/-- **The sweep recovers from whatever has gone wrong before it**, when no open section is of a term
whose own registration is still to open. -/
theorem sweep_recovers {w : World} {p₀ p₁ : Pipeline} (hv : w.Valid)
    (hr : Machine.Reach Pipeline.step Steady (.init w) p₀)
    (hopens : ∀ s sec, Open p₀.sys.world s sec →
      (p₀.sys.world.db.ref.term sec.termId).registrationOpens ≤ p₀.sys.world.now)
    (hs : p₀.step .sweep = some p₁) (hr' : Machine.Reach Pipeline.step Reliable p₁ p) :
    (∀ s sec, Open p.sys.world s sec → Pending p s) ∧
      (Resting p → ∀ s sec, ¬ Open p.sys.world s sec) := by
  have h₀ := sound_run hv hr
  have h₁ : Sound p₁ := h₀.step (e := .sweep) trivial hs
  have hw₁ : Woken p₁ := by
    rw [← Option.some.inj hs]
    intro s sec hopen
    exact .called (List.mem_append_left _
      ((mem_stuck h₀.1.inv.1).mpr ⟨sec, hopen, hopens s sec hopen⟩))
  obtain ⟨h, hw⟩ := woken_run h₁ hw₁ hr'
  exact ⟨hw, fun hrest s sec hopen => hrest.not_pending h.2 (hw s sec hopen)⟩

/-! ## 5. Two runs -/

/-- Redis is up, nobody dies and no job fails: only the coalescing of calls is left. -/
def Unbroken (p : Pipeline) : Event → Prop
  | .db l => NotPutOff p.sys l
  | .call _ redis => redis = true
  | .lost _ => False
  | .fail _ => False
  | .sweep => True
  | .take _ _ => True
  | .complete _ => True
  | .retry _ => True

namespace Campus

open Enroll.Campus (world world_valid serve actor execs section10)

/-- A check that leaves out what may go wrong. -/
def quiet (_ : Pipeline) : Event → Bool
  | .db (.env _) => false
  | .db _ => true
  | .call _ redis => redis
  | .lost _ => false
  | .fail _ => false
  | .sweep => true
  | .take _ _ => true
  | .complete _ => true
  | .retry _ => true

/-- The same, and no call finds a job that may have missed its seat. -/
def careful (p : Pipeline) : Event → Bool
  | .call s redis => redis && (p.queue.jobs s).all (fun j => j.state != .failed) &&
      p.worker s != some .returned
  | e => quiet p e

theorem notPutOff_of_quiet {l : Label registrar} (h : quiet p (.db l) = true) :
    NotPutOff p.sys l := by
  cases l with
  | env e => exact absurd h (by simp [quiet])
  | begin t op => trivial
  | exec t x => trivial
  | commit t => trivial
  | rollback t => trivial
  | crash t => trivial

theorem unbroken_of_quiet (p : Pipeline) (e : Event) (h : quiet p e = true) : Unbroken p e := by
  cases e with
  | db l => exact notPutOff_of_quiet h
  | call s redis => exact h
  | lost s => exact absurd h (by simp [quiet])
  | fail s => exact absurd h (by simp [quiet])
  | sweep => trivial
  | take s t => trivial
  | complete s => trivial
  | retry s => trivial

theorem reliable_of_careful (p : Pipeline) (e : Event) (h : careful p e = true) : Reliable p e := by
  cases e with
  | db l => exact notPutOff_of_quiet h
  | call s redis =>
    simp only [careful, Bool.and_eq_true, bne_iff_ne] at h
    refine fun _ => ⟨h.1.1, fun j hj => ?_, h.2⟩
    have hall := h.1.2
    rw [hj] at hall
    simpa using hall
  | lost s => exact absurd h (by simp [careful, quiet])
  | fail s => exact absurd h (by simp [careful, quiet])
  | sweep => trivial
  | take s t => trivial
  | complete s => trivial
  | retry s => trivial

set_option maxRecDepth 4000 in
theorem seatCalled_runs :
    (Machine.runIf Pipeline.step careful (.init world) seatCalled).isSome = true := by decide

def afterSeatCalled : Pipeline :=
  (Machine.runIf Pipeline.step careful (.init world) seatCalled).get seatCalled_runs

/-- Nobody waits before anybody has registered. -/
theorem world_not_open (s : SectionId) (sec : Section) : ¬ Open world s sec :=
  fun h => h.waiting rfl

set_option maxRecDepth 4000 in
theorem no_lost_wakeup_called :
    afterSeatCalled.sys.world.db.waiting 10 ≠ [] ∧
      (∀ s sec, Open afterSeatCalled.sys.world s sec → Pending afterSeatCalled s) ∧
      (Resting afterSeatCalled → ∀ s sec, ¬ Open afterSeatCalled.sys.world s sec) :=
  ⟨by decide, no_lost_wakeup world_valid world_not_open
    (.of_runIf reliable_of_careful .refl (Option.some_get seatCalled_runs).symm)⟩

/-- Session 3 promotes student 2; then student 3 queues and student 2 leaves. -/
def promotedAndLeft : List (Label registrar) :=
  execs 3 8 0 ++ [.commit 3] ++ serve 4 (Enroll.Campus.enroll 3 10) 14 102 ++
    serve 5 (.drop 101 2 (actor 2)) 7 0

/-- All of that happens before the job is completed, so the call for student 2's seat finds the job
active. -/
def coalesced : List Event :=
  seatCalled ++ .take 10 3 :: (promotedAndLeft.map .db ++ [.call 10 true, .complete 10])

set_option maxRecDepth 8000 in
theorem coalesced_runs :
    (Machine.runIf Pipeline.step quiet (.init world) coalesced).isSome = true := by decide

def afterCoalesced : Pipeline :=
  (Machine.runIf Pipeline.step quiet (.init world) coalesced).get coalesced_runs

theorem coalesced_reached : Machine.Reach Pipeline.step Unbroken (.init world) afterCoalesced :=
  .of_runIf unbroken_of_quiet .refl (Option.some_get coalesced_runs).symm

set_option maxRecDepth 8000 in
theorem coalesced_open : Open afterCoalesced.sys.world 10 section10 :=
  ⟨by decide, by decide, by decide, by decide⟩

set_option maxRecDepth 8000 in
theorem coalesced_rests : afterCoalesced.calls = [] ∧ afterCoalesced.queue.jobs 10 = none ∧
    afterCoalesced.worker 10 = none := ⟨by decide, by decide, by decide⟩

/-- **A call that finds the job active after its commit is lost**: with everything in order, student
3 waits beside an open seat and no run is on its way. -/
theorem coalesced_call_is_lost :
    ¬ ∀ p : Pipeline, Machine.Reach Pipeline.step Unbroken (.init world) p → Woken p := by
  intro h
  obtain ⟨hcalls, hjob, hworker⟩ := coalesced_rests
  cases h _ coalesced_reached 10 section10 coalesced_open with
  | called hs =>
    rw [hcalls] at hs
    exact absurd hs List.not_mem_nil
  | queued j hj hst => exact absurd (hjob.symm.trans hj) (by simp)
  | running t hs => exact absurd (hworker.symm.trans hs) (by simp)
  | retrying hs => exact absurd (hworker.symm.trans hs) (by simp)

theorem steady_of_quiet (p : Pipeline) (e : Event) (h : quiet p e = true) : Steady p e := by
  cases e with
  | db l => exact notPutOff_of_quiet h
  | _ => trivial

/-- The sweep after that. -/
def afterSweep : Pipeline :=
  { afterCoalesced with calls := afterCoalesced.sys.world.stuck ++ afterCoalesced.calls }

/-- The call of the sweep is made, and a worker takes the job. -/
def recalled : List Event := [.call 10 true, .take 10 6]

set_option maxRecDepth 8000 in
theorem recalled_runs :
    (Machine.runIf Pipeline.step careful afterSweep recalled).isSome = true := by decide

def afterRecalled : Pipeline :=
  (Machine.runIf Pipeline.step careful afterSweep recalled).get recalled_runs

/-- Session 6 promotes student 3, and the job is completed. -/
def promoted : List Event := (execs 6 8 0 ++ [Label.commit 6]).map .db ++ [.complete 10]

set_option maxRecDepth 8000 in
theorem promoted_runs :
    (Machine.runIf Pipeline.step careful afterRecalled promoted).isSome = true := by decide

def afterPromoted : Pipeline :=
  (Machine.runIf Pipeline.step careful afterRecalled promoted).get promoted_runs

theorem recalled_reached : Machine.Reach Pipeline.step Reliable afterSweep afterRecalled :=
  .of_runIf reliable_of_careful .refl (Option.some_get recalled_runs).symm

theorem promoted_reached : Machine.Reach Pipeline.step Reliable afterSweep afterPromoted :=
  .of_runIf reliable_of_careful recalled_reached (Option.some_get promoted_runs).symm

set_option maxRecDepth 8000 in
theorem recalled_open : Open afterRecalled.sys.world 10 section10 :=
  ⟨by decide, by decide, by decide, by decide⟩

set_option maxRecDepth 8000 in
theorem sweep_recovers_coalesced :
    afterSweep.calls = [10] ∧ Pending afterRecalled 10 ∧
      (afterPromoted.sys.world.db.waiting 10).map Enrollment.id = [] ∧
      (Resting afterPromoted → ∀ s sec, ¬ Open afterPromoted.sys.world s sec) := by
  have hr : Machine.Reach Pipeline.step Steady (.init world) afterCoalesced :=
    .of_runIf steady_of_quiet .refl (Option.some_get coalesced_runs).symm
  have hopens : ∀ s sec, Open afterCoalesced.sys.world s sec →
      (afterCoalesced.sys.world.db.ref.term sec.termId).registrationOpens
        ≤ afterCoalesced.sys.world.now := fun _ _ _ => Nat.zero_le _
  have hwoken := (sweep_recovers world_valid hr hopens rfl recalled_reached).1
  have hrests := (sweep_recovers world_valid hr hopens rfl promoted_reached).2
  exact ⟨by decide, hwoken 10 section10 recalled_open, by decide, hrests⟩

end Campus

end Enroll.Promotion
