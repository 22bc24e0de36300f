/-
# The promotion pipeline

The database, the calls of `enqueuePromotion` that are still to be made, the queue in Redis, and the
processors of its active jobs, as one machine.  A commit puts its calls behind it; a call that is
accepted adds a job; a worker takes the job and begins the transaction of `runPromotion`; the job
completes when the transaction has committed and fails when it has not; and every five minutes the
sweep makes calls of its own.  Calls are lost when the process dies or Redis refuses them.

`Linked` ties the parts together: a job is active exactly while it has a processor, and a processor
that is running has the only transaction of its section.  So promotion runs of one section never
overlap (`promotion_runs_apart`).
-/
import Enroll.Answers
import Enroll.Machine
import Enroll.Sweep

namespace Enroll

open Txn (Discipline)

/-- The section that a request runs a promotion of. -/
def Op.promotes : Op → Option SectionId
  | runPromotion s => some s
  | enroll _ _ _ => none
  | drop _ _ _ => none
  | swap _ _ _ _ => none
  | reorder _ _ _ => none
  | expireSectionWaitlist _ => none
  | updateSection _ _ _ => none

theorem Op.eq_of_promotes {op : Op} {s : SectionId} (h : op.promotes = some s) :
    op = .runPromotion s := by
  cases op with
  | runPromotion s' => exact congrArg Op.runPromotion (Option.some.inj h)
  | enroll input u actor => exact absurd h (by simp [Op.promotes])
  | drop id u actor => exact absurd h (by simp [Op.promotes])
  | swap id input u actor => exact absurd h (by simp [Op.promotes])
  | reorder s' dto actor => exact absurd h (by simp [Op.promotes])
  | expireSectionWaitlist s' => exact absurd h (by simp [Op.promotes])
  | updateSection s' dto actor => exact absurd h (by simp [Op.promotes])

/-- The section that session `t` runs a promotion of. -/
def runOf (sys : Sys) (t : Nat) : Option SectionId :=
  (sys.sessions t).bind fun ses => ses.op.promotes

/-- The same after a step, which opens a session or closes one. -/
def runAfter (sys : Sys) (t : Nat) : Txn.Label registrar → Option SectionId
  | .begin t' op => if t = t' then op.promotes else runOf sys t
  | .commit t' => if t = t' then none else runOf sys t
  | .rollback t' => if t = t' then none else runOf sys t
  | .crash t' => if t = t' then none else runOf sys t
  | .exec _ _ => runOf sys t
  | .env _ => runOf sys t

theorem runOf_of_step {sys sys' : Sys} {l : Txn.Label registrar} (hs : sys.step l = some sys')
    (t : Nat) : runOf sys' t = runAfter sys t l := by
  have hclose (t' : Nat) : (Function.update sys.sessions t' none t).bind (fun ses => ses.op.promotes)
      = if t = t' then none else runOf sys t := by
    by_cases he : t = t'
    · subst he
      rw [Function.update_self, if_pos rfl]
      rfl
    · rw [Function.update_of_ne he, if_neg he]
      rfl
  cases l with
  | begin t' op =>
    obtain ⟨-, rfl⟩ := Discipline.begin_cases hs
    show (Function.update sys.sessions t' _ t).bind _ = _
    by_cases he : t = t'
    · subst he
      rw [Function.update_self]
      exact (if_pos rfl).symm
    · rw [Function.update_of_ne he]
      exact (if_neg he).symm
  | exec t' x =>
    obtain ⟨ses, s, k, r, c', ht, -, -, -, ses', hop, -, -, -, rfl, -⟩ :=
      Discipline.stepExec_cases hs
    show (Function.update sys.sessions t' _ t).bind _ = _
    by_cases he : t = t'
    · subst he
      rw [Function.update_self]
      show ses'.op.promotes = (sys.sessions t).bind _
      rw [ht]
      exact congrArg Op.promotes hop
    · rw [Function.update_of_ne he]
      rfl
  | commit t' =>
    obtain ⟨ses, a, -, -, rfl⟩ := Discipline.commit_cases hs
    exact hclose t'
  | rollback t' =>
    obtain ⟨ses, e, -, -, rfl⟩ := Discipline.rollback_cases hs
    exact hclose t'
  | crash t' =>
    rw [Discipline.crash_cases hs]
    exact hclose t'
  | env e =>
    rw [Discipline.env_cases hs]
    rfl

end Enroll

namespace Enroll.Promotion

open Txn (Label Session Discipline)
open Bull (Job)

/-! ## 1. The parts -/


/-- Where the processor of an active job is. -/
inductive Processing where
  /-- its transaction is session `t` -/
  | running (t : Nat)
  /-- the transaction has committed, and the queue is not told yet -/
  | returned
  /-- `throw err` -/
  | threw
  deriving DecidableEq, Repr

structure Pipeline where
  sys : Sys
  queue : PromoteQueue
  /-- the calls of `enqueuePromotion` that are still to be made -/
  calls : List SectionId
  worker : SectionId → Option Processing

inductive Event where
  /-- a step of the database -/
  | db (l : Label registrar)
  /-- a call is made, and Redis accepts it or not -/
  | call (s : SectionId) (redis : Bool)
  /-- the process dies before the call -/
  | lost (s : SectionId)
  /-- the query of `sweepPromotable`, and its calls -/
  | sweep
  /-- a worker takes the job and begins its transaction as session `t` -/
  | take (s : SectionId) (t : Nat)
  | complete (s : SectionId)
  | fail (s : SectionId)
  /-- the delay before a retry is over -/
  | retry (s : SectionId)

namespace Pipeline

variable (p : Pipeline)

/-- Nobody is connected and nothing is queued. -/
def init (w : World) : Pipeline := ⟨Txn.Sys.init w, .empty, [], fun _ => none⟩

/-- The processor of session `t`, if it is one, goes on to `r`. -/
def settle (t : Nat) (r : Processing) : SectionId → Option Processing :=
  match runOf p.sys t with
  | some s => Function.update p.worker s (some r)
  | none => p.worker

/-- What a step of the database tells the processors. -/
def report : Label registrar → SectionId → Option Processing
  | .commit t => p.settle t .returned
  | .rollback t => p.settle t .threw
  | .crash t => p.settle t .threw
  | .begin _ _ => p.worker
  | .exec _ _ => p.worker
  | .env _ => p.worker

end Pipeline

/-- The calls that the service makes after a step. -/
def announced (sys' : Sys) : Label registrar → List SectionId
  | .commit _ =>
    match sys'.finished with
    | (_, op, .ok out) :: _ => owed op out
    | _ => []
  | _ => []

/-- Promotion runs are begun by workers only. -/
def beginsRun : Label registrar → Bool
  | .begin _ op => op.promotes.isSome
  | _ => false

/-- One event; `none` when it cannot happen. -/
def Pipeline.step (p : Pipeline) : Event → Option Pipeline
  | .db l =>
    if beginsRun l then none
    else (p.sys.step l).map fun sys' =>
      { p with sys := sys', calls := announced sys' l ++ p.calls, worker := p.report l }
  | .call s redis =>
    if s ∈ p.calls then
      some { p with calls := p.calls.erase s, queue := enqueuePromotion s redis p.queue }
    else none
  | .lost s => if s ∈ p.calls then some { p with calls := p.calls.erase s } else none
  | .sweep => some { p with calls := p.sys.world.stuck ++ p.calls }
  | .take s t =>
    match p.queue.jobs s with
    | none => none
    | some j =>
      match p.queue.step s .take, p.sys.step (.begin t (.runPromotion j.data.sectionId)) with
      | some q, some sys' =>
        some { p with sys := sys', queue := q, worker := Function.update p.worker s (some (.running t)) }
      | _, _ => none
  | .complete s =>
    if p.worker s = some .returned then
      (p.queue.step s .complete).map fun q =>
        { p with queue := q, worker := Function.update p.worker s none }
    else none
  | .fail s =>
    if p.worker s = some .threw then
      (p.queue.step s .fail).map fun q =>
        { p with queue := q, worker := Function.update p.worker s none }
    else none
  | .retry s => (p.queue.step s .retry).map fun q => { p with queue := q }

/-! ## 2. What an event does -/

variable {p p' : Pipeline}

theorem db_cases {l : Label registrar} (h : p.step (.db l) = some p') :
    beginsRun l = false ∧ ∃ sys', p.sys.step l = some sys' ∧
      p' = { p with sys := sys', calls := announced sys' l ++ p.calls, worker := p.report l } := by
  simp only [Pipeline.step] at h
  split at h
  · exact absurd h (by simp)
  · obtain ⟨sys', hs, rfl⟩ := Option.map_eq_some_iff.mp h
    exact ⟨Bool.eq_false_iff.mpr ‹_›, sys', hs, rfl⟩

theorem call_cases {s : SectionId} {redis : Bool} (h : p.step (.call s redis) = some p') :
    s ∈ p.calls ∧
      p' = { p with calls := p.calls.erase s, queue := enqueuePromotion s redis p.queue } := by
  simp only [Pipeline.step] at h
  split at h
  · exact ⟨‹_›, (Option.some.inj h).symm⟩
  · exact absurd h (by simp)

theorem lost_cases {s : SectionId} (h : p.step (.lost s) = some p') :
    s ∈ p.calls ∧ p' = { p with calls := p.calls.erase s } := by
  simp only [Pipeline.step] at h
  split at h
  · exact ⟨‹_›, (Option.some.inj h).symm⟩
  · exact absurd h (by simp)

theorem take_cases {s : SectionId} {t : Nat} (h : p.step (.take s t) = some p') :
    ∃ j q sys', p.queue.jobs s = some j ∧ p.queue.step s .take = some q ∧
      p.sys.step (.begin t (.runPromotion j.data.sectionId)) = some sys' ∧
      p' = { p with
        sys := sys', queue := q, worker := Function.update p.worker s (some (.running t)) } := by
  simp only [Pipeline.step] at h
  cases hj : p.queue.jobs s with
  | none => simp [hj] at h
  | some j =>
    simp only [hj] at h
    split at h
    · rename_i q sys' hq hs
      exact ⟨j, q, sys', rfl, hq, hs, (Option.some.inj h).symm⟩
    · exact absurd h (by simp)

theorem complete_cases {s : SectionId} (h : p.step (.complete s) = some p') :
    p.worker s = some .returned ∧ ∃ q, p.queue.step s .complete = some q ∧
      p' = { p with queue := q, worker := Function.update p.worker s none } := by
  simp only [Pipeline.step] at h
  split at h
  · obtain ⟨q, hq, rfl⟩ := Option.map_eq_some_iff.mp h
    exact ⟨‹_›, q, hq, rfl⟩
  · exact absurd h (by simp)

theorem fail_cases {s : SectionId} (h : p.step (.fail s) = some p') :
    p.worker s = some .threw ∧ ∃ q, p.queue.step s .fail = some q ∧
      p' = { p with queue := q, worker := Function.update p.worker s none } := by
  simp only [Pipeline.step] at h
  split at h
  · obtain ⟨q, hq, rfl⟩ := Option.map_eq_some_iff.mp h
    exact ⟨‹_›, q, hq, rfl⟩
  · exact absurd h (by simp)

theorem retry_cases {s : SectionId} (h : p.step (.retry s) = some p') :
    ∃ q, p.queue.step s .retry = some q ∧ p' = { p with queue := q } := by
  simp only [Pipeline.step] at h
  obtain ⟨q, hq, rfl⟩ := Option.map_eq_some_iff.mp h
  exact ⟨q, hq, rfl⟩

/-! ## 3. How the parts are linked -/

/-- Jobs, processors and transactions go together. -/
structure Linked (p : Pipeline) : Prop where
  promotes : p.queue.All Promotes
  kept : p.queue.Kept
  active : ∀ s, p.worker s ≠ none ↔ ∃ j, p.queue.jobs s = some j ∧ j.state = .active
  runs : ∀ s t, p.worker s = some (.running t) ↔ runOf p.sys t = some s

theorem linked_init (w : World) : Linked (.init w) where
  promotes := .empty
  kept := .empty
  active s := ⟨fun h => absurd rfl h, fun ⟨j, hj, _⟩ => absurd hj (by simp [Pipeline.init, Bull.Queue.empty])⟩
  runs s t := iff_of_false (by simp [Pipeline.init]) (by simp [Pipeline.init, Txn.Sys.init, runOf])

namespace Linked

variable {s : SectionId}

/-- One processor has one transaction, and one transaction one processor. -/
theorem runs_unique {s' : SectionId} {t : Nat} (h : Linked p) (hs : p.worker s = some (.running t))
    (hs' : p.worker s' = some (.running t)) : s = s' :=
  Option.some.inj (((h.runs s t).mp hs).symm.trans ((h.runs s' t).mp hs'))

/-- Only the processor of session `t` goes on. -/
theorem settle_apply (h : Linked p) (t : Nat) (r : Processing) (s : SectionId) :
    p.settle t r s = if p.worker s = some (.running t) then some r else p.worker s := by
  unfold Pipeline.settle
  cases ho : runOf p.sys t with
  | none =>
    have hno : p.worker s ≠ some (.running t) := fun he => by
      rw [(h.runs s t).mp he] at ho
      exact absurd ho (by simp)
    exact (if_neg hno).symm
  | some s₀ =>
    have hs₀ := (h.runs s₀ t).mpr ho
    by_cases he : s = s₀
    · subst he
      simp only [Function.update_self, hs₀, if_true]
    · simp only [Function.update_of_ne he]
      exact (if_neg fun hs => he (h.runs_unique hs hs₀)).symm

/-- A processor that is closed out of its transaction is still the job's processor. -/
theorem settle (h : Linked p) {sys' : Sys} {t : Nat} {r : Processing} {calls : List SectionId}
    (hr : ∀ t', r ≠ .running t')
    (hrun : ∀ t', runOf sys' t' = if t' = t then none else runOf p.sys t') :
    Linked { p with sys := sys', calls := calls, worker := p.settle t r } := by
  refine ⟨h.promotes, h.kept, fun s' => ?_, fun s' t' => ?_⟩
  · show p.settle t r s' ≠ none ↔ _
    rw [h.settle_apply, ← h.active s']
    split
    · rename_i hs'
      simp [hs']
    · exact Iff.rfl
  · show p.settle t r s' = _ ↔ runOf sys' t' = _
    rw [h.settle_apply, hrun]
    by_cases hs' : p.worker s' = some (.running t)
    · rw [if_pos hs']
      refine iff_of_false (fun he => hr t' (Option.some.inj he)) fun he => ?_
      split at he
      · exact absurd he (by simp)
      · rename_i hne
        rw [(h.runs s' t').mpr he, Option.some.injEq, Processing.running.injEq] at hs'
        exact hne hs'
    · rw [if_neg hs', h.runs s' t']
      split
      · rename_i he
        subst he
        exact iff_of_false (fun hrun => hs' ((h.runs s' t').mpr hrun)) (by simp)
      · exact Iff.rfl

/-- A step that closes no session and begins no promotion run changes nothing between the parts. -/
theorem same (h : Linked p) {sys' : Sys} {calls : List SectionId}
    (hrun : ∀ t', runOf sys' t' = runOf p.sys t') : Linked { p with sys := sys', calls := calls } :=
  ⟨h.promotes, h.kept, h.active, fun s' t' => by rw [hrun t']; exact h.runs s' t'⟩

theorem db (h : Linked p) {l : Label registrar} (hs : p.step (.db l) = some p') : Linked p' := by
  obtain ⟨hbegin, sys', hstep, rfl⟩ := db_cases hs
  have hrun := runOf_of_step hstep
  cases l with
  | begin t op =>
    have hnone : op.promotes = none := Option.isSome_eq_false_iff.mp hbegin |> Option.isNone_iff_eq_none.mp
    refine h.same fun t' => ?_
    rw [hrun t']
    show (if t' = t then op.promotes else runOf p.sys t') = _
    split
    · rename_i he
      subst he
      -- there was no session of that number
      obtain ⟨hfree, -⟩ := Discipline.begin_cases hstep
      rw [hnone]
      unfold runOf
      rw [hfree]
      rfl
    · rfl
  | exec t x => exact h.same hrun
  | env e => exact h.same hrun
  | commit t => exact h.settle (by simp) hrun
  | rollback t => exact h.settle (by simp) hrun
  | crash t => exact h.settle (by simp) hrun

/-- The jobs after an add that is no news to active jobs. -/
theorem enqueue (h : Linked p) (redis : Bool) {calls : List SectionId} :
    Linked { p with calls := calls, queue := enqueuePromotion s redis p.queue } := by
  have hactive (s' : SectionId) :
      (∃ j, (enqueuePromotion s redis p.queue).jobs s' = some j ∧ j.state = .active) ↔
        ∃ j, p.queue.jobs s' = some j ∧ j.state = .active := by
    unfold enqueuePromotion
    split
    · cases hq : p.queue.jobs s with
      | some j => rw [Bull.Queue.add_taken hq]
      | none =>
        rw [Bull.Queue.add_free hq]
        by_cases he : s' = s
        · subst he
          rw [Bull.Queue.set_self, hq]
          simp
        · rw [Bull.Queue.set_of_ne he]
    · exact Iff.rfl
  refine ⟨promotes_enqueue h.promotes redis, ?_, fun s' => (h.active s').trans (hactive s').symm,
    h.runs⟩
  show (enqueuePromotion s redis p.queue).Kept
  unfold enqueuePromotion
  split
  · exact h.kept.add _ _ _
  · exact h.kept

/-- The active jobs after an event of job `s`, which is active afterwards or not. -/
theorem active_of_step {e : Bull.Queue.Event} {q : PromoteQueue} (h : Linked p)
    (hq : p.queue.step s e = some q) (s' : SectionId) (hne : s' ≠ s) :
    (∃ j, q.jobs s' = some j ∧ j.state = .active) ↔ p.worker s' ≠ none := by
  rw [h.active s']
  obtain ⟨j, hj, hcases⟩ := Bull.Queue.step_cases hq
  rcases hcases with ⟨-, -, rfl⟩ | ⟨-, -, rfl⟩ | ⟨-, -, rfl⟩ | ⟨-, -, -, rfl⟩ | ⟨-, hst, hdead, rfl⟩
  · rw [Bull.Queue.set_of_ne hne]
  · rw [Bull.Queue.set_of_ne hne]
  · rw [Bull.Queue.set_of_ne hne]
  · rw [Bull.Queue.set_of_ne hne]
  · constructor
    · rintro ⟨j', hj', hst'⟩
      have hjobs := Bull.Queue.jobs_keepFailed hj'
      exact ⟨j', (Bull.Queue.set_of_ne hne _).symm.trans hjobs, hst'⟩
    · rintro ⟨j', hj', hst'⟩
      exact ⟨j', Bull.Queue.keepFailed_thrown h.kept _ hj' hne (by simp [hst']), hst'⟩

/-- Every job is one of ours after an event of job `s`. -/
theorem promotes_of_step {e : Bull.Queue.Event} {q : PromoteQueue} (h : Linked p)
    (hq : p.queue.step s e = some q) : q.All Promotes ∧ q.Kept := by
  have hstep : step p.queue (.job s e) = some q := hq
  exact ⟨promotes_step h.promotes hstep, h.kept.step hq⟩

/-- The processor of `s` is gone, and its job is not active any more. -/
theorem done (h : Linked p) {e : Bull.Queue.Event} {q : PromoteQueue}
    (hq : p.queue.step s e = some q) (hend : e = .complete ∨ e = .fail)
    (hidle : ∀ t, p.worker s ≠ some (.running t)) :
    Linked { p with queue := q, worker := Function.update p.worker s none } := by
  obtain ⟨hall, hkept⟩ := h.promotes_of_step hq
  refine ⟨hall, hkept, fun s' => ?_, fun s' t' => ?_⟩
  · show Function.update p.worker s none s' ≠ none ↔ ∃ j, q.jobs s' = some j ∧ j.state = .active
    by_cases hne : s' = s
    · subst hne
      rw [Function.update_self]
      refine iff_of_false (fun h => h rfl) ?_
      rintro ⟨j', hj', hst'⟩
      obtain ⟨j, hj, hcases⟩ := Bull.Queue.step_cases hq
      rcases hcases with ⟨rfl, -, -⟩ | ⟨rfl, -, -⟩ | ⟨-, -, rfl⟩ | ⟨-, -, -, rfl⟩ | ⟨-, -, hdead, rfl⟩
      · exact absurd hend (by simp)
      · exact absurd hend (by simp)
      · rw [Bull.Queue.set_self] at hj'
        split at hj'
        · exact absurd hj' (by simp)
        · rw [← Option.some.inj hj'] at hst'
          exact absurd hst' (by simp)
      · rw [Bull.Queue.set_self] at hj'
        have hthrown : (Bull.Queue.Job.thrown j).state
          = if j.attemptsMade + 1 < j.opts.attempts then .delayed else .failed := rfl
        rw [← Option.some.inj hj', hthrown] at hst'
        split at hst' <;> exact absurd hst' (by simp)
      · have hjobs := Bull.Queue.jobs_keepFailed hj'
        have hself : (p.queue.set s' (some (Bull.Queue.Job.thrown j))).jobs s' = some j' := hjobs
        rw [Bull.Queue.set_self] at hself
        rw [← Option.some.inj hself, hdead] at hst'
        exact absurd hst' (by simp)
    · rw [Function.update_of_ne hne]
      exact (h.active_of_step hq s' hne).symm
  · show Function.update p.worker s none s' = _ ↔ _
    by_cases hne : s' = s
    · subst hne
      rw [Function.update_self]
      exact iff_of_false (by simp) fun he => hidle t' ((h.runs _ t').mpr he)
    · rw [Function.update_of_ne hne]
      exact h.runs s' t'

theorem retry (h : Linked p) {q : PromoteQueue} (hq : p.queue.step s .retry = some q) :
    Linked { p with queue := q } := by
  obtain ⟨hall, hkept⟩ := h.promotes_of_step hq
  refine ⟨hall, hkept, fun s' => ?_, h.runs⟩
  show p.worker s' ≠ none ↔ ∃ j, q.jobs s' = some j ∧ j.state = .active
  by_cases hne : s' = s
  · subst hne
    obtain ⟨j, hj, hcases⟩ := Bull.Queue.step_cases hq
    rcases hcases with ⟨he, -⟩ | ⟨-, hst, rfl⟩ | ⟨he, -⟩ | ⟨he, -⟩ | ⟨he, -⟩
    · exact absurd he (by simp)
    · rw [h.active, hj, Bull.Queue.set_self]
      simp [hst]
    · exact absurd he (by simp)
    · exact absurd he (by simp)
    · exact absurd he (by simp)
  · exact (h.active_of_step hq s' hne).symm

/-- A waiting job has no processor yet. -/
theorem take (h : Linked p) {t : Nat} (hs : p.step (.take s t) = some p') : Linked p' := by
  obtain ⟨j, q, sys', hj, hq, hbegin, rfl⟩ := take_cases hs
  obtain ⟨hall, hkept⟩ := h.promotes_of_step hq
  have hdata : j.data.sectionId = s := (h.promotes s j hj).data
  rw [hdata] at hbegin
  obtain ⟨j₁, hj₁, hcases⟩ := Bull.Queue.step_cases hq
  obtain rfl := Option.some.inj (hj.symm.trans hj₁)
  obtain ⟨hst, rfl⟩ : j.state = .waiting ∧ q = p.queue.set s (some { j with state := .active }) := by
    rcases hcases with ⟨-, hst, hq⟩ | ⟨he, -⟩ | ⟨he, -⟩ | ⟨he, -⟩ | ⟨he, -⟩
    · exact ⟨hst, hq⟩
    · exact absurd he (by simp)
    · exact absurd he (by simp)
    · exact absurd he (by simp)
    · exact absurd he (by simp)
  have hidle : p.worker s = none := by
    by_contra hne
    obtain ⟨j', hj', hst'⟩ := (h.active s).mp hne
    obtain rfl := Option.some.inj (hj.symm.trans hj')
    rw [hst] at hst'
    exact absurd hst' (by simp)
  have hrun := runOf_of_step hbegin
  obtain ⟨hfree, -⟩ := Discipline.begin_cases hbegin
  have hnone : runOf p.sys t = none := by
    unfold runOf
    rw [hfree]
    rfl
  refine ⟨hall, hkept, fun s' => ?_, fun s' t' => ?_⟩
  · show Function.update p.worker s _ s' ≠ none ↔
      ∃ j', (p.queue.set s (some { j with state := .active })).jobs s' = some j' ∧ j'.state = .active
    by_cases hne : s' = s
    · subst hne
      rw [Function.update_self, Bull.Queue.set_self]
      simp
    · rw [Function.update_of_ne hne]
      exact (h.active_of_step hq s' hne).symm
  · show Function.update p.worker s _ s' = _ ↔ runOf sys' t' = _
    have hrun' : runOf sys' t' = if t' = t then some s else runOf p.sys t' := hrun t'
    rw [hrun']
    by_cases hne : s' = s
    · subst hne
      rw [Function.update_self, Option.some.injEq, Processing.running.injEq]
      split
      · rename_i he
        exact iff_of_true he.symm rfl
      · rename_i he
        refine iff_of_false (fun he' => he he'.symm) fun hr => ?_
        rw [(h.runs s' t').mpr hr] at hidle
        exact absurd hidle (by simp)
    · rw [Function.update_of_ne hne, h.runs s' t']
      split
      · rename_i he
        subst he
        rw [hnone]
        exact iff_of_false (by simp) fun he => hne (Option.some.inj he).symm
      · exact Iff.rfl

/-- **Every event keeps the parts linked.** -/
theorem step (h : Linked p) {e : Event} (hs : p.step e = some p') : Linked p' := by
  cases e with
  | db l => exact h.db hs
  | call s redis =>
    obtain ⟨-, rfl⟩ := call_cases hs
    exact h.enqueue redis
  | lost s =>
    obtain ⟨-, rfl⟩ := lost_cases hs
    exact ⟨h.promotes, h.kept, h.active, h.runs⟩
  | sweep =>
    rw [← Option.some.inj hs]
    exact ⟨h.promotes, h.kept, h.active, h.runs⟩
  | take s t => exact h.take hs
  | complete s =>
    obtain ⟨hw, q, hq, rfl⟩ := complete_cases hs
    exact h.done hq (Or.inl rfl) (by simp [hw])
  | fail s =>
    obtain ⟨hw, q, hq, rfl⟩ := fail_cases hs
    exact h.done hq (Or.inr rfl) (by simp [hw])
  | retry s =>
    obtain ⟨q, hq, rfl⟩ := retry_cases hs
    exact h.retry hq

theorem run {C : Pipeline → Event → Prop} {w : World}
    (hr : Machine.Reach Pipeline.step C (.init w) p) : Linked p :=
  hr.inv (linked_init w) fun _ _ _ _ h hs => h.step hs

end Linked

/-- **Promotion runs of one section never overlap**: an open one is the transaction of the section's
active job, and there is no second. -/
theorem promotion_runs_apart {C : Pipeline → Event → Prop} {w : World}
    (hr : Machine.Reach Pipeline.step C (.init w) p) {t : Nat} {ses : Session registrar}
    {s : SectionId} (ht : p.sys.sessions t = some ses) (hop : ses.op = .runPromotion s) :
    (∃ j, p.queue.jobs s = some j ∧ j.data = ⟨s⟩ ∧ j.state = .active) ∧
      ∀ t' ses', p.sys.sessions t' = some ses' → ses'.op = .runPromotion s → t' = t := by
  have h := Linked.run hr
  have hrunning {t : Nat} {ses : Session registrar} (ht : p.sys.sessions t = some ses)
      (hop : ses.op = .runPromotion s) : p.worker s = some (.running t) := by
    refine (h.runs s t).mpr ?_
    unfold runOf
    rw [ht]
    exact congrArg Op.promotes hop
  have hrun := hrunning ht hop
  constructor
  · obtain ⟨j, hj, hst⟩ := (h.active s).mp (by simp [hrun])
    exact ⟨j, hj, congrArg PromotePayload.mk (h.promotes s j hj).data, hst⟩
  · intro t' ses' ht' hop'
    have hrun' := hrunning ht' hop'
    rw [hrun, Option.some.injEq, Processing.running.injEq] at hrun'
    exact hrun'.symm

namespace Campus

open Enroll.Campus (world busy serve actor)

/-- Student 1 leaves the seat that student 2 waits for, and the call is made. -/
def seatCalled : List Event :=
  (busy ++ serve 2 (.drop 100 1 (actor 1)) 7 0).map .db ++ [.call 10 true]

/-- A worker has taken the job up in session 3. -/
def jobTaken : Option Pipeline :=
  Machine.runIf Pipeline.step (fun _ _ => true) (.init world) (seatCalled ++ [.take 10 3])

set_option maxRecDepth 4000 in
theorem jobTaken_runs : jobTaken.isSome = true := by decide

set_option maxRecDepth 4000 in
theorem jobTaken_runOf : runOf (jobTaken.get jobTaken_runs).sys 3 = some 10 := by decide

theorem promotion_runs_apart_taken : ∃ p : Pipeline, (∃ j, p.queue.jobs 10 = some j ∧
    j.data = ⟨10⟩ ∧ j.state = .active) ∧
      ∀ t' ses', p.sys.sessions t' = some ses' → ses'.op = .runPromotion 10 → t' = 3 := by
  obtain ⟨ses, hses, hop⟩ := Option.bind_eq_some_iff.mp jobTaken_runOf
  exact ⟨jobTaken.get jobTaken_runs, promotion_runs_apart (C := fun _ _ => True)
    (.of_runIf (fun _ _ _ => trivial) .refl (Option.some_get jobTaken_runs).symm)
    hses (Op.eq_of_promotes hop)⟩

end Campus

end Enroll.Promotion
