/-
# A job queue with fixed job ids

What a BullMQ queue does with jobs whose ids the caller chooses.  An id names at most one job, in
whatever state it is: `add` under an id that is taken does nothing, and a job that has failed for
good keeps its id until enough later jobs have failed (`removeOnFail`).  Left out is that the queue
takes an active job for stalled, when its worker does not renew its lock, and hands it out again.
-/
import Mathlib.Logic.Function.Basic
import Mathlib.Data.List.Basic

namespace Bull

variable {ι δ : Type} [DecidableEq ι]

/-! ## 1. Jobs -/

structure JobOptions where
  attempts : Nat
  /-- the first delay of an exponential backoff -/
  backoffMs : Nat
  removeOnComplete : Bool
  /-- how many failed jobs are kept -/
  removeOnFail : Nat
  deriving DecidableEq, Repr

inductive JobState where
  | waiting | delayed | active | completed | failed
  deriving DecidableEq, Repr

/-- The job is still to run, or runs. -/
def JobState.live : JobState → Bool
  | waiting => true
  | delayed => true
  | active => true
  | completed => false
  | failed => false

structure Job (δ : Type) where
  data : δ
  opts : JobOptions
  state : JobState
  attemptsMade : Nat
  deriving DecidableEq, Repr

/-- The jobs by id, and the ids of the failed ones, the latest first. -/
structure Queue (ι δ : Type) where
  jobs : ι → Option (Job δ)
  failed : List ι

def Queue.empty : Queue ι δ := ⟨fun _ => none, []⟩

namespace Queue

variable (q : Queue ι δ)

/-! ## 2. What happens to a job -/

/-- The job `id` becomes `j`. -/
def set (id : ι) (j : Option (Job δ)) : Queue ι δ := { q with jobs := Function.update q.jobs id j }

/-- `queue.add(.., data, { jobId, .. })`: an id that is taken is left alone. -/
def add (id : ι) (data : δ) (opts : JobOptions) : Queue ι δ :=
  match q.jobs id with
  | some _ => q
  | none => q.set id (some ⟨data, opts, .waiting, 0⟩)

/-- Only the latest `n` failed jobs are kept. -/
def keepFailed (n : Nat) : Queue ι δ where
  jobs := fun id => if id ∈ q.failed.drop n then none else q.jobs id
  failed := q.failed.take n

/-- What a worker or the clock does to a job. -/
inductive Event where
  /-- a worker takes a waiting job -/
  | take
  /-- its processor returns -/
  | complete
  /-- its processor throws -/
  | fail
  /-- the delay before a retry is over -/
  | retry
  deriving DecidableEq, Repr

/-- The job after its processor threw. -/
def Job.thrown (j : Job δ) : Job δ :=
  { j with
    attemptsMade := j.attemptsMade + 1
    state := if j.attemptsMade + 1 < j.opts.attempts then .delayed else .failed }

/-- The event `e` happens to the job `id`; `none` when it cannot. -/
def step (id : ι) (e : Event) : Option (Queue ι δ) :=
  match q.jobs id with
  | none => none
  | some j =>
    match e, j.state with
    | .take, .waiting => some (q.set id (some { j with state := .active }))
    | .retry, .delayed => some (q.set id (some { j with state := .waiting }))
    | .complete, .active =>
      some (q.set id (if j.opts.removeOnComplete then none else some { j with state := .completed }))
    | .fail, .active =>
      let q' := q.set id (some (Job.thrown j))
      if (Job.thrown j).state = .failed then
        some ({ q' with failed := id :: q'.failed }.keepFailed j.opts.removeOnFail)
      else some q'
    | _, _ => none

/-- A job that is not done carries `data`. -/
def Holds (data : δ) : Prop := ∃ id j, q.jobs id = some j ∧ j.data = data ∧ j.state.live = true

/-! ## 3. What holds of every job -/

variable {q} {q' : Queue ι δ}

@[simp]
theorem jobs_set (id : ι) (j : Option (Job δ)) :
    (q.set id j).jobs = Function.update q.jobs id j := rfl

theorem set_self (id : ι) (j : Option (Job δ)) : (q.set id j).jobs id = j := by
  simp

theorem set_of_ne {id id' : ι} (h : id' ≠ id) (j : Option (Job δ)) :
    (q.set id j).jobs id' = q.jobs id' := by
  simp [h]

theorem add_taken {id : ι} {j : Job δ} (h : q.jobs id = some j) (data : δ) (opts : JobOptions) :
    q.add id data opts = q := by
  unfold add
  rw [h]

theorem add_free {id : ι} (h : q.jobs id = none) (data : δ) (opts : JobOptions) :
    q.add id data opts = q.set id (some ⟨data, opts, .waiting, 0⟩) := by
  unfold add
  rw [h]

theorem jobs_keepFailed {n : Nat} {id : ι} {j : Job δ} (h : (q.keepFailed n).jobs id = some j) :
    q.jobs id = some j := by
  have hjobs : (q.keepFailed n).jobs id = if id ∈ q.failed.drop n then none else q.jobs id := rfl
  rw [hjobs] at h
  split at h
  · exact absurd h (by simp)
  · exact h

/-- `P` holds of every job. -/
def All (P : ι → Job δ → Prop) (q : Queue ι δ) : Prop := ∀ id j, q.jobs id = some j → P id j

variable {P : ι → Job δ → Prop}

omit [DecidableEq ι] in
theorem All.empty : All P (Queue.empty : Queue ι δ) := fun _ _ h => absurd h (by simp [Queue.empty])

theorem All.set (h : All P q) {id : ι} {o : Option (Job δ)} (hj : ∀ j, o = some j → P id j) :
    All P (q.set id o) := by
  intro id' j' h'
  by_cases he : id' = id
  · subst he
    rw [set_self] at h'
    exact hj j' h'
  · rw [set_of_ne he] at h'
    exact h id' j' h'

theorem All.add (h : All P q) {id : ι} {data : δ} {opts : JobOptions}
    (hnew : P id ⟨data, opts, .waiting, 0⟩) : All P (q.add id data opts) := by
  cases hq : q.jobs id with
  | some j =>
    rw [add_taken hq]
    exact h
  | none =>
    rw [add_free hq]
    refine h.set fun j hj => ?_
    exact Option.some.inj hj ▸ hnew

/-- **A property that the events keep holds of every job.** -/
theorem All.step (h : All P q) {id : ι} {e : Event} (hs : q.step id e = some q')
    (htake : ∀ j, P id j → P id { j with state := .active })
    (hretry : ∀ j, P id j → P id { j with state := .waiting })
    (hcomplete : ∀ j, P id j → j.opts.removeOnComplete = false → P id { j with state := .completed })
    (hthrown : ∀ j, P id j → P id (Job.thrown j)) : All P q' := by
  unfold Queue.step at hs
  cases hq : q.jobs id with
  | none => simp [hq] at hs
  | some j =>
    have hj := h id j hq
    simp only [hq] at hs
    split at hs
    · obtain rfl := Option.some.inj hs
      exact h.set fun j' hj' => Option.some.inj hj' ▸ htake j hj
    · obtain rfl := Option.some.inj hs
      exact h.set fun j' hj' => Option.some.inj hj' ▸ hretry j hj
    · obtain rfl := Option.some.inj hs
      refine h.set fun j' hj' => ?_
      split at hj'
      · exact absurd hj' (by simp)
      · exact Option.some.inj hj' ▸ hcomplete j hj (Bool.eq_false_iff.mpr ‹_›)
    · have hset : All P (q.set id (some (Job.thrown j))) :=
        h.set fun j' hj' => Option.some.inj hj' ▸ hthrown j hj
      split at hs
      · obtain rfl := Option.some.inj hs
        intro id' j' h'
        have hjobs := jobs_keepFailed h'
        exact hset id' j' hjobs
      · obtain rfl := Option.some.inj hs
        exact hset
    · exact absurd hs (by simp)

/-! ## 4. What an event does to the jobs -/

/-- The events that a job's state admits. -/
theorem step_cases {id : ι} {e : Event} (hs : q.step id e = some q') :
    ∃ j, q.jobs id = some j ∧
      ((e = .take ∧ j.state = .waiting ∧ q' = q.set id (some { j with state := .active })) ∨
        (e = .retry ∧ j.state = .delayed ∧ q' = q.set id (some { j with state := .waiting })) ∨
        (e = .complete ∧ j.state = .active ∧
          q' = q.set id (if j.opts.removeOnComplete then none else some { j with state := .completed })) ∨
        (e = .fail ∧ j.state = .active ∧ (Job.thrown j).state ≠ .failed ∧
          q' = q.set id (some (Job.thrown j))) ∨
        (e = .fail ∧ j.state = .active ∧ (Job.thrown j).state = .failed ∧
          q' = Queue.keepFailed { q.set id (some (Job.thrown j)) with failed := id :: q.failed }
            j.opts.removeOnFail)) := by
  unfold Queue.step at hs
  cases hq : q.jobs id with
  | none => simp [hq] at hs
  | some j =>
    simp only [hq] at hs
    refine ⟨j, rfl, ?_⟩
    split at hs
    · exact .inl ⟨rfl, ‹_›, (Option.some.inj hs).symm⟩
    · exact .inr (.inl ⟨rfl, ‹_›, (Option.some.inj hs).symm⟩)
    · exact .inr (.inr (.inl ⟨rfl, ‹_›, (Option.some.inj hs).symm⟩))
    · split at hs
      · exact .inr (.inr (.inr (.inr ⟨rfl, ‹_›, ‹_›, (Option.some.inj hs).symm⟩)))
      · exact .inr (.inr (.inr (.inl ⟨rfl, ‹_›, ‹_›, (Option.some.inj hs).symm⟩)))
    · exact absurd hs (by simp)

/-- The ids that are kept as failed are those of failed jobs, each once. -/
structure Kept (q : Queue ι δ) : Prop where
  nodup : q.failed.Nodup
  failed : ∀ id ∈ q.failed, ∃ j, q.jobs id = some j ∧ j.state = .failed

omit [DecidableEq ι] in
theorem Kept.empty : Kept (Queue.empty : Queue ι δ) :=
  ⟨List.nodup_nil, fun _ h => absurd h List.not_mem_nil⟩

/-- A job that is not failed may become anything. -/
theorem Kept.set (h : Kept q) {id : ι} (hno : ∀ j, q.jobs id = some j → j.state ≠ .failed)
    (o : Option (Job δ)) : Kept (q.set id o) := by
  refine ⟨h.nodup, fun id' hid' => ?_⟩
  obtain ⟨j, hj, hst⟩ := h.failed id' hid'
  have hne : id' ≠ id := by
    rintro rfl
    exact hno j hj hst
  exact ⟨j, by rw [set_of_ne hne]; exact hj, hst⟩

theorem Kept.add (h : Kept q) (id : ι) (data : δ) (opts : JobOptions) : Kept (q.add id data opts) := by
  cases hq : q.jobs id with
  | some j =>
    rw [add_taken hq]
    exact h
  | none =>
    rw [add_free hq]
    exact h.set (by simp [hq]) _

/-- A job that fails for good displaces failed jobs only. -/
theorem keepFailed_thrown (h : Kept q) {id : ι} {j : Job δ} (n : Nat) {id' : ι} {j' : Job δ}
    (hj' : q.jobs id' = some j')
    (hne : id' ≠ id) (hlive : j'.state ≠ .failed) :
    (Queue.keepFailed { q.set id (some (Job.thrown j)) with failed := id :: q.failed } n).jobs id'
      = some j' := by
  have hnot : id' ∉ (id :: q.failed).drop n := fun hmem => by
    rcases List.mem_cons.mp (List.mem_of_mem_drop hmem) with he | hin
    · exact hne he
    · obtain ⟨j₁, hj₁, hfailed⟩ := h.failed id' hin
      obtain rfl := Option.some.inj (hj'.symm.trans hj₁)
      exact hlive hfailed
  have hjobs : (Queue.keepFailed { q.set id (some (Job.thrown j)) with failed := id :: q.failed }
      n).jobs id' = if id' ∈ (id :: q.failed).drop n then none else
        (q.set id (some (Job.thrown j))).jobs id' := rfl
  rw [hjobs, if_neg hnot, set_of_ne hne]
  exact hj'

theorem Kept.thrown (h : Kept q) {id : ι} {j : Job δ} (hq : q.jobs id = some j)
    (hst : j.state = .active) (hdead : (Job.thrown j).state = .failed) (n : Nat) :
    Kept (Queue.keepFailed { q.set id (some (Job.thrown j)) with failed := id :: q.failed } n) := by
  have hfresh : id ∉ q.failed := fun hin => by
    obtain ⟨j₁, hj₁, hfailed⟩ := h.failed id hin
    obtain rfl := Option.some.inj (hq.symm.trans hj₁)
    rw [hst] at hfailed
    exact absurd hfailed (by simp)
  have hnd : (id :: q.failed).Nodup := List.nodup_cons.mpr ⟨hfresh, h.nodup⟩
  refine ⟨hnd.sublist (List.take_sublist n _), fun id' hid' => ?_⟩
  have hnot : id' ∉ (id :: q.failed).drop n := fun hdrop =>
    List.disjoint_take_drop hnd (Nat.le_refl n) hid' hdrop
  have hjobs : (Queue.keepFailed { q.set id (some (Job.thrown j)) with failed := id :: q.failed }
      n).jobs id' = if id' ∈ (id :: q.failed).drop n then none else
        (q.set id (some (Job.thrown j))).jobs id' := rfl
  rw [hjobs, if_neg hnot]
  rcases List.mem_cons.mp (List.mem_of_mem_take hid') with rfl | hin
  · exact ⟨_, set_self _ _, hdead⟩
  · have hne : id' ≠ id := fun he => hfresh (he ▸ hin)
    rw [set_of_ne hne]
    exact h.failed id' hin

/-- **No event displaces a job that is not failed.** -/
theorem Kept.step (h : Kept q) {id : ι} {e : Event} (hs : q.step id e = some q') : Kept q' := by
  obtain ⟨j, hq, hcases⟩ := step_cases hs
  have hlive (st : JobState) (hne : st ≠ .failed) (hst : j.state = st) :
      ∀ j', q.jobs id = some j' → j'.state ≠ .failed := fun j' hj' => by
    rw [← Option.some.inj (hq.symm.trans hj'), hst]
    exact hne
  rcases hcases with ⟨-, hst, rfl⟩ | ⟨-, hst, rfl⟩ | ⟨-, hst, rfl⟩ | ⟨-, hst, -, rfl⟩ |
    ⟨-, hst, hdead, rfl⟩
  · exact h.set (hlive .waiting (by simp) hst) _
  · exact h.set (hlive .delayed (by simp) hst) _
  · exact h.set (hlive .active (by simp) hst) _
  · exact h.set (hlive .active (by simp) hst) _
  · exact h.thrown hq hst hdead _

end Queue

end Bull
