/-
# The promotion queue

`WaitlistService.enqueuePromotion` and the enqueueing half of `sweepPromotable`, over a queue whose
job ids are section ids, in the database's spelling.  (A section update passes on the id that stands
in its path: in another spelling that is another job.)  A job that has used up its attempts keeps
its id, so enqueueing its section does nothing: `dead_job_blocks` is such a run, and
`enqueue_live_iff` says that nothing else stands in the way.
-/
import Enroll.Schema
import Enroll.Bull

namespace Enroll.Promotion

open Bull (Job JobOptions JobState)

/-! ## 1. The service -/

/-- `{ sectionId }`. -/
structure PromotePayload where
  sectionId : SectionId
  deriving DecidableEq, Repr

abbrev PromoteQueue := Bull.Queue SectionId PromotePayload

/-- The options of `queue.add`, besides the `jobId`. -/
def promoteOptions : JobOptions := ⟨5, 1000, true, 100⟩

/-- An error of Redis is caught, counted and logged. -/
def enqueuePromotion (sectionId : SectionId) (redis : Bool) (q : PromoteQueue) : PromoteQueue :=
  if redis then q.add sectionId ⟨sectionId⟩ promoteOptions else q

/-- `for (const { id } of stuck) await this.enqueuePromotion(id)`. -/
def enqueueStuck : List (SectionId × Bool) → PromoteQueue → PromoteQueue
  | [], q => q
  | (id, redis) :: stuck, q => enqueueStuck stuck (enqueuePromotion id redis q)

/-- What happens to the queue; a `Bool` says whether Redis accepts the add.  A job whose processor
returns completes, and one whose processor throws fails. -/
inductive Step where
  | enqueuePromotion (sectionId : SectionId) (redis : Bool)
  | sweepPromotable (stuck : List (SectionId × Bool))
  | job (sectionId : SectionId) (e : Bull.Queue.Event)
  deriving DecidableEq, Repr

def step (q : PromoteQueue) : Step → Option PromoteQueue
  | .enqueuePromotion s redis => some (enqueuePromotion s redis q)
  | .sweepPromotable stuck => some (enqueueStuck stuck q)
  | .job s e => q.step s e

def run (q : PromoteQueue) : List Step → Option PromoteQueue
  | [] => some q
  | l :: ls => (step q l).bind fun q' => run q' ls

/-! ## 2. Every job of the queue -/

/-- A job is for the section it is named by, with the options of every job, and does not stay once
it is completed. -/
structure Promotes (s : SectionId) (j : Job PromotePayload) : Prop where
  data : j.data.sectionId = s
  opts : j.opts = promoteOptions
  state : j.state ≠ .completed

variable {q q' : PromoteQueue} {s : SectionId}

theorem promotes_enqueue (h : q.All Promotes) (redis : Bool) :
    (enqueuePromotion s redis q).All Promotes := by
  unfold enqueuePromotion
  split
  · exact h.add ⟨rfl, rfl, by simp⟩
  · exact h

theorem promotes_enqueueStuck (stuck : List (SectionId × Bool)) (h : q.All Promotes) :
    (enqueueStuck stuck q).All Promotes := by
  induction stuck generalizing q with
  | nil => exact h
  | cons p stuck ih => exact ih (promotes_enqueue h p.2)

theorem promotes_step {l : Step} (h : q.All Promotes) (hs : step q l = some q') :
    q'.All Promotes := by
  cases l with
  | enqueuePromotion s redis => exact Option.some.inj hs ▸ promotes_enqueue h redis
  | sweepPromotable stuck => exact Option.some.inj hs ▸ promotes_enqueueStuck stuck h
  | job s e =>
    refine h.step hs ?_ ?_ ?_ ?_
    · exact fun j hj => ⟨hj.data, hj.opts, by simp⟩
    · exact fun j hj => ⟨hj.data, hj.opts, by simp⟩
    · intro j hj hkeep
      rw [hj.opts] at hkeep
      exact absurd hkeep (by decide)
    · intro j hj
      refine ⟨hj.data, hj.opts, ?_⟩
      have hstate : (Bull.Queue.Job.thrown j).state
          = if j.attemptsMade + 1 < j.opts.attempts then .delayed else .failed := rfl
      rw [hstate]
      split <;> simp

theorem promotes_run {ls : List Step} (h : q.All Promotes) (hr : run q ls = some q') :
    q'.All Promotes := by
  induction ls generalizing q with
  | nil => exact Option.some.inj hr ▸ h
  | cons l ls ih =>
    obtain ⟨q₁, hs, hr⟩ := Option.bind_eq_some_iff.mp hr
    exact ih (promotes_step h hs) hr

/-! ## 3. Enqueueing -/

/-- A dead job that is still kept takes the add's place. -/
theorem not_holds_of_dead (hall : q.All Promotes) {dead : Job PromotePayload}
    (hdead : q.jobs s = some dead) (hstate : dead.state = .failed) :
    ¬ (enqueuePromotion s true q).Holds ⟨s⟩ := by
  have hadd : enqueuePromotion s true q = q := Bull.Queue.add_taken hdead _ _
  rw [hadd]
  rintro ⟨id, j, hj, hdata, hlive⟩
  have hid : id = s := (hall id j hj).data.symm.trans (congrArg PromotePayload.sectionId hdata)
  subst hid
  obtain rfl := Option.some.inj (hj.symm.trans hdead)
  rw [hstate] at hlive
  exact absurd hlive (by decide)

/-- Any other job that keeps its id is still to run. -/
theorem holds_of_no_dead (hall : q.All Promotes)
    (hno : ∀ j, q.jobs s = some j → j.state ≠ .failed) :
    (enqueuePromotion s true q).Holds ⟨s⟩ := by
  cases hq : q.jobs s with
  | none =>
    have hadd : enqueuePromotion s true q = q.set s (some ⟨⟨s⟩, promoteOptions, .waiting, 0⟩) :=
      Bull.Queue.add_free hq _ _
    rw [hadd]
    exact ⟨s, _, Bull.Queue.set_self _ _, rfl, rfl⟩
  | some j =>
    have hadd : enqueuePromotion s true q = q := Bull.Queue.add_taken hq _ _
    rw [hadd]
    have hj := hall s j hq
    refine ⟨s, j, hq, congrArg PromotePayload.mk hj.data, ?_⟩
    cases hstate : j.state with
    | waiting => rfl
    | delayed => rfl
    | active => rfl
    | completed => exact absurd hstate hj.state
    | failed => exact absurd hstate (hno j hq)

/-- **An accepted add leaves a job that will run, unless the section's last job is dead and still
kept.** -/
theorem enqueue_live_iff {ls : List Step} (hr : run .empty ls = some q) (s : SectionId) :
    (enqueuePromotion s true q).Holds ⟨s⟩ ↔ ∀ j, q.jobs s = some j → j.state ≠ .failed := by
  have hall := promotes_run .empty hr
  constructor
  · intro hheld j hj hstate
    exact not_holds_of_dead hall hj hstate hheld
  · exact holds_of_no_dead hall

namespace Campus

/-- One attempt that fails, and the wait for the next. -/
def attempt : List Step := [.job 10 .take, .job 10 .fail, .job 10 .retry]

/-- Five attempts fail. -/
def exhausted : List Step :=
  .enqueuePromotion 10 true :: (List.replicate 4 attempt).flatten ++ [.job 10 .take, .job 10 .fail]

theorem exhausted_runs : (run .empty exhausted).isSome = true := by decide

/-- **A dead job blocks its section**: neither the sweep nor a drop gets a new job for it. -/
theorem dead_job_blocks :
    ¬ ∀ (ls : List Step) (q : PromoteQueue), run .empty ls = some q → ∀ s,
      (enqueuePromotion s true q).Holds ⟨s⟩ := by
  intro h
  have hrun := (Option.some_get exhausted_runs).symm
  have hdead : ((run .empty exhausted).get exhausted_runs).jobs 10
      = some ⟨⟨10⟩, promoteOptions, .failed, 5⟩ := by decide
  exact not_holds_of_dead (promotes_run .empty hrun) hdead rfl (h exhausted _ hrun 10)

/-- Four failures are not the end. -/
def retrying : List Step := .enqueuePromotion 10 true :: (List.replicate 4 attempt).flatten

theorem retrying_runs : (run .empty retrying).isSome = true := by decide

theorem enqueue_live_retrying :
    (enqueuePromotion 10 true ((run .empty retrying).get retrying_runs)).Holds ⟨10⟩ :=
  (enqueue_live_iff (Option.some_get retrying_runs).symm 10).mpr (by
    intro j hj
    have hwaiting : ((run .empty retrying).get retrying_runs).jobs 10
        = some ⟨⟨10⟩, promoteOptions, .waiting, 4⟩ := by decide
    obtain rfl := Option.some.inj (hj.symm.trans hwaiting)
    simp)

end Campus

end Enroll.Promotion
