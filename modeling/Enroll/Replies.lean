/-
# What the students are told

The registrar's discipline says what a request has done when it commits; `replying` says in addition
what it answers.  An enroll answers with an active row of the student in the section, as it is in
the world it commits to, and it never fails because the unique index refused a row: the section's
lock and the read under it have seen to that.
-/
import Enroll.Registrar

namespace Enroll

open Txn (Ctx Discipline Label wp wp_bind)

variable {X : Extra} {op : Op} {c c' : Ctx postgres}

/-- What a request answers when it commits. -/
def Replied (X : Extra) (op : Op) (out : Out) (c : Ctx postgres) : Prop :=
  match op with
  | .enroll input u _ => ∃ a r, out = .enrollment a ∧ EnrollReply X op input u a r c
  | _ => True

/-- No failure of an enroll is the unique index's. -/
def Unrefused (op : Op) (e : Failure) (_ : Ctx postgres) : Prop :=
  match op with
  | .enroll _ _ _ => e ≠ .db .uniqueViolation
  | _ => True

/-- The registrar's discipline, with the answers. -/
def replying (X : Extra) : Discipline registrar :=
  (discipline X).withPost fun op => Ends (Replied X op) (Unrefused op)

/-- A request about whose answer nothing is said. -/
theorem replying_of_trivial {w : World} (hok : ∀ out c, Replied X op out c)
    (herr : ∀ e c, Unrefused op e c) :
    (replying X).controlled op op.body (Ctx.start w) := by
  refine Txn.wp_mono ?_ (registrar_start X op)
  intro r c hr
  cases r with
  | ok a => exact fun w' hw => ⟨hr w' hw, hok a _⟩
  | error e => exact fun w' hw => ⟨hr w' hw, herr e (c.at' w')⟩

theorem replying_start (X : Extra) (op : Op) (w : World) :
    (replying X).controlled op op.body (Ctx.start w) := by
  cases op with
  | enroll input u actor =>
    have hspec : wp (Others X (.enroll input u actor)) DrawsOnly (enroll input u actor)
      (EnrollReplied X (.enroll input u actor) input u actor) (Ctx.start w) := enroll_replies rfl
    refine wp_bind (Txn.wp_mono ?_ hspec)
    intro r c hr
    cases r with
    | ok a =>
      obtain ⟨ho, r, hreply⟩ := hr
      intro w' hw
      have hl : Later X (.enroll input u actor) c (c.at' w') := (Quiet.of_others hw).later
      have hout : Outcome X (.enroll input u actor) (c.at' w') := EnrollOutcome.later ho hl rfl
      exact ⟨hout, a, r, rfl, hreply.later hl rfl⟩
    | error e =>
      intro w' _
      have hfailed : Failed (.enroll input u actor) e (c.at' w') := .of_ne (by simp) hr.1
      exact ⟨hfailed, hr.2⟩
  | drop id u actor => exact replying_of_trivial (fun _ _ => trivial) fun _ _ => trivial
  | swap id input u actor => exact replying_of_trivial (fun _ _ => trivial) fun _ _ => trivial
  | runPromotion s => exact replying_of_trivial (fun _ _ => trivial) fun _ _ => trivial
  | reorder s dto actor => exact replying_of_trivial (fun _ _ => trivial) fun _ _ => trivial
  | expireSectionWaitlist s => exact replying_of_trivial (fun _ _ => trivial) fun _ _ => trivial
  | updateSection s dto actor => exact replying_of_trivial (fun _ _ => trivial) fun _ _ => trivial

/-- **The run rule for the answers.** -/
theorem replying_run {C : Sys → Label registrar → Prop} {J : Sys → Prop} (h : Fits X C J)
    (hJ : ∀ sys l sys', C sys l → J sys → (replying X).Good sys → sys.step l = some sys' → J sys')
    {w : World} (hv : w.Valid) (hi : X.inv w) (hJ₀ : J (Txn.Sys.init w)) {sys : Sys}
    (hr : Txn.Sys.Reach C (Txn.Sys.init w) sys) : (replying X).Good sys ∧ J sys :=
  Discipline.Reach.good ((registrar_sound h).withPost (replying_start X)) hJ hr
    (Discipline.good_init ⟨hv, hi⟩) hJ₀

end Enroll
