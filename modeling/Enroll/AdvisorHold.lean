/-
# What an advisor hold stops

`enroll` and `swap` look for an unreleased hold of the caller before they lock anything, so while
there is one they commit nothing.  `drop` does not look for it, and neither does `runPromotion`.

A hold is placed and released by the outside at any time, so `hold_freezes` is about a session that
begins, runs and commits while the hold is there, in a run that is otherwise arbitrary.
-/
import Enroll.Closing
import Enroll.PromotionRun

namespace Enroll

open Txn (Ctx Prog Session Label Discipline Watched wp wp_bind)

variable {X : Extra} {op : Op} {c c' : Ctx postgres} {u : UserId}

/-! ## 1. The gates under a hold -/

/-- `u` has an `AdvisorHold` with `releasedAt` null. -/
def Held (u : UserId) (db : Db) : Prop :=
  ∃ h ∈ db.ref.advisorHolds, h.studentId = u ∧ h.releasedAt = none

instance (u : UserId) (db : Db) : Decidable (Held u db) := by
  unfold Held
  infer_instance

theorem hold_found {v : World} (h : Held u v.db) :
    ((Query.advisorHoldFindFirst u).eval v).isSome = true := by
  obtain ⟨hold, hmem, hu, hrel⟩ := h
  simp only [Query.eval, List.find?_isSome]
  exact ⟨hold, hmem, by simp [hu, hrel]⟩

theorem wp_openGate_held (hX : ∀ w, X.inv w → Held u w.db) (hlog : c.log = [])
    {sec : SectionJoin} {now : Time} {standing : Option ClassStanding}
    {window : Option RegistrationWindow} {P : Unit → Ctx postgres → Prop} :
    wp (Others X op) DrawsOnly (openGate sec u now standing window)
      (Ends P fun _ _ => True) c := by
  refine wp_bind (Txn.wp_throwIf (fun _ => trivial) fun _ => ?_)
  refine wp_bind (wp_query fun c₁ h₁ _ => ?_)
  have hheld : Held u c₁.view.db := by
    rw [view_of_log_nil (h₁.log_nil hlog)]
    exact hX _ h₁.later.rely.inv
  obtain ⟨hold, he⟩ := Option.isSome_iff_exists.mp (hold_found hheld)
  rw [he]
  exact trivial

/-- **No gate lets a student through who is held.** -/
theorem wp_registrationGate_held (hX : ∀ w, X.inv w → Held u w.db) (hlog : c.log = [])
    {sec : SectionJoin} {closed : String} {P : Unit → Ctx postgres → Prop} :
    wp (Others X op) DrawsOnly (registrationGate sec u closed) (Ends P fun _ _ => True) c := by
  refine wp_bind (wp_query fun c₁ h₁ _ => ?_)
  refine wp_bind (Txn.wp_throwIf (fun _ => trivial) fun _ => ?_)
  refine wp_bind (wp_query fun c₂ h₂ _ => ?_)
  have hlog₂ := (h₁.trans h₂).log_nil hlog
  refine wp_bind (Txn.wp_orThrow (fun _ => trivial) fun student _ => ?_)
  refine wp_bind ?_
  cases student.classStanding with
  | none => exact wp_openGate_held hX hlog₂
  | some standing =>
    refine wp_query fun c₃ h₃ _ => ?_
    exact wp_openGate_held hX (h₃.log_nil hlog₂)

theorem enroll_held (hX : ∀ w, X.inv w → Held u w.db) (hlog : c.log = []) {input : EnrollDto}
    {actor : RequestActor} :
    wp (Others X op) DrawsOnly (enroll input u actor)
      (Ends (fun _ c' => c'.log = []) fun _ _ => True) c := by
  refine wp_bind (wp_query fun c₁ h₁ _ => ?_)
  refine wp_bind (Txn.wp_orThrow (fun _ => trivial) fun sec _ => ?_)
  refine wp_bind (Txn.wp_mono ?_
    (wp_registrationGate_held (P := fun _ _ => False) hX (h₁.log_nil hlog)))
  intro r c' hr
  cases r with
  | ok a => exact hr.elim
  | error e => exact trivial

/-- A swap within one section commits nothing; any other meets the gate. -/
theorem swap_held (hX : ∀ w, X.inv w → Held u w.db) (hlog : c.log = []) {id : EnrollmentId}
    {input : SwapDto} {actor : RequestActor} :
    wp (Others X op) DrawsOnly (swap id input u actor)
      (Ends (fun _ c' => c'.log = []) fun _ _ => True) c := by
  refine wp_bind (wp_query fun c₁ h₁ _ => ?_)
  have hlog₁ := h₁.log_nil hlog
  refine wp_bind (Txn.wp_orThrow (fun _ => trivial) fun source _ => ?_)
  refine wp_bind (Txn.wp_throwIf (fun _ => trivial) fun _ => ?_)
  refine Txn.wp_ite (fun _ => ?_) fun _ => ?_
  · refine wp_bind (wp_query fun c₂ h₂ _ => ?_)
    exact h₂.log_nil hlog₁
  · refine wp_bind (wp_query fun c₂ h₂ _ => ?_)
    refine wp_bind (Txn.wp_orThrow (fun _ => trivial) fun target _ => ?_)
    refine wp_bind (Txn.wp_mono ?_
      (wp_registrationGate_held (P := fun _ _ => False) hX (h₂.log_nil hlog₁)))
    intro r c' hr
    cases r with
    | ok a => exact hr.elim
    | error e => exact trivial

/-! ## 2. A session under a hold -/

/-- Whose request it is. -/
def Op.caller : Op → Option UserId
  | enroll _ u _ => some u
  | drop _ u _ => some u
  | swap _ _ u _ => some u
  | runPromotion _ => none
  | reorder _ _ _ => none
  | expireSectionWaitlist _ => none
  | updateSection _ _ _ => none

/-- The request asks for a hold of its caller. -/
def Op.asksForHold : Op → Bool
  | enroll _ _ _ => true
  | swap _ _ _ _ => true
  | _ => false

/-- A hold bars the requests of its student that ask for it. -/
def holdBars (u : UserId) : Bars where
  cond w := Held u w.db
  cond_seq _ _ _ h := h
  stops op := op.caller = some u ∧ op.asksForHold = true
  barred op hstop c _ hlog := by
    have hheld : ∀ w : World, Held u w.db → Held u w.db := fun _ h => h
    have hrest {α : Type} {p : Tx α} {f : α → Out}
        (h : wp (Others (.ofInv (fun w => Held u w.db) fun _ _ _ h => h) op) DrawsOnly p
          (Ends (fun _ c' => c'.log = []) fun _ _ => True) c) :
        wp (Others (.ofInv (fun w => Held u w.db) fun _ _ _ h => h) op) DrawsOnly
          (p >>= fun a => pure (f a)) (Ends (fun _ c' => c'.log = []) fun _ _ => True) c := by
      refine wp_bind (Txn.wp_mono ?_ h)
      intro r c' hr
      cases r with
      | ok a => exact hr
      | error e => exact trivial
    cases op with
    | enroll input u' actor =>
      obtain rfl : u' = u := Option.some.inj hstop.1
      exact hrest (enroll_held hheld hlog)
    | swap id input u' actor =>
      obtain rfl : u' = u := Option.some.inj hstop.1
      exact hrest (swap_held hheld hlog)
    | drop id u' actor => exact absurd hstop.2 (by simp [Op.asksForHold])
    | runPromotion s => exact absurd hstop.2 (by simp [Op.asksForHold])
    | reorder s dto actor => exact absurd hstop.2 (by simp [Op.asksForHold])
    | expireSectionWaitlist s => exact absurd hstop.2 (by simp [Op.asksForHold])
    | updateSection s dto actor => exact absurd hstop.2 (by simp [Op.asksForHold])

/-! ## 3. What a commit does under a hold -/

/-- A commit of `op` is no registration of `u`: no request of `u` changes an enrollment, and no
promotion turns a WAITLISTED row of `u` into ENROLLED. -/
structure Frozen (u : UserId) (op : Op) (w w' : World) : Prop where
  requested : op.caller = some u → w'.db.enrollments = w.db.enrollments
  promoted : ∀ s, op = .runPromotion s → ∀ r ∈ w.db.enrollments, r.studentId = u →
    r.status = .WAITLISTED → ∀ r' ∈ w'.db.enrollments, r'.id = r.id → r'.status ≠ .ENROLLED

/-- `op` is one of those that a hold of `u` stops: no drop of `u`, and no promotion run of a section
whose open seats reach a row of `u`. -/
def Stopped (u : UserId) (op : Op) (w : World) : Prop :=
  match op with
  | .drop _ u' _ => u' ≠ u
  | .runPromotion s =>
    ∀ r ∈ (byPosition (w.db.waiting s)).take (w.db.sectionOf s).openSeats, r.studentId ≠ u
  | _ => True

/-- A promotion that passes `u` by leaves the rows of `u` waiting. -/
theorem PromotionEnds.passes {s : SectionId} (hv : c.world.Valid) (h : PromotionEnds X op s c)
    (hpass : Stopped u (.runPromotion s) c.world) {r r' : Enrollment} (hr : r ∈ c.world.db.enrollments)
    (hu : r.studentId = u) (hr' : r' ∈ c.view.db.enrollments) (hid : r'.id = r.id) : r' = r := by
  rcases h with hlog | ⟨sec, turns, h⟩
  · rw [view_of_log_nil hlog] at hr'
    exact Keyed.eq_of_key_eq hv.db.enrollment_id hr' hr hid
  · have hsane := h.sane hv
    have hview := view_known hsane (hv.db.enrollment?_of_mem hr)
    rw [patchRow_of_ne] at hview
    · have hfound : c.view.db.enrollment? r'.id = some r' :=
        (hsane.valid hv).db.enrollment?_of_mem hr'
      rw [hid] at hfound
      exact Option.some.inj (hfound.symm.trans hview)
    · intro p hp he
      rw [h.parts.patches] at hp
      obtain ⟨turn, hturn, rfl⟩ := List.mem_map.mp hp
      have hrow : turn.row = r :=
        Keyed.eq_of_key_eq hv.db.enrollment_id (mem_waiting.mp (h.waiting hturn)).1 hr he
      have hseats : turns.length ≤ sec.sec.openSeats := by
        have := h.seats
        unfold Section.openSeats
        omega
      have hhead : turn.row ∈ (byPosition (c.world.db.waiting s)).take turns.length :=
        h.rows ▸ List.mem_map_of_mem hturn
      refine hpass turn.row ?_ (hrow ▸ hu)
      rw [sectionOf_eq h.lock.row]
      exact (List.take_sublist_take_left hseats).subset hhead

/-- `op` is a promotion run, of a section whose registration is over in `w` and wherever a step is
taken. -/
def Late (C : Sys → Label registrar → Prop) (op : Op) (w : World) : Prop :=
  ∃ s, op = .runPromotion s ∧ Over s w ∧ ∀ sys l, C sys l → Over s sys.world

/-- **While there is a hold, what it stops commits nothing.**  The run is arbitrary; session `t`
begins, runs and commits while the hold is there. -/
theorem hold_freezes {C : Sys → Label registrar → Prop} {w : World} (hv : w.Valid) {u : UserId}
    {sys₀ sys sys' : Sys} (hr₀ : Txn.Sys.Reach (fun _ _ => True) (Txn.Sys.init w) sys₀) {t : Nat}
    (ht₀ : sys₀.sessions t = none)
    (hr : Txn.Sys.Reach (fun sys l => C sys l ∧ Held u sys.world.db) sys₀ sys)
    (hheld : Held u sys.world.db) {ses : Session registrar} (ht : sys.sessions t = some ses)
    (hstop : Stopped u ses.op sys.world ∨ Late C ses.op sys.world)
    (hs : sys.step (.commit t) = some sys') :
    Frozen u ses.op sys.world sys'.world := by
  have hG := locks_run hv (hr₀.trans (hr.mono fun _ _ _ => trivial))
  obtain ⟨ses', a, ht', hp, rfl⟩ := Discipline.commit_cases hs
  obtain rfl := Option.some.inj (ht.symm.trans ht')
  have hout := hG.post ht hp
  rcases hstop with hstop | ⟨s, hop, hover, hlate⟩
  · constructor
    · intro hu
      have hlog : ses.log = [] := by
        refine Bars.barred_commits_nothing (B := holdBars u) hv hr₀ ht₀
          (hr.mono fun _ _ h => ⟨trivial, h.2⟩) hheld ht hp ⟨hu, ?_⟩
        cases hop : ses.op with
        | enroll input u' actor => rfl
        | swap id input u' actor => rfl
        | drop id u' actor =>
          rw [hop] at hstop hu
          exact absurd (Option.some.inj hu) hstop
        | runPromotion s => exact absurd (hop ▸ hu) (by simp [Op.caller])
        | reorder s dto actor => exact absurd (hop ▸ hu) (by simp [Op.caller])
        | expireSectionWaitlist s => exact absurd (hop ▸ hu) (by simp [Op.caller])
        | updateSection s dto actor => exact absurd (hop ▸ hu) (by simp [Op.caller])
      exact congrArg (fun v : World => v.db.enrollments) (view_of_log_nil (c := sys.ctx t ses) hlog)
    · intro s hop r hr hu hst r' hr' hid
      rw [hop] at hstop hout
      have hends : PromotionEnds Extra.none (.runPromotion s) s (sys.ctx t ses) := hout
      rw [hends.passes hG.inv.1 hstop hr hu hr' hid, hst]
      simp
  · have hlog : ses.log = [] :=
      Bars.barred_commits_nothing (B := overBars s) hv hr₀ ht₀
        (hr.mono fun _ _ h => ⟨trivial, hlate _ _ h.1⟩) hover ht hp (by rw [hop]; exact rfl)
    have hview := view_of_log_nil (c := sys.ctx t ses) hlog
    refine ⟨fun hu => absurd (hop ▸ hu) (by simp [Op.caller]), ?_⟩
    intro s' _ r hr _ hst r' hr' hid
    have hr' : r' ∈ (sys.ctx t ses).view.db.enrollments := hr'
    rw [hview] at hr'
    rw [Keyed.eq_of_key_eq hG.inv.1.db.enrollment_id hr' hr hid, hst]
    simp

namespace Campus

/-- An advisor holds student 1. -/
def holding : Reference := { reference with advisorHolds := [⟨1, "unpaid fees", none⟩] }

/-- Student 1 takes the seat of section 10; then the hold is placed. -/
def placed : List (Label registrar) := serve 0 (enroll 1 10) 13 100 ++ [.env (.reference holding)]

set_option maxRecDepth 4000 in
theorem placed_runs : (Txn.Sys.run (Txn.Sys.init world) placed).isSome = true := by decide

def afterPlaced : Sys := (Txn.Sys.run (Txn.Sys.init world) placed).get placed_runs

theorem placed_reached : Txn.Sys.Reach (fun _ _ => True) (Txn.Sys.init world) afterPlaced :=
  .of_run .refl (fun _ _ _ => trivial) (Option.some_get placed_runs).symm

theorem placed_sessions : afterPlaced.sessions 1 = none :=
  Discipline.run_no_session (n := 1) (Option.some_get placed_runs).symm (by decide) (by decide) rfl

/-- The hold is there. -/
abbrev WhileHeld (sys : Sys) (_ : Label registrar) : Prop := True ∧ Held 1 sys.world.db

/-- Session 1 serves the request `op` of student 1 in `n` statements. -/
def underway (op : Op) (n : Nat) : List (Label registrar) := .begin 1 op :: execs 1 n 0

/-- Student 1 drops. -/
def dropping : List (Label registrar) := underway (.drop 100 1 (actor 1)) 7

set_option maxRecDepth 4000 in
theorem dropping_runs : (Txn.Sys.runIf WhileHeld afterPlaced dropping).isSome = true := by decide

def afterDropping : Sys := (Txn.Sys.runIf WhileHeld afterPlaced dropping).get dropping_runs

set_option maxRecDepth 4000 in
theorem dropping_open : (afterDropping.sessions 1).isSome = true := by decide

set_option maxRecDepth 4000 in
theorem dropping_commits : (afterDropping.step (.commit 1)).isSome = true := by decide

set_option maxRecDepth 4000 in
/-- **A hold does not stop a drop.** -/
theorem drop_under_hold :
    ¬ ∀ (w : World) (sys₀ sys sys' : Sys) (u t : Nat) (ses : Session registrar), w.Valid →
      Txn.Sys.Reach (fun _ _ => True) (Txn.Sys.init w) sys₀ → sys₀.sessions t = none →
      Txn.Sys.Reach (fun (sys : Sys) _ => True ∧ Held u sys.world.db) sys₀ sys →
      Held u sys.world.db →
      sys.sessions t = some ses → sys.step (.commit t) = some sys' →
      Frozen u ses.op sys.world sys'.world := by
  intro h
  have hseg : Txn.Sys.Reach WhileHeld afterPlaced afterDropping :=
    .of_runIf .refl (Option.some_get dropping_runs).symm
  have hfrozen := h world afterPlaced afterDropping _ 1 1 _ world_valid placed_reached
    placed_sessions hseg (by decide) (Option.some_get dropping_open).symm
    (Option.some_get dropping_commits).symm
  have hsame := hfrozen.requested (by decide)
  revert hsame
  decide

/-- Students 2 and 3 wait when student 1 gives up the seat of section 10; then student 3 is held. -/
def waiting : List (Label registrar) :=
  serve 0 (enroll 1 10) 13 100 ++ serve 1 (enroll 2 10) 14 101 ++ serve 2 (enroll 3 10) 14 102 ++
    serve 3 (.drop 100 1 (actor 1)) 7 0 ++
    [.env (.reference { reference with advisorHolds := [⟨3, "unpaid fees", none⟩] })]

set_option maxRecDepth 8000 in
theorem waiting_runs : (Txn.Sys.run (Txn.Sys.init world) waiting).isSome = true := by decide

def afterWaiting : Sys := (Txn.Sys.run (Txn.Sys.init world) waiting).get waiting_runs

theorem waiting_reached : Txn.Sys.Reach (fun _ _ => True) (Txn.Sys.init world) afterWaiting :=
  .of_run .refl (fun _ _ _ => trivial) (Option.some_get waiting_runs).symm

/-- Session 4 promotes into the open seat. -/
def passing : List (Label registrar) := .begin 4 (.runPromotion 10) :: execs 4 8 0

set_option maxRecDepth 8000 in
theorem passing_runs : (Txn.Sys.runIf (fun (sys : Sys) _ => True ∧ Held 3 sys.world.db) afterWaiting
    passing).isSome = true := by decide

def afterPassing : Sys := (Txn.Sys.runIf (fun (sys : Sys) _ => True ∧ Held 3 sys.world.db)
    afterWaiting passing).get passing_runs

set_option maxRecDepth 8000 in
theorem passing_commits : (afterPassing.step (.commit 4)).isSome = true := by decide

def afterPassed : Sys := (afterPassing.step (.commit 4)).get passing_commits

/-- The one open seat is not for student 3. -/
theorem passing_passes : Stopped 3 (.runPromotion 10) afterPassing.world := by
  show ∀ r ∈ _, _
  decide

set_option maxRecDepth 8000 in
/-- Student 2 gets the seat, and student 3 waits on. -/
theorem hold_freezes_passed :
    afterPassed.world.db.enrollments.map Enrollment.status = [.DROPPED, .ENROLLED, .WAITLISTED] ∧
      Frozen 3 (.runPromotion 10) afterPassing.world afterPassed.world :=
  ⟨by decide, hold_freezes (C := fun _ _ => True) world_valid waiting_reached rfl
    (.of_runIf .refl (Option.some_get passing_runs).symm) (by decide) rfl (.inl passing_passes)
    (Option.some_get passing_commits).symm⟩

end Campus

end Enroll
