/-
# Section locks are taken in order

`Guard` is what a transaction owns when it reaches a statement.  It asks for the lock of a section
only above the sections it has locked, and it writes to a section, or to a row of it, only under
that section's lock.  Every request keeps to it from its first statement to its last
(`body_guarded`): `swap` is the only one that takes two locks, and it takes the lower one first,
whichever of the two sections it comes from.

So whoever waits for a section waits above everything it owns, and no circle of waiting sessions
can close (`no_deadlock`).  The keys of enrollment rows and of the unique index are no further
trouble: their owner has the section's lock as well (`Tied`).
-/
import Enroll.Registrar
import Enroll.Txn.Waits

namespace Enroll

open Txn (Ctx Prog Session Label Discipline Guarded Guards Only Awaits WaitsFor CanStep wp wp_bind)

variable {X : Extra} {op : Op} {c c' : Ctx postgres}

/-! ## 1. Guards -/

/-- A row of a section that the transaction has locked. -/
def Covers (c : Ctx postgres) (id : EnrollmentId) : Prop :=
  ∃ r ∈ c.world.db.enrollments, r.id = id ∧ c.held (.sectionRow r.sectionId)

/-- What a transaction owns when it reaches the statement. -/
def Guard : Stmt → Ctx postgres → Prop
  | .read _, _ => True
  | .sectionForUpdate s, c => ∀ s', c.held (.sectionRow s') → s' ≤ s
  | .enrollmentCreate d, c => c.held (.sectionRow d.sectionId)
  | .enrollmentUpdate id _, c => Covers c id
  | .enrollmentUpdateMany id _ _, c => Covers c id
  | .sectionUpdate s _, c => c.held (.sectionRow s)
  | .notificationCreate _, _ => True
  | .auditOutboxCreate _, _ => True

/-- From here on the transaction keeps to `Guard`. -/
abbrev Kept {α : Type} (X : Extra) (op : Op) (p : Tx α) (c : Ctx postgres) : Prop :=
  Guarded Guard (Others X op) p c

theorem OwnRow.covers {r : Enrollment} (h : OwnRow c r) : Covers c r.id := ⟨r, h.mem, rfl, h.held⟩

section Rules

variable {α β : Type}

/-- Every program only moves on. -/
theorem wp_later : ∀ {p : Tx α} {c₀ c : Ctx postgres}, Later X op c₀ c →
    wp (Others X op) DrawsOnly p (fun _ c' => Later X op c₀ c') c := by
  intro p
  induction p with
  | pure a => exact fun h => h
  | throw e => exact fun h => h
  | stmt s k ih =>
    intro c₀ c h w hw x r c' hr
    have hworld : ∀ ws, ((c.at' w).after s x ws).world = Stmt.effect s w := fun _ => rfl
    have hdraw : DrawsOnly (c.at' w) (Stmt.effect s w) := by
      cases s with
      | auditOutboxCreate p => exact ⟨w.seq + 1, Nat.le_succ _, rfl⟩
      | _ => exact DrawsOnly.none
    have hafter : ∀ ws, Later X op c ((c.at' w).after s x ws) := fun ws =>
      ⟨List.prefix_append _ _, fun _ hk => Or.inl hk, List.prefix_append _ _,
        hw.trans (hdraw.others hw.valid hw.inv)⟩
    unfold Ctx.run at hr
    split at hr
    · exact absurd hr (by simp)
    · obtain ⟨rfl, rfl⟩ := Prod.mk.inj (Option.some.inj hr)
      exact ⟨hdraw, h.trans (hafter [])⟩
    · obtain ⟨rfl, rfl⟩ := Prod.mk.inj (Option.some.inj hr)
      exact ⟨hdraw, ih _ (h.trans (hafter _))⟩

/-- Where a transaction has come to, it can stay. -/
theorem Later.stay (h : Later X op c c') : Later X op c' c' := .refl h.rely.valid h.rely.inv

/-- Sequencing, when it does not matter what the first part has done. -/
theorem Kept.bind {p : Tx α} {f : α → Tx β} (hc : Later X op c c) (hp : Kept X op p c)
    (hf : ∀ a c', Later X op c c' → Kept X op (f a) c') : Kept X op (p >>= f) c :=
  Guarded.bind hp (Txn.wp_mono (fun _ c' h a _ => hf a c' h) (wp_later hc))

/-- A read asks for no lock. -/
theorem Kept.query {q : Query} {f : q.Res → Tx β}
    (h : ∀ c', Quiet X op c c' → Kept X op (f (q.eval c'.view)) c') :
    Kept X op (Tx.query q >>= f) c := by
  refine Guarded.bind (.lift fun _ _ => trivial) (wp_query fun c' h' _ a ha => ?_)
  cases ha
  exact h c' h'

theorem Kept.throwIf {p : Prop} [Decidable p] {e : Failure} {f : Unit → Tx β}
    (h : ¬ p → Kept X op (f ()) c) : Kept X op (Prog.throwIf p e >>= f) c := by
  unfold Prog.throwIf
  split
  · trivial
  · exact h ‹_›

theorem Kept.orThrow {o : Option α} {e : Failure} {f : α → Tx β}
    (h : ∀ a, o = some a → Kept X op (f a) c) : Kept X op (Prog.orThrow o e >>= f) c := by
  cases o with
  | none => trivial
  | some a => exact h a rfl

theorem Kept.createInTx (d : NotificationCreate) : Kept X op (Tx.createInTx d) c :=
  .lift fun _ _ => trivial

theorem Kept.recordEvent (p : RecordEventParams) : Kept X op (Tx.recordEvent p) c :=
  .lift fun _ _ => trivial

/-- `SELECT .. FOR UPDATE` of a section above all that are locked. -/
theorem Kept.sectionForUpdate {s : SectionId} (h : ∀ s', c.held (.sectionRow s') → s' ≤ s) :
    Kept X op (Tx.sectionForUpdate s) c := .lift fun _ _ => h

theorem Kept.enrollmentCreate {d : EnrollmentCreate} (h : c.held (.sectionRow d.sectionId)) :
    Kept X op (Tx.enrollmentCreate d) c := .lift fun _ _ => h

theorem Kept.sectionUpdate {s : SectionId} {d : SectionData} (h : c.held (.sectionRow s)) :
    Kept X op (Tx.sectionUpdate s d) c := .lift fun _ _ => h

/-- A locked row stays where it is. -/
theorem OwnRow.covers_at {r : Enrollment} (h : OwnRow c r) {w : World} (hw : Others X op c w) :
    Covers (c.at' w) r.id := (h.later (Quiet.of_others hw).later).covers

theorem Kept.enrollmentUpdate {r : Enrollment} {d : EnrollmentData} (h : OwnRow c r) :
    Kept X op (Tx.enrollmentUpdate r.id d) c := .lift fun _ hw => h.covers_at hw

theorem Kept.enrollmentUpdateMany {r : Enrollment} {st : EnrollmentStatus} {d : EnrollmentData}
    (h : OwnRow c r) : Kept X op (Tx.enrollmentUpdateMany r.id st d) c :=
  .lift fun _ hw => h.covers_at hw

end Rules

/-- `SELECT .. FOR UPDATE`, and what is locked after it. -/
theorem wp_sectionForUpdate_held {s : SectionId}
    {Q : Except Failure (Option SectionJoin) → Ctx postgres → Prop}
    (h : ∀ c' o, Later X op c c' → c'.log = c.log →
      (∀ k, c'.held k → c.held k ∨ k = .sectionRow s) → Q (.ok o) c') :
    wp (Others X op) DrawsOnly (Tx.sectionForUpdate s) Q c := by
  refine Txn.wp_lift fun w hw x r c' hr => ?_
  simp only [Ctx.run, Stmt.exec, Option.some.injEq, Prod.mk.injEq] at hr
  obtain ⟨rfl, rfl⟩ := hr
  refine ⟨DrawsOnly.none, h _ _ ⟨?_, fun k hk => Or.inl hk, List.prefix_append _ _, hw⟩ ?_ ?_⟩
  · simp [Ctx.after]
  · simp [Ctx.after]
  · rintro k (hk | hk)
    · exact Or.inl hk
    · simp only [Stmt.locks] at hk
      split at hk
      · exact Or.inr (List.mem_singleton.mp hk)
      · exact absurd hk List.not_mem_nil

/-! ## 2. Checks -/

/-- A statement that any transaction may reach. -/
def Stmt.Harmless (s : Stmt) : Prop := ∀ c, Guard s c

/-- Checks only read. -/
abbrev Checks {α : Type} (p : Tx α) : Prop := Only (E := postgres) Stmt.Harmless p

theorem Stmt.Harmless.read (q : Query) : (Stmt.read q).Harmless := fun _ => trivial

theorem Checks.kept {α : Type} {p : Tx α} (h : Checks p) : Kept X op p c := .of_only h

theorem registrationGate_checks (sec : SectionJoin) (u : UserId) (closed : String) :
    Checks (registrationGate sec u closed) := by
  refine .bind (fun now => .bind (fun _ => .bind (fun found => .bind (fun student => ?_)
    .orThrow) (.lift (.read _))) .throwIf) (.lift (.read _))
  refine .bind (fun window => .bind (fun _ => .bind (fun hold => ?_) (.lift (.read _))) .throwIf) ?_
  · cases hold <;> trivial
  · unfold registrationWindow
    cases student.classStanding with
    | none => trivial
    | some standing => exact .lift (.read _)

theorem prerequisiteGate_checks (courseId : CourseId) (u : UserId) (message : String) :
    Checks (prerequisiteGate courseId u message) := by
  refine .bind (fun prereqs => ?_) (.lift (.read _))
  split
  · exact .bind (fun _ => .throwIf) (.lift (.read _))
  · trivial

theorem scheduleGate_checks (sec : SectionJoin) (u : UserId) (existing : List EnrollmentJoin) :
    Checks (scheduleGate sec u existing) := by
  refine .bind (fun _ => .bind (fun _ => .throwIf) (.lift (.read _))) ?_
  unfold timeConflictGate
  split <;> trivial

theorem enrollEligibility_checks (sec : SectionJoin) (input : EnrollDto) (u : UserId) :
    Checks (enrollEligibility sec input u) :=
  .bind (fun _ => .bind (fun _ => .bind (fun _ => .bind (fun _ => scheduleGate_checks sec u _)
    (.lift (.read _))) (prerequisiteGate_checks _ _ _)) .throwIf) (.lift (.read _))

theorem swapEligibility_checks (id : EnrollmentId) (source : EnrollmentJoin) (target : SectionJoin)
    (u : UserId) : Checks (swapEligibility id source target u) := by
  refine .bind (fun _ => .bind (fun _ => scheduleGate_checks target u _) (.lift (.read _))) ?_
  unfold crossCourseGate
  split
  · trivial
  · exact .bind (fun dup => .bind (fun _ => prerequisiteGate_checks _ _ _) .throwIf) (.lift (.read _))

theorem waitlistCapGate_checks (live : SectionJoin) (input : EnrollDto) :
    Checks (waitlistCapGate live input) := by
  unfold waitlistCapGate
  split
  · trivial
  · exact .bind (fun _ => .throwIf) (.lift (.read _))

theorem alreadyActive_checks (live : SectionJoin) (input : EnrollDto) (active : Enrollment) :
    Checks (alreadyActive live input active) := by
  unfold alreadyActive
  split
  · exact .bind (fun _ => .pure) (.lift (.read _))
  · trivial

/-! ## 3. Requests -/

/-- Nothing is locked. -/
def Unlocked (c : Ctx postgres) : Prop := ∀ k, ¬ c.held k

theorem Unlocked.quiet (h : Unlocked c) (hq : Quiet X op c c') : Unlocked c' := by
  unfold Unlocked
  rw [hq.held]
  exact h

theorem Kept.firstLock {s : SectionId} (h : Unlocked c) : Kept X op (Tx.sectionForUpdate s) c :=
  Kept.sectionForUpdate fun _ hs => absurd hs (h _)

theorem takeSeat_kept {input : EnrollDto} {u : UserId} {actor : RequestActor}
    (hc : Later X op c c) (h : c.held (.sectionRow input.sectionId)) :
    Kept X op (takeSeat input u actor) c := by
  refine Kept.bind hc (Kept.enrollmentCreate h) fun row c₁ h₁ => ?_
  refine Kept.bind h₁.stay (Kept.sectionUpdate (h₁.held _ h)) fun updated c₂ h₂ => ?_
  exact Kept.bind h₂.stay (Kept.recordEvent _) fun _ _ _ => trivial

theorem joinWaitlist_kept {live : SectionJoin} {input : EnrollDto} {u : UserId}
    {actor : RequestActor} (hc : Later X op c c) (h : c.held (.sectionRow input.sectionId)) :
    Kept X op (joinWaitlist live input u actor) c := by
  refine Kept.bind hc (waitlistCapGate_checks _ _).kept fun _ c₁ h₁ => ?_
  have hassign : Checks (assignPosition input.sectionId) := .bind (fun _ => .pure) (.lift (.read _))
  refine Kept.bind h₁.stay hassign.kept fun position c₂ h₂ => ?_
  refine Kept.bind h₂.stay (Kept.enrollmentCreate ((h₁.trans h₂).held _ h)) fun row c₃ h₃ => ?_
  refine Kept.query fun c₄ h₄ => ?_
  exact Kept.bind h₄.later.stay (Kept.recordEvent _) fun _ _ _ => trivial

/-- A lock that was taken: the section is there. -/
theorem Kept.locking {β : Type} {s : SectionId} {f : Option SectionJoin → Tx β} (h : Unlocked c)
    (hlog : c.log = [])
    (hf : ∀ c', Later X op c c' → c'.log = [] →
      ((c'.world.db.section? s).isSome → c'.held (.sectionRow s)) →
      Kept X op (f ((c'.world.db.section? s).map c'.world.db.joinSection)) c') :
    Kept X op (Tx.sectionForUpdate s >>= f) c := by
  refine Guarded.bind (Kept.firstLock h) (wp_sectionForUpdate fun c' h' hlog' hheld _ o ho => ?_)
  have hlog'' : c'.log = [] := hlog'.trans hlog
  cases ho
  rw [view_of_log_nil hlog''] at hheld ⊢
  exact hf c' h' hlog'' hheld

theorem enroll_kept {input : EnrollDto} {u : UserId} {actor : RequestActor} (h : Unlocked c)
    (hlog : c.log = []) : Kept X op (enroll input u actor) c := by
  refine Kept.query fun c₁ h₁ => ?_
  refine Kept.orThrow fun sec _ => ?_
  refine Guarded.bind (registrationGate_checks _ _ _).kept
    (wp_registrationGate (fun c₂ h₂ _ _ => ?_) (fun _ _ => by simp))
  have hq := h₁.trans h₂
  refine Kept.locking (h.quiet hq) (hq.log_nil hlog) fun c₃ h₃ _ hheld => ?_
  refine Kept.orThrow fun live hlive => ?_
  obtain ⟨row, hrow, rfl⟩ := Option.map_eq_some_iff.mp hlive
  have lock := hheld (by rw [hrow]; rfl)
  refine Kept.query fun c₄ h₄ => ?_
  have lock₄ := h₄.later.held _ lock
  cases (Query.enrollmentFindFirst
    { studentId := some u, sectionId := some input.sectionId,
      status := some activeStatuses }).eval c₄.view with
  | some r => exact (alreadyActive_checks _ _ _).kept
  | none =>
    refine Kept.bind h₄.later.stay (enrollEligibility_checks _ _ _).kept fun _ c₅ h₅ => ?_
    have lock₅ := h₅.held _ lock₄
    exact .ite (fun _ => takeSeat_kept h₅.stay lock₅) fun _ => joinWaitlist_kept h₅.stay lock₅

theorem drop_kept {id : EnrollmentId} {u : UserId} {actor : RequestActor}
    (h : Unlocked c) (hlog : c.log = []) : Kept X op (drop id u actor) c := by
  refine Kept.query fun c₁ h₁ => ?_
  have hlog₁ := h₁.log_nil hlog
  rw [view_of_log_nil hlog₁]
  refine Kept.orThrow fun found hfound => ?_
  obtain ⟨r₁, hr₁, rfl⟩ := Option.map_eq_some_iff.mp hfound
  refine Kept.locking (h.quiet h₁) hlog₁ fun c₂ h₂ hlog₂ hheld => ?_
  have lock := hheld (section_of_row h₁.later.rely.valid h₂ hr₁)
  refine Kept.query fun c₃ h₃ => ?_
  rw [view_of_log_nil (h₃.log_nil hlog₂)]
  refine Kept.orThrow fun current hcurrent => ?_
  obtain ⟨r, hr, rfl⟩ := Option.map_eq_some_iff.mp hcurrent
  obtain ⟨own₃, -⟩ := own_of_reread (h₂.trans h₃.later) hr₁ hr (h₃.later.held _ lock)
  obtain ⟨-, rfl⟩ := enrollment?_mem hr
  refine Kept.throwIf fun _ => ?_
  refine Kept.query fun c₄ h₄ => ?_
  have own₄ := own₃.later h₄.later
  refine Kept.bind h₄.later.stay (Kept.enrollmentUpdateMany own₄) fun n c₅ h₅ => ?_
  have own₅ := own₄.later h₅
  refine Kept.throwIf fun _ => ?_
  have hrelease : Kept X op (releaseSeat (r.status == .ENROLLED) r.sectionId) c₅ := by
    unfold releaseSeat
    split
    · exact Kept.bind h₅.stay (Kept.sectionUpdate own₅.held) fun _ _ _ => trivial
    · exact .lift fun _ _ => trivial
  refine Kept.bind h₅.stay hrelease fun _ c₆ h₆ => ?_
  exact Kept.bind h₆.stay (Kept.recordEvent _) fun _ _ _ => trivial

/-- Both sections are locked, the lower one first. -/
theorem lockBoth_kept {a b : SectionId} (h : Unlocked c) : Kept X op (lockBoth a b) c := by
  refine Guarded.bind (Kept.firstLock h) (wp_sectionForUpdate_held fun c₁ o h₁ _ hheld _ _ => ?_)
  refine Kept.bind h₁.stay (Kept.sectionForUpdate fun s hs => ?_) fun _ _ _ => trivial
  rcases hheld _ hs with hs | hs
  · exact absurd hs (h _)
  · cases hs
    exact min_le_max

theorem swapExecute_kept {r : Enrollment} {source : EnrollmentJoin} {input : SwapDto} {u : UserId}
    {actor : RequestActor} (own : OwnRow c r) (hsec : r.sectionId = source.row.sectionId)
    (lock : c.held (.sectionRow input.targetSectionId)) :
    Kept X op (swapExecute r.id source r input u actor) c := by
  refine Kept.query fun c₁ h₁ => ?_
  refine Kept.bind h₁.later.stay (Kept.enrollmentUpdate (own.later h₁.later)) fun _ c₂ h₂ => ?_
  have h₀₂ := h₁.later.trans h₂
  have hvacate : Kept X op (vacate (r.status == .ENROLLED) source.row.sectionId) c₂ := by
    unfold vacate
    split
    · exact Kept.bind h₂.stay (Kept.sectionUpdate (hsec ▸ (own.later h₀₂).held)) fun _ _ _ => trivial
    · trivial
  refine Kept.bind h₂.stay hvacate fun _ c₃ h₃ => ?_
  have lock₃ := (h₀₂.trans h₃).held _ lock
  refine Kept.bind h₃.stay (Kept.enrollmentCreate lock₃) fun row c₄ h₄ => ?_
  refine Kept.bind h₄.stay (Kept.sectionUpdate (h₄.held _ lock₃)) fun _ c₅ h₅ => ?_
  exact Kept.bind h₅.stay (Kept.recordEvent _) fun _ _ _ => trivial

theorem swapInto_kept {id : EnrollmentId} {r₁ : Enrollment} {input : SwapDto} {u : UserId}
    {actor : RequestActor} (hc : Later X op c c) (h : Unlocked c) (hlog : c.log = [])
    (hr₁ : c.world.db.enrollment? id = some r₁) :
    Kept X op (swapInto id (c.world.db.joinEnrollment r₁) input u actor) c := by
  refine Kept.query fun c₁ h₁ => ?_
  have hlog₁ := h₁.log_nil hlog
  rw [view_of_log_nil hlog₁]
  refine Kept.orThrow fun target htarget => ?_
  obtain ⟨row, hrow, rfl⟩ := Option.map_eq_some_iff.mp htarget
  refine Guarded.bind (registrationGate_checks _ _ _).kept
    (wp_registrationGate (fun c₂ h₂ _ _ => ?_) (fun _ _ => by simp))
  have hq := h₁.trans h₂
  have hsrc := section_of_row hc.rely.valid hq.later hr₁
  have htgt : (c₂.world.db.section? input.targetSectionId).isSome := by
    rw [h₂.later.rely.grows.isSome, hrow]
    rfl
  refine Guarded.bind (lockBoth_kept (h.quiet hq))
    (wp_lockBoth (hq.log_nil hlog) hsrc htgt fun c₃ h₃ hlog₃ hheldS hheldT _ _ => ?_)
  refine Kept.query fun c₄ h₄ => ?_
  rw [view_of_log_nil (h₄.log_nil hlog₃)]
  refine Kept.orThrow fun source hsource => ?_
  obtain ⟨hjoin, -⟩ := Option.filter_eq_some_iff.mp hsource
  obtain ⟨r, hr, rfl⟩ := Option.map_eq_some_iff.mp hjoin
  have h₀₄ := (hq.later.trans h₃).trans h₄.later
  obtain ⟨own₄, hsec⟩ := own_of_reread h₀₄ hr₁ hr (h₄.later.held _ hheldS)
  obtain ⟨-, rfl⟩ := enrollment?_mem hr
  refine Kept.query fun c₅ h₅ => ?_
  refine Kept.orThrow fun lockedTarget _ => ?_
  refine Kept.bind h₅.later.stay (swapEligibility_checks _ _ _ _).kept fun _ c₆ h₆ => ?_
  have h₄₆ := h₅.later.trans h₆
  exact swapExecute_kept (own₄.later h₄₆) hsec ((h₄.later.trans h₄₆).held _ hheldT)

theorem swap_kept {id : EnrollmentId} {input : SwapDto} {u : UserId} {actor : RequestActor}
    (h : Unlocked c) (hlog : c.log = []) : Kept X op (swap id input u actor) c := by
  refine Kept.query fun c₁ h₁ => ?_
  have hlog₁ := h₁.log_nil hlog
  rw [view_of_log_nil hlog₁]
  refine Kept.orThrow fun source hsource => ?_
  obtain ⟨r₁, hr₁, rfl⟩ := Option.map_eq_some_iff.mp hsource
  refine Kept.throwIf fun _ => ?_
  refine .ite (fun _ => ?_) fun _ => swapInto_kept h₁.later.stay (h.quiet h₁) hlog₁ hr₁
  exact Kept.query fun _ _ => trivial

/-! ### Promotion, expiry, reorder -/

theorem OwnRow.of_mem_waiting {s : SectionId} {r : Enrollment} (hs : c.held (.sectionRow s))
    (hr : r ∈ c.world.db.waiting s) : OwnRow c r := (OwnRow.of_waiting hs hr).1

theorem promote_kept {sec : SectionJoin} {next : Enrollment} (own : OwnRow c next) :
    Kept X op (promote sec next) c := by
  refine Kept.query fun c₁ h₁ => ?_
  refine Kept.bind h₁.later.stay (Kept.enrollmentUpdate (own.later h₁.later)) fun _ c₂ h₂ => ?_
  exact Kept.bind h₂.stay (Kept.createInTx _) fun _ _ _ => Kept.recordEvent _

/-- The rows that the loop takes are rows of the locked section. -/
theorem promoteLoop_kept {s : SectionId} {sec : SectionJoin} : ∀ (fuel : Nat) (turns : List Turn)
    (c : Ctx postgres) (count : Int) (n : Nat), Promoting X op s sec turns c →
      Kept X op (promoteLoop sec s fuel count n) c := by
  intro fuel
  induction fuel with
  | zero => exact fun _ _ _ _ _ => trivial
  | succ fuel ih =>
    intro turns c count n p
    unfold promoteLoop
    refine .ite (fun _ => ?_) fun _ => trivial
    have hhead : Checks (waitlistHead s) := .bind (fun _ => .pure) (.lift (.read _))
    refine Guarded.bind hhead.kept (wp_waitlistHead p fun c₁ h₁ o ho => ?_)
    cases ho
    have p₁ := p.later h₁.later h₁.log
    cases hnext : (byPosition (c₁.world.db.waiting s))[turns.length]? with
    | none => trivial
    | some next =>
      have hmem := mem_byPosition.mp (List.mem_of_getElem? hnext)
      refine Guarded.bind (promote_kept (.of_mem_waiting p₁.lock.held hmem))
        (promote_spec p₁ hnext (fun c₂ u _ p₂ _ _ => ?_) fun _ _ _ => by simp)
      exact ih (turns ++ [u]) c₂ _ _ p₂

theorem storeCount_kept {s : SectionId} {count : Int} {n : Nat} (hc : Later X op c c)
    (h : c.held (.sectionRow s)) : Kept X op (storeCount s count n) c := by
  unfold storeCount
  exact .ite (fun _ => Kept.bind hc (Kept.sectionUpdate h) fun _ _ _ => trivial) fun _ => trivial

theorem runPromotion_kept {s : SectionId} (h : Unlocked c) (hlog : c.log = []) :
    Kept X op (runPromotion s) c := by
  refine Kept.locking h hlog fun c₁ h₁ hlog₁ hheld => ?_
  cases hs : c₁.world.db.section? s with
  | none => trivial
  | some row =>
    have lock : Locked c₁ s row := ⟨hheld (by rw [hs]; rfl), hs⟩
    refine Kept.query fun c₂ h₂ => ?_
    have lock₂ := lock.later h₂.later
    refine .ite (fun _ => trivial) fun _ => ?_
    have p₂ : Promoting X op s (c₁.world.db.joinSection row) [] c₂ :=
      ⟨lock₂, rfl, .nil, fun _ h => absurd h List.not_mem_nil, h₂.log_nil hlog₁⟩
    refine Kept.bind h₂.later.stay (promoteLoop_kept _ [] c₂ _ _ p₂) fun _ c₃ h₃ => ?_
    exact storeCount_kept h₃.stay (h₃.held _ lock₂.held)

/-- A loop over rows of a locked section. -/
theorem each_kept {β : Type} {s : SectionId} {f : β → Tx Unit} (P : β → World → Prop)
    (hP : ∀ x c c', Later X op c c' → c.held (.sectionRow s) → P x c.world → P x c'.world)
    (hf : ∀ x c, Later X op c c → c.held (.sectionRow s) → P x c.world → Kept X op (f x) c)
    {xs : List β}
    (hc : Later X op c c) (lock : c.held (.sectionRow s)) (h : ∀ x ∈ xs, P x c.world) :
    Kept X op (Prog.each xs f) c := by
  refine Guarded.each (G := DrawsOnly) (fun rest c' => Later X op c' c' ∧
    c'.held (.sectionRow s) ∧ ∀ x ∈ rest, P x c'.world) ?_ ⟨hc, lock, h⟩
  rintro x rest c' ⟨hc', lock', h'⟩
  refine ⟨hf x c' hc' lock' (h' x List.mem_cons_self), Txn.wp_mono (fun r c'' hl _ _ => ?_)
    (wp_later hc')⟩
  refine ⟨hl.stay, hl.held _ lock', fun y hy => ?_⟩
  exact hP y c' c'' hl lock' (h' y (List.mem_cons_of_mem x hy))

theorem expireRow_kept {s : SectionId} {row : Enrollment} (own : OwnRow c row) :
    Kept X op (expireRow s row) c := by
  refine Kept.query fun c₁ h₁ => ?_
  refine Kept.bind h₁.later.stay (Kept.enrollmentUpdate (own.later h₁.later)) fun _ c₂ h₂ => ?_
  exact Kept.bind h₂.stay (Kept.recordEvent _) fun _ _ _ => Kept.createInTx _

theorem expireSectionWaitlist_kept {s : SectionId} (h : Unlocked c) (hlog : c.log = []) :
    Kept X op (expireSectionWaitlist s) c := by
  refine Kept.locking h hlog fun c₁ h₁ hlog₁ hheld => ?_
  cases hs : c₁.world.db.section? s with
  | none => trivial
  | some row =>
    have lock := hheld (by rw [hs]; rfl)
    refine Kept.query fun c₂ h₂ => ?_
    rw [view_of_log_nil (h₂.log_nil hlog₁)]
    refine each_kept (fun r w => r ∈ w.db.waiting s) (fun r c c' hl hheld hr => ?_)
      (fun r c hc hheld hr => expireRow_kept (.of_mem_waiting hheld hr)) h₂.later.stay
      (h₂.later.held _ lock) ?_
    · rw [Later.waiting hl hheld]
      exact hr
    · have hrows : ((Query.enrollmentFindMany
          { sectionId := some s, status := some [.WAITLISTED] }).eval c₂.world).map
            EnrollmentJoin.row = c₂.world.db.waiting s := by
        simp only [Query.eval, select_waiting, List.map_map]
        exact List.map_id _
      intro r hr
      rw [← hrows]
      exact hr

theorem renumber_kept {s : SectionId} {p : EnrollmentId × Nat} (hc : Later X op c c)
    (lock : c.held (.sectionRow s)) (hp : p.1 ∈ c.world.db.wl s) : Kept X op (renumber p) c := by
  obtain ⟨r, hr, hid⟩ := mem_wl.mp hp
  have hupdate : Kept X op (Tx.enrollmentUpdate p.1 (placeAt p.2)) c :=
    hid ▸ Kept.enrollmentUpdate (.of_mem_waiting lock hr)
  exact Kept.bind hc hupdate fun _ _ _ => trivial

theorem reorder_kept {s : SectionId} {dto : ReorderWaitlistDto} {actor : RequestActor}
    (h : Unlocked c) (hlog : c.log = []) : Kept X op (reorder s dto actor) c := by
  refine Kept.locking h hlog fun c₁ h₁ hlog₁ hheld => ?_
  refine Kept.orThrow fun live hlive => ?_
  obtain ⟨row, hrow, rfl⟩ := Option.map_eq_some_iff.mp hlive
  have lock := hheld (by rw [hrow]; rfl)
  refine Kept.query fun c₂ h₂ => ?_
  rw [view_of_log_nil (h₂.log_nil hlog₁)]
  have hcurrent : ((Query.enrollmentFindManyByPosition
      { sectionId := some s, status := some [.WAITLISTED] }).eval c₂.world).map
        (fun e => e.row.id) = c₂.world.db.wl s := by
    simp only [Query.eval, select_waiting, List.map_map, Db.wl]
    rfl
  have hreplace : Kept X op (replaceOrder s dto actor (c₂.world.db.wl s)) c₂ := by
    refine Kept.throwIf fun hsame => ?_
    have hperm := (sameMembers_iff (h₂.later.rely.valid.db.nodup_wl s) dto.unique).mp
      (by simpa using hsame)
    have hrows : ∀ p ∈ dto.orderedEnrollmentIds.zipIdx, p.1 ∈ c₂.world.db.wl s := by
      intro p hp
      refine hperm.mem_iff.mp ?_
      rw [← List.zipIdx_map_fst 0 dto.orderedEnrollmentIds]
      exact List.mem_map_of_mem hp
    have hloop : Kept X op (Prog.each dto.orderedEnrollmentIds.zipIdx renumber) c₂ := by
      refine each_kept (fun p w => p.1 ∈ w.db.wl s) (fun p c c' hl hheld hp => ?_)
        (fun p c hc hheld hp => renumber_kept hc hheld hp) h₂.later.stay (h₂.later.held _ lock) hrows
      rw [Later.wl hl hheld]
      exact hp
    exact Kept.bind h₂.later.stay hloop fun _ _ _ => Kept.recordEvent _
  rw [← hcurrent] at hreplace
  exact hreplace

theorem updateSection_kept {s : SectionId} {dto : UpdateSectionDto} {actor : RequestActor}
    (h : Unlocked c) (hlog : c.log = []) : Kept X op (updateSection s dto actor) c := by
  refine Kept.throwIf fun _ => ?_
  refine Kept.locking h hlog fun c₁ h₁ _ hheld => ?_
  refine Kept.orThrow fun live hlive => ?_
  obtain ⟨row, hrow, rfl⟩ := Option.map_eq_some_iff.mp hlive
  have lock := hheld (by rw [hrow]; rfl)
  refine Kept.throwIf fun _ => ?_
  refine Kept.bind h₁.stay (Kept.sectionUpdate lock) fun _ c₂ h₂ => ?_
  refine Kept.bind h₂.stay (Kept.recordEvent _) fun _ c₃ h₃ => ?_
  exact Kept.query fun _ _ => trivial

/-- A method keeps to `Guard` when its request does. -/
theorem kept_request {α : Type} {p : Tx α} {f : α → Out} (hc : Later X op c c)
    (h : Kept X op p c) : Kept X op (p >>= fun a => pure (f a)) c :=
  Kept.bind hc h fun _ _ _ => trivial

/-- **Every request keeps to `Guard`.** -/
theorem body_kept (hc : Later X op c c) (h : Unlocked c) (hlog : c.log = []) (o : Op) :
    Kept X op o.body c := by
  cases o with
  | enroll input u actor => exact kept_request hc (enroll_kept h hlog)
  | drop id u actor => exact kept_request hc (drop_kept h hlog)
  | swap id input u actor => exact kept_request hc (swap_kept h hlog)
  | runPromotion s => exact kept_request hc (runPromotion_kept h hlog)
  | reorder s dto actor => exact kept_request hc (reorder_kept h hlog)
  | expireSectionWaitlist s => exact kept_request hc (expireSectionWaitlist_kept h hlog)
  | updateSection s dto actor => exact kept_request hc (updateSection_kept h hlog)

/-! ## 4. Runs -/

theorem guards_step {sys sys' : Sys} {l : Label registrar} (hG : (discipline Extra.none).Good sys)
    (h : Guards (discipline Extra.none) Guard sys) (hs : sys.step l = some sys') :
    Guards (discipline Extra.none) Guard sys' := by
  refine h.step hG (fun o => ?_) (fun t ses _ hl => others_of_step hG hs ses hl) hs
  exact body_kept (.refl hG.inv.1 trivial) (fun _ => not_false) rfl o

section Locks

variable {st : Stmt} {v : World} {s : SectionId} {u : UserId} {x y : EnrollmentId}

theorem eq_of_mem_ite {p : Prop} [Decidable p] {k a : Key} (h : k ∈ if p then [a] else []) :
    k = a := by
  split at h
  · exact List.mem_singleton.mp h
  · exact absurd h List.not_mem_nil

/-- Who takes a section's key. -/
theorem locks_section (h : Key.sectionRow s ∈ st.locks y v) :
    st = .sectionForUpdate s ∨ ∃ d, st = .sectionUpdate s d := by
  cases st with
  | sectionForUpdate id =>
    cases eq_of_mem_ite h
    exact Or.inl rfl
  | sectionUpdate id d =>
    cases eq_of_mem_ite h
    exact Or.inr ⟨d, rfl⟩
  | enrollmentCreate d =>
    rcases List.mem_cons.mp h with h | h
    · exact absurd h (by simp)
    · exact absurd (eq_of_mem_ite h) (by simp)
  | enrollmentUpdate id d => exact absurd (eq_of_mem_ite h) (by simp)
  | enrollmentUpdateMany id status d => exact absurd (eq_of_mem_ite h) (by simp)
  | read q => exact absurd h List.not_mem_nil
  | notificationCreate d => exact absurd h List.not_mem_nil
  | auditOutboxCreate p => exact absurd h List.not_mem_nil

/-- Who takes the key of an enrollment row. -/
theorem locks_row (h : Key.enrollmentRow x ∈ st.locks y v) :
    (∃ d, st = .enrollmentUpdate x d) ∨ (∃ status d, st = .enrollmentUpdateMany x status d) ∨
      ∃ d, st = .enrollmentCreate d ∧ x = y := by
  cases st with
  | enrollmentUpdate id d =>
    cases eq_of_mem_ite h
    exact Or.inl ⟨d, rfl⟩
  | enrollmentUpdateMany id status d =>
    cases eq_of_mem_ite h
    exact Or.inr (Or.inl ⟨status, d, rfl⟩)
  | enrollmentCreate d =>
    rcases List.mem_cons.mp h with h | h
    · exact Or.inr (Or.inr ⟨d, rfl, Key.enrollmentRow.inj h⟩)
    · exact absurd (eq_of_mem_ite h) (by simp)
  | sectionForUpdate id => exact absurd (eq_of_mem_ite h) (by simp)
  | sectionUpdate id d => exact absurd (eq_of_mem_ite h) (by simp)
  | read q => exact absurd h List.not_mem_nil
  | notificationCreate d => exact absurd h List.not_mem_nil
  | auditOutboxCreate p => exact absurd h List.not_mem_nil

/-- Who takes a key of the unique index. -/
theorem locks_pair (h : Key.activePair u s ∈ st.locks y v) :
    ∃ d, st = .enrollmentCreate d ∧ d.sectionId = s := by
  cases st with
  | enrollmentCreate d =>
    rcases List.mem_cons.mp h with h | h
    · exact absurd h (by simp)
    · cases eq_of_mem_ite h
      exact ⟨d, rfl, rfl⟩
  | enrollmentUpdate id d => exact absurd (eq_of_mem_ite h) (by simp)
  | enrollmentUpdateMany id status d => exact absurd (eq_of_mem_ite h) (by simp)
  | sectionForUpdate id => exact absurd (eq_of_mem_ite h) (by simp)
  | sectionUpdate id d => exact absurd (eq_of_mem_ite h) (by simp)
  | read q => exact absurd h List.not_mem_nil
  | notificationCreate d => exact absurd h List.not_mem_nil
  | auditOutboxCreate p => exact absurd h List.not_mem_nil

end Locks

/-- The owner of a row's key, or of a key of the unique index, has locked the section too. -/
structure Tied (sys : Sys) : Prop where
  row : ∀ x t, sys.owner (.enrollmentRow x) = some t → ∀ r ∈ sys.world.db.enrollments, r.id = x →
    sys.owner (.sectionRow r.sectionId) = some t
  pair : ∀ u s t, sys.owner (.activePair u s) = some t → sys.owner (.sectionRow s) = some t

/-- A row whose key is owned was there before the step, in the same section. -/
theorem row_before {sys sys' : Sys} {l : Label registrar} (hG : (discipline Extra.none).Good sys)
    (hG' : (discipline Extra.none).Good sys') (hs : sys.step l = some sys') {x : EnrollmentId}
    {t : Nat} (ho : sys.owner (.enrollmentRow x) = some t)
    (ho' : sys'.owner (.enrollmentRow x) = some t)
    {r : Enrollment} (hr : r ∈ sys'.world.db.enrollments) (hid : r.id = x) :
    ∃ r₀ ∈ sys.world.db.enrollments, r₀.id = x ∧ r₀.sectionId = r.sectionId := by
  obtain ⟨ses, ht⟩ := Option.ne_none_iff_exists'.mp (hG.owned _ t ho)
  by_cases hl : l.session = some t
  · -- the owner is open after its own step, so that step was no commit
    have hm := moves_of_step hG hs
    have hopen := hG'.owned _ t ho'
    have henr : sys'.world.db.enrollments = sys.world.db.enrollments := by
      generalize hw : sys'.world = w' at hm
      cases hm with
      | commit t' ses' a ht' hp hout =>
        obtain rfl : t' = t := Option.some.inj hl
        obtain ⟨_, _, -, -, rfl⟩ := Discipline.commit_cases hs
        have hself : ∀ o, Function.update sys.sessions t' o t' = o :=
          fun o => Function.update_self t' o sys.sessions
        exact absurd (hself none) hopen
      | env e => exact absurd hl (by simp [Label.session])
      | draw _ n hn => rfl
    exact ⟨r, henr ▸ hr, hid, rfl⟩
  · have hothers := others_of_step hG hs ses hl
    have hsame : sys'.world.db.hasEnrollment x = sys.world.db.hasEnrollment x :=
      hothers.same (.enrollmentRow x) ho
    have hthere : sys.world.db.hasEnrollment x = true := by
      rw [← hsame]
      exact hasEnrollment_iff.mpr ⟨r, hr, hid⟩
    obtain ⟨r₀, hr₀, hid₀⟩ := hasEnrollment_iff.mp hthere
    obtain ⟨r', hr', hid', -, hsec', -⟩ := hothers.grows.rows r₀ hr₀
    obtain rfl := Keyed.eq_of_key_eq hG'.inv.1.db.enrollment_id hr' hr
      (hid'.trans (hid₀.trans hid.symm))
    exact ⟨r₀, hr₀, hid₀, hsec'.symm⟩

theorem Tied.step {sys sys' : Sys} {l : Label registrar} (h : Tied sys)
    (hG : (discipline Extra.none).Good sys) (hG' : (discipline Extra.none).Good sys')
    (hg : Guards (discipline Extra.none) Guard sys) (hs : sys.step l = some sys') : Tied sys' := by
  constructor
  · intro x t ho r hr hid
    have hopen := hG'.owned _ t ho
    rcases Txn.owner_of_step hs ho with ho₀ | ⟨y, ses, s, k, rfl, ht, hp, hkey⟩
    · obtain ⟨r₀, hr₀, hid₀, hsec⟩ := row_before hG hG' hs ho₀ ho hr hid
      exact hsec ▸ Txn.owner_stays hs (h.row x t ho₀ r₀ hr₀ hid₀) hopen
    · -- the key was taken by an update of a row whose section is locked, or for a new row
      have hguard := hg.next hG.inv ht hp
      have henr : sys'.world.db.enrollments = sys.world.db.enrollments := by
        have hm := moves_of_step hG hs
        generalize sys'.world = w' at hm
        cases hm
        rfl
      rw [henr] at hr
      have hcovers : Covers (sys.ctx t ses) x → sys'.owner (.sectionRow r.sectionId) = some t := by
        rintro ⟨r₀, hr₀, hid₀, hheld⟩
        obtain rfl := Keyed.eq_of_key_eq hG.inv.1.db.enrollment_id hr₀ hr (hid₀.trans hid.symm)
        exact Txn.owner_stays hs hheld hopen
      rcases locks_row hkey with ⟨d, rfl⟩ | ⟨status, d, rfl⟩ | ⟨d, rfl, rfl⟩
      · exact hcovers hguard
      · exact hcovers hguard
      · -- a drawn id is new
        have hused : (sys.ctx t ses).view.db.hasEnrollment x = true := by
          have hview : (sys.ctx t ses).view = applyLog ses.log sys.world := rfl
          rw [hview, hasEnrollment_applyLog, hasEnrollment_iff.mpr ⟨r, hr, hid⟩, Bool.true_or]
        obtain ⟨ses', s', k', res, c', ht', hp', -, hrun, -⟩ := Discipline.stepExec_cases hs
        obtain rfl := Option.some.inj (ht.symm.trans ht')
        obtain ⟨rfl, -⟩ := Prog.stmt.inj (hp.symm.trans hp')
        exact absurd hrun (by simp [Ctx.run, Stmt.exec, hused])
  · intro u s t ho
    have hopen := hG'.owned _ t ho
    rcases Txn.owner_of_step hs ho with ho₀ | ⟨y, ses, st, k, rfl, ht, hp, hkey⟩
    · exact Txn.owner_stays hs (h.pair u s t ho₀) hopen
    · obtain ⟨d, rfl, rfl⟩ := locks_pair hkey
      exact Txn.owner_stays hs (hg.next hG.inv ht hp) hopen

/-! ## 5. No deadlock -/

/-- The lock of a section row. -/
def Key.isSection : Key → Prop
  | .sectionRow _ => True
  | _ => False

/-- Section locks are ordered by the section's id. -/
def Key.rank : Key → SectionId
  | .sectionRow s => s
  | _ => 0

/-- What holds in every reachable state. -/
structure Orderly (sys : Sys) : Prop where
  good : (discipline Extra.none).Good sys
  guards : Guards (discipline Extra.none) Guard sys
  tied : Tied sys

theorem orderly_run {C : Sys → Label registrar → Prop} {w : World} (hv : w.Valid) {sys : Sys}
    (hr : Txn.Sys.Reach C (Txn.Sys.init w) sys) : Orderly sys := by
  induction hr with
  | refl =>
    refine ⟨locks_run hv (C := C) .refl, ?_, ⟨?_, ?_⟩⟩
    · exact fun t ses ht => absurd ht (by simp [Txn.Sys.init])
    · exact fun x t ho => absurd ho (by simp [Txn.Sys.init])
    · exact fun u s t ho => absurd ho (by simp [Txn.Sys.init])
  | tail hr hc hs ih =>
    have hG' := locks_run hv (hr.tail hc hs)
    exact ⟨hG', guards_step ih.good ih.guards hs, ih.tied.step ih.good hG' ih.guards hs⟩

/-- **Whoever waits for a section owns only sections below it.** -/
theorem Orderly.inOrder {sys : Sys} (h : Orderly sys) :
    Txn.InOrder Key.isSection Key.rank sys := by
  rintro t k hk ⟨ses, st, kont, x, ht, hp, hkey, t', ho, hne⟩ k' hk' ho'
  cases k with
  | enrollmentRow y => exact hk.elim
  | activePair u s => exact hk.elim
  | sectionRow s =>
    cases k' with
    | enrollmentRow y => exact hk'.elim
    | activePair u s' => exact hk'.elim
    | sectionRow s' =>
      have hguard := h.guards.next h.good.inv ht hp
      rcases locks_section hkey with rfl | ⟨d, rfl⟩
      · have hle : s' ≤ s := hguard s' ho'
        have hne' : s' ≠ s := by
          rintro rfl
          exact hne (Option.some.inj (ho.symm.trans ho'))
        exact lt_of_le_of_ne hle hne'
      · -- the lock of an updated section is there already
        have hheld : sys.owner (.sectionRow s) = some t := hguard
        exact absurd (Option.some.inj (ho.symm.trans hheld)) hne

/-- A write of a row gets an answer. -/
theorem exec_sectionUpdate (s : SectionId) (d : SectionData) (x : Nat) (w : World) :
    ((Stmt.sectionUpdate s d).exec x w).isSome = true := by
  simp only [Stmt.exec]
  split
  · rfl
  · split <;> rfl

theorem exec_enrollmentUpdate (y : EnrollmentId) (d : EnrollmentData) (x : Nat) (w : World) :
    ((Stmt.enrollmentUpdate y d).exec x w).isSome = true := by
  simp only [Stmt.exec]
  split
  · rfl
  · split <;> rfl

theorem exec_enrollmentUpdateMany (y : EnrollmentId) (st : EnrollmentStatus) (d : EnrollmentData)
    (x : Nat) (w : World) : ((Stmt.enrollmentUpdateMany y st d).exec x w).isSome = true := by
  simp only [Stmt.exec]
  split
  · rfl
  · split
    · split <;> rfl
    · rfl

/-- So does an insert under a new id. -/
theorem exec_enrollmentCreate (d : EnrollmentCreate) {y : EnrollmentId} {w : World}
    (hnew : w.db.hasEnrollment y = false) :
    ((Stmt.enrollmentCreate d).exec y w).isSome = true := by
  simp only [Stmt.exec, hnew]
  split
  · exact absurd ‹_› Bool.false_ne_true
  · split
    · rfl
    · split <;> rfl

/-- There is a uuid that is new, and whose key nobody owns. -/
theorem exists_new_id {sys : Sys} (hfin : {k | sys.owner k ≠ none}.Finite) (w : World) :
    ∃ y, w.db.hasEnrollment y = false ∧ sys.owner (.enrollmentRow y) = none := by
  have hused : {y | w.db.hasEnrollment y = true}.Finite := by
    refine (w.db.enrollments.map Enrollment.id).finite_toSet.subset ?_
    intro y hy
    obtain ⟨r, hr, hid⟩ := hasEnrollment_iff.mp hy
    exact List.mem_map.mpr ⟨r, hr, hid⟩
  have htaken : {y | sys.owner (.enrollmentRow y) ≠ none}.Finite :=
    hfin.preimage fun a _ b _ hab => Key.enrollmentRow.inj hab
  obtain ⟨y, hy⟩ := (hused.union htaken).exists_notMem
  refine ⟨y, Bool.eq_false_iff.mpr fun hu => hy (Or.inl hu), ?_⟩
  by_contra ho
  exact hy (Or.inr ho)

/-- **Whoever waits for no section can go on.** -/
theorem Orderly.canStep {sys : Sys} (h : Orderly sys) (hfin : {k | sys.owner k ≠ none}.Finite)
    {t : Nat} (hopen : sys.sessions t ≠ none) (hfree : ∀ t', ¬ WaitsFor Key.isSection sys t t') :
    CanStep sys t := by
  obtain ⟨ses, ht⟩ := Option.ne_none_iff_exists'.mp hopen
  -- a section's key is free or its own
  have hsection : ∀ st k x s t', ses.prog = .stmt st k →
      Key.sectionRow s ∈ st.locks x (sys.ctx t ses).view →
        sys.owner (.sectionRow s) = some t' → t' = t := by
    intro st k x s t' hp hkey ho
    by_contra hne
    exact hfree t' ⟨.sectionRow s, trivial, ⟨ses, st, k, x, ht, hp, hkey, t', ho, hne⟩, ho⟩
  -- so is the key of a row of a locked section
  have hrow : ∀ y t', Covers (sys.ctx t ses) y → sys.owner (.enrollmentRow y) = some t' →
      t' = t := by
    rintro y t' ⟨r, hr, hid, hheld⟩ ho
    exact Option.some.inj ((h.tied.row y t' ho r hr hid).symm.trans hheld)
  cases hp : ses.prog with
  | pure a => exact .of_pure ht hp
  | throw e => exact .of_throw ht hp
  | stmt st k =>
    have hguard := h.guards.next h.good.inv ht hp
    cases st with
    | read q => exact .of_stmt (x := 0) ht hp (fun _ hk => absurd hk List.not_mem_nil) rfl
    | notificationCreate d => exact .of_stmt (x := 0) ht hp (fun _ hk => absurd hk List.not_mem_nil) rfl
    | auditOutboxCreate p => exact .of_stmt (x := 0) ht hp (fun _ hk => absurd hk List.not_mem_nil) rfl
    | sectionForUpdate s =>
      refine .of_stmt (x := 0) ht hp (fun key hkey t' ho => ?_) rfl
      obtain rfl := eq_of_mem_ite hkey
      exact hsection _ _ 0 s t' hp hkey ho
    | sectionUpdate s d =>
      refine .of_stmt (x := 0) ht hp (fun key hkey t' ho => ?_) (exec_sectionUpdate s d 0 _)
      obtain rfl := eq_of_mem_ite hkey
      exact hsection _ _ 0 s t' hp hkey ho
    | enrollmentUpdate y d =>
      refine .of_stmt (x := 0) ht hp (fun key hkey t' ho => ?_) (exec_enrollmentUpdate y d 0 _)
      obtain rfl := eq_of_mem_ite hkey
      exact hrow y t' hguard ho
    | enrollmentUpdateMany y status d =>
      refine .of_stmt (x := 0) ht hp (fun key hkey t' ho => ?_)
        (exec_enrollmentUpdateMany y status d 0 _)
      obtain rfl := eq_of_mem_ite hkey
      exact hrow y t' hguard ho
    | enrollmentCreate d =>
      obtain ⟨y, hnew, hfreeKey⟩ := exists_new_id hfin (sys.ctx t ses).view
      refine .of_stmt (x := y) ht hp (fun key hkey t' ho => ?_) (exec_enrollmentCreate d hnew)
      rcases List.mem_cons.mp hkey with rfl | hkey
      · exact absurd (hfreeKey.symm.trans ho) (by simp)
      · obtain rfl := eq_of_mem_ite hkey
        have hheld : sys.owner (.sectionRow d.sectionId) = some t := hguard
        exact Option.some.inj ((h.tied.pair _ _ t' ho).symm.trans hheld)

/-- **No deadlock on section locks.**  In every reachable state nobody waits for section locks in a
circle, and when some transaction is unfinished, one of them can take its next step. -/
theorem no_deadlock {w : World} (hv : w.Valid) {sys : Sys}
    (hr : Txn.Sys.Reach (fun _ _ => True) (Txn.Sys.init w) sys) :
    (∀ t, ¬ Relation.TransGen (WaitsFor Key.isSection sys) t t) ∧
      ((∃ t, sys.sessions t ≠ none) → ∃ t, sys.sessions t ≠ none ∧ CanStep sys t) := by
  have h := orderly_run hv hr
  have hacyclic := fun t => WaitsFor.irrefl h.inOrder t
  refine ⟨hacyclic, fun hopen => ?_⟩
  obtain ⟨t, ht, hfree⟩ :=
    Txn.exists_not_waiting (Txn.finite_sessions hr) h.good.owned hacyclic hopen
  exact ⟨t, ht, h.canStep (Txn.finite_owned hr) ht hfree⟩

namespace Campus

/-- Student 1, seated in section 10, swaps to section 11 and has locked section 10; student 2 means
to leave the queue of section 10. -/
def crossing : List (Label registrar) :=
  busy ++ .begin 2 (.swap 100 ⟨11⟩ 1 (actor 1)) :: execs 2 6 0 ++
    .begin 3 (.drop 101 2 (actor 2)) :: execs 3 1 0

set_option maxRecDepth 4000 in
theorem crossing_runs : (Txn.Sys.run (Txn.Sys.init world) crossing).isSome = true := by decide

def afterCrossing : Sys := (Txn.Sys.run (Txn.Sys.init world) crossing).get crossing_runs

theorem crossing_reached : Txn.Sys.Reach (fun _ _ => True) (Txn.Sys.init world) afterCrossing :=
  .of_run .refl (fun _ _ _ => trivial) (Option.some_get crossing_runs).symm

set_option maxRecDepth 8000 in
example : afterCrossing.owner (.sectionRow 10) = some 2 ∧
    (afterCrossing.step (.exec 3 0)).isSome = false := by decide

theorem no_deadlock_crossing :
    (∀ t, ¬ Relation.TransGen (WaitsFor Key.isSection afterCrossing) t t) ∧
      ((∃ t, afterCrossing.sessions t ≠ none) →
        ∃ t, afterCrossing.sessions t ≠ none ∧ CanStep afterCrossing t) :=
  no_deadlock world_valid crossing_reached

end Campus

end Enroll
