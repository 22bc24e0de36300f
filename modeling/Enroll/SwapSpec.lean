/-
# What a committed drop or swap has done

`drop_spec` and `swap_spec`.  Both read the enrollment once to learn which section to lock, and
once more under the lock; since a row never changes its section, the lock they take is the right
one, and the second reading is still true at the commit (`OwnRow`).

Both give a seat back by decrementing the counter.  That can only fail if a section with an
ENROLLED row has a counter of 0, which is what `Overdrawn` says.
-/
import Enroll.EnrollSpec

namespace Enroll

open Txn (Ctx Prog Forward wp wp_bind)

variable {X : Extra} {op : Op} {c c' : Ctx postgres}

/-! ## 1. A row under a lock -/

/-- The row `r` is in the table, and its section is locked. -/
structure OwnRow (c : Ctx postgres) (r : Enrollment) : Prop where
  held : c.held (.sectionRow r.sectionId)
  mem : r ∈ c.world.db.enrollments

theorem OwnRow.later {r : Enrollment} (h : OwnRow c r) (hl : Later X op c c') : OwnRow c' r := by
  refine ⟨hl.held _ h.held, ?_⟩
  have hr : r ∈ c'.world.db.rowsOf r.sectionId := by
    rw [Later.rowsOf hl h.held]
    exact mem_rowsOf.mpr ⟨h.mem, rfl⟩
  exact (mem_rowsOf.mp hr).1

theorem OwnRow.lookup {r : Enrollment} (h : OwnRow c r) (hv : c.world.Valid) :
    c.world.db.enrollment? r.id = some r := hv.db.enrollment?_of_mem h.mem

/-- Reading a row again by its id: the same student, the same section. -/
theorem reread_fixed {w w' : World} (hv : w'.Valid) (hg : Grows w w') {id : EnrollmentId}
    {r r' : Enrollment} (h : w.db.enrollment? id = some r) (h' : w'.db.enrollment? id = some r') :
    r'.studentId = r.studentId ∧ r'.sectionId = r.sectionId := by
  obtain ⟨hmem, hid⟩ := enrollment?_mem h
  obtain ⟨r'', hmem'', hid'', hst, hsec, -⟩ := hg.rows r hmem
  have h'' := hv.db.enrollment?_of_mem hmem''
  rw [hid'', hid, h', Option.some.injEq] at h''
  exact h'' ▸ ⟨hst, hsec⟩

/-- Where the unique index has room for a new row of the student, none of theirs is in play. -/
theorem activePairTaken_eq_false {db : Db} {x : EnrollmentId} {u : UserId} {s : SectionId}
    (h : db.activePairTaken x u s = false) (hx : db.hasEnrollment x = false) :
    ∀ r ∈ db.rowsOf s, r.active = true → r.studentId ≠ u := by
  intro r hr ha hu
  obtain ⟨hmem, hs⟩ := mem_rowsOf.mp hr
  have hne : r.id ≠ x := fun he => by
    rw [hasEnrollment_iff.mpr ⟨r, hmem, he⟩] at hx
    exact absurd hx (by simp)
  have := List.any_eq_false.mp h r hmem
  simp [hne, ha, hu, hs] at this

/-- A row that is read again under its section's lock is a locked row. -/
theorem own_of_reread {id : EnrollmentId} {r₁ r : Enrollment} (hl : Later X op c c')
    (hr₁ : c.world.db.enrollment? id = some r₁) (hr : c'.world.db.enrollment? id = some r)
    (hheld : c'.held (.sectionRow r₁.sectionId)) : OwnRow c' r ∧ r.sectionId = r₁.sectionId := by
  have hfixed := (reread_fixed hl.rely.valid hl.rely.grows hr₁ hr).2
  exact ⟨⟨hfixed ▸ hheld, (enrollment?_mem hr).1⟩, hfixed⟩

/-- The section of a row is there. -/
theorem section_of_row {id : EnrollmentId} {r : Enrollment} (hv : c.world.Valid)
    (hl : Later X op c c') (hr : c.world.db.enrollment? id = some r) :
    (c'.world.db.section? r.sectionId).isSome = true := by
  rw [hl.rely.grows.isSome, Option.isSome_iff_ne_none]
  exact hv.db.section_fkey r (enrollment?_mem hr).1

/-- A section with an ENROLLED row whose counter says there is none. -/
def Overdrawn (c : Ctx postgres) : Prop :=
  ∃ s sec r, Locked c s sec ∧ sec.enrolledCount ≤ 0 ∧ r ∈ c.world.db.rowsOf s ∧
    r.status = .ENROLLED

/-- The only way to trip over the `CHECK`. -/
def ChecksOut (e : Failure) (c : Ctx postgres) : Prop := e = .db .checkViolation → Overdrawn c

theorem ChecksOut.http (e : HttpException) (c : Ctx postgres) : ChecksOut (.http e) c :=
  fun h => absurd h (by simp)

/-- What gives a seat back. -/
def seatBack (r : Enrollment) : List Write :=
  if r.status = .ENROLLED then [.sectionPatch r.sectionId (counter (-1))] else []

/-- A section with an ENROLLED row has a positive counter. -/
def Counted (c : Ctx postgres) (r : Enrollment) : Prop :=
  r.status = .ENROLLED → ∀ sec, c.world.db.section? r.sectionId = some sec → 0 < sec.enrolledCount

theorem Counted.later {r : Enrollment} (h : Counted c r) (own : OwnRow c r)
    (hl : Later X op c c') : Counted c' r := by
  intro henr sec hsec
  rw [Later.section? hl own.held] at hsec
  exact h henr sec hsec

/-! ## 2. Drop -/

/-- What `drop` is about to commit. -/
structure DropOutcome (X : Extra) (op : Op) (enrollmentId : EnrollmentId) (actor : RequestActor)
    (r : Enrollment) (droppedAt t : Time) (n : OutboxId) (c : Ctx postgres) : Prop where
  own : OwnRow c r
  id : r.id = enrollmentId
  active : r.active = true
  counted : Counted c r
  drawn : Drawn X op [r.sectionId] n c
  log : c.log = .enrollmentPatch r.id (departure droppedAt) :: seatBack r ++
    [.auditInsert ((dropEvent actor r).row n t)]

theorem DropOutcome.later {enrollmentId : EnrollmentId} {actor : RequestActor} {r : Enrollment}
    {droppedAt t : Time} {n : OutboxId}
    (h : DropOutcome X op enrollmentId actor r droppedAt t n c) (hl : Later X op c c')
    (hlog : c'.log = c.log) : DropOutcome X op enrollmentId actor r droppedAt t n c' :=
  ⟨h.own.later hl, h.id, h.active, h.counted.later h.own hl, h.drawn.later hl, hlog.trans h.log⟩

/-- A counter is found as it stands in the committed world, when the log did not touch it. -/
theorem overdrawn_of_check {r : Enrollment} {d : EnrollmentData} (own : OwnRow c' r)
    (hv : c'.world.Valid) (henr : r.status = .ENROLLED)
    (hlog : c.log = [.enrollmentPatch r.id d]) {sec : Section}
    (hsec : (seen c c').db.section? r.sectionId = some sec)
    (hcheck : ((counter (-1)).patch sec).checkSeats = false) : Overdrawn c' := by
  rw [seen, hlog, section?_applyLog] at hsec
  have lock : Locked c' r.sectionId sec := ⟨own.held, hsec⟩
  rw [counter_patch_checkSeats, decide_eq_false_iff_not] at hcheck
  have := lock.seats hv
  exact ⟨r.sectionId, sec, r, lock, by omega, mem_rowsOf.mpr ⟨own.mem, rfl⟩, henr⟩

/-- The decrement went through, so there was something to count down. -/
theorem counted_of_check {r : Enrollment} {d : EnrollmentData}
    (hlog : c.log = [.enrollmentPatch r.id d]) {sec : Section}
    (hsec : (seen c c').db.section? r.sectionId = some sec)
    (hcheck : ((counter (-1)).patch sec).checkSeats = true) : Counted c' r := by
  intro _ sec' hsec'
  rw [seen, hlog, section?_applyLog] at hsec
  obtain rfl : sec' = sec := Option.some.inj (hsec'.symm.trans hsec)
  rw [counter_patch_checkSeats, decide_eq_true_eq] at hcheck
  omega

/-- The row of a section after its update. -/
theorem view_section?_updated {s : SectionId} {d : SectionData} {sec : Section}
    (hlog : c'.log = c.log ++ [.sectionPatch s d]) (hsec : (seen c c').db.section? s = some sec) :
    c'.view.db.section? s = some (d.patch sec) := by
  have hview : c'.view = applyLog c'.log c'.world := rfl
  rw [hview, hlog, applyLog_append]
  show ((Write.sectionPatch s d).onDb (seen c c').db).section? s = _
  rw [section?_onDb, hsec]
  exact congrArg some (if_pos rfl)

/-- An audit row changes nothing in a locked section. -/
theorem view_section?_recorded {s : SectionId} {e : AuditOutbox} (hl : Later X op c c')
    (hs : c.held (.sectionRow s)) (hlog : c'.log = c.log ++ [.auditInsert e]) :
    c'.view.db.section? s = c.view.db.section? s := by
  have hview : ∀ c : Ctx postgres, c.view = applyLog c.log c.world := fun _ => rfl
  rw [hview, hview, hlog, section?_applyLog, section?_applyLog, List.foldl_append,
    Later.section? hl hs]
  rfl

theorem wp_releaseSeat {r : Enrollment} {d : EnrollmentData}
    {Q : Except Failure (Option SectionJoin) → Ctx postgres → Prop}
    (own : OwnRow c r) (hlog : c.log = [.enrollmentPatch r.id d])
    (hok : ∀ c' j, Later X op c c' → c'.log = .enrollmentPatch r.id d :: seatBack r →
      Counted c' r → c'.view.db.section? r.sectionId = some j.sec → Q (.ok (some j)) c')
    (herr : ∀ c' e, ChecksOut e c' → Q (.error e) c') :
    wp (Others X op) DrawsOnly (releaseSeat (r.status == .ENROLLED) r.sectionId) Q c := by
  unfold releaseSeat
  unfold seatBack at hok
  by_cases henr : r.status = .ENROLLED
  · rw [if_pos (by simp [henr])]
    rw [if_pos henr] at hok
    refine wp_bind (wp_sectionUpdate (fun c₁ sec h₁ hlog₁ hsec hcheck => ?_) (fun c₁ _ _ => ?_)
      (fun c₁ sec h₁ hsec hcheck => ?_))
    · exact hok c₁ _ h₁ (by rw [hlog₁, hlog]; rfl) (counted_of_check hlog hsec hcheck)
        (view_section?_updated hlog₁ hsec)
    · exact herr c₁ _ (by simp [ChecksOut])
    · exact herr c₁ _ fun _ => overdrawn_of_check (own.later h₁) h₁.rely.valid henr hlog hsec hcheck
  · rw [if_neg (by simp [henr])]
    rw [if_neg henr] at hok
    refine wp_query fun c₁ h₁ _ => ?_
    have hlog₁ := h₁.log.trans hlog
    have own₁ := own.later h₁.later
    have hsec : c₁.view.db.section? r.sectionId = c₁.world.db.section? r.sectionId := by
      have hview : c₁.view = applyLog c₁.log c₁.world := rfl
      rw [hview, section?_applyLog, hlog₁]
      rfl
    obtain ⟨sec, hrow⟩ := Option.ne_none_iff_exists'.mp
      (h₁.later.rely.valid.db.section_fkey r own₁.mem)
    simp only [Query.eval]
    rw [hsec, hrow, Option.map_some]
    exact hok c₁ _ h₁.later hlog₁ (fun h => absurd h henr) (hsec.trans hrow)

/-- The section of the seat that the row holds. -/
def seatOf (r : Enrollment) : Option SectionId :=
  if r.status = .ENROLLED then some r.sectionId else none

/-- What `drop` answers about the row `r`. -/
structure DropReply (f : FreedSeat) (r : Enrollment) (droppedAt : Time) (c : Ctx postgres) :
    Prop where
  freed : f.freedSeatSectionId = seatOf r
  section_eq : f.result.sectionId = r.sectionId
  tells : c.view.db.Tells f.result ((departure droppedAt).patch r)

theorem DropReply.later {f : FreedSeat} {r : Enrollment} {droppedAt : Time}
    (h : DropReply f r droppedAt c) (own : OwnRow c r) (hl : Later X op c c')
    (hlog : c'.log = c.log) : DropReply f r droppedAt c' := by
  refine ⟨h.freed, h.section_eq, h.tells.congr ?_ ?_⟩
  · rw [h.section_eq]
    exact Later.view_rowsOf hl own.held hlog
  · rw [h.section_eq]
    exact Later.view_section? hl own.held hlog

/-- The row as the drop leaves it. -/
theorem DropOutcome.mem_view {enrollmentId : EnrollmentId} {actor : RequestActor} {r : Enrollment}
    {droppedAt t : Time} {n : OutboxId}
    (h : DropOutcome X op enrollmentId actor r droppedAt t n c) :
    (departure droppedAt).patch r ∈ c.view.db.rowsOf r.sectionId := by
  have hview : c.view = applyLog c.log c.world := rfl
  have hrows : c.view.db.rowsOf r.sectionId
      = patchEnrollments r.id (departure droppedAt) (c.world.db.rowsOf r.sectionId) := by
    rw [hview, rowsOf_applyLog, h.log]
    unfold seatBack
    split <;> rfl
  rw [hrows]
  exact Keyed.mem_update.mpr ⟨r, mem_rowsOf.mpr ⟨h.own.mem, rfl⟩, (if_pos rfl).symm⟩

/-- **What `drop` has done and answers when it commits.** -/
theorem drop_answers {enrollmentId : EnrollmentId} {userId : UserId} {actor : RequestActor}
    (hlog : c.log = []) :
    wp (Others X op) DrawsOnly (drop enrollmentId userId actor)
      (Ends (fun f c' => ∃ r droppedAt t n, DropOutcome X op enrollmentId actor r droppedAt t n c' ∧
        DropReply f r droppedAt c') ChecksOut) c := by
  have herr : ∀ (c' : Ctx postgres) e, ChecksOut (.http e) c' := fun c' e => ChecksOut.http e c'
  refine wp_bind (wp_query fun c₁ h₁ _ => ?_)
  have hlog₁ := h₁.log_nil hlog
  rw [view_of_log_nil hlog₁]
  refine wp_bind (Txn.wp_orThrow (fun _ => herr c₁ _) fun found hfound => ?_)
  obtain ⟨r₁, hr₁, rfl⟩ := Option.map_eq_some_iff.mp hfound
  refine wp_bind (wp_sectionForUpdate fun c₂ h₂ hlog₂ hheld _ => ?_)
  rw [hlog₁] at hlog₂
  rw [view_of_log_nil hlog₂] at hheld
  have hlock := hheld (section_of_row h₁.later.rely.valid h₂ hr₁)
  refine wp_bind (wp_query fun c₃ h₃ _ => ?_)
  have hlog₃ := h₃.log_nil hlog₂
  rw [view_of_log_nil hlog₃]
  refine wp_bind (Txn.wp_orThrow (fun _ => herr c₃ _) fun current hcurrent => ?_)
  obtain ⟨r, hr, rfl⟩ := Option.map_eq_some_iff.mp hcurrent
  obtain ⟨own₃, -⟩ := own_of_reread (h₂.trans h₃.later) hr₁ hr (h₃.later.held _ hlock)
  have hid : r.id = enrollmentId := (enrollment?_mem hr).2
  refine wp_bind (Txn.wp_throwIf (fun _ => herr c₃ _) fun hactive => ?_)
  have hactive' : r.active = true := by simpa [Db.joinEnrollment] using hactive
  refine wp_bind (wp_query fun c₄ h₄ _ => ?_)
  have hlog₄ := h₄.log_nil hlog₃
  generalize Query.now.eval c₄.view = droppedAt
  have own₄ := own₃.later h₄.later
  refine wp_bind (wp_enrollmentUpdateMany (fun c₅ r₅ h₅ hlog₅ hr₅ hst => ?_)
    (fun c₅ h₅ _ => ?_) (fun c₅ _ _ _ _ _ => by simp [Ends, ChecksOut, Txn.andThen]))
  · have own₅ := own₄.later h₅
    rw [hlog₄, List.nil_append, ← hid] at hlog₅
    refine wp_bind (Txn.wp_throwIf (fun h => absurd h (by simp)) fun _ => ?_)
    refine wp_bind (wp_releaseSeat own₅ hlog₅ (fun c₆ j h₆ hlog₆ hcount hsec => ?_) fun _ _ h => h)
    refine wp_bind (wp_recordEvent fun c₇ c₈ h₇ h₈ hlog₈ hseq => ?_)
    have own₆ := own₅.later h₆
    have own₇ := own₆.later h₇.later
    have hl := h₇.later.trans h₈
    have hout : DropOutcome X op enrollmentId actor r droppedAt c₇.world.now (c₇.world.seq + 1)
        c₈ := by
      refine ⟨own₇.later h₈, hid, hactive', hcount.later own₆ hl, .of_now ?_ h₈ hseq, ?_⟩
      · intro s hs
        rw [List.mem_singleton.mp hs]
        exact own₇.held
      · rw [hlog₈, hlog₆]
        rfl
    refine ⟨r, droppedAt, c₇.world.now, _, hout, ?_, rfl, hout.mem_view, rfl, rfl, rfl, rfl,
      fun _ => rfl, rfl, j.sec, ?_, rfl, rfl⟩
    · exact if_congr beq_iff_eq rfl rfl
    · exact (view_section?_recorded hl own₆.held hlog₈).trans hsec
  · refine wp_bind (Txn.wp_throwIf (fun _ => herr c₅ _) fun h => absurd rfl h)

/-- **What `drop` has done when it commits.** -/
theorem drop_spec {enrollmentId : EnrollmentId} {userId : UserId} {actor : RequestActor}
    (hlog : c.log = []) :
    wp (Others X op) DrawsOnly (drop enrollmentId userId actor)
      (Ends (fun _ c' => ∃ r droppedAt t n, DropOutcome X op enrollmentId actor r droppedAt t n c')
        ChecksOut) c := by
  refine Txn.wp_mono ?_ (drop_answers hlog)
  intro r c' hr
  cases r with
  | ok f =>
    obtain ⟨r, droppedAt, t, n, h, -⟩ := hr
    exact ⟨r, droppedAt, t, n, h⟩
  | error e => exact hr

/-! ## 3. The checks of swap -/

/-- What `swap` has checked before it writes, for the source row `r` and the target `sec`.  Within
one course the duplicate and prerequisite checks are skipped. -/
structure SwapChecked (X : Extra) (op : Op) (r : Enrollment) (input : SwapDto) (userId : UserId)
    (sec : SectionJoin) (c : Ctx postgres) : Prop where
  read : SectionRead X op input.targetSectionId sec c
  duplicate : c.world.db.courseOf r.sectionId ≠ sec.sec.courseId →
    Earlier X op (fun c₁ => c₁.held (.sectionRow input.targetSectionId) ∧
      Stmt.read (.enrollmentFindFirst
        (sameCourseBeside userId sec.sec.courseId r.id)) ∈ c₁.trace ∧
      c₁.world.db.select (sameCourseBeside userId sec.sec.courseId r.id) = []) c
  prerequisites : c.world.db.courseOf r.sectionId ≠ sec.sec.courseId →
    PrerequisitesChecked X op sec.sec.courseId userId c
  schedule : ScheduleChecked X op sec userId (fun r' => r'.id != r.id) c

theorem SwapChecked.later {r : Enrollment} {input : SwapDto} {userId : UserId} {sec : SectionJoin}
    (h : SwapChecked X op r input userId sec c) (hl : Later X op c c') :
    SwapChecked X op r input userId sec c' where
  read := h.read.later hl
  duplicate hne := by
    rw [hl.rely.grows.courseOf] at hne
    exact (h.duplicate hne).later hl
  prerequisites hne := by
    rw [hl.rely.grows.courseOf] at hne
    exact (h.prerequisites hne).later hl
  schedule := h.schedule.later hl

section Gates

variable {Q : Except Failure Unit → Ctx postgres → Prop}

theorem wp_lockBoth {a b : SectionId} (hlog : c.log = [])
    (ha : (c.world.db.section? a).isSome) (hb : (c.world.db.section? b).isSome)
    (hok : ∀ c', Later X op c c' → c'.log = [] → c'.held (.sectionRow a) →
      c'.held (.sectionRow b) → Q (.ok ()) c') :
    wp (Others X op) DrawsOnly (lockBoth a b) Q c := by
  refine wp_bind (wp_sectionForUpdate fun c₁ h₁ hlog₁ hmin _ => ?_)
  rw [hlog] at hlog₁
  refine wp_bind (wp_sectionForUpdate fun c₂ h₂ hlog₂ hmax _ => ?_)
  rw [hlog₁] at hlog₂
  rw [view_of_log_nil hlog₁, h₁.rely.grows.isSome] at hmin
  rw [view_of_log_nil hlog₂, (h₁.trans h₂).rely.grows.isSome] at hmax
  refine hok c₂ (h₁.trans h₂) hlog₂ ?_ ?_
  · rcases Nat.le_total a b with h | h
    · rw [Nat.min_eq_left h] at hmin
      exact h₂.held _ (hmin ha)
    · rw [Nat.max_eq_left h] at hmax
      exact hmax ha
  · rcases Nat.le_total a b with h | h
    · rw [Nat.max_eq_right h] at hmax
      exact hmax hb
    · rw [Nat.min_eq_right h] at hmin
      exact h₂.held _ (hmin hb)

theorem wp_crossCourseGate {enrollmentId : EnrollmentId} {source : EnrollmentJoin}
    {target : SectionJoin} {userId : UserId} (hlog : c.log = []) (hv : c.world.Valid)
    (hi : X.inv c.world)
    (hok : ∀ c', Quiet X op c c' →
      (source.sec.courseId ≠ target.sec.courseId →
        Earlier X op (fun c₁ => Later X op c c₁ ∧ Stmt.read (.enrollmentFindFirst
          (sameCourseBeside userId target.sec.courseId enrollmentId)) ∈ c₁.trace ∧
          c₁.world.db.select (sameCourseBeside userId target.sec.courseId enrollmentId) = []) c' ∧
        PrerequisitesChecked X op target.sec.courseId userId c') → Q (.ok ()) c')
    (herr : ∀ c' e, Q (.error (.http e)) c') :
    wp (Others X op) DrawsOnly (crossCourseGate enrollmentId source target userId) Q c := by
  unfold crossCourseGate
  split
  · exact hok c ⟨Later.refl hv hi, rfl, rfl⟩ (fun hne => absurd ‹_› hne)
  · refine wp_bind (wp_query fun c₁ h₁ htr => ?_)
    have hlog₁ := h₁.log_nil hlog
    rw [view_of_log_nil hlog₁]
    refine wp_bind (Txn.wp_throwIf (fun _ => herr _ _) fun hnone => ?_)
    refine wp_prerequisiteGate hlog₁ (fun c₂ h₂ hpre => hok c₂ (h₁.trans h₂) fun _ => ?_) herr
    exact ⟨⟨c₁, h₂.later, h₁.later, htr, by simpa [Query.eval] using hnone⟩, hpre⟩

/-- The student's other active rows in a term, as `swap` reads them. -/
theorem activeInTerm_beside (w : World) {u : UserId} {t : TermId} {id : EnrollmentId} :
    (Query.enrollmentFindMany { activeInTerm u t with notId := some id }).eval w
      = (w.db.activeRows u t (fun r => r.id != id)).map w.db.joinEnrollment := by
  simp only [Query.eval, Db.select, Db.activeRows]
  congr 1
  refine List.filter_congr fun r _ => ?_
  rw [← matches_activeInTerm]
  simp [EnrollmentWhere.matches, activeInTerm, bne, Bool.beq_comm]

theorem wp_swapEligibility {r : Enrollment} {source : EnrollmentJoin} {target : SectionJoin}
    {input : SwapDto} {userId : UserId} (hlog : c.log = []) (hv : c.world.Valid)
    (hi : X.inv c.world) (hheld : c.held (.sectionRow input.targetSectionId))
    (hread : SectionRead X op input.targetSectionId target c)
    (hcourse : source.sec.courseId = c.world.db.courseOf r.sectionId)
    (hok : ∀ c', Quiet X op c c' → SwapChecked X op r input userId target c' → Q (.ok ()) c')
    (herr : ∀ c' e, Q (.error (.http e)) c') :
    wp (Others X op) DrawsOnly (swapEligibility r.id source target userId) Q c := by
  refine wp_bind (wp_crossCourseGate hlog hv hi (fun c₁ h₁ hcross => ?_) herr)
  have hlog₁ := h₁.log_nil hlog
  refine wp_bind (wp_query fun c₂ h₂ _ => ?_)
  have hlog₂ := h₂.log_nil hlog₁
  rw [view_of_log_nil hlog₂]
  refine wp_scheduleGate hlog₂ (activeInTerm_beside _) (fun c₃ h₃ hsched => ?_) herr
  have hq := (h₁.trans h₂).trans h₃
  refine hok c₃ hq ⟨hread.later hq.later, fun hne => ?_, fun hne => ?_, hsched⟩
  · rw [hq.later.rely.grows.courseOf, ← hcourse] at hne
    obtain ⟨c₀, h₀, hl, htr, hnone⟩ := (hcross hne).1
    exact ⟨c₀, h₀.trans (h₂.trans h₃).later, hl.held _ hheld, htr, hnone⟩
  · rw [hq.later.rely.grows.courseOf, ← hcourse] at hne
    exact (hcross hne).2.later (h₂.trans h₃).later

end Gates

/-! ## 4. Swap -/

/-- What `swap` between two sections is about to commit. -/
structure SwapOutcome (X : Extra) (op : Op) (enrollmentId : EnrollmentId) (input : SwapDto)
    (userId : UserId) (actor : RequestActor) (r : Enrollment) (sec : SectionJoin)
    (live : Section) (x : EnrollmentId) (droppedAt t t' : Time) (n : OutboxId)
    (c : Ctx postgres) : Prop where
  own : OwnRow c r
  id : r.id = enrollmentId
  active : r.active = true
  counted : Counted c r
  other : r.sectionId ≠ input.targetSectionId
  lock : Locked c input.targetSectionId live
  seat : live.enrolledCount < live.capacity
  fresh : Fresh c ((seatRow userId input.targetSectionId).row x t)
  checked : SwapChecked X op r input userId sec c
  drawn : Drawn X op [r.sectionId, input.targetSectionId] n c
  log : c.log = .enrollmentPatch r.id (departure droppedAt) :: seatBack r ++
    [.enrollmentInsert ((seatRow userId input.targetSectionId).row x t),
      .sectionPatch input.targetSectionId (counter 1),
      .auditInsert ((swappedEvent userId actor r r
        ((seatRow userId input.targetSectionId).row x t)).row n t')]

theorem SwapOutcome.later {enrollmentId : EnrollmentId} {input : SwapDto} {userId : UserId}
    {actor : RequestActor} {r : Enrollment} {sec : SectionJoin} {live : Section}
    {x : EnrollmentId} {droppedAt t t' : Time} {n : OutboxId}
    (h : SwapOutcome X op enrollmentId input userId actor r sec live x droppedAt t t' n c)
    (hl : Later X op c c') (hlog : c'.log = c.log) :
    SwapOutcome X op enrollmentId input userId actor r sec live x droppedAt t t' n c' :=
  ⟨h.own.later hl, h.id, h.active, h.counted.later h.own hl, h.other, h.lock.later hl, h.seat,
    h.fresh.later hl, h.checked.later hl, h.drawn.later hl, hlog.trans h.log⟩

/-- A swap writes nothing, or what `SwapOutcome` says. -/
def SwapEnds (X : Extra) (op : Op) (enrollmentId : EnrollmentId) (input : SwapDto)
    (userId : UserId) (actor : RequestActor) (c : Ctx postgres) : Prop :=
  c.log = [] ∨ ∃ r sec live x droppedAt t t' n,
    SwapOutcome X op enrollmentId input userId actor r sec live x droppedAt t t' n c

theorem wp_vacate {r : Enrollment} {d : EnrollmentData}
    {Q : Except Failure Unit → Ctx postgres → Prop}
    (hv : c.world.Valid) (hi : X.inv c.world) (own : OwnRow c r)
    (hlog : c.log = [.enrollmentPatch r.id d])
    (hok : ∀ c', Later X op c c' → c'.log = .enrollmentPatch r.id d :: seatBack r →
      Counted c' r → Q (.ok ()) c')
    (herr : ∀ c' e, ChecksOut e c' → Q (.error e) c') :
    wp (Others X op) DrawsOnly (vacate (r.status == .ENROLLED) r.sectionId) Q c := by
  unfold vacate
  unfold seatBack at hok
  by_cases henr : r.status = .ENROLLED
  · rw [if_pos (by simp [henr])]
    rw [if_pos henr] at hok
    refine wp_bind (wp_sectionUpdate (fun c₁ sec h₁ hlog₁ hsec hcheck => ?_) (fun c₁ _ _ => ?_)
      (fun c₁ sec h₁ hsec hcheck => ?_))
    · exact hok c₁ h₁ (by rw [hlog₁, hlog]; rfl) (counted_of_check hlog hsec hcheck)
    · exact herr c₁ _ (by simp [ChecksOut])
    · exact herr c₁ _ fun _ => overdrawn_of_check (own.later h₁) h₁.rely.valid henr hlog hsec hcheck
  · rw [if_neg (by simp [henr])]
    rw [if_neg henr] at hok
    exact hok c (Later.refl hv hi) hlog fun h => absurd h henr

/-- The log of the departure leaves other sections alone. -/
theorem rowsOf_departed {r : Enrollment} {d : EnrollmentData} {w : World} (hv : w.Valid)
    (hr : r ∈ w.db.enrollments) {s : SectionId} (hs : r.sectionId ≠ s) :
    (applyLog (.enrollmentPatch r.id d :: seatBack r) w).db.rowsOf s = w.db.rowsOf s := by
  have hpatch : patchEnrollments r.id d (w.db.rowsOf s) = w.db.rowsOf s := by
    refine Keyed.update_of_forall_ne _ fun r' hr' he => ?_
    obtain ⟨hmem, hsec⟩ := mem_rowsOf.mp hr'
    exact hs ((Keyed.eq_of_key_eq hv.db.enrollment_id hmem hr he) ▸ hsec)
  rw [rowsOf_applyLog, List.foldl_cons]
  unfold seatBack
  split <;> exact hpatch

theorem section?_departed {r : Enrollment} {d : EnrollmentData} {w : World} {s : SectionId}
    (hs : r.sectionId ≠ s) :
    (applyLog (.enrollmentPatch r.id d :: seatBack r) w).db.section? s = w.db.section? s := by
  rw [section?_applyLog, List.foldl_cons]
  unfold seatBack
  split
  · show (w.db.section? s).map _ = _
    simp [Ne.symm hs]
  · rfl

theorem hasEnrollment_departed {r : Enrollment} {d : EnrollmentData} {w : World}
    (x : EnrollmentId) :
    (applyLog (.enrollmentPatch r.id d :: seatBack r) w).db.hasEnrollment x
      = w.db.hasEnrollment x := by
  rw [hasEnrollment_applyLog]
  unfold seatBack
  split <;> simp [Write.inserted]

/-- What `swap` between two sections answers: the new row, and where a seat was given up. -/
structure SwapReply (input : SwapDto) (userId : UserId) (f : FreedSeat) (r : Enrollment)
    (x : EnrollmentId) (t : Time) (c : Ctx postgres) : Prop where
  freed : f.freedSeatSectionId = seatOf r
  section_eq : f.result.sectionId = input.targetSectionId
  tells : c.view.db.Tells f.result ((seatRow userId input.targetSectionId).row x t)

theorem SwapReply.later {input : SwapDto} {userId : UserId} {f : FreedSeat} {r : Enrollment}
    {x : EnrollmentId} {t : Time} (h : SwapReply input userId f r x t c)
    (held : c.held (.sectionRow input.targetSectionId)) (hl : Later X op c c')
    (hlog : c'.log = c.log) : SwapReply input userId f r x t c' := by
  refine ⟨h.freed, h.section_eq, h.tells.congr ?_ ?_⟩
  · rw [h.section_eq]
    exact Later.view_rowsOf hl held hlog
  · rw [h.section_eq]
    exact Later.view_section? hl held hlog

/-- The new row is in the target section. -/
theorem SwapOutcome.mem_view {enrollmentId : EnrollmentId} {input : SwapDto} {userId : UserId}
    {actor : RequestActor} {r : Enrollment} {sec : SectionJoin} {live : Section}
    {x : EnrollmentId} {droppedAt t t' : Time} {n : OutboxId}
    (h : SwapOutcome X op enrollmentId input userId actor r sec live x droppedAt t t' n c) :
    (seatRow userId input.targetSectionId).row x t ∈ c.view.db.rowsOf input.targetSectionId := by
  have hview : c.view = applyLog c.log c.world := rfl
  rw [hview, rowsOf_applyLog, h.log, List.foldl_append]
  generalize List.foldl _ (c.world.db.rowsOf _) _ = rows
  show _ ∈ if input.targetSectionId = input.targetSectionId then rows ++ [_] else rows
  rw [if_pos rfl]
  exact List.mem_append_right _ (List.mem_singleton_self _)

/-- The row is one of the section's. -/
def World.InSection (w : World) (id : EnrollmentId) (s : SectionId) : Prop :=
  ∃ r ∈ w.db.enrollments, r.id = id ∧ r.sectionId = s

theorem World.InSection.grows {w w' : World} {id : EnrollmentId} {s : SectionId}
    (h : w.InSection id s) (hg : Grows w w') : w'.InSection id s := by
  obtain ⟨r, hr, hid, hsec⟩ := h
  obtain ⟨r', hr', hid', -, hsec', -⟩ := hg.rows r hr
  exact ⟨r', hr', hid'.trans hid, hsec'.trans hsec⟩

/-- What a swap has done and answers: a swap onto the row's own section writes nothing. -/
def SwapAnswered (X : Extra) (op : Op) (enrollmentId : EnrollmentId) (input : SwapDto)
    (userId : UserId) (actor : RequestActor) (f : FreedSeat) (c : Ctx postgres) : Prop :=
  (c.world.InSection enrollmentId input.targetSectionId ∧ c.log = [] ∧
      f.freedSeatSectionId = none) ∨ ∃ r sec live x droppedAt t t' n,
    SwapOutcome X op enrollmentId input userId actor r sec live x droppedAt t t' n c ∧
      SwapReply input userId f r x t c

theorem SwapAnswered.ends {enrollmentId : EnrollmentId} {input : SwapDto} {userId : UserId}
    {actor : RequestActor} {f : FreedSeat}
    (h : SwapAnswered X op enrollmentId input userId actor f c) :
    SwapEnds X op enrollmentId input userId actor c := by
  rcases h with ⟨-, hlog, -⟩ | ⟨r, sec, live, x, droppedAt, t, t', n, h, -⟩
  · exact Or.inl hlog
  · exact Or.inr ⟨r, sec, live, x, droppedAt, t, t', n, h⟩

theorem swapExecute_answers {r : Enrollment} {source : EnrollmentJoin} {input : SwapDto}
    {userId : UserId} {actor : RequestActor} {sec : SectionJoin} {live : Section}
    (hlog : c.log = []) (own : OwnRow c r) (hactive : r.active = true)
    (hsid : source.row.id = r.id) (hssec : source.row.sectionId = r.sectionId)
    (other : r.sectionId ≠ input.targetSectionId) (lock : Locked c input.targetSectionId live)
    (seat : live.enrolledCount < live.capacity)
    (checked : SwapChecked X op r input userId sec c) :
    wp (Others X op) DrawsOnly (swapExecute r.id source r input userId actor)
      (Ends (SwapAnswered X op r.id input userId actor) ChecksOut) c := by
  refine wp_bind (wp_query fun c₁ h₁ _ => ?_)
  have hlog₁ := h₁.log_nil hlog
  generalize Query.now.eval c₁.view = droppedAt
  refine wp_bind (wp_enrollmentUpdate (fun c₂ r₂ h₂ hlog₂ _ => ?_)
    (fun _ _ _ => by simp [Ends, ChecksOut, Txn.andThen])
    (fun _ _ _ _ _ _ => by simp [Ends, ChecksOut, Txn.andThen]))
  rw [hlog₁, List.nil_append] at hlog₂
  have own₂ := own.later (h₁.later.trans h₂)
  rw [hssec]
  refine wp_bind (wp_vacate h₂.rely.valid h₂.rely.inv own₂ hlog₂ (fun c₃ h₃ hlog₃ hcount => ?_)
    fun _ _ h => h)
  have own₃ := own₂.later h₃
  refine wp_bind (wp_enrollmentCreate ?_ (fun _ _ => by simp [Ends, ChecksOut, Txn.andThen])
    (fun _ _ _ _ => by simp [Ends, ChecksOut, Txn.andThen]))
  intro c₄ x t h₄ hlog₄ hheld hunused hpair
  have own₄ := own₃.later h₄
  have h₁₄ := ((h₁.later.trans h₂).trans h₃).trans h₄
  have lock₄ := lock.later h₁₄
  have hfresh : Fresh c₄ ((seatRow userId input.targetSectionId).row x t) := by
    have honly := activePairTaken_eq_false (hpair rfl) hunused
    rw [seen, hlog₃] at hunused honly
    rw [hasEnrollment_departed] at hunused
    have hrows := rowsOf_departed (d := departure droppedAt) h₄.rely.valid own₄.mem other
    exact ⟨hheld, lock₄.held, hunused, hrows ▸ honly⟩
  refine wp_bind (wp_sectionUpdate ?_ (fun _ _ _ => by simp [Ends, ChecksOut, Txn.andThen]) ?_)
  · intro c₅ sec₅ h₅ hlog₅ hsec₅ _
    refine wp_bind (wp_recordEvent fun c₆ c₇ h₆ h₇ hlog₇ hseq => ?_)
    have h₄₆ := h₅.trans h₆.later
    have hl := h₄₆.trans h₇
    have hout : SwapOutcome X op r.id input userId actor r sec live x droppedAt t c₆.world.now
        (c₆.world.seq + 1) c₇ := by
      refine ⟨own₄.later hl, rfl, hactive, hcount.later own₃ (h₄.trans hl), other, lock₄.later hl,
        seat, hfresh.later hl, checked.later (h₁₄.trans hl), .of_now ?_ h₇ hseq, ?_⟩
      · intro s hs
        rcases List.mem_cons.mp hs with rfl | hs
        · exact (own₄.later h₄₆).held
        · rw [List.mem_singleton.mp hs]
          exact (lock₄.later h₄₆).held
      · rw [hlog₇, hlog₅, hlog₄, hlog₃]
        have hevent : swappedEvent userId actor source.row r
            ((seatRow userId input.targetSectionId).row x t)
            = swappedEvent userId actor r r ((seatRow userId input.targetSectionId).row x t) := by
          simp only [swappedEvent, hsid, hssec]
        rw [hevent]
        simp
    refine Or.inr ⟨r, sec, live, x, droppedAt, t, c₆.world.now, _, hout, ?_, rfl, hout.mem_view, rfl,
      rfl, rfl, rfl, fun h => ?_, rfl, (counter 1).patch sec₅, ?_, rfl, rfl⟩
    · exact if_congr beq_iff_eq rfl rfl
    · exact absurd h (by simp [seatRow, EnrollmentCreate.row])
    · exact (view_section?_recorded (h₆.later.trans h₇) (lock₄.later h₅).held hlog₇).trans
        (view_section?_updated hlog₅ hsec₅)
  · intro c₅ sec₅ h₅ hsec hcheck
    have lock₅ := lock₄.later h₅
    rw [seen, hlog₄, hlog₃, applyLog_append] at hsec
    have hlive : (applyLog (.enrollmentPatch r.id (departure droppedAt) :: seatBack r)
        c₅.world).db.section? input.targetSectionId = some live :=
      (section?_departed other).trans lock₅.row
    have hsec' : (applyLog (.enrollmentPatch r.id (departure droppedAt) :: seatBack r)
        c₅.world).db.section? input.targetSectionId = some sec₅ := by
      rw [section?_applyLog] at hsec
      exact hsec
    rw [hlive, Option.some.injEq] at hsec'
    subst hsec'
    have := lock₅.seats h₅.rely.valid
    rw [counter_patch_checkSeats, decide_eq_false_iff_not] at hcheck
    exact absurd ⟨by omega, by omega⟩ hcheck

theorem swapInto_answers {enrollmentId : EnrollmentId} {r₁ : Enrollment} {input : SwapDto}
    {userId : UserId} {actor : RequestActor} (hlog : c.log = []) (hv : c.world.Valid)
    (hr₁ : c.world.db.enrollment? enrollmentId = some r₁)
    (other : r₁.sectionId ≠ input.targetSectionId) :
    wp (Others X op) DrawsOnly
      (swapInto enrollmentId (c.world.db.joinEnrollment r₁) input userId actor)
      (Ends (SwapAnswered X op enrollmentId input userId actor) ChecksOut) c := by
  have herr : ∀ (c' : Ctx postgres) e, ChecksOut (.http e) c' := fun c' e => ChecksOut.http e c'
  refine wp_bind (wp_query fun c₁ h₁ _ => ?_)
  have hlog₁ := h₁.log_nil hlog
  rw [view_of_log_nil hlog₁]
  refine wp_bind (Txn.wp_orThrow (fun _ => herr c₁ _) fun target htarget => ?_)
  obtain ⟨row, hrow, rfl⟩ := Option.map_eq_some_iff.mp htarget
  have hread : SectionRead X op input.targetSectionId (c₁.world.db.joinSection row) c₁ :=
    Earlier.now h₁.later ⟨row, hrow, rfl⟩
  refine wp_bind (wp_registrationGate (fun c₂ h₂ => ?_) fun c' e => herr c' e)
  have hlog₂ := h₂.log_nil hlog₁
  -- both sections exist: a foreign key points to one, and the other has just been read
  have hsrc := section_of_row hv (h₁.trans h₂).later hr₁
  have htgt : (c₂.world.db.section? input.targetSectionId).isSome := by
    rw [h₂.later.rely.grows.isSome, Option.isSome_iff_exists]
    exact ⟨row, hrow⟩
  refine wp_bind (wp_lockBoth hlog₂ hsrc htgt fun c₃ h₃ hlog₃ hheldS hheldT => ?_)
  refine wp_bind (wp_query fun c₄ h₄ _ => ?_)
  have hlog₄ := h₄.log_nil hlog₃
  rw [view_of_log_nil hlog₄]
  refine wp_bind (Txn.wp_orThrow (fun _ => herr c₄ _) fun source hsource => ?_)
  obtain ⟨hjoin, hactive⟩ := Option.filter_eq_some_iff.mp hsource
  obtain ⟨r, hr, rfl⟩ := Option.map_eq_some_iff.mp hjoin
  have h₀₄ : Later X op c c₄ := ((h₁.trans h₂).later.trans h₃).trans h₄.later
  obtain ⟨own₄, hsec⟩ := own_of_reread h₀₄ hr₁ hr (h₄.later.held _ hheldS)
  have hid : r.id = enrollmentId := (enrollment?_mem hr).2
  have hid₁ : r₁.id = enrollmentId := (enrollment?_mem hr₁).2
  refine wp_bind (wp_query fun c₅ h₅ _ => ?_)
  have hlog₅ := h₅.log_nil hlog₄
  rw [view_of_log_nil hlog₅]
  refine wp_bind (Txn.wp_orThrow (fun _ => herr c₅ _) fun lockedTarget hlocked => ?_)
  obtain ⟨hjoin', hseat⟩ := Option.filter_eq_some_iff.mp hlocked
  obtain ⟨live, hlive, rfl⟩ := Option.map_eq_some_iff.mp hjoin'
  have lock₅ : Locked c₅ input.targetSectionId live :=
    ⟨h₅.later.held _ (h₄.later.held _ hheldT), hlive⟩
  have h₀₅ : Later X op c c₅ := h₀₄.trans h₅.later
  rw [← hid]
  refine wp_bind (wp_swapEligibility hlog₅ h₅.later.rely.valid h₅.later.rely.inv lock₅.held
    (((hread.later h₂.later).later h₃).later (h₄.trans h₅).later) ?_
    (fun c₆ h₆ checked => ?_) fun c' e => herr c' e)
  · show c.world.db.courseOf r₁.sectionId = _
    rw [h₀₅.rely.grows.courseOf, hsec]
  · refine swapExecute_answers (h₆.log_nil hlog₅) ((own₄.later h₅.later).later h₆.later) hactive
      (hid₁.trans hid.symm) hsec.symm (fun h => other (hsec.symm.trans h))
      (lock₅.later h₆.later) ?_ checked
    exact of_decide_eq_true hseat

/-- **What `swap` has done and answers when it commits.** -/
theorem swap_answers {enrollmentId : EnrollmentId} {input : SwapDto} {userId : UserId}
    {actor : RequestActor} (hlog : c.log = []) :
    wp (Others X op) DrawsOnly (swap enrollmentId input userId actor)
      (Ends (SwapAnswered X op enrollmentId input userId actor) ChecksOut) c := by
  have herr : ∀ (c' : Ctx postgres) e, ChecksOut (.http e) c' := fun c' e => ChecksOut.http e c'
  refine wp_bind (wp_query fun c₁ h₁ _ => ?_)
  have hlog₁ := h₁.log_nil hlog
  rw [view_of_log_nil hlog₁]
  refine wp_bind (Txn.wp_orThrow (fun _ => herr c₁ _) fun source hsource => ?_)
  obtain ⟨r₁, hr₁, rfl⟩ := Option.map_eq_some_iff.mp hsource
  refine wp_bind (Txn.wp_throwIf (fun _ => herr c₁ _) fun _ => ?_)
  show wp _ _ (if r₁.sectionId = input.targetSectionId then _ else _) _ _
  split
  · rename_i hsame
    obtain ⟨hmem, hid⟩ := enrollment?_mem hr₁
    have hin : c₁.world.InSection enrollmentId input.targetSectionId := ⟨r₁, hmem, hid, hsame⟩
    exact wp_bind (wp_query fun c₂ h₂ _ =>
      Or.inl ⟨hin.grows h₂.later.rely.grows, h₂.log_nil hlog₁, rfl⟩)
  · exact swapInto_answers hlog₁ h₁.later.rely.valid hr₁ ‹_›

/-- **What `swap` has done when it commits.** -/
theorem swap_spec {enrollmentId : EnrollmentId} {input : SwapDto} {userId : UserId}
    {actor : RequestActor} (hlog : c.log = []) :
    wp (Others X op) DrawsOnly (swap enrollmentId input userId actor)
      (Ends (fun _ => SwapEnds X op enrollmentId input userId actor) ChecksOut) c := by
  refine Txn.wp_mono ?_ (swap_answers hlog)
  intro r c' hr
  cases r with
  | ok f => exact SwapAnswered.ends hr
  | error e => exact hr

end Enroll
