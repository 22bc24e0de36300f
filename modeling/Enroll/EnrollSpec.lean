/-
# What a committed enroll has done

`enroll_spec`: a run of `enroll` that is about to commit is in one of three situations
(`EnrollOutcome`).  Either the student held an active row in the section and nothing is written;
or the section has an open seat and the log is a new ENROLLED row, the counter one up, and one
audit row; or it has no open seat and the log is a new WAITLISTED row behind all others and one
audit row.  Everything an outcome says of the section is true in the world it commits to, because
the section's row lock is held.

`enroll_replies` says in addition what the answer tells the student (`EnrollReply`), and that the
unique index never refuses the new row: the lock and the read of the active row are enough.
-/
import Enroll.Checks
import Enroll.Queue

namespace Enroll

open Txn (Ctx Prog Forward wp wp_bind)

variable {X : Extra} {op : Op} {c c' : Ctx postgres}

/-! ## 1. Outcomes -/

/-- How a transaction ends: committed with `P`, or failed with `F`. -/
def Ends {α : Type} (P : α → Ctx postgres → Prop) (F : Failure → Ctx postgres → Prop) :
    Except Failure α → Ctx postgres → Prop
  | .ok a, c => P a c
  | .error e, c => F e c

/-- A row about to be inserted: its id is unused and its student has no active row in its
section. -/
structure Fresh (c : Ctx postgres) (r : Enrollment) : Prop where
  held : c.held (.enrollmentRow r.id)
  locked : c.held (.sectionRow r.sectionId)
  unused : c.world.db.hasEnrollment r.id = false
  only : ∀ r' ∈ c.world.db.rowsOf r.sectionId, r'.active = true → r'.studentId ≠ r.studentId

theorem Fresh.later {r : Enrollment} (h : Fresh c r) (hl : Later X op c c') : Fresh c' r where
  held := hl.held _ h.held
  locked := hl.held _ h.locked
  unused := (Later.hasEnrollment hl h.held).trans h.unused
  only := by rw [Later.rowsOf hl h.locked]; exact h.only

/-- The outbox id `n` was drawn by the transaction while it held the sections `ss`. -/
structure Drawn (X : Extra) (op : Op) (ss : List SectionId) (n : OutboxId) (c : Ctx postgres) :
    Prop where
  next : Earlier X op (fun c₁ => (∀ s ∈ ss, c₁.held (.sectionRow s)) ∧ n = c₁.world.seq + 1) c
  le : n ≤ c.world.seq

theorem Drawn.later {ss : List SectionId} {n : OutboxId} (h : Drawn X op ss n c)
    (hl : Later X op c c') : Drawn X op ss n c' :=
  ⟨h.next.later hl, Nat.le_trans h.le hl.rely.grows.seq⟩

/-- An id drawn at `c₁`, when the transaction is at `c'`. -/
theorem Drawn.of_next {ss : List SectionId} {c₁ c₂ : Ctx postgres}
    (hss : ∀ s ∈ ss, c₁.held (.sectionRow s)) (h : Later X op c₁ c₂)
    (hseq : c₂.world.seq = c₁.world.seq + 1) (hl : Later X op c₂ c') :
    Drawn X op ss (c₁.world.seq + 1) c' :=
  ⟨⟨c₁, h.trans hl, hss, rfl⟩, hseq ▸ hl.rely.grows.seq⟩

theorem Drawn.of_now {ss : List SectionId} {c₁ c₂ : Ctx postgres}
    (hss : ∀ s ∈ ss, c₁.held (.sectionRow s)) (h : Later X op c₁ c₂)
    (hseq : c₂.world.seq = c₁.world.seq + 1) : Drawn X op ss (c₁.world.seq + 1) c₂ :=
  ⟨⟨c₁, h, hss, rfl⟩, Nat.le_of_eq hseq.symm⟩

/-- What `enroll` has checked before it writes. -/
structure EnrollChecked (X : Extra) (op : Op) (input : EnrollDto) (userId : UserId)
    (sec : SectionJoin) (c : Ctx postgres) : Prop where
  read : SectionRead X op input.sectionId sec c
  duplicate : Earlier X op (fun c₁ => c₁.held (.sectionRow input.sectionId) ∧
    Stmt.read (.enrollmentFindFirst
      (sameCourseElsewhere userId sec.sec.courseId input.sectionId)) ∈ c₁.trace ∧
    c₁.world.db.select (sameCourseElsewhere userId sec.sec.courseId input.sectionId) = []) c
  prerequisites : PrerequisitesChecked X op sec.sec.courseId userId c
  schedule : ScheduleChecked X op sec userId (fun r => r.sectionId != input.sectionId) c

theorem EnrollChecked.later {input : EnrollDto} {userId : UserId} {sec : SectionJoin}
    (h : EnrollChecked X op input userId sec c) (hl : Later X op c c') :
    EnrollChecked X op input userId sec c' :=
  ⟨h.read.later hl, h.duplicate.later hl, h.prerequisites.later hl, h.schedule.later hl⟩

/-- What `enroll` is about to commit. -/
inductive EnrollOutcome (X : Extra) (op : Op) (input : EnrollDto) (userId : UserId)
    (actor : RequestActor) (c : Ctx postgres) : Prop
  | already (log : c.log = [])
  | seated (sec : SectionJoin) (live : Section) (x : EnrollmentId) (t t' : Time) (n : OutboxId)
      (lock : Locked c input.sectionId live)
      (seat : live.enrolledCount < live.capacity)
      (fresh : Fresh c ((seatRow userId input.sectionId).row x t))
      (checked : EnrollChecked X op input userId sec c)
      (drawn : Drawn X op [input.sectionId] n c)
      (log : c.log = [.enrollmentInsert ((seatRow userId input.sectionId).row x t),
        .sectionPatch input.sectionId (counter 1),
        .auditInsert ((createdEvent userId actor
          ((seatRow userId input.sectionId).row x t)).row n t')])
  | queued (sec : SectionJoin) (live : Section) (x : EnrollmentId) (t t' : Time) (n : OutboxId)
      (p : Int)
      (lock : Locked c input.sectionId live)
      (full : live.capacity ≤ live.enrolledCount)
      (cap : ∀ k, live.waitlistCap = some k → ((c.world.db.waiting input.sectionId).length : Int) < k)
      (position : p = nextPosition (c.world.db.waiting input.sectionId))
      (fresh : Fresh c ((queueRow userId input.sectionId p).row x t))
      (checked : EnrollChecked X op input userId sec c)
      (drawn : Drawn X op [input.sectionId] n c)
      (log : c.log = [.enrollmentInsert ((queueRow userId input.sectionId p).row x t),
        .auditInsert ((waitlistedEvent userId actor
          ((queueRow userId input.sectionId p).row x t) p).row n t')])

theorem EnrollOutcome.later {input : EnrollDto} {userId : UserId} {actor : RequestActor}
    (h : EnrollOutcome X op input userId actor c) (hl : Later X op c c') (hlog : c'.log = c.log) :
    EnrollOutcome X op input userId actor c' := by
  cases h with
  | already log => exact .already (hlog.trans log)
  | seated sec live x t t' n lock seat fresh checked drawn log =>
    exact .seated sec live x t t' n (lock.later hl) seat (fresh.later hl) (checked.later hl)
      (drawn.later hl) (hlog.trans log)
  | queued sec live x t t' n p lock full cap position fresh checked drawn log =>
    have hw := Later.waiting hl lock.held
    exact .queued sec live x t t' n p (lock.later hl) full (by rw [hw]; exact cap)
      (by rw [hw]; exact position) (fresh.later hl) (checked.later hl) (drawn.later hl)
      (hlog.trans log)

/-! ## 2. Answers -/

/-- What `computeRank` counts: the waiting rows up to the position `p`. -/
def Db.rankAt (db : Db) (s : SectionId) (p : Int) : Nat :=
  (db.waiting s).countP (fun r => r.waitlistPosition.any (· ≤ p))

theorem count_rankAt (w : World) (s : SectionId) (p : Int) :
    (Query.enrollmentCount
      { sectionId := some s, status := some [.WAITLISTED],
        waitlistPositionLte := some p }).eval w = w.db.rankAt s p := by
  simp only [Query.eval]
  rw [select_section w.db _ rfl, ← List.countP_eq_length_filter, Db.rankAt, Db.waiting,
    List.countP_filter]
  refine List.countP_congr fun r hr => ?_
  have hsec : r.sectionId = s := (mem_rowsOf.mp hr).2
  simp [EnrollmentWhere.matches, hsec, Enrollment.waitlisted, and_comm]

/-- The rows of a locked section, in the transaction's own view. -/
theorem Later.view_rowsOf (h : Later X op c c') {s : SectionId} (hs : c.held (.sectionRow s))
    (hlog : c'.log = c.log) : c'.view.db.rowsOf s = c.view.db.rowsOf s := by
  have hview : ∀ c : Ctx postgres, c.view = applyLog c.log c.world := fun _ => rfl
  rw [hview, hview, rowsOf_applyLog, rowsOf_applyLog, hlog, Later.rowsOf h hs]

theorem Later.view_section? (h : Later X op c c') {s : SectionId} (hs : c.held (.sectionRow s))
    (hlog : c'.log = c.log) : c'.view.db.section? s = c.view.db.section? s := by
  have hview : ∀ c : Ctx postgres, c.view = applyLog c.log c.world := fun _ => rfl
  rw [hview, hview, section?_applyLog, section?_applyLog, hlog, Later.section? h hs]

theorem rankAt_congr {db db' : Db} {s : SectionId} (h : db'.rowsOf s = db.rowsOf s) (p : Int) :
    db'.rankAt s p = db.rankAt s p := by
  unfold Db.rankAt Db.waiting
  rw [h]

/-- The answer `a` says of the row `r` and of its section what the tables say. -/
structure Db.Tells (db : Db) (a : EnrollmentResultDto) (r : Enrollment) : Prop where
  row : r ∈ db.rowsOf a.sectionId
  id : a.id = r.id
  student : a.studentId = r.studentId
  status : a.status = r.status
  enrolledAt : a.enrolledAt = r.enrolledAt
  droppedAt : r.status = .DROPPED → a.droppedAt = r.droppedAt
  rank : a.waitlistPosition =
    if r.status = .WAITLISTED then r.waitlistPosition.map (db.rankAt a.sectionId) else none
  counts : ∃ sec, db.section? a.sectionId = some sec ∧ a.sectionEnrolledCount = sec.enrolledCount ∧
    a.sectionCapacity = sec.capacity

theorem Db.Tells.congr {db db' : Db} {a : EnrollmentResultDto} {r : Enrollment} (h : db.Tells a r)
    (hrows : db'.rowsOf a.sectionId = db.rowsOf a.sectionId)
    (hsec : db'.section? a.sectionId = db.section? a.sectionId) : db'.Tells a r where
  row := hrows ▸ h.row
  id := h.id
  student := h.student
  status := h.status
  enrolledAt := h.enrolledAt
  droppedAt := h.droppedAt
  rank := by
    have hrank : db'.rankAt a.sectionId = db.rankAt a.sectionId := funext (rankAt_congr hrows)
    rw [hrank]
    exact h.rank
  counts := hsec ▸ h.counts

/-- The answer `a` tells of the row `r`: an active row of the student in the section, as it is in
the view that is about to be committed. -/
structure EnrollReply (X : Extra) (op : Op) (input : EnrollDto) (userId : UserId)
    (a : EnrollmentResultDto) (r : Enrollment) (c : Ctx postgres) : Prop where
  held : c.held (.sectionRow input.sectionId)
  row : r ∈ c.view.db.rowsOf input.sectionId
  student : r.studentId = userId
  active : r.active = true
  id : a.id = r.id
  status : a.status = r.status
  rank : ∀ p, r.status = .WAITLISTED → r.waitlistPosition = some p →
    a.waitlistPosition = some (c.view.db.rankAt input.sectionId p)
  /-- a new row: nothing has happened in the section since it was inserted -/
  inserted : c.log ≠ [] → ∃ c₁, Later X op c₁ c ∧ c₁.log = [.enrollmentInsert r] ∧
    c₁.view.db.rowsOf input.sectionId = c.view.db.rowsOf input.sectionId

theorem EnrollReply.later {input : EnrollDto} {userId : UserId} {a : EnrollmentResultDto}
    {r : Enrollment} (h : EnrollReply X op input userId a r c) (hl : Later X op c c')
    (hlog : c'.log = c.log) : EnrollReply X op input userId a r c' := by
  have hrows := Later.view_rowsOf hl h.held hlog
  refine ⟨hl.held _ h.held, hrows ▸ h.row, h.student, h.active, h.id, h.status, ?_, ?_⟩
  · intro p hst hp
    rw [rankAt_congr hrows]
    exact h.rank p hst hp
  · intro hne
    obtain ⟨c₁, hl₁, hlog₁, hrows₁⟩ := h.inserted (hlog ▸ hne)
    exact ⟨c₁, hl₁.trans hl, hlog₁, hrows₁.trans hrows.symm⟩

/-- What `enroll` achieves, and all that it answers. -/
abbrev EnrollAnswered (X : Extra) (op : Op) (input : EnrollDto) (userId : UserId)
    (actor : RequestActor) : Except Failure EnrollmentResultDto → Ctx postgres → Prop :=
  Ends (fun a c => EnrollOutcome X op input userId actor c ∧ a.sectionId = input.sectionId ∧
      ∃ r, EnrollReply X op input userId a r c ∧ c.view.db.Tells a r)
    (fun e _ => e ≠ .db .checkViolation ∧ e ≠ .db .uniqueViolation)

/-- What `enroll` achieves, and what it answers. -/
abbrev EnrollReplied (X : Extra) (op : Op) (input : EnrollDto) (userId : UserId)
    (actor : RequestActor) : Except Failure EnrollmentResultDto → Ctx postgres → Prop :=
  Ends (fun a c => EnrollOutcome X op input userId actor c ∧
      ∃ r, EnrollReply X op input userId a r c)
    (fun e _ => e ≠ .db .checkViolation ∧ e ≠ .db .uniqueViolation)

/-! ## 3. The checks of enroll -/

@[simp] theorem activeStatuses_contains (st : EnrollmentStatus) :
    activeStatuses.contains st = st.active := by
  cases st <;> rfl

theorem matches_activeInTerm {db : Db} {u : UserId} {t : TermId} {r : Enrollment} :
    (activeInTerm u t).matches db r
      = (r.studentId == u && r.active && db.termOf r.sectionId == t) := by
  simp only [EnrollmentWhere.matches, activeInTerm, Option.all_some, Option.all_none, Bool.and_true,
    activeStatuses_contains, Bool.beq_comm (b := r.studentId), Bool.beq_comm (b := db.termOf _),
    Enrollment.active]

/-- The student's active rows in a term and outside a section, as `enroll` reads them. -/
theorem activeInTerm_elsewhere (w : World) {u : UserId} {t : TermId} {s : SectionId} :
    ((Query.enrollmentFindMany (activeInTerm u t)).eval w).filter (fun e => e.row.sectionId != s)
      = (w.db.activeRows u t (fun r => r.sectionId != s)).map w.db.joinEnrollment := by
  simp only [Query.eval, List.filter_map, Db.select, List.filter_filter, Db.activeRows]
  congr 1
  refine List.filter_congr fun r _ => ?_
  rw [matches_activeInTerm, Bool.and_comm]
  rfl

theorem wp_enrollEligibility {sec : SectionJoin} {input : EnrollDto} {userId : UserId}
    {Q : Except Failure Unit → Ctx postgres → Prop} (hlog : c.log = [])
    (hheld : c.held (.sectionRow input.sectionId))
    (hread : SectionRead X op input.sectionId sec c)
    (hok : ∀ c', Quiet X op c c' → EnrollChecked X op input userId sec c' → Q (.ok ()) c')
    (herr : ∀ c' e, Q (.error (.http e)) c') :
    wp (Others X op) DrawsOnly (enrollEligibility sec input userId) Q c := by
  refine wp_bind (wp_query fun c₁ h₁ htr => ?_)
  have hlog₁ := h₁.log_nil hlog
  rw [view_of_log_nil hlog₁]
  refine wp_bind (Txn.wp_throwIf (fun _ => herr _ _) fun hnone => ?_)
  have hdup : c₁.world.db.select
      (sameCourseElsewhere userId sec.sec.courseId input.sectionId) = [] := by
    simpa [Query.eval] using hnone
  refine wp_bind (wp_prerequisiteGate hlog₁ (fun c₂ h₂ hpre => ?_) herr)
  have hlog₂ := h₂.log_nil hlog₁
  refine wp_bind (wp_query fun c₃ h₃ _ => ?_)
  have hlog₃ := h₃.log_nil hlog₂
  rw [view_of_log_nil hlog₃]
  refine wp_scheduleGate hlog₃ (activeInTerm_elsewhere _) (fun c₄ h₄ hsched => ?_) herr
  have h₁₄ := (h₂.trans h₃).trans h₄
  refine hok c₄ (h₁.trans h₁₄) ⟨hread.later (h₁.trans h₁₄).later, ?_, ?_, hsched⟩
  · exact ⟨c₁, h₁₄.later, h₁.later.held _ hheld, htr, hdup⟩
  · exact hpre.later (h₃.trans h₄).later

/-! ## 4. The two endings -/

/-- Where the student has no active row, the unique index has no entry in the way. -/
theorem activePairTaken_of_none {db : Db} {u : UserId} {s : SectionId}
    (h : ∀ r ∈ db.rowsOf s, r.active = true → r.studentId ≠ u) (x : EnrollmentId) :
    db.activePairTaken x u s = false := by
  refine List.any_eq_false.mpr fun r hr => ?_
  simp only [Bool.and_eq_true, beq_iff_eq, bne_iff_ne, not_and]
  exact fun ha hs => h r (mem_rowsOf.mpr ⟨hr, hs⟩) ha.1.2 ha.2

@[simp] theorem counter_patch_checkSeats (n : Int) (s : Section) :
    ((counter n).patch s).checkSeats = decide (0 ≤ s.enrolledCount + n ∧
      s.enrolledCount + n ≤ s.capacity) := rfl

/-- The rows of a section in a view whose log inserts a row and then leaves the rows alone. -/
theorem view_rowsOf_inserted {s : SectionId} {r : Enrollment} {rest : List Write}
    (hsec : r.sectionId = s) (hlog : c.log = .enrollmentInsert r :: rest)
    (hrest : ∀ rows, rest.foldl (fun rows wr => wr.onRows s rows) rows = rows) :
    c.view.db.rowsOf s = c.world.db.rowsOf s ++ [r] := by
  have hview : c.view = applyLog c.log c.world := rfl
  rw [hview, rowsOf_applyLog, hlog, List.foldl_cons, hrest]
  exact if_pos hsec

/-- The new row is there. -/
theorem mem_rowsOf_inserted {s : SectionId} {r : Enrollment} {rest : List Write}
    (hsec : r.sectionId = s) (hlog : c.log = .enrollmentInsert r :: rest)
    (hrest : ∀ rows, rest.foldl (fun rows wr => wr.onRows s rows) rows = rows) :
    r ∈ c.view.db.rowsOf s := by
  rw [view_rowsOf_inserted hsec hlog hrest]
  exact List.mem_append_right _ (List.mem_singleton_self r)

/-- The answer about a new row: `c₁` is where it has just been inserted. -/
theorem EnrollReply.of_inserted {input : EnrollDto} {userId : UserId} {a : EnrollmentResultDto}
    {r : Enrollment} {rest : List Write} {c₁ : Ctx postgres}
    (held : c₁.held (.sectionRow input.sectionId)) (hl : Later X op c₁ c)
    (hlog₁ : c₁.log = [.enrollmentInsert r]) (hlog : c.log = .enrollmentInsert r :: rest)
    (hrest : ∀ rows, rest.foldl (fun rows wr => wr.onRows input.sectionId rows) rows = rows)
    (hsec : r.sectionId = input.sectionId) (student : r.studentId = userId)
    (active : r.active = true) (id : a.id = r.id) (status : a.status = r.status)
    (rank : ∀ p, r.status = .WAITLISTED → r.waitlistPosition = some p →
      a.waitlistPosition = some (c₁.view.db.rankAt input.sectionId p)) :
    EnrollReply X op input userId a r c := by
  have hrows₁ := view_rowsOf_inserted hsec hlog₁ fun _ => rfl
  have hrows := view_rowsOf_inserted hsec hlog hrest
  have hsame : c.view.db.rowsOf input.sectionId = c₁.view.db.rowsOf input.sectionId := by
    rw [hrows, hrows₁, Later.rowsOf hl held]
  refine ⟨hl.held _ held, mem_rowsOf_inserted hsec hlog hrest, student, active, id, status, ?_, ?_⟩
  · intro p hst hp
    rw [rankAt_congr hsame]
    exact rank p hst hp
  · exact fun _ => ⟨c₁, hl, hlog₁, hsame.symm⟩

theorem enroll_takeSeat {input : EnrollDto} {userId : UserId} {actor : RequestActor}
    {sec : SectionJoin} {live : Section} (hlog : c.log = [])
    (lock : Locked c input.sectionId live) (seat : live.enrolledCount < live.capacity)
    (none : ∀ r ∈ c.world.db.rowsOf input.sectionId, r.active = true → r.studentId ≠ userId)
    (checked : EnrollChecked X op input userId sec c) :
    wp (Others X op) DrawsOnly (takeSeat input userId actor)
      (EnrollAnswered X op input userId actor) c := by
  refine wp_bind (wp_enrollmentCreate ?_ (fun _ _ => by simp [Ends, Txn.andThen]) ?_)
  · intro c₁ x t h₁ hlog₁ hheld hunused _
    rw [seen_of_log_nil hlog] at hunused
    rw [hlog, List.nil_append] at hlog₁
    have lock₁ := lock.later h₁
    rw [← Later.rowsOf h₁ lock.held] at none
    have hfresh : Fresh c₁ ((seatRow userId input.sectionId).row x t) :=
      ⟨hheld, lock₁.held, hunused, none⟩
    have hseen : ∀ c₂, Later X op c₁ c₂ →
        (seen c₁ c₂).db.section? input.sectionId = some live := by
      intro c₂ h₂
      rw [seen, hlog₁, section?_applyLog]
      exact (lock₁.later h₂).row
    refine wp_bind (wp_sectionUpdate ?_ ?_ ?_)
    · intro c₂ sec₂ h₂ hlog₂ hsec₂ _
      refine wp_bind (wp_recordEvent fun c₃ c₄ h₃ h₄ hlog₄ hseq => ?_)
      have hl : Later X op c₁ c₄ := (h₂.trans h₃.later).trans h₄
      rw [hlog₂, hlog₁] at hlog₄
      refine ⟨.seated sec live x t c₃.world.now _ (lock₁.later hl) seat (hfresh.later hl)
        ((checked.later h₁).later hl) (.of_now ?_ h₄ hseq) hlog₄, rfl,
        (seatRow userId input.sectionId).row x t, ?_,
        ⟨mem_rowsOf_inserted rfl hlog₄ fun _ => rfl, rfl, rfl, rfl, rfl, fun h => ?_, rfl, ?_⟩⟩
      · intro s hs
        rw [List.mem_singleton.mp hs]
        exact (lock₁.later (h₂.trans h₃.later)).held
      · exact .of_inserted lock₁.held hl hlog₁ hlog₄ (fun _ => rfl) rfl rfl rfl rfl rfl
          fun p hst => absurd hst (by simp [seatRow, EnrollmentCreate.row])
      · exact absurd h (by simp [seatRow, EnrollmentCreate.row])
      · rw [hseen c₂ h₂, Option.some.injEq] at hsec₂
        subst hsec₂
        refine ⟨(counter 1).patch live, ?_, rfl, rfl⟩
        have hview : c₄.view = applyLog c₄.log c₄.world := rfl
        rw [hview, section?_applyLog, hlog₄]
        show (c₄.world.db.section? input.sectionId).map _ = _
        rw [(lock₁.later hl).row, Option.map_some]
        exact congrArg some (if_pos rfl)
    · exact fun _ _ _ => by simp [Ends, Txn.andThen]
    · intro c₂ sec₂ h₂ hsec hcheck
      rw [hseen c₂ h₂, Option.some.injEq] at hsec
      subst hsec
      have := (lock₁.later h₂).seats h₂.rely.valid
      rw [counter_patch_checkSeats, decide_eq_false_iff_not] at hcheck
      exact absurd ⟨by omega, by omega⟩ hcheck
  · intro c₁ x h₁ htaken
    rw [seen_of_log_nil hlog] at htaken
    rw [← Later.rowsOf h₁ lock.held] at none
    have hfree := activePairTaken_of_none none x
    exact absurd (htaken.symm.trans hfree) (by simp)

theorem wp_waitlistCapGate {live : SectionJoin} {input : EnrollDto}
    {Q : Except Failure Unit → Ctx postgres → Prop} (hlog : c.log = [])
    (hok : ∀ c', Quiet X op c c' → (∀ k, live.sec.waitlistCap = some k →
      ((c'.world.db.waiting input.sectionId).length : Int) < k) → Q (.ok ()) c')
    (hv : c.world.Valid) (hi : X.inv c.world)
    (herr : ∀ c' e, Q (.error (.http e)) c') :
    wp (Others X op) DrawsOnly (waitlistCapGate live input) Q c := by
  unfold waitlistCapGate
  cases hcap : live.sec.waitlistCap with
  | none => exact hok c ⟨Later.refl hv hi, rfl, rfl⟩ (by simp [hcap])
  | some cap =>
    refine wp_bind (wp_query fun c₁ h₁ _ => ?_)
    rw [view_of_log_nil (h₁.log_nil hlog)]
    refine Txn.wp_throwIf (fun _ => herr _ _) fun hlt => hok c₁ h₁ ?_
    intro k hk
    rw [hcap, Option.some.injEq] at hk
    subst hk
    simpa [Query.eval, select_waiting] using hlt

theorem wp_assignPosition {s : SectionId} {Q : Except Failure Int → Ctx postgres → Prop}
    (hlog : c.log = [])
    (hok : ∀ c', Quiet X op c c' → Q (.ok (nextPosition (c'.world.db.waiting s))) c') :
    wp (Others X op) DrawsOnly (assignPosition s) Q c := by
  refine wp_bind (wp_query fun c₁ h₁ _ => ?_)
  rw [view_of_log_nil (h₁.log_nil hlog)]
  have := hok c₁ h₁
  unfold nextPosition at this
  rw [← select_waiting] at this
  exact this

theorem enroll_joinWaitlist {input : EnrollDto} {userId : UserId} {actor : RequestActor}
    {sec live : SectionJoin} (hlog : c.log = []) (hv : c.world.Valid) (hi : X.inv c.world)
    (lock : Locked c input.sectionId live.sec) (full : live.sec.capacity ≤ live.sec.enrolledCount)
    (none : ∀ r ∈ c.world.db.rowsOf input.sectionId, r.active = true → r.studentId ≠ userId)
    (checked : EnrollChecked X op input userId sec c) :
    wp (Others X op) DrawsOnly (joinWaitlist live input userId actor)
      (EnrollAnswered X op input userId actor) c := by
  refine wp_bind (wp_waitlistCapGate hlog (fun c₁ h₁ hcap => ?_) hv hi
    (fun _ _ => by simp [Ends, Txn.andThen]))
  refine wp_bind (wp_assignPosition (h₁.log_nil hlog) fun c₂ h₂ => ?_)
  have hlog₂ := h₂.log_nil (h₁.log_nil hlog)
  have l₁ := lock.later h₁.later
  have l₂ := l₁.later h₂.later
  rw [← Later.rowsOf h₁.later lock.held, ← Later.rowsOf h₂.later l₁.held] at none
  refine wp_bind (wp_enrollmentCreate ?_ (fun _ _ => by simp [Ends, Txn.andThen]) ?_)
  · intro c₃ x t h₃ hlog₃ hheld hunused _
    rw [seen_of_log_nil hlog₂] at hunused
    rw [hlog₂, List.nil_append] at hlog₃
    have l₃ := l₂.later h₃
    have hw₂ := Later.waiting h₂.later l₁.held
    have hw₃ := Later.waiting h₃ l₂.held
    rw [← Later.rowsOf h₃ l₂.held] at none
    have hfresh : Fresh c₃ ((queueRow userId input.sectionId
        (nextPosition (c₂.world.db.waiting input.sectionId))).row x t) :=
      ⟨hheld, l₃.held, hunused, none⟩
    refine wp_bind (wp_query fun c₄ h₄ _ => ?_)
    rw [count_rankAt]
    refine wp_bind (wp_recordEvent fun c₅ c₆ h₅ h₆ hlog₆ hseq => ?_)
    have h₃₅ : Later X op c₃ c₅ := (h₄.trans h₅).later
    have hl : Later X op c₃ c₆ := h₃₅.trans h₆
    have hw := Later.waiting hl l₃.held
    rw [h₄.log, hlog₃] at hlog₆
    have hrank := rankAt_congr (Later.view_rowsOf h₄.later l₃.held h₄.log)
    refine ⟨.queued sec live.sec x t c₅.world.now _ _ (l₃.later hl) full ?_ ?_ (hfresh.later hl)
      (checked.later (((h₁.trans h₂).later.trans h₃).trans hl)) (.of_now ?_ h₆ hseq) hlog₆, rfl,
      (queueRow userId input.sectionId (nextPosition (c₂.world.db.waiting input.sectionId))).row x t,
      ?_, ⟨mem_rowsOf_inserted rfl hlog₆ fun _ => rfl, rfl, rfl, rfl, rfl, fun h => ?_, ?_,
        live.sec, ?_, rfl, rfl⟩⟩
    · rw [hw, hw₃, hw₂]
      exact hcap
    · rw [hw, hw₃]
    · intro s hs
      rw [List.mem_singleton.mp hs]
      exact (l₃.later h₃₅).held
    · refine .of_inserted l₃.held hl hlog₃ hlog₆ (fun _ => rfl) rfl rfl rfl rfl rfl fun p _ hp => ?_
      rw [← Option.some.inj hp, ← hrank]
    · exact absurd h (by simp [queueRow, EnrollmentCreate.row])
    · have hrows₃ := view_rowsOf_inserted rfl hlog₃ fun _ => rfl
      have hrows₆ := view_rowsOf_inserted rfl hlog₆ fun _ => rfl
      have hsame := hrows₆.trans ((congrArg (· ++ _) (Later.rowsOf hl l₃.held)).trans hrows₃.symm)
      exact congrArg some ((hrank _).trans (rankAt_congr hsame _).symm)
    · have hview : c₆.view = applyLog c₆.log c₆.world := rfl
      rw [hview, section?_applyLog, hlog₆]
      exact (l₃.later hl).row
  · intro c₃ x h₃ htaken
    rw [seen_of_log_nil hlog₂] at htaken
    rw [← Later.rowsOf h₃ l₂.held] at none
    have hfree := activePairTaken_of_none none x
    exact absurd (htaken.symm.trans hfree) (by simp)

/-! ## 5. The transaction -/

/-- A repeat request writes nothing, and answers with the row that is there. -/
theorem wp_alreadyActive {live : SectionJoin} {input : EnrollDto} {r : Enrollment}
    {Q : Except Failure EnrollmentResultDto → Ctx postgres → Prop} (hlog : c.log = [])
    (lock : Locked c input.sectionId live.sec)
    (hr : r ∈ c.world.db.rowsOf input.sectionId) (ha : r.active = true)
    (hok : ∀ c' a, c'.log = [] → a.sectionId = input.sectionId →
      EnrollReply X op input r.studentId a r c' → c'.view.db.Tells a r → Q (.ok a) c') :
    wp (Others X op) DrawsOnly (alreadyActive live input r) Q c := by
  have hsec : r.sectionId = input.sectionId := (mem_rowsOf.mp hr).2
  have hdropped : r.status ≠ .DROPPED := fun h => absurd ha (by simp [Enrollment.active, h,
    EnrollmentStatus.active])
  unfold alreadyActive
  split
  · rename_i hst hp
    refine wp_bind (wp_query fun c₁ h₁ _ => ?_)
    have hlog₁ := h₁.log_nil hlog
    have lock₁ := lock.later h₁.later
    have hr₁ : r ∈ c₁.view.db.rowsOf input.sectionId := by
      rw [view_of_log_nil hlog₁, Later.rowsOf h₁.later lock.held]
      exact hr
    rw [count_rankAt]
    refine hok c₁ _ hlog₁ hsec ⟨lock₁.held, hr₁, rfl, ha, rfl, rfl, fun q _ hq => ?_,
      fun hne => absurd hlog₁ hne⟩ ⟨hsec ▸ hr₁, rfl, rfl, rfl, rfl, fun h => absurd h hdropped, ?_,
      live.sec, ?_, rfl, rfl⟩
    · rw [hp, Option.some.injEq] at hq
      rw [← hq]
    · rw [if_pos hst, hp, hsec]
      rfl
    · rw [view_of_log_nil hlog₁, hsec]
      exact lock₁.row
  · rename_i hno
    have hr' : r ∈ c.view.db.rowsOf input.sectionId := by
      rw [view_of_log_nil hlog]
      exact hr
    refine hok c _ hlog hsec ⟨lock.held, hr', rfl, ha, rfl, rfl,
      fun q hst hq => absurd hq (hno q hst), fun hne => absurd hlog hne⟩ ⟨hsec ▸ hr', rfl, rfl, rfl,
      rfl, fun h => absurd h hdropped, ?_, live.sec, ?_, rfl, rfl⟩
    · split
      · cases hp : r.waitlistPosition with
        | none => rfl
        | some p => exact absurd hp (hno p ‹_›)
      · rfl
    · rw [view_of_log_nil hlog, hsec]
      exact lock.row

/-- The rows that the read under the lock looks for. -/
theorem mem_activeHere {db : Db} {u : UserId} {s : SectionId} {r : Enrollment} :
    r ∈ db.select { studentId := some u, sectionId := some s, status := some activeStatuses } ↔
      r ∈ db.rowsOf s ∧ r.studentId = u ∧ r.active = true := by
  rw [select_section db _ rfl, List.mem_filter]
  refine and_congr_right fun hr => ?_
  have hsec : r.sectionId = s := (mem_rowsOf.mp hr).2
  simp only [EnrollmentWhere.matches, Option.all_some, Option.all_none, Bool.and_true,
    activeStatuses_contains, hsec, beq_self_eq_true, Bool.and_eq_true, beq_iff_eq,
    Enrollment.active, eq_comm (a := u)]

/-- **What `enroll` has done and answers when it commits; it never trips over the `CHECK` or over
the unique index.** -/
theorem enroll_answers {input : EnrollDto} {userId : UserId} {actor : RequestActor}
    (hlog : c.log = []) :
    wp (Others X op) DrawsOnly (enroll input userId actor)
      (EnrollAnswered X op input userId actor) c := by
  have herr : ∀ (c' : Ctx postgres) e,
      EnrollAnswered X op input userId actor (.error (.http e)) c' := by
    intro c' e
    simp [Ends]
  refine wp_bind (wp_query fun c₁ h₁ _ => ?_)
  have hlog₁ := h₁.log_nil hlog
  rw [view_of_log_nil hlog₁]
  refine wp_bind (Txn.wp_orThrow (fun _ => herr c₁ _) fun sec hsec => ?_)
  have hread : SectionRead X op input.sectionId sec c₁ := by
    obtain ⟨row, hrow, rfl⟩ := Option.map_eq_some_iff.mp hsec
    exact Earlier.now h₁.later ⟨row, hrow, rfl⟩
  refine wp_bind (wp_registrationGate (fun c₂ h₂ => ?_) herr)
  have hlog₂ := h₂.log_nil hlog₁
  refine wp_bind (wp_sectionForUpdate fun c₃ h₃ hlog₃ hheld _ => ?_)
  rw [hlog₂] at hlog₃
  rw [view_of_log_nil hlog₃] at hheld ⊢
  refine wp_bind (Txn.wp_orThrow (fun _ => herr c₃ _) fun live hlive => ?_)
  obtain ⟨row, hrow, rfl⟩ := Option.map_eq_some_iff.mp hlive
  have lock : Locked c₃ input.sectionId row := ⟨hheld (by rw [hrow]; rfl), hrow⟩
  refine wp_bind (wp_query fun c₄ h₄ _ => ?_)
  have hlog₄ := h₄.log_nil hlog₃
  have lock₄ := lock.later h₄.later
  rw [view_of_log_nil hlog₄]
  -- the row read under the lock is the student's active row as long as the lock is held
  have hactive := fun r => @mem_activeHere c₄.world.db userId input.sectionId r
  simp only [Query.eval]
  generalize c₄.world.db.select
    { studentId := some userId, sectionId := some input.sectionId,
      status := some activeStatuses } = rows at hactive ⊢
  cases rows with
  | cons r rest =>
    obtain ⟨hr, hu, ha⟩ := (hactive r).mp List.mem_cons_self
    have hlive : Locked c₄ input.sectionId (c₃.world.db.joinSection row).sec := lock₄
    exact wp_alreadyActive hlog₄ hlive hr ha
      fun c' a hlog' hsec hreply htells => ⟨.already hlog', hsec, r, hu ▸ hreply, htells⟩
  | nil =>
    have hnone : ∀ r ∈ c₄.world.db.rowsOf input.sectionId, r.active = true →
        r.studentId ≠ userId := fun r hr ha hu =>
      absurd ((hactive r).mpr ⟨hr, hu, ha⟩) List.not_mem_nil
    refine wp_bind (wp_enrollEligibility hlog₄ lock₄.held ((hread.later h₂.later).later
      (h₃.trans h₄.later)) (fun c₅ h₅ checked => ?_) herr)
    have hlog₅ := h₅.log_nil hlog₄
    have lock₅ := lock₄.later h₅.later
    rw [← Later.rowsOf h₅.later lock₄.held] at hnone
    show wp _ _ (if row.enrolledCount < row.capacity then _ else _) _ _
    split
    · exact enroll_takeSeat hlog₅ lock₅ ‹_› hnone checked
    · exact enroll_joinWaitlist hlog₅ h₅.later.rely.valid h₅.later.rely.inv lock₅
        (Int.not_lt.mp ‹_›) hnone checked

theorem enroll_replies {input : EnrollDto} {userId : UserId} {actor : RequestActor}
    (hlog : c.log = []) :
    wp (Others X op) DrawsOnly (enroll input userId actor)
      (EnrollReplied X op input userId actor) c := by
  refine Txn.wp_mono ?_ (enroll_answers hlog)
  intro r c' hr
  cases r with
  | ok a =>
    obtain ⟨ho, -, r, hreply, -⟩ := hr
    exact ⟨ho, r, hreply⟩
  | error e => exact hr

/-- **What `enroll` has done when it commits; it never trips over the `CHECK`.** -/
theorem enroll_spec {input : EnrollDto} {userId : UserId} {actor : RequestActor}
    (hlog : c.log = []) :
    wp (Others X op) DrawsOnly (enroll input userId actor)
      (Ends (fun _ => EnrollOutcome X op input userId actor)
        (fun e _ => e ≠ .db .checkViolation)) c := by
  refine Txn.wp_mono ?_ (enroll_replies hlog)
  intro r c' hr
  cases r with
  | ok a => exact hr.1
  | error e => exact hr.1

end Enroll
