/-
# The timetable of every student

`enroll` and `swap` check a new section against the student's other active rows: no meeting
overlaps, the credits stay within the cap, every prerequisite is completed.  The rows are read
without a lock on them, but between the check and the commit nobody else gives the student a row as
long as no two requests of one student overlap (`OneAtATime`), so the checks still hold at the
commit, and nothing that promotion, drop, reorder or expiry do makes a timetable worse.

One check is left out on purpose: a swap within a course does not ask for the prerequisites, since
the row it gives up had them.  That row has them for ITS student; a caller who swaps somebody
else's row gets a section he may not be qualified for (`Campus.swap_skips_prerequisites`).  So
`timetables_valid` asks that a swap between two sections of a course be of the caller's own row, or
that the caller has the prerequisites (`OwnOrQualified`).
-/
import Enroll.Registrar
import Enroll.Txn.Trace

namespace Enroll

open Txn (Ctx Session Label Discipline)

variable {X : Extra} {op : Op} {c c' : Ctx postgres}

/-! ## 1. Timetables -/

/-- The cap on the credits of a student in a term. -/
def Reference.creditCap (ref : Reference) (u : UserId) (t : TermId) : Int :=
  ((ref.overloadApprovals.find? (fun o => o.studentId == u && o.termId == t)).map
    OverloadApproval.maxCredits).getD (ref.term t).maxCredits

/-- The active rows of a student in a term. -/
def Db.timetable (db : Db) (u : UserId) (t : TermId) : List Enrollment :=
  db.activeRows u t (fun _ => true)

/-- The credits of a section's course. -/
def Db.creditOf (db : Db) (s : SectionId) : Int := (db.ref.course (db.courseOf s)).credits

/-- Every prerequisite of a course is completed. -/
def Qualified (db : Db) (u : UserId) (course : CourseId) : Prop :=
  ∀ p ∈ db.ref.coursePrerequisites, p.courseId = course → Completed db u p.prerequisiteId

/-- Every student's timetable is in order. -/
structure TimetablesValid (w : World) : Prop where
  /-- no course has negative credits -/
  credits_nonneg : ∀ course, 0 ≤ (w.db.ref.course course).credits
  times : ∀ r ∈ w.db.enrollments, ∀ r' ∈ w.db.enrollments, r.active = true → r'.active = true →
    r.studentId = r'.studentId → w.db.termOf r.sectionId = w.db.termOf r'.sectionId →
      r.sectionId ≠ r'.sectionId →
        hasTimeConflict (w.db.sectionOf r.sectionId).meetingPattern
          (w.db.sectionOf r'.sectionId).meetingPattern = false
  credits : ∀ u t, w.db.creditsOf (w.db.timetable u t) ≤ w.db.ref.creditCap u t
  prerequisites : ∀ r ∈ w.db.enrollments, r.active = true →
    Qualified w.db r.studentId (w.db.courseOf r.sectionId)

theorem mem_activeRows {db : Db} {u : UserId} {t : TermId} {keep : Enrollment → Bool}
    {r : Enrollment} : r ∈ db.activeRows u t keep ↔ r ∈ db.enrollments ∧ r.studentId = u ∧
      r.active = true ∧ db.termOf r.sectionId = t ∧ keep r = true := by
  simp [Db.activeRows, and_assoc]

/-! ## 2. Credits of fewer rows -/

theorem creditsOf_cons (db : Db) (r : Enrollment) (l : List Enrollment) :
    db.creditsOf (r :: l) = db.creditOf r.sectionId + db.creditsOf l := rfl

theorem creditsOf_perm (db : Db) {l l' : List Enrollment} (h : l.Perm l') :
    db.creditsOf l = db.creditsOf l' := by
  induction h with
  | nil => rfl
  | cons r _ ih => rw [creditsOf_cons, creditsOf_cons, ih]
  | swap r r' l =>
    simp only [creditsOf_cons]
    omega
  | trans _ _ ih ih' => exact ih.trans ih'

theorem creditsOf_nonneg {db : Db} (hnn : ∀ s, 0 ≤ db.creditOf s) (l : List Enrollment) :
    0 ≤ db.creditsOf l := by
  induction l with
  | nil => exact Int.le_refl 0
  | cons r l ih =>
    rw [creditsOf_cons]
    have := hnn r.sectionId
    omega

/-- **Rows that are all among others have no more credits than those.** -/
theorem creditsOf_le {db db' : Db} (hsame : ∀ s, db.creditOf s = db'.creditOf s)
    (hnn : ∀ s, 0 ≤ db'.creditOf s) {l l' : List Enrollment} (hnd : (l.map Enrollment.id).Nodup)
    (h : ∀ r ∈ l, ∃ r' ∈ l', r'.id = r.id ∧ r'.sectionId = r.sectionId) :
    db.creditsOf l ≤ db'.creditsOf l' := by
  induction l generalizing l' with
  | nil => exact creditsOf_nonneg hnn l'
  | cons r l ih =>
    obtain ⟨hr, hnd'⟩ := List.nodup_cons.mp hnd
    obtain ⟨r', hr', hid, hsec⟩ := h r List.mem_cons_self
    have hrest : db.creditsOf l ≤ db'.creditsOf (l'.erase r') := by
      refine ih hnd' fun x hx => ?_
      obtain ⟨x', hx', hid', hsec'⟩ := h x (List.mem_cons_of_mem r hx)
      refine ⟨x', (List.mem_erase_of_ne fun he => hr ?_).mpr hx', hid', hsec'⟩
      refine List.mem_map.mpr ⟨x, hx, ?_⟩
      rw [← hid', he, hid]
    rw [creditsOf_perm db' (List.perm_cons_erase hr'), creditsOf_cons, creditsOf_cons, hsec, hsame]
    omega

/-! ## 3. What a checked request relies on -/

/-- Course data, credit caps and prerequisite edges are the same. -/
structure Reference.Agrees (a b : Reference) : Prop where
  course : a.course = b.course
  maxCredits : ∀ t, (a.term t).maxCredits = (b.term t).maxCredits
  overloadApprovals : a.overloadApprovals = b.overloadApprovals
  coursePrerequisites : a.coursePrerequisites = b.coursePrerequisites

theorem Reference.Agrees.refl (a : Reference) : a.Agrees a := ⟨rfl, fun _ => rfl, rfl, rfl⟩

theorem Reference.Agrees.trans {a b d : Reference} (h : a.Agrees b) (h' : b.Agrees d) :
    a.Agrees d where
  course := h.course.trans h'.course
  maxCredits t := (h.maxCredits t).trans (h'.maxCredits t)
  overloadApprovals := h.overloadApprovals.trans h'.overloadApprovals
  coursePrerequisites := h.coursePrerequisites.trans h'.coursePrerequisites

theorem Reference.Agrees.creditCap {a b : Reference} (h : a.Agrees b) (u : UserId) (t : TermId) :
    a.creditCap u t = b.creditCap u t := by
  unfold Reference.creditCap
  rw [h.overloadApprovals, h.maxCredits]

/-- The student whom a request enrolls. -/
def Op.requester : Op → Option UserId
  | enroll _ u _ => some u
  | swap _ _ u _ => some u
  | drop _ _ _ => none
  | runPromotion _ => none
  | reorder _ _ _ => none
  | expireSectionWaitlist _ => none
  | updateSection _ _ _ => none

/-- The reference data stand, and the student whom the request enrolls gains no active row. -/
structure Undisturbed (op : Op) (c : Ctx postgres) (w : World) : Prop where
  reference : w.db.ref.Agrees c.world.db.ref
  none : ∀ u, op.requester = some u → NoneGained u (fun _ => True) c.world.db w.db

def undisturbed : Extra where
  inv := TimetablesValid
  holds := Undisturbed
  inv_seq _ _ _ h := ⟨h.credits_nonneg, h.times, h.credits, h.prerequisites⟩
  refl _ _ _ := ⟨.refl _, fun _ _ => .refl _ _ _⟩
  trans _ _ _ _ h h' :=
    ⟨h'.reference.trans h.reference, fun u hu => (h.none u hu).trans (h'.none u hu)⟩
  anti op c c' w hw _ _ _ h := by
    refine ⟨?_, fun u hu => ?_⟩
    · rw [hw]
      exact h.reference
    · rw [hw]
      exact h.none u hu
  seq _ _ _ _ _ := ⟨.refl _, fun _ _ => .refl _ _ _⟩

/-- The credits that the request counted for the section. -/
theorem SectionRead.credits {s : SectionId} {sec : SectionJoin}
    (h : SectionRead undisturbed op s sec c) : sec.course.credits = c.world.db.creditOf s := by
  have hcourse := h.courseOf
  obtain ⟨c₁, hl, row, hrow, rfl⟩ := h
  have hx : Undisturbed op c₁ c.world := hl.rely.extra
  rw [Db.creditOf, hcourse, hx.reference.course]
  rfl

/-- The cap that the request compared with. -/
theorem SectionRead.creditCap {s : SectionId} {sec : SectionJoin}
    (h : SectionRead undisturbed op s sec c) {c₂ : Ctx postgres} (hl₂ : Later undisturbed op c₂ c)
    (u : UserId) :
    Enroll.creditCap c₂.world.db.ref sec u = c.world.db.ref.creditCap u (c.world.db.termOf s) := by
  have hx₂ : Undisturbed op c₂ c.world := hl₂.rely.extra
  rw [h.termOf]
  obtain ⟨c₁, hl, row, hrow, rfl⟩ := h
  have hx : Undisturbed op c₁ c.world := hl.rely.extra
  unfold Enroll.creditCap Reference.creditCap
  rw [hx₂.reference.overloadApprovals, hx.reference.maxCredits]
  rfl

/-! ## 4. A new row -/

/-- What a new row `x` has to have for the timetables to stay in order, when the rows `ps` are
updated with it. -/
structure Fitting (c : Ctx postgres) (ps : List (EnrollmentId × EnrollmentData)) (x : Enrollment) :
    Prop where
  times : ∀ r ∈ c.world.db.enrollments, r.active = true → (patchRow ps r).active = true →
    r.studentId = x.studentId → c.world.db.termOf r.sectionId = c.world.db.termOf x.sectionId →
      r.sectionId ≠ x.sectionId →
        hasTimeConflict (c.world.db.sectionOf x.sectionId).meetingPattern
          (c.world.db.sectionOf r.sectionId).meetingPattern = false
  credits : ∃ rows, (∀ r ∈ c.world.db.enrollments, r.active = true →
      (patchRow ps r).active = true → r.studentId = x.studentId →
        c.world.db.termOf r.sectionId = c.world.db.termOf x.sectionId →
          ∃ r' ∈ rows, r'.id = r.id ∧ r'.sectionId = r.sectionId) ∧
    c.world.db.creditsOf (x :: rows)
      ≤ c.world.db.ref.creditCap x.studentId (c.world.db.termOf x.sectionId)
  prerequisites : Qualified c.world.db x.studentId (c.world.db.courseOf x.sectionId)

/-- What is completed by a commit, or was before. -/
theorem Qualified.view (hs : Sane c) {u : UserId} {course : CourseId}
    (h : Qualified c.world.db u course) : Qualified c.view.db u course := by
  intro p hp hcourse
  have href : c.view.db.ref = c.world.db.ref := applyLog_ref c.log c.world
  rw [href] at hp
  exact (h p hp hcourse).grows hs.grows

theorem view_meetingPattern (hs : Sane c) (s : SectionId) :
    (c.view.db.sectionOf s).meetingPattern = (c.world.db.sectionOf s).meetingPattern :=
  fixed_meetingPattern (hs.grows.sectionOf_fixed s)

theorem view_creditOf (hs : Sane c) (s : SectionId) :
    c.view.db.creditOf s = c.world.db.creditOf s := by
  have href : c.view.db.ref = c.world.db.ref := applyLog_ref c.log c.world
  rw [Db.creditOf, href, hs.grows.courseOf]
  rfl

/-- Two rows of a student do not overlap after a commit. -/
theorem TimetablesValid.times_view (hs : Sane c) (h : TimetablesValid c.world)
    (hnew : ∀ x ∈ insertsOf c.log, Fitting c (patchesOf c.log) x) :
    ∀ r ∈ c.view.db.enrollments, ∀ r' ∈ c.view.db.enrollments, r.active = true →
      r'.active = true → r.studentId = r'.studentId →
        c.view.db.termOf r.sectionId = c.view.db.termOf r'.sectionId →
          r.sectionId ≠ r'.sectionId →
            hasTimeConflict (c.view.db.sectionOf r.sectionId).meetingPattern
              (c.view.db.sectionOf r'.sectionId).meetingPattern = false := by
  intro x hx y hy hax hay hst hterm hne
  rw [hs.grows.termOf, hs.grows.termOf] at hterm
  rw [view_meetingPattern hs, view_meetingPattern hs]
  rcases hs.active_cases hx hax with ⟨r, hr, har, rfl⟩ | hxi
  · rcases hs.active_cases hy hay with ⟨r', hr', har', rfl⟩ | hyi
    · simp only [patchRow_studentId, patchRow_sectionId] at hst hterm hne ⊢
      exact h.times r hr r' hr' har har' hst hterm hne
    · simp only [patchRow_studentId, patchRow_sectionId] at hst hterm hne ⊢
      rw [hasTimeConflict_comm]
      exact (hnew y hyi).times r hr har hax hst hterm hne
  · rcases hs.active_cases hy hay with ⟨r', hr', har', rfl⟩ | hyi
    · simp only [patchRow_studentId, patchRow_sectionId] at hst hterm hne ⊢
      exact (hnew x hxi).times r' hr' har' hay hst.symm hterm.symm (Ne.symm hne)
    · rw [hs.inserted_eq hxi hyi] at hne
      exact absurd rfl hne

/-- The credits of a timetable stay within the cap after a commit. -/
theorem TimetablesValid.credits_view (hv : c.world.Valid) (hs : Sane c)
    (h : TimetablesValid c.world)
    (hnew : ∀ x ∈ insertsOf c.log, Fitting c (patchesOf c.log) x) (u : UserId) (t : TermId) :
    c.view.db.creditsOf (c.view.db.timetable u t) ≤ c.view.db.ref.creditCap u t := by
  have href : c.view.db.ref = c.world.db.ref := applyLog_ref c.log c.world
  have hnd : ((c.view.db.timetable u t).map Enrollment.id).Nodup :=
    (hs.valid hv).db.enrollment_id.sublist (List.filter_sublist.map Enrollment.id)
  rw [href]
  by_cases hx : ∃ x ∈ insertsOf c.log, x.studentId = u ∧ c.world.db.termOf x.sectionId = t
  · obtain ⟨x, hxi, rfl, rfl⟩ := hx
    obtain ⟨rows, hrows, hcap⟩ := (hnew x hxi).credits
    refine Int.le_trans (creditsOf_le (view_creditOf hs) (fun s => h.credits_nonneg _) hnd ?_) hcap
    intro y hy
    obtain ⟨hmem, hst, ha, hterm, -⟩ := mem_activeRows.mp hy
    rw [hs.grows.termOf] at hterm
    rcases hs.active_cases hmem ha with ⟨r, hr, har, rfl⟩ | hyi
    · simp only [patchRow_studentId, patchRow_sectionId, patchRow_id] at hst hterm ⊢
      obtain ⟨r', hr', hid, hsec⟩ := hrows r hr har ha hst hterm
      exact ⟨r', List.mem_cons_of_mem x hr', hid, hsec⟩
    · exact ⟨x, List.mem_cons_self, by rw [hs.inserted_eq hxi hyi], by rw [hs.inserted_eq hxi hyi]⟩
  · refine Int.le_trans (creditsOf_le (view_creditOf hs) (fun s => h.credits_nonneg _) hnd ?_)
      (h.credits u t)
    intro y hy
    obtain ⟨hmem, hst, ha, hterm, -⟩ := mem_activeRows.mp hy
    rw [hs.grows.termOf] at hterm
    rcases hs.active_cases hmem ha with ⟨r, hr, har, rfl⟩ | hyi
    · simp only [patchRow_studentId, patchRow_sectionId, patchRow_id] at hst hterm ⊢
      exact ⟨r, mem_activeRows.mpr ⟨hr, hst, har, hterm, rfl⟩, rfl, rfl⟩
    · exact absurd ⟨y, hyi, hst, hterm⟩ hx

/-- **A commit keeps the timetables in order when its new row fits.** -/
theorem TimetablesValid.of_new (hv : c.world.Valid) (hs : Sane c) (h : TimetablesValid c.world)
    (hnew : ∀ x ∈ insertsOf c.log, Fitting c (patchesOf c.log) x) : TimetablesValid c.view where
  credits_nonneg course := by
    have href : c.view.db.ref = c.world.db.ref := applyLog_ref c.log c.world
    rw [href]
    exact h.credits_nonneg course
  times := h.times_view hs hnew
  credits := h.credits_view hv hs hnew
  prerequisites x hx ha := by
    rw [hs.grows.courseOf]
    rcases hs.active_cases hx ha with ⟨r, hr, har, rfl⟩ | hxi
    · rw [patchRow_studentId, patchRow_sectionId]
      exact (h.prerequisites r hr har).view hs
    · exact (hnew x hxi).prerequisites.view hs

theorem TimetablesValid.of_none (hv : c.world.Valid) (hs : Sane c) (h : TimetablesValid c.world)
    (hnone : insertsOf c.log = []) : TimetablesValid c.view := by
  refine .of_new hv hs h ?_
  rw [hnone]
  exact fun _ hx => absurd hx List.not_mem_nil

/-! ## 5. A checked row fits -/

theorem creditsOf_congr {db db' : Db} (h : ∀ s, db.creditOf s = db'.creditOf s)
    (l : List Enrollment) : db.creditsOf l = db'.creditsOf l := by
  induction l with
  | nil => rfl
  | cons r l ih => rw [creditsOf_cons, creditsOf_cons, h, ih]

theorem Undisturbed.creditOf {w : World} (h : Undisturbed op c w) (hg : Grows c.world w)
    (s : SectionId) : w.db.creditOf s = c.world.db.creditOf s := by
  rw [Db.creditOf, hg.courseOf, h.reference.course]
  rfl

/-- **A row that passed the schedule check still fits at the commit.**  `hkeep` says that the check
left out only rows that the commit makes inactive. -/
theorem ScheduleChecked.fitting {s : SectionId} {sec : SectionJoin} {u : UserId}
    {keep : Enrollment → Bool} {ps : List (EnrollmentId × EnrollmentData)} {x : Enrollment}
    (h : ScheduleChecked undisturbed op sec u keep c) (hread : SectionRead undisturbed op s sec c)
    (hreq : op.requester = some u) (hu : x.studentId = u) (hs : x.sectionId = s)
    (hkeep : ∀ r ∈ c.world.db.enrollments, r.active = true → (patchRow ps r).active = true →
      r.studentId = u → ∀ r₀ : Enrollment, r₀.id = r.id → r₀.sectionId = r.sectionId →
        keep r₀ = true)
    (hq : Qualified c.world.db u (c.world.db.courseOf s)) : Fitting c ps x := by
  subst hu hs
  have hcap := fun {c₂} (hl₂ : Later undisturbed op c₂ c) => hread.creditCap hl₂ x.studentId
  obtain ⟨c₁, hl, htime, c₂, -, hl₂, hcredits⟩ := h
  have hx : Undisturbed op c₁ c.world := hl.rely.extra
  -- the student's active rows of the term were read by the check
  have hold : ∀ r ∈ c.world.db.enrollments, r.active = true → (patchRow ps r).active = true →
      r.studentId = x.studentId → c.world.db.termOf r.sectionId = c.world.db.termOf x.sectionId →
        ∃ r₀ ∈ c₁.world.db.activeRows x.studentId sec.sec.termId keep,
          r₀.id = r.id ∧ r₀.sectionId = r.sectionId := by
    intro r hr ha hp hst hterm
    obtain ⟨r₀, hr₀, ha₀, hid, hst₀, hsec⟩ := hx.none x.studentId hreq r hr ha hst trivial
    refine ⟨r₀, mem_activeRows.mpr ⟨hr₀, hst₀.trans hst, ha₀, ?_, ?_⟩, hid, hsec⟩
    · rw [← hl.rely.grows.termOf, hsec, hterm]
      exact hread.termOf
    · exact hkeep r hr ha hp hst r₀ hid hsec
  refine ⟨?_, ⟨_, hold, ?_⟩, hq⟩
  · intro r hr ha hp hst hterm _
    obtain ⟨r₀, hr₀, -, hsec⟩ := hold r hr ha hp hst hterm
    have hfree := htime r₀ hr₀
    rw [fixed_meetingPattern hread.fixed, ← hsec,
      fixed_meetingPattern (hl.rely.grows.sectionOf_fixed _)]
    exact hfree
  · rw [← hcap hl₂, creditsOf_cons, ← hread.credits, creditsOf_congr (hx.creditOf hl.rely.grows)]
    omega

/-- A checked course still has the prerequisites it had. -/
theorem PrerequisitesChecked.qualified {course : CourseId} {u : UserId}
    (h : PrerequisitesChecked undisturbed op course u c) : Qualified c.world.db u course := by
  obtain ⟨c₁, hl, hdone⟩ := h
  have hx : Undisturbed op c₁ c.world := hl.rely.extra
  intro p hp hcourse
  rw [hx.reference.coursePrerequisites] at hp
  exact hdone p hp hcourse

/-! ## 6. The step conditions -/

/-- The outside changes no course, no credit cap and no prerequisite. -/
def FixedCourses (sys : Sys) (l : Label registrar) : Prop :=
  ∀ ref, l = .env (.reference ref) → ref.Agrees sys.world.db.ref

/-- No `enroll` or `swap` begins while another one of the same student is open. -/
def OneAtATime (sys : Sys) (l : Label registrar) : Prop :=
  ∀ t op u, l = .begin t op → op.requester = some u → ∀ t' ses', sys.sessions t' = some ses' →
    ses'.op.requester ≠ some u

/-- A swap between two sections of a course is of the caller's own row, or the caller has the
prerequisites. -/
def OwnOrQualified (sys : Sys) (l : Label registrar) : Prop :=
  ∀ t ses id input u actor r, l = .commit t → sys.sessions t = some ses →
    ses.op = .swap id input u actor → sys.world.db.enrollment? id = some r →
      r.sectionId ≠ input.targetSectionId →
        sys.world.db.courseOf r.sectionId = sys.world.db.courseOf input.targetSectionId →
          r.studentId = u ∨ Qualified sys.world.db u (sys.world.db.courseOf input.targetSectionId)

/-- The conditions together. -/
structure Registrable (sys : Sys) (l : Label registrar) : Prop where
  fixed : FixedCourses sys l
  single : OneAtATime sys l
  own : OwnOrQualified sys l

/-- A new row is the requester's. -/
theorem Outcome.requester (h : Outcome X op c) {x : Enrollment} (hx : x ∈ insertsOf c.log) :
    op.requester = some x.studentId := by
  cases h.newRow hx with
  | seated live id t lock seat => rfl
  | queued id t p => rfl
  | moved live id t lock seat => rfl

/-! ## 7. Every commit -/

/-- `enroll` left out the rows of the section itself, of which the student has none. -/
theorem EnrollChecked.fitting {input : EnrollDto} {u : UserId} {actor : RequestActor}
    {sec : SectionJoin} {x : Enrollment}
    (h : EnrollChecked undisturbed (.enroll input u actor) input u sec c) (hfresh : Fresh c x)
    (hu : x.studentId = u) (hs : x.sectionId = input.sectionId) : Fitting c [] x := by
  refine h.schedule.fitting h.read rfl hu hs (fun r hr ha _ hst r₀ _ hsec => ?_) ?_
  · rw [bne_iff_ne, hsec]
    intro he
    exact hfresh.only r (mem_rowsOf.mpr ⟨hr, he.trans hs.symm⟩) ha (hst.trans hu.symm)
  · rw [h.read.courseOf]
    exact h.prerequisites.qualified

/-- `swap` left out the row it gives up. -/
theorem SwapOutcome.fitting {id : EnrollmentId} {input : SwapDto} {u : UserId}
    {actor : RequestActor} {r : Enrollment} {sec : SectionJoin} {live : Section}
    {x : EnrollmentId} {droppedAt t t' : Time} {n : OutboxId} (htt : TimetablesValid c.world)
    (h : SwapOutcome undisturbed (.swap id input u actor) id input u actor r sec live x droppedAt t
      t' n c)
    (hown : c.world.db.courseOf r.sectionId = c.world.db.courseOf input.targetSectionId →
      r.studentId = u ∨ Qualified c.world.db u (c.world.db.courseOf input.targetSectionId)) :
    Fitting c [(r.id, departure droppedAt)] ((seatRow u input.targetSectionId).row x t) := by
  refine h.checked.schedule.fitting h.checked.read rfl rfl rfl (fun r' _ _ hp _ r₀ hid _ => ?_) ?_
  · rw [bne_iff_ne, hid]
    intro he
    rw [patchRow_of_mem (by simp) (List.mem_singleton_self _) he] at hp
    exact absurd hp (by simp [departure, EnrollmentData.patch, Enrollment.active,
      EnrollmentStatus.active])
  · by_cases hsame : c.world.db.courseOf r.sectionId = c.world.db.courseOf input.targetSectionId
    · rcases hown hsame with hmine | hq
      · rw [← hmine, ← hsame]
        exact htt.prerequisites r h.own.mem h.active
      · exact hq
    · rw [h.checked.read.courseOf] at hsame ⊢
      exact (h.checked.prerequisites hsame).qualified

/-- **Every commit that meets the condition keeps the timetables in order.** -/
theorem Outcome.timetables (hv : c.world.Valid) (htt : TimetablesValid c.world)
    (h : Outcome undisturbed op c)
    (hown : ∀ id input u actor r, op = .swap id input u actor →
      c.world.db.enrollment? id = some r → r.sectionId ≠ input.targetSectionId →
        c.world.db.courseOf r.sectionId = c.world.db.courseOf input.targetSectionId →
          r.studentId = u ∨ Qualified c.world.db u (c.world.db.courseOf input.targetSectionId)) :
    TimetablesValid c.view := by
  have hsane := h.sane hv
  have hnil : c.log = [] → TimetablesValid c.view := fun hlog => by
    rw [view_of_log_nil hlog]
    exact htt
  have hfit : ∀ {ps x}, patchesOf c.log = ps → insertsOf c.log = [x] → Fitting c ps x →
      TimetablesValid c.view := by
    rintro _ x rfl hins hfit
    refine .of_new hv hsane htt fun y hy => ?_
    rw [hins, List.mem_singleton] at hy
    exact hy ▸ hfit
  cases op with
  | enroll input u actor =>
    have henroll : EnrollOutcome undisturbed (.enroll input u actor) input u actor c := h
    cases henroll with
    | already log => exact hnil log
    | seated sec live x t t' n lock seat fresh checked drawn log =>
      have hp := Parts.of_seated log
      exact hfit hp.patches hp.inserts (checked.fitting fresh rfl rfl)
    | queued sec live x t t' n p lock full cap position fresh checked drawn log =>
      have hp := Parts.of_queued log
      exact hfit hp.patches hp.inserts (checked.fitting fresh rfl rfl)
  | drop id u actor =>
    obtain ⟨r, droppedAt, t, n, h⟩ := h
    exact .of_none hv hsane htt h.parts.inserts
  | swap id input u actor =>
    rcases h with hlog | ⟨r, sec, live, x, droppedAt, t, t', n, h⟩
    · exact hnil hlog
    · refine hfit h.parts.patches h.parts.inserts (h.fitting htt fun hsame => ?_)
      exact hown id input u actor r rfl (h.id ▸ h.own.lookup hv) h.other hsame
  | runPromotion s =>
    rcases h with hlog | ⟨sec, turns, h⟩
    · exact hnil hlog
    · exact .of_none hv hsane htt h.parts.inserts
  | reorder s dto actor =>
    obtain ⟨live, t, n, h⟩ := h
    exact .of_none hv hsane htt h.parts.inserts
  | expireSectionWaitlist s =>
    rcases h with ⟨hlog, -⟩ | ⟨live, turns, h⟩
    · exact hnil hlog
    · exact .of_none hv hsane htt h.parts.inserts
  | updateSection s dto actor =>
    obtain ⟨live, t, n, h⟩ := h
    exact .of_none hv hsane htt h.parts.inserts

/-- Changes from outside that leave courses, caps and prerequisites alone. -/
theorem TimetablesValid.env {w : World} (h : TimetablesValid w) {e : EnvChange}
    (hfix : ∀ ref, e = .reference ref → ref.Agrees w.db.ref) : TimetablesValid (w.env e) := by
  cases e with
  | tick ms => exact ⟨h.credits_nonneg, h.times, h.credits, h.prerequisites⟩
  | reference ref =>
    have hag := hfix ref rfl
    have hcredit : ∀ s, (w.env (.reference ref)).db.creditOf s = w.db.creditOf s :=
      fun s => congrArg (fun course => (course (w.db.courseOf s)).credits) hag.course
    refine ⟨fun course => ?_, h.times, fun u t => ?_, fun r hr ha p hp hcourse => ?_⟩
    · exact hag.course ▸ h.credits_nonneg course
    · have hcap : (w.env (.reference ref)).db.ref.creditCap u t = w.db.ref.creditCap u t :=
        hag.creditCap u t
      rw [creditsOf_congr hcredit, hcap]
      exact h.credits u t
    · have hp' : p ∈ w.db.ref.coursePrerequisites := hag.coursePrerequisites ▸ hp
      exact h.prerequisites r hr ha p hp' hcourse

theorem undisturbed_fits : Fits undisturbed Registrable (Txn.Alone Op.requester) where
  inv sys t ses hC _ hG ht a hp ho :=
    ho.timetables hG.inv.1 hG.inv.2 fun id input u actor r hop hrow hother hsame =>
      hC.own t ses id input u actor r rfl ht hop hrow hother hsame
  holds sys t ses t' ses' _ hJ hG ht a hp ho hne ht' _ := by
    have hsane : Sane (sys.ctx t ses) := ho.sane hG.inv.1
    refine ⟨?_, fun u hu => hsane.noneGained fun x hx hxu _ => ?_⟩
    · have href : (sys.ctx t ses).view.db.ref = sys.world.db.ref := applyLog_ref _ _
      rw [href]
      exact .refl _
    · exact hne (hJ t' ses' t ses u ht' ht hu (hxu ▸ ho.requester hx))
  env_inv sys e hC hG :=
    TimetablesValid.env hG.inv.2 fun ref he => hC.fixed ref (congrArg Label.env he)
  env_holds sys e hC _ t ses _ := by
    refine ⟨?_, fun u _ r hr ha _ _ => ?_⟩
    · cases e with
      | tick ms => exact .refl _
      | reference ref => exact hC.fixed ref rfl
    · cases e <;> exact ⟨r, hr, ha, rfl, rfl, rfl⟩

/-- **Every timetable is in order in every state that is reached by such steps.** -/
theorem timetables_valid {w : World} (hv : w.Valid) (htt : TimetablesValid w) {sys : Sys}
    (hr : Txn.Sys.Reach Registrable (Txn.Sys.init w) sys) : TimetablesValid sys.world := by
  have halone : Txn.Alone Op.requester (Txn.Sys.init w : Sys) := by
    intro t ses t' ses' k ht
    exact absurd ht (by simp [Txn.Sys.init])
  refine (registrar_run undisturbed_fits (fun sys l sys' hC hJ _ hs => ?_) hv htt halone hr).1.inv.2
  exact hJ.step (fun t op k hl hk => hC.single t op k hl hk) hs

namespace Campus

/-- Course 5 now has a prerequisite: course 6, which student 1 completed in section 12 before he
took the seat of section 10. -/
def advanced : World where
  db :=
    { ref := { reference with coursePrerequisites := [⟨5, 6⟩] }
      sections := [⟨10, "001", 5, 7, "MWF 9:00-9:50", 1, 1, none⟩,
        ⟨11, "002", 5, 7, "TR 9:00-9:50", 1, 0, none⟩, ⟨12, "001", 6, 8, "TBA", 1, 0, none⟩]
      enrollments := [⟨99, 1, 12, .COMPLETED, none, 1, none, some 5, 1⟩, (seatRow 1 10).row 100 6]
      notifications := []
      auditOutbox := [] }
  now := 10
  seq := 0

theorem advanced_valid : advanced.Valid := by
  refine ⟨⟨by decide, by decide, by decide, by decide, by decide⟩, ?_⟩
  exact fun e he => absurd he List.not_mem_nil

theorem advanced_completed : Completed advanced.db 1 6 :=
  ⟨_, List.mem_cons_self, rfl, rfl, by decide⟩

theorem advanced_timetables : TimetablesValid advanced where
  credits_nonneg _ := Int.natCast_nonneg 3
  times := by decide
  credits u t := by
    have hnd : ((advanced.db.timetable u t).map Enrollment.id).Nodup :=
      advanced_valid.db.enrollment_id.sublist (List.filter_sublist.map Enrollment.id)
    have hle : advanced.db.creditsOf (advanced.db.timetable u t)
        ≤ advanced.db.creditsOf advanced.db.enrollments := by
      have hcredit : ∀ s, 0 ≤ advanced.db.creditOf s := fun _ => Int.natCast_nonneg 3
      refine creditsOf_le (fun _ => rfl) hcredit hnd fun r hr => ?_
      exact ⟨r, (mem_activeRows.mp hr).1, rfl, rfl⟩
    have hcap : advanced.db.ref.creditCap u t = 18 := rfl
    rw [hcap]
    exact Int.le_trans hle (by decide)
  prerequisites := by
    intro r hr ha p hp _
    rcases List.mem_cons.mp hr with rfl | hr
    · exact absurd ha (by decide)
    · rw [List.mem_singleton.mp hr]
      rw [List.mem_singleton.mp hp]
      exact advanced_completed

/-- Caller `u` swaps the seat of student 1 into section 11. -/
def transfer (u : UserId) : List (Label registrar) :=
  .begin 1 (.swap 100 ⟨11⟩ u (actor u)) :: execs 1 17 101

/-- A transfer with nobody else about meets the conditions. -/
theorem transfer_registrable {u : UserId} {sys : Sys}
    (h : Txn.Sys.run (Txn.Sys.init advanced) (transfer u) = some sys) :
    Txn.Sys.Reach Registrable (Txn.Sys.init advanced) sys := by
  have hexec : ∀ l ∈ execs 1 17 101, ∀ sys, Registrable sys l := by
    intro l hl sys
    rw [List.eq_of_mem_replicate hl]
    constructor
    · rintro ref ⟨⟩
    · rintro t op v ⟨⟩
    · rintro t ses id input v actor r ⟨⟩
  have hbegin : Registrable (Txn.Sys.init advanced) (.begin 1 (.swap 100 ⟨11⟩ u (actor u))) := by
    constructor
    · rintro ref ⟨⟩
    · rintro t op v - - t' ses' ⟨⟩
    · rintro t ses id input v actor r ⟨⟩
  cases hs : Txn.Sys.step (Txn.Sys.init advanced : Sys)
      (.begin 1 (.swap 100 ⟨11⟩ u (actor u))) with
  | none =>
    rw [transfer, Txn.Sys.run, hs] at h
    exact absurd h (by simp)
  | some sys₁ =>
    rw [transfer, Txn.Sys.run, hs] at h
    exact (Txn.Sys.Reach.refl.tail hbegin hs).of_run hexec h

set_option maxRecDepth 4000 in
theorem usurped_runs : (Txn.Sys.run (Txn.Sys.init advanced) (transfer 4)).isSome = true := by
  decide

/-- The administrator is about to commit. -/
def beforeUsurped : Sys := (Txn.Sys.run (Txn.Sys.init advanced) (transfer 4)).get usurped_runs

set_option maxRecDepth 4000 in
theorem usurped_commits : (beforeUsurped.step (.commit 1)).isSome = true := by decide

def afterUsurped : Sys := (beforeUsurped.step (.commit 1)).get usurped_commits

set_option maxRecDepth 4000 in
/-- **An administrator who studies gets a seat without the prerequisite of its course**, by
swapping the seat of a student who has it. -/
theorem swap_skips_prerequisites :
    ¬ ∀ w : World, w.Valid → TimetablesValid w → ∀ sys : Sys,
      Txn.Sys.Reach (fun sys l => FixedCourses sys l ∧ OneAtATime sys l) (Txn.Sys.init w) sys →
        TimetablesValid sys.world := by
  intro h
  have hbefore : Txn.Sys.Reach (fun sys l => FixedCourses sys l ∧ OneAtATime sys l)
      (Txn.Sys.init advanced) beforeUsurped :=
    (transfer_registrable (Option.some_get usurped_runs).symm).mono fun _ _ hC =>
      ⟨hC.fixed, hC.single⟩
  have hlast : FixedCourses beforeUsurped (.commit 1) ∧ OneAtATime beforeUsurped (.commit 1) := by
    constructor
    · rintro ref ⟨⟩
    · rintro t op v ⟨⟩
  have htt := h advanced advanced_valid advanced_timetables afterUsurped
    (hbefore.tail hlast (Option.some_get usurped_commits).symm)
  have hrow : (seatRow 4 11).row 101 10 ∈ afterUsurped.world.db.enrollments := by decide
  have hdone := htt.prerequisites _ hrow rfl ⟨5, 6⟩ List.mem_cons_self rfl
  have hnot : ¬ ∃ r ∈ afterUsurped.world.db.enrollments, r.studentId = 4 ∧ r.status = .COMPLETED ∧
      afterUsurped.world.db.courseOf r.sectionId = 6 := by decide
  exact hnot hdone

set_option maxRecDepth 4000 in
theorem moved_runs : (Txn.Sys.run (Txn.Sys.init advanced) (transfer 1)).isSome = true := by
  decide

/-- The student is about to commit. -/
def beforeMoved : Sys := (Txn.Sys.run (Txn.Sys.init advanced) (transfer 1)).get moved_runs

set_option maxRecDepth 4000 in
theorem moved_commits : (beforeMoved.step (.commit 1)).isSome = true := by decide

def afterMoved : Sys := (beforeMoved.step (.commit 1)).get moved_commits

set_option maxRecDepth 4000 in
/-- The student's own transfer. -/
theorem moved_own : OwnOrQualified beforeMoved (.commit 1) := by
  intro t ses id input u actor r hl ht hop hrow _ _
  obtain rfl := Label.commit.inj hl
  have hses : (beforeMoved.sessions 1).map Session.op
      = some (.swap 100 ⟨11⟩ 1 (Campus.actor 1)) := rfl
  rw [ht, Option.map_some, hop, Option.some.injEq] at hses
  obtain ⟨rfl, -, rfl, -⟩ := Op.swap.inj hses
  have hsource : (beforeMoved.world.db.enrollment? 100).map Enrollment.studentId = some 1 := by
    decide
  rw [hrow, Option.map_some, Option.some.injEq] at hsource
  exact Or.inl hsource

set_option maxRecDepth 4000 in
theorem timetables_valid_moved :
    afterMoved.world.db.enrollments.map (fun r => (r.studentId, r.sectionId, r.status))
        = [(1, 12, .COMPLETED), (1, 10, .DROPPED), (1, 11, .ENROLLED)] ∧
      TimetablesValid afterMoved.world := by
  refine ⟨by decide, timetables_valid advanced_valid advanced_timetables ?_⟩
  refine (transfer_registrable (Option.some_get moved_runs).symm).tail ⟨?_, ?_, moved_own⟩
    (Option.some_get moved_commits).symm
  · rintro ref ⟨⟩
  · rintro t op v ⟨⟩

end Campus

end Enroll
