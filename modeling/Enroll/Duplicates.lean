/-
# One section of a course for each student

`enroll` and `swap` refuse a student who holds an active row in another section of the course.  The
check reads rows of sections that the transaction has not locked, and the unique index of the
schema is on the section, not on the course.  So two requests of one student for two sections of a
course can both pass the check and both commit (`Campus.two_sections_of_one_course`).  And a swap
within one course skips the check, which is sound only if the row it gives up is the caller's own.

`one_section_per_course` is what holds: the property survives every run in which no session
commits a row of a student and course while another session is past its check of the two
(`NoOvertaking`), and in which a swap within a course is of the caller's own row or would have
passed the check.
-/
import Enroll.Registrar

namespace Enroll

open Txn (Ctx Session Label Discipline)

variable {X : Extra} {op : Op} {c c' : Ctx postgres}

/-! ## 1. The property and the checks -/

/-- No student holds active rows in two sections of one course. -/
def OneSectionPerCourse (w : World) : Prop :=
  ∀ r ∈ w.db.enrollments, ∀ r' ∈ w.db.enrollments, r.active = true → r'.active = true →
    r.studentId = r'.studentId → w.db.courseOf r.sectionId = w.db.courseOf r'.sectionId →
      r.sectionId = r'.sectionId

instance (w : World) : Decidable (OneSectionPerCourse w) :=
  inferInstanceAs (Decidable (∀ r ∈ w.db.enrollments, ∀ r' ∈ w.db.enrollments, _ → _))

/-- The statement by which `enroll` or `swap` looks for another active row of student `u` in the
course. -/
def DuplicateCheck (u : UserId) (course : CourseId) (st : Stmt) : Prop :=
  (∃ s, st = .read (.enrollmentFindFirst (sameCourseElsewhere u course s))) ∨
    ∃ id, st = .read (.enrollmentFindFirst (sameCourseBeside u course id))

/-- A transaction is past its check. -/
def PastCheck (u : UserId) (course : CourseId) (trace : List Stmt) : Prop :=
  ∃ st ∈ trace, DuplicateCheck u course st

theorem mem_sameCourseElsewhere {db : Db} {u : UserId} {course : CourseId} {s : SectionId}
    {r : Enrollment} (hr : r ∈ db.enrollments) (ha : r.active = true) (hu : r.studentId = u)
    (hc : db.courseOf r.sectionId = course) (hs : r.sectionId ≠ s) :
    r ∈ db.select (sameCourseElsewhere u course s) := by
  refine List.mem_filter.mpr ⟨hr, ?_⟩
  have hact : r.status ∈ activeStatuses :=
    List.contains_iff_mem.mp ((activeStatuses_contains _).trans ha)
  simp [EnrollmentWhere.matches, sameCourseElsewhere, hu, hc, Ne.symm hs, hact]

theorem mem_sameCourseBeside {db : Db} {u : UserId} {course : CourseId} {id : EnrollmentId}
    {r : Enrollment} (hr : r ∈ db.enrollments) (ha : r.active = true) (hu : r.studentId = u)
    (hc : db.courseOf r.sectionId = course) (hid : r.id ≠ id) :
    r ∈ db.select (sameCourseBeside u course id) := by
  refine List.mem_filter.mpr ⟨hr, ?_⟩
  have hact : r.status ∈ activeStatuses :=
    List.contains_iff_mem.mp ((activeStatuses_contains _).trans ha)
  simp [EnrollmentWhere.matches, sameCourseBeside, hu, hc, Ne.symm hid, hact]

/-- A commit whose new row is the student's only one in the course. -/
theorem OneSectionPerCourse.of_new (hs : Sane c) (h : OneSectionPerCourse c.world)
    (hnew : ∀ x ∈ insertsOf c.log, ∀ r ∈ c.world.db.enrollments, r.active = true →
      (patchRow (patchesOf c.log) r).active = true → r.studentId = x.studentId →
        c.world.db.courseOf r.sectionId = c.world.db.courseOf x.sectionId →
          r.sectionId = x.sectionId) : OneSectionPerCourse c.view := by
  intro x hx y hy hax hay hst hcourse
  rw [hs.grows.courseOf, hs.grows.courseOf] at hcourse
  rcases hs.active_cases hx hax with ⟨r, hr, har, rfl⟩ | hxi
  · rcases hs.active_cases hy hay with ⟨r', hr', har', rfl⟩ | hyi
    · rw [patchRow_studentId, patchRow_studentId] at hst
      rw [patchRow_sectionId, patchRow_sectionId] at hcourse ⊢
      exact h r hr r' hr' har har' hst hcourse
    · rw [patchRow_studentId] at hst
      rw [patchRow_sectionId] at hcourse ⊢
      exact hnew y hyi r hr har hax hst hcourse
  · rcases hs.active_cases hy hay with ⟨r', hr', har', rfl⟩ | hyi
    · rw [patchRow_studentId] at hst
      rw [patchRow_sectionId] at hcourse ⊢
      exact (hnew x hxi r' hr' har' hay hst.symm hcourse.symm).symm
    · rw [hs.inserted_eq hxi hyi]

/-- A commit without new rows. -/
theorem OneSectionPerCourse.of_none (hs : Sane c) (h : OneSectionPerCourse c.world)
    (hnone : insertsOf c.log = []) : OneSectionPerCourse c.view := by
  refine .of_new hs h ?_
  rw [hnone]
  exact fun _ hx => absurd hx List.not_mem_nil

/-! ## 2. What a checked session relies on -/

/-- Sections keep their course, and a student whose check is behind the session gains no row in the
course. -/
structure Unovertaken (c : Ctx postgres) (w : World) : Prop where
  course : ∀ s, w.db.courseOf s = c.world.db.courseOf s
  none : ∀ u course, PastCheck u course c.trace →
    NoneGained u (fun s => c.world.db.courseOf s = course) c.world.db w.db

def unovertaken : Extra where
  inv := OneSectionPerCourse
  holds _ := Unovertaken
  inv_seq _ _ _ h := h
  refl _ _ _ := ⟨fun _ => rfl, fun _ _ _ => .refl _ _ _⟩
  trans _ c w w' h h' := by
    refine ⟨fun s => (h'.course s).trans (h.course s), fun u course hp => ?_⟩
    have hon : (fun s => w.db.courseOf s = course) = fun s => c.world.db.courseOf s = course :=
      funext fun s => by rw [h.course]
    exact (h.none u course hp).trans (hon ▸ h'.none u course hp)
  anti _ c c' w hw _ _ ht h := by
    refine ⟨fun s => by rw [hw]; exact h.course s, fun u course ⟨st, hst, hd⟩ => ?_⟩
    rw [hw]
    exact h.none u course ⟨st, ht.subset hst, hd⟩
  seq _ _ _ _ _ := ⟨fun _ => rfl, fun _ _ _ => .refl _ _ _⟩

/-- **What is active now was active at the check.** -/
theorem Earlier.unovertaken {u : UserId} {course : CourseId} {P : Ctx postgres → Prop}
    (h : Earlier Enroll.unovertaken op (fun c₁ => PastCheck u course c₁.trace ∧ P c₁) c)
    {r : Enrollment} (hr : r ∈ c.world.db.enrollments) (ha : r.active = true)
    (hu : r.studentId = u) (hc : c.world.db.courseOf r.sectionId = course) :
    ∃ c₁, P c₁ ∧ ∃ r₀ ∈ c₁.world.db.enrollments, r₀.active = true ∧ r₀.id = r.id ∧
      r₀.studentId = u ∧ r₀.sectionId = r.sectionId ∧
        c₁.world.db.courseOf r₀.sectionId = course := by
  obtain ⟨c₁, hl, hpast, hP⟩ := h
  have hx : Unovertaken c₁ c.world := hl.rely.extra
  have hon : c₁.world.db.courseOf r.sectionId = course := (hx.course _).symm.trans hc
  obtain ⟨r₀, hr₀, ha₀, hid, hst, hsec⟩ := hx.none u course hpast r hr ha hu hon
  exact ⟨c₁, hP, r₀, hr₀, ha₀, hid, hst.trans hu, hsec, hsec.symm ▸ hon⟩

/-- The new row of an `enroll` is the only one in the course. -/
theorem EnrollChecked.only {input : EnrollDto} {u : UserId} {sec : SectionJoin}
    (h : EnrollChecked unovertaken op input u sec c) {r : Enrollment}
    (hr : r ∈ c.world.db.enrollments) (ha : r.active = true) (hu : r.studentId = u)
    (hc : c.world.db.courseOf r.sectionId = c.world.db.courseOf input.sectionId) :
    r.sectionId = input.sectionId := by
  by_contra hs
  rw [h.read.courseOf] at hc
  have hdup : Earlier unovertaken op (fun c₁ => PastCheck u sec.sec.courseId c₁.trace ∧
      c₁.world.db.select (sameCourseElsewhere u sec.sec.courseId input.sectionId) = []) c := by
    obtain ⟨c₁, hl, -, htr, hnone⟩ := h.duplicate
    exact ⟨c₁, hl, ⟨_, htr, Or.inl ⟨_, rfl⟩⟩, hnone⟩
  obtain ⟨c₁, hnone, r₀, hr₀, ha₀, -, hu₀, hsec, hc₀⟩ := hdup.unovertaken hr ha hu hc
  have hmem := mem_sameCourseElsewhere hr₀ ha₀ hu₀ hc₀ (hsec ▸ hs)
  rw [hnone] at hmem
  exact absurd hmem List.not_mem_nil

/-! ## 3. The step condition -/

/-- The swap of row `r` into another section of its course is harmless: the row is the caller's
own, or the check that the swap skips would pass. -/
def OwnOrAlone (db : Db) (r : Enrollment) (input : SwapDto) (u : UserId) : Prop :=
  r.studentId = u ∨
    db.select (sameCourseBeside u (db.courseOf input.targetSectionId) r.id) = []

/-- **The step condition.**  No commit of a row of a student and course overtakes a session that is
past its check of the two, and a swap within a course is harmless. -/
structure NoOvertaking (sys : Sys) (l : Label registrar) : Prop where
  check : ∀ t ses x, l = .commit t → sys.sessions t = some ses → x ∈ insertsOf ses.log →
    ∀ t' ses', t' ≠ t → sys.sessions t' = some ses' → (∀ e, ses'.prog ≠ .throw e) →
      ¬ PastCheck x.studentId (sys.world.db.courseOf x.sectionId) ses'.trace
  own : ∀ t ses id input u actor r, l = .commit t → sys.sessions t = some ses →
    ses.op = .swap id input u actor → sys.world.db.enrollment? id = some r →
      sys.world.db.courseOf r.sectionId = sys.world.db.courseOf input.targetSectionId →
        OwnOrAlone sys.world.db r input u

theorem SwapOutcome.oneSection {id : EnrollmentId} {input : SwapDto} {u : UserId}
    {actor : RequestActor} {r : Enrollment} {sec : SectionJoin} {live : Section}
    {x : EnrollmentId} {droppedAt t t' : Time} {n : OutboxId} (hv : c.world.Valid)
    (hone : OneSectionPerCourse c.world)
    (h : SwapOutcome unovertaken op id input u actor r sec live x droppedAt t t' n c)
    (hown : c.world.db.courseOf r.sectionId = c.world.db.courseOf input.targetSectionId →
      OwnOrAlone c.world.db r input u) : OneSectionPerCourse c.view := by
  refine .of_new (h.sane hv) hone ?_
  rw [h.parts.inserts, h.parts.patches]
  intro y hy r' hr' ha hactive hst hcourse
  rw [List.mem_singleton.mp hy] at hst hcourse
  -- the row that is given up is no longer active
  have hne : r'.id ≠ r.id := by
    intro he
    rw [patchRow_of_mem (by simp) (List.mem_singleton_self _) he] at hactive
    exact absurd hactive (by simp [departure, EnrollmentData.patch, Enrollment.active,
      EnrollmentStatus.active])
  exfalso
  by_cases hsame : c.world.db.courseOf r.sectionId = c.world.db.courseOf input.targetSectionId
  · rcases hown hsame with hmine | hnone
    · have hsec := hone r' hr' r h.own.mem ha h.active (hst.trans hmine.symm)
        (hcourse.trans hsame.symm)
      exact hne (congrArg Enrollment.id (hv.db.one_active r' hr' r h.own.mem ha h.active
        (hst.trans hmine.symm) hsec))
    · have hmem := mem_sameCourseBeside hr' ha hst hcourse hne
      have hnone' : c.world.db.select
          (sameCourseBeside u (c.world.db.courseOf input.targetSectionId) r.id) = [] := hnone
      exact absurd (hnone' ▸ hmem) List.not_mem_nil
  · have hread := h.checked.read.courseOf
    rw [hread] at hsame
    have hc : c.world.db.courseOf r'.sectionId = sec.sec.courseId := hcourse.trans hread
    have hdup : Earlier unovertaken op (fun c₁ => PastCheck u sec.sec.courseId c₁.trace ∧
        c₁.world.db.select (sameCourseBeside u sec.sec.courseId r.id) = []) c := by
      obtain ⟨c₁, hl, -, htr, hnone⟩ := h.checked.duplicate hsame
      exact ⟨c₁, hl, ⟨_, htr, Or.inr ⟨_, rfl⟩⟩, hnone⟩
    obtain ⟨c₁, hnone, r₀, hr₀, ha₀, hid₀, hu₀, -, hc₀⟩ := hdup.unovertaken hr' ha hst hc
    have hmem := mem_sameCourseBeside hr₀ ha₀ hu₀ hc₀ (hid₀.symm ▸ hne)
    exact absurd (hnone ▸ hmem) List.not_mem_nil

/-- **Every commit that meets the condition keeps the property.** -/
theorem Outcome.oneSection (hv : c.world.Valid) (hone : OneSectionPerCourse c.world)
    (h : Outcome unovertaken op c)
    (hown : ∀ id input u actor r, op = .swap id input u actor →
      c.world.db.enrollment? id = some r →
        c.world.db.courseOf r.sectionId = c.world.db.courseOf input.targetSectionId →
          OwnOrAlone c.world.db r input u) : OneSectionPerCourse c.view := by
  have hsane := h.sane hv
  have hnil : c.log = [] → OneSectionPerCourse c.view := fun hlog => by
    rw [view_of_log_nil hlog]
    exact hone
  cases op with
  | enroll input u actor =>
    have henroll : EnrollOutcome unovertaken (.enroll input u actor) input u actor c := h
    cases henroll with
    | already log => exact hnil log
    | seated sec live x t t' n lock seat fresh checked drawn log =>
      refine .of_new hsane hone ?_
      rw [(Parts.of_seated log).inserts]
      intro y hy r hr ha _ hst hcourse
      rw [List.mem_singleton.mp hy] at hst hcourse ⊢
      exact checked.only hr ha hst hcourse
    | queued sec live x t t' n p lock full cap position fresh checked drawn log =>
      refine .of_new hsane hone ?_
      rw [(Parts.of_queued log).inserts]
      intro y hy r hr ha _ hst hcourse
      rw [List.mem_singleton.mp hy] at hst hcourse ⊢
      exact checked.only hr ha hst hcourse
  | drop id u actor =>
    obtain ⟨r, droppedAt, t, n, h⟩ := h
    exact .of_none hsane hone h.parts.inserts
  | swap id input u actor =>
    rcases h with hlog | ⟨r, sec, live, x, droppedAt, t, t', n, h⟩
    · exact hnil hlog
    · refine h.oneSection hv hone fun hsame => ?_
      exact hown id input u actor r rfl (h.id ▸ h.own.lookup hv) hsame
  | runPromotion s =>
    rcases h with hlog | ⟨sec, turns, h⟩
    · exact hnil hlog
    · exact .of_none hsane hone h.parts.inserts
  | reorder s dto actor =>
    obtain ⟨live, t, n, h⟩ := h
    exact .of_none hsane hone h.parts.inserts
  | expireSectionWaitlist s =>
    rcases h with ⟨hlog, -⟩ | ⟨live, turns, h⟩
    · exact hnil hlog
    · exact .of_none hsane hone h.parts.inserts
  | updateSection s dto actor =>
    obtain ⟨live, t, n, h⟩ := h
    exact .of_none hsane hone h.parts.inserts

theorem unovertaken_fits (J : Sys → Prop) : Fits unovertaken NoOvertaking J where
  inv sys t ses hC hJ hG ht a hp ho :=
    ho.oneSection hG.inv.1 hG.inv.2 fun id input u actor r hop hrow hsame =>
      hC.own t ses id input u actor r rfl ht hop hrow hsame
  holds sys t ses t' ses' hC hJ hG ht a hp ho hne ht' hlive := by
    have hsane : Sane (sys.ctx t ses) := ho.sane hG.inv.1
    refine ⟨hsane.grows.courseOf, fun u course hpast => hsane.noneGained fun x hx hu hon => ?_⟩
    refine hC.check t ses x rfl ht hx t' ses' hne ht' hlive ?_
    have hon' : sys.world.db.courseOf x.sectionId = course := hon
    rw [hu, hon']
    exact hpast
  env_inv sys e _ hG := by
    have := hG.inv.2
    cases e <;> exact this
  env_holds sys e _ _ t ses _ := by
    refine ⟨fun s => ?_, fun u course _ r hr ha _ _ => ?_⟩
    · cases e <;> rfl
    · cases e <;> exact ⟨r, hr, ha, rfl, rfl, rfl⟩

/-- **One active section of a course for each student**, in every state that is reached without a
commit overtaking a check. -/
theorem one_section_per_course {w : World} (hv : w.Valid) (hone : OneSectionPerCourse w) {sys : Sys}
    (hr : Txn.Sys.Reach NoOvertaking (Txn.Sys.init w) sys) : OneSectionPerCourse sys.world :=
  (registrar_run (unovertaken_fits fun _ => True) (fun _ _ _ _ _ _ _ => trivial) hv hone trivial
    hr).1.inv.2

namespace Campus

/-- Student 1 asks for both sections of the course at once: both requests run their checks, then
both write and commit. -/
def race : List (Label registrar) :=
  [.begin 0 (enroll 1 10), .begin 1 (enroll 1 11)] ++
    (List.replicate 10 [.exec 0 100, .exec 1 101]).flatten ++ execs 0 3 100 ++ execs 1 3 101 ++
      [.commit 0, .commit 1]

set_option maxRecDepth 4000 in
theorem race_runs : (Txn.Sys.run (Txn.Sys.init world) race).isSome = true := by decide

def afterRace : Sys := (Txn.Sys.run (Txn.Sys.init world) race).get race_runs

theorem world_oneSection : OneSectionPerCourse world := fun _ hr => absurd hr List.not_mem_nil

set_option maxRecDepth 4000 in
/-- **The checks and the unique index do not keep a student out of a second section.** -/
theorem two_sections_of_one_course :
    ¬ ∀ w : World, w.Valid → OneSectionPerCourse w → ∀ sys : Sys,
      Txn.Sys.Reach (fun _ _ => True) (Txn.Sys.init w) sys → OneSectionPerCourse sys.world := by
  intro h
  have hone : OneSectionPerCourse afterRace.world := h world world_valid world_oneSection afterRace
    (.of_run .refl (fun _ _ _ => trivial) (Option.some_get race_runs).symm)
  exact absurd hone (by decide)

/-- Whom a statement looks for, and in which course. -/
def looksFor : Stmt → Option (Option UserId × Option CourseId)
  | .read (.enrollmentFindFirst w) => some (w.studentId, w.courseId)
  | _ => none

theorem not_pastCheck {u : UserId} {course : CourseId} {trace : List Stmt}
    (h : trace.all (fun st => looksFor st != some (some u, some course)) = true) :
    ¬ PastCheck u course trace := by
  rintro ⟨st, hst, ⟨s, rfl⟩ | ⟨id, rfl⟩⟩
  · exact absurd (List.all_eq_true.mp h _ hst) (by simp [looksFor, sameCourseElsewhere])
  · exact absurd (List.all_eq_true.mp h _ hst) (by simp [looksFor, sameCourseBeside])

/-- A check of `NoOvertaking` for runs of sessions 0 to 3. -/
def overtakesNobody (sys : Sys) : Label registrar → Bool
  | .commit t => (sys.sessions t).all fun ses =>
      ((List.range 4).all fun t' => t' == t || (sys.sessions t').all fun ses' =>
        (insertsOf ses.log).all fun x => ses'.trace.all fun st =>
          looksFor st != some (some x.studentId, some (sys.world.db.courseOf x.sectionId))) &&
      match ses.op with
      | .swap id _ u _ => (sys.world.db.enrollment? id).all fun r => r.studentId == u
      | _ => true
  | _ => true

abbrev Orderly (sys : Sys) (l : Label registrar) : Prop :=
  l.session.all (· < 4) = true ∧ overtakesNobody sys l = true

theorem Orderly.noOvertaking {sys : Sys} {l : Label registrar} (h : Orderly sys l)
    (hfew : ∀ t, 4 ≤ t → sys.sessions t = none) : NoOvertaking sys l where
  check t ses x hl ht hx t' ses' hne ht' _ := by
    subst hl
    have hcheck := h.2
    simp only [overtakesNobody, ht, Option.all_some, Bool.and_eq_true, List.all_eq_true] at hcheck
    have hlt : t' < 4 := Nat.lt_of_not_le fun hge => absurd ((hfew t' hge).symm.trans ht') (by simp)
    have hall := hcheck.1 t' (List.mem_range.mpr hlt)
    simp only [ht', Option.all_some, Bool.or_eq_true, beq_iff_eq, hne, false_or] at hall
    exact not_pastCheck (List.all_eq_true.mp hall x hx)
  own t ses id input u actor r hl ht hop hrow _ := by
    subst hl
    have hcheck := h.2
    simp only [overtakesNobody, ht, Option.all_some, Bool.and_eq_true, hop, hrow] at hcheck
    exact Or.inl (beq_iff_eq.mp hcheck.2)

/-- Student 1 commits a row in section 10 while student 2 is past the checks for section 11; then
student 2 has a seat there and leaves, and student 1 swaps to it. -/
def crowd : List (Label registrar) :=
  .begin 0 (enroll 1 10) :: execs 0 13 100 ++ .begin 1 (enroll 2 11) :: execs 1 10 101 ++
    .commit 0 :: execs 1 3 101 ++ .commit 1 :: serve 2 (.drop 101 2 (actor 2)) 7 0 ++
      serve 3 (.swap 100 ⟨11⟩ 1 (actor 1)) 17 102

set_option maxRecDepth 8000 in
theorem crowd_runs : (Txn.Sys.runIf Orderly (Txn.Sys.init world) crowd).isSome = true := by decide

def afterCrowd : Sys := (Txn.Sys.runIf Orderly (Txn.Sys.init world) crowd).get crowd_runs

theorem crowd_reached : Txn.Sys.Reach NoOvertaking (Txn.Sys.init world) afterCrowd := by
  have hr : Txn.Sys.Reach Orderly (Txn.Sys.init world) afterCrowd :=
    .of_runIf .refl (Option.some_get crowd_runs).symm
  refine (hr.mono_inv (J := fun sys => ∀ t, 4 ≤ t → sys.sessions t = none)
    (fun sys l sys' hC hJ hs t ht => ?_) (fun sys l hC hJ => hC.noOvertaking hJ)
    fun _ _ => rfl).1
  refine (Discipline.sessions_of_ne hs fun he => ?_).trans (hJ t ht)
  have hlt := hC.1
  rw [he, Option.all_some, decide_eq_true_eq] at hlt
  omega

set_option maxRecDepth 8000 in
theorem one_section_crowd :
    afterCrowd.world.db.enrollments.map (fun r => (r.studentId, r.sectionId, r.status))
        = [(1, 10, .DROPPED), (2, 11, .DROPPED), (1, 11, .ENROLLED)] ∧
      OneSectionPerCourse afterCrowd.world :=
  ⟨by decide, one_section_per_course world_valid world_oneSection crowd_reached⟩

end Campus

end Enroll
