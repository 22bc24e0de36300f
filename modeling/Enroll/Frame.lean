/-
# What a write touches and what a lock protects

Every write moves the rows of one section only, and what it makes of them depends on those rows
alone (`Write.onRows`, `Write.onSection`).  So the view of a transaction restricted to a section
is a function of the committed rows of that section (`view_rowsOf`, `view_section?`), and as long
as nobody else may change that section the transaction reads stable data.

`World.Same` says what holding a key keeps as it is; `Grows` says what no transaction ever undoes
(rows stay in their section and with their student, rows out of play do not change, the outbox is
appended to).  `Covered` is the locking discipline: a log that writes only to sections whose row
lock is held.  A covered log leaves every key that is not held alone (`Covered.same`) and only
grows the database (`Covered.grows`).
-/
import Enroll.Store

namespace Enroll

/-! ## 1. Reading after one write -/

@[simp] theorem patch_id (d : EnrollmentData) (r : Enrollment) : (d.patch r).id = r.id := rfl
@[simp] theorem patch_studentId (d : EnrollmentData) (r : Enrollment) :
    (d.patch r).studentId = r.studentId := rfl
@[simp] theorem patch_sectionId (d : EnrollmentData) (r : Enrollment) :
    (d.patch r).sectionId = r.sectionId := rfl
@[simp] theorem section_patch_id (d : SectionData) (s : Section) : (d.patch s).id = s.id := rfl

/-- What a write makes of the rows of section `s`. -/
def Write.onRows (s : SectionId) : Write → List Enrollment → List Enrollment
  | enrollmentInsert r, rows => if r.sectionId = s then rows ++ [r] else rows
  | enrollmentPatch id d, rows => patchEnrollments id d rows
  | sectionPatch _ _, rows => rows
  | notificationInsert _, rows => rows
  | auditInsert _, rows => rows

/-- What a write makes of the row of section `s`. -/
def Write.onSection (s : SectionId) : Write → Option Section → Option Section
  | sectionPatch id d, o => o.map (fun x => if s = id then d.patch x else x)
  | enrollmentInsert _, o => o
  | enrollmentPatch _ _, o => o
  | notificationInsert _, o => o
  | auditInsert _, o => o

/-- What a write makes of one enrollment row. -/
def Write.onRow : Write → Enrollment → Enrollment
  | enrollmentPatch id d, r => if r.id = id then d.patch r else r
  | enrollmentInsert _, r => r
  | sectionPatch _ _, r => r
  | notificationInsert _, r => r
  | auditInsert _, r => r

/-- The rows a write adds. -/
def Write.inserted : Write → List Enrollment
  | enrollmentInsert r => [r]
  | _ => []

theorem rowsOf_onDb (s : SectionId) (wr : Write) (db : Db) :
    (wr.onDb db).rowsOf s = wr.onRows s (db.rowsOf s) := by
  cases wr with
  | enrollmentInsert r =>
    simp only [Write.onDb, Db.rowsOf, Write.onRows, List.filter_append, List.filter_cons,
      List.filter_nil, beq_iff_eq]
    split <;> simp
  | enrollmentPatch id d => exact Keyed.filter_update (f := d.patch) (fun _ => rfl) id db.enrollments
  | sectionPatch id d => rfl
  | notificationInsert n => rfl
  | auditInsert e => rfl

theorem section?_onDb (s : SectionId) (wr : Write) (db : Db) :
    (wr.onDb db).section? s = wr.onSection s (db.section? s) := by
  cases wr with
  | sectionPatch id d => exact Keyed.lookup_update (f := d.patch) (fun _ => rfl) id s db.sections
  | enrollmentInsert r => rfl
  | enrollmentPatch id d => rfl
  | notificationInsert n => rfl
  | auditInsert e => rfl

theorem enrollments_onDb (wr : Write) (db : Db) :
    (wr.onDb db).enrollments = db.enrollments.map wr.onRow ++ wr.inserted := by
  cases wr with
  | enrollmentPatch id d => exact (List.append_nil _).symm
  | enrollmentInsert r =>
    rw [show (Write.enrollmentInsert r).onRow = id from rfl, List.map_id]
    rfl
  | sectionPatch s d =>
    rw [show (Write.sectionPatch s d).onRow = id from rfl, List.map_id]
    exact (List.append_nil _).symm
  | notificationInsert n =>
    rw [show (Write.notificationInsert n).onRow = id from rfl, List.map_id]
    exact (List.append_nil _).symm
  | auditInsert e =>
    rw [show (Write.auditInsert e).onRow = id from rfl, List.map_id]
    exact (List.append_nil _).symm

@[simp] theorem onRow_id (wr : Write) (r : Enrollment) : (wr.onRow r).id = r.id := by
  cases wr <;> simp only [Write.onRow]
  split <;> rfl

@[simp] theorem onRow_studentId (wr : Write) (r : Enrollment) :
    (wr.onRow r).studentId = r.studentId := by
  cases wr <;> simp only [Write.onRow]
  split <;> rfl

@[simp] theorem onRow_sectionId (wr : Write) (r : Enrollment) :
    (wr.onRow r).sectionId = r.sectionId := by
  cases wr <;> simp only [Write.onRow]
  split <;> rfl

theorem hasEnrollment_onDb (x : EnrollmentId) (wr : Write) (db : Db) :
    (wr.onDb db).hasEnrollment x
      = (db.hasEnrollment x || wr.inserted.any (fun r => r.id == x)) := by
  unfold Db.hasEnrollment
  rw [enrollments_onDb, List.any_append, List.any_map]
  congr 2
  funext r
  simp

@[simp] theorem ref_onDb (wr : Write) (db : Db) : (wr.onDb db).ref = db.ref := by
  cases wr <;> rfl

@[simp] theorem apply_db (w : World) (wr : Write) : (wr.apply w).db = wr.onDb w.db := rfl
@[simp] theorem apply_now (w : World) (wr : Write) : (wr.apply w).now = w.now := rfl
@[simp] theorem apply_seq (w : World) (wr : Write) : (wr.apply w).seq = w.seq := rfl

/-! ## 2. Reading after a log -/

/-- The world after a log. -/
abbrev applyLog (log : List Write) (w : World) : World := log.foldl Write.apply w

theorem applyLog_cons (wr : Write) (log : List Write) (w : World) :
    applyLog (wr :: log) w = applyLog log (wr.apply w) := rfl

theorem applyLog_append (l l' : List Write) (w : World) :
    applyLog (l ++ l') w = applyLog l' (applyLog l w) := List.foldl_append

@[simp] theorem applyLog_seq (log : List Write) (w : World) : (applyLog log w).seq = w.seq := by
  induction log generalizing w with
  | nil => rfl
  | cons wr log ih => rw [applyLog_cons, ih, apply_seq]

@[simp] theorem applyLog_now (log : List Write) (w : World) : (applyLog log w).now = w.now := by
  induction log generalizing w with
  | nil => rfl
  | cons wr log ih => rw [applyLog_cons, ih, apply_now]

@[simp] theorem applyLog_ref (log : List Write) (w : World) :
    (applyLog log w).db.ref = w.db.ref := by
  induction log generalizing w with
  | nil => rfl
  | cons wr log ih => rw [applyLog_cons, ih, apply_db, ref_onDb]

/-- **The rows of a section after a log depend only on the rows of that section before it.** -/
theorem rowsOf_applyLog (s : SectionId) (log : List Write) (w : World) :
    (applyLog log w).db.rowsOf s
      = log.foldl (fun rows wr => wr.onRows s rows) (w.db.rowsOf s) := by
  induction log generalizing w with
  | nil => rfl
  | cons wr log ih => rw [applyLog_cons, ih, apply_db, rowsOf_onDb, List.foldl_cons]

theorem section?_applyLog (s : SectionId) (log : List Write) (w : World) :
    (applyLog log w).db.section? s
      = log.foldl (fun o wr => wr.onSection s o) (w.db.section? s) := by
  induction log generalizing w with
  | nil => rfl
  | cons wr log ih => rw [applyLog_cons, ih, apply_db, section?_onDb, List.foldl_cons]

theorem hasEnrollment_applyLog (x : EnrollmentId) (log : List Write) (w : World) :
    (applyLog log w).db.hasEnrollment x
      = (w.db.hasEnrollment x || (log.flatMap Write.inserted).any (fun r => r.id == x)) := by
  induction log generalizing w with
  | nil => simp
  | cons wr log ih =>
    rw [applyLog_cons, ih, apply_db, hasEnrollment_onDb, List.flatMap_cons, List.any_append,
      Bool.or_assoc]

/-- What a log makes of one row. -/
def rowImage (log : List Write) (r : Enrollment) : Enrollment :=
  log.foldl (fun r wr => wr.onRow r) r

@[simp] theorem rowImage_nil (r : Enrollment) : rowImage [] r = r := rfl

theorem rowImage_cons (wr : Write) (log : List Write) (r : Enrollment) :
    rowImage (wr :: log) r = rowImage log (wr.onRow r) := rfl

@[simp] theorem rowImage_id (log : List Write) (r : Enrollment) : (rowImage log r).id = r.id := by
  induction log generalizing r with
  | nil => rfl
  | cons wr log ih => rw [rowImage_cons, ih, onRow_id]

@[simp] theorem rowImage_studentId (log : List Write) (r : Enrollment) :
    (rowImage log r).studentId = r.studentId := by
  induction log generalizing r with
  | nil => rfl
  | cons wr log ih => rw [rowImage_cons, ih, onRow_studentId]

@[simp] theorem rowImage_sectionId (log : List Write) (r : Enrollment) :
    (rowImage log r).sectionId = r.sectionId := by
  induction log generalizing r with
  | nil => rfl
  | cons wr log ih => rw [rowImage_cons, ih, onRow_sectionId]

theorem mem_applyLog_of_mem {log : List Write} {w : World} {r : Enrollment}
    (h : r ∈ w.db.enrollments) : rowImage log r ∈ (applyLog log w).db.enrollments := by
  induction log generalizing w r with
  | nil => exact h
  | cons wr log ih =>
    rw [applyLog_cons, rowImage_cons]
    refine ih ?_
    rw [apply_db, enrollments_onDb]
    exact List.mem_append_left _ (List.mem_map_of_mem h)

/-- The ids a log patches. -/
def Write.patches (id : EnrollmentId) : Write → Prop
  | enrollmentPatch id' _ => id' = id
  | _ => False

theorem rowImage_of_not_patched {log : List Write} {r : Enrollment}
    (h : ∀ wr ∈ log, ¬ wr.patches r.id) : rowImage log r = r := by
  induction log with
  | nil => rfl
  | cons wr log ih =>
    have hr : wr.onRow r = r := by
      cases wr with
      | enrollmentPatch id d =>
        have hne := h _ List.mem_cons_self
        exact if_neg (fun he => hne he.symm)
      | enrollmentInsert r' => rfl
      | sectionPatch id d => rfl
      | notificationInsert n => rfl
      | auditInsert e => rfl
    rw [rowImage_cons, hr]
    exact ih fun wr' h' => h wr' (List.mem_cons_of_mem wr h')

/-! ## 3. What a held key keeps, and what never goes back -/

/-- Nobody changed what `k` protects. -/
def World.Same : Key → World → World → Prop
  | .sectionRow s, w, w' =>
    w'.db.section? s = w.db.section? s ∧ w'.db.rowsOf s = w.db.rowsOf s
  | .enrollmentRow x, w, w' => w'.db.hasEnrollment x = w.db.hasEnrollment x
  | .activePair _ _, _, _ => True

theorem World.Same.refl (k : Key) (w : World) : World.Same k w w := by
  cases k <;> simp [World.Same]

theorem World.Same.trans {k : Key} {w w' w'' : World} (h : World.Same k w w')
    (h' : World.Same k w' w'') : World.Same k w w'' := by
  cases k with
  | sectionRow s => exact ⟨h'.1.trans h.1, h'.2.trans h.2⟩
  | enrollmentRow x => exact Eq.trans h' h
  | activePair u s => trivial

/-- The columns of a section that no modelled transaction writes. -/
def Section.fixed (s : Section) : Section :=
  { s with capacity := 0, enrolledCount := 0, waitlistCap := none }

@[simp] theorem section_patch_fixed (d : SectionData) (s : Section) :
    (d.patch s).fixed = s.fixed := rfl

/-- What no transaction undoes. -/
structure Grows (w w' : World) : Prop where
  rows : ∀ r ∈ w.db.enrollments, ∃ r' ∈ w'.db.enrollments, r'.id = r.id ∧
    r'.studentId = r.studentId ∧ r'.sectionId = r.sectionId ∧ (r.active = false → r' = r)
  sections : ∀ s, (w'.db.section? s).map Section.fixed = (w.db.section? s).map Section.fixed
  outbox : w.db.auditOutbox <+: w'.db.auditOutbox
  seq : w.seq ≤ w'.seq
  now : w.now ≤ w'.now

theorem Grows.refl (w : World) : Grows w w where
  rows r hr := ⟨r, hr, rfl, rfl, rfl, fun _ => rfl⟩
  sections _ := rfl
  outbox := List.prefix_refl _
  seq := Nat.le_refl _
  now := Nat.le_refl _

theorem Grows.trans {w w' w'' : World} (h : Grows w w') (h' : Grows w' w'') : Grows w w'' where
  rows r hr := by
    obtain ⟨r', hr', hid, hst, hsec, hact⟩ := h.rows r hr
    obtain ⟨r'', hr'', hid', hst', hsec', hact'⟩ := h'.rows r' hr'
    refine ⟨r'', hr'', hid'.trans hid, hst'.trans hst, hsec'.trans hsec, fun ha => ?_⟩
    have he := hact ha
    rw [hact' (by rw [he]; exact ha), he]
  sections s := (h'.sections s).trans (h.sections s)
  outbox := h.outbox.trans h'.outbox
  seq := Nat.le_trans h.seq h'.seq
  now := Nat.le_trans h.now h'.now

theorem Grows.isSome {w w' : World} (h : Grows w w') (s : SectionId) :
    (w'.db.section? s).isSome = (w.db.section? s).isSome := by
  have := congrArg Option.isSome (h.sections s)
  simpa using this

theorem Grows.section?_none {w w' : World} (h : Grows w w') {s : SectionId}
    (hs : w.db.section? s = none) : w'.db.section? s = none := by
  have := h.isSome s
  rw [hs] at this
  exact Option.isNone_iff_eq_none.mp (Option.isSome_eq_false_iff.mp this)

theorem Grows.sectionOf_fixed {w w' : World} (h : Grows w w') (s : SectionId) :
    (w'.db.sectionOf s).fixed = (w.db.sectionOf s).fixed := by
  have := h.sections s
  unfold Db.sectionOf
  cases h1 : w.db.section? s <;> cases h2 : w'.db.section? s <;> simp_all

theorem fixed_courseId {a b : Section} (h : a.fixed = b.fixed) : a.courseId = b.courseId :=
  (congrArg Section.courseId h : a.fixed.courseId = b.fixed.courseId)

theorem fixed_termId {a b : Section} (h : a.fixed = b.fixed) : a.termId = b.termId :=
  (congrArg Section.termId h : a.fixed.termId = b.fixed.termId)

theorem fixed_meetingPattern {a b : Section} (h : a.fixed = b.fixed) :
    a.meetingPattern = b.meetingPattern := 
  (congrArg Section.meetingPattern h : a.fixed.meetingPattern = b.fixed.meetingPattern)

theorem Grows.courseOf {w w' : World} (h : Grows w w') (s : SectionId) :
    w'.db.courseOf s = w.db.courseOf s := fixed_courseId (h.sectionOf_fixed s)

theorem Grows.termOf {w w' : World} (h : Grows w w') (s : SectionId) :
    w'.db.termOf s = w.db.termOf s := fixed_termId (h.sectionOf_fixed s)

/-! ## 4. The locking discipline -/

/-- A write of a transaction that holds `held`, to the world `w`, is under the right locks. -/
def Write.CoveredBy (held : Key → Prop) (w : World) : Write → Prop
  | enrollmentInsert r => held (.sectionRow r.sectionId) ∧ held (.enrollmentRow r.id)
  | enrollmentPatch id _ =>
    ∀ r ∈ w.db.enrollments, r.id = id → held (.sectionRow r.sectionId) ∧ r.active = true
  | sectionPatch s _ => held (.sectionRow s)
  | notificationInsert _ => True
  | auditInsert _ => True

/-- Every write of the log is under the right locks. -/
def Covered (held : Key → Prop) (w : World) (log : List Write) : Prop :=
  ∀ wr ∈ log, wr.CoveredBy held w

theorem Covered.rowsOf {held : Key → Prop} {w : World} {log : List Write}
    (h : Covered held w log) {s : SectionId} (hs : ¬ held (.sectionRow s)) :
    (applyLog log w).db.rowsOf s = w.db.rowsOf s := by
  rw [rowsOf_applyLog]
  have hfix : ∀ wr ∈ log, wr.onRows s (w.db.rowsOf s) = w.db.rowsOf s := by
    intro wr hwr
    have hc := h wr hwr
    cases wr with
    | enrollmentInsert r =>
      refine if_neg fun he => hs ?_
      rw [← he]
      exact hc.1
    | enrollmentPatch id d =>
      refine Keyed.update_of_forall_ne _ fun r hr he => hs ?_
      obtain ⟨hmem, hsec⟩ := List.mem_filter.mp hr
      exact (eq_of_beq hsec) ▸ (hc r hmem he).1
    | sectionPatch id d => rfl
    | notificationInsert n => rfl
    | auditInsert e => rfl
  clear h
  induction log with
  | nil => rfl
  | cons wr log ih =>
    rw [List.foldl_cons, hfix wr List.mem_cons_self]
    exact ih fun wr' h' => hfix wr' (List.mem_cons_of_mem wr h')

theorem Covered.section? {held : Key → Prop} {w : World} {log : List Write}
    (h : Covered held w log) {s : SectionId} (hs : ¬ held (.sectionRow s)) :
    (applyLog log w).db.section? s = w.db.section? s := by
  rw [section?_applyLog]
  have hfix : ∀ wr ∈ log, ∀ o, wr.onSection s o = o := by
    intro wr hwr o
    have hc := h wr hwr
    cases wr with
    | sectionPatch id d =>
      have hne : s ≠ id := fun he => hs (he ▸ hc)
      simp [Write.onSection, hne]
    | enrollmentInsert r => rfl
    | enrollmentPatch id d => rfl
    | notificationInsert n => rfl
    | auditInsert e => rfl
  clear h
  induction log with
  | nil => rfl
  | cons wr log ih =>
    rw [List.foldl_cons, hfix wr List.mem_cons_self]
    exact ih fun wr' h' => hfix wr' (List.mem_cons_of_mem wr h')

/-- **A covered log changes nothing that is not held.** -/
theorem Covered.same {held : Key → Prop} {w : World} {log : List Write}
    (h : Covered held w log) {k : Key} (hk : ¬ held k) : World.Same k w (applyLog log w) := by
  cases k with
  | sectionRow s => exact ⟨h.section? hk, h.rowsOf hk⟩
  | enrollmentRow x =>
    simp only [World.Same]
    rw [hasEnrollment_applyLog]
    have hno : (log.flatMap Write.inserted).any (fun r => r.id == x) = false := by
      refine List.any_eq_false.mpr fun r hr he => hk ?_
      obtain ⟨wr, hwr, hr'⟩ := List.mem_flatMap.mp hr
      have hc := h wr hwr
      cases wr with
      | enrollmentInsert r' =>
        rw [Write.inserted, List.mem_singleton] at hr'
        subst hr'
        exact (eq_of_beq he) ▸ hc.2
      | enrollmentPatch id d => exact absurd hr' (List.not_mem_nil)
      | sectionPatch id d => exact absurd hr' (List.not_mem_nil)
      | notificationInsert n => exact absurd hr' (List.not_mem_nil)
      | auditInsert e => exact absurd hr' (List.not_mem_nil)
    rw [hno, Bool.or_false]
  | activePair u s => trivial

theorem outbox_onDb (wr : Write) (db : Db) : db.auditOutbox <+: (wr.onDb db).auditOutbox := by
  cases wr <;> simp [Write.onDb]

/-- **A covered log only grows the database.** -/
theorem Covered.grows {held : Key → Prop} {w : World} {log : List Write}
    (h : Covered held w log) : Grows w (applyLog log w) where
  rows r hr := by
    refine ⟨rowImage log r, mem_applyLog_of_mem hr, rowImage_id _ _, rowImage_studentId _ _,
      rowImage_sectionId _ _, fun ha => rowImage_of_not_patched fun wr hwr hp => ?_⟩
    have hc := h wr hwr
    cases wr with
    | enrollmentPatch id d =>
      have := (hc r hr hp.symm).2
      rw [ha] at this
      exact absurd this (by simp)
    | enrollmentInsert r' => exact hp
    | sectionPatch id d => exact hp
    | notificationInsert n => exact hp
    | auditInsert e => exact hp
  sections s := by
    rw [section?_applyLog]
    generalize w.db.section? s = o
    clear h
    induction log generalizing o with
    | nil => rfl
    | cons wr log ih =>
      rw [List.foldl_cons, ih]
      cases wr with
      | sectionPatch id d =>
        cases o with
        | none => rfl
        | some x =>
          simp only [Write.onSection, Option.map_some]
          split <;> rfl
      | enrollmentInsert r => rfl
      | enrollmentPatch id d => rfl
      | notificationInsert n => rfl
      | auditInsert e => rfl
  outbox := by
    clear h
    induction log generalizing w with
    | nil => exact List.prefix_refl _
    | cons wr log ih =>
      rw [applyLog_cons]
      exact (outbox_onDb wr w.db).trans (ih (w := wr.apply w))
  seq := by rw [applyLog_seq]
  now := by rw [applyLog_now]

/-! ## 5. Queries about one section -/

/-- A filter that names a section looks at the rows of that section. -/
theorem select_section (db : Db) (w : EnrollmentWhere) {s : SectionId}
    (hs : w.sectionId = some s) : db.select w = (db.rowsOf s).filter (w.matches db) := by
  unfold Db.select Db.rowsOf
  rw [List.filter_filter]
  refine List.filter_congr fun r _ => ?_
  cases hm : w.matches db r with
  | false => simp
  | true =>
    simp only [EnrollmentWhere.matches, hs, Option.all_some, Bool.and_eq_true] at hm
    have : s = r.sectionId := eq_of_beq hm.1.1.1.1.1.1.2
    simp [this]

theorem select_waiting (db : Db) (s : SectionId) :
    db.select { sectionId := some s, status := some [.WAITLISTED] } = db.waiting s := by
  rw [select_section db _ rfl]
  unfold Db.waiting
  refine List.filter_congr fun r hr => ?_
  have hsec : r.sectionId = s := by
    simpa using (List.mem_filter.mp hr).2
  simp [EnrollmentWhere.matches, hsec, Enrollment.waitlisted, beq_eq_decide]

theorem mem_rowsOf {db : Db} {s : SectionId} {r : Enrollment} :
    r ∈ db.rowsOf s ↔ r ∈ db.enrollments ∧ r.sectionId = s := by
  simp [Db.rowsOf]

theorem mem_waiting {db : Db} {s : SectionId} {r : Enrollment} :
    r ∈ db.waiting s ↔ r ∈ db.enrollments ∧ r.sectionId = s ∧ r.status = .WAITLISTED := by
  simp [Db.waiting, mem_rowsOf, Enrollment.waitlisted, and_assoc]

theorem enrollment?_mem {db : Db} {id : EnrollmentId} {r : Enrollment}
    (h : db.enrollment? id = some r) : r ∈ db.enrollments ∧ r.id = id := Keyed.lookup_some h

theorem section?_mem {db : Db} {s : SectionId} {sec : Section} (h : db.section? s = some sec) :
    sec ∈ db.sections ∧ sec.id = s := Keyed.lookup_some h

theorem Db.Valid.enrollment?_of_mem {db : Db} (h : db.Valid) {r : Enrollment}
    (hr : r ∈ db.enrollments) : db.enrollment? r.id = some r :=
  Keyed.lookup_of_mem h.enrollment_id hr

theorem hasEnrollment_iff {db : Db} {x : EnrollmentId} :
    db.hasEnrollment x = true ↔ ∃ r ∈ db.enrollments, r.id = x := by
  simp [Db.hasEnrollment]

end Enroll
