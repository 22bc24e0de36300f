/-
# What a commit does to the database

A log has four parts: updates of enrollment rows, inserted rows, updates of section rows, and
outbox rows (`patchesOf`, `insertsOf`, `countersOf`, `eventsOf`; notices do not matter here).  No
log updates a row it inserted, so its effect on the rows of a section is the updates and then the
insertions (`view_rowsOf`), and its effect on a section row is the section updates in order
(`view_section?`).

`Sane` says that a log is under the right locks and within the schema.  A sane log is covered, so
it leaves everything alone that is not held, and the database it commits to is valid again
(`Sane.valid`).
-/
import Enroll.WaitlistSpec

namespace Enroll

open Txn (Ctx Prog Forward wp wp_bind)

variable {X : Extra} {op : Op} {c c' : Ctx postgres}

/-! ## 1. The parts of a log -/

def Write.patch? : Write → Option (EnrollmentId × EnrollmentData)
  | enrollmentPatch id d => some (id, d)
  | _ => none

def Write.counter? : Write → Option (SectionId × SectionData)
  | sectionPatch s d => some (s, d)
  | _ => none

def Write.event? : Write → Option AuditOutbox
  | auditInsert e => some e
  | _ => none

def patchesOf (log : List Write) : List (EnrollmentId × EnrollmentData) :=
  log.filterMap Write.patch?

def insertsOf (log : List Write) : List Enrollment := log.flatMap Write.inserted

def countersOf (log : List Write) : List (SectionId × SectionData) :=
  log.filterMap Write.counter?

def eventsOf (log : List Write) : List AuditOutbox := log.filterMap Write.event?

@[simp] theorem patchesOf_append (l l' : List Write) :
    patchesOf (l ++ l') = patchesOf l ++ patchesOf l' := List.filterMap_append

@[simp] theorem insertsOf_append (l l' : List Write) :
    insertsOf (l ++ l') = insertsOf l ++ insertsOf l' := List.flatMap_append

@[simp] theorem countersOf_append (l l' : List Write) :
    countersOf (l ++ l') = countersOf l ++ countersOf l' := List.filterMap_append

@[simp] theorem eventsOf_append (l l' : List Write) :
    eventsOf (l ++ l') = eventsOf l ++ eventsOf l' := List.filterMap_append

/-- What section updates make of the row of section `s`. -/
def patchSection (s : SectionId) (ps : List (SectionId × SectionData)) (sec : Section) : Section :=
  ps.foldl (fun x p => if s = p.1 then p.2.patch x else x) sec

@[simp] theorem patchSection_nil (s : SectionId) (sec : Section) : patchSection s [] sec = sec := rfl

theorem patchSection_cons (s : SectionId) (p : SectionId × SectionData)
    (ps : List (SectionId × SectionData)) (sec : Section) :
    patchSection s (p :: ps) sec = patchSection s ps (if s = p.1 then p.2.patch sec else sec) := rfl

theorem patchSection_append (s : SectionId) (ps ps' : List (SectionId × SectionData))
    (sec : Section) :
    patchSection s (ps ++ ps') sec = patchSection s ps' (patchSection s ps sec) :=
  List.foldl_append

theorem patchSection_single (s : SectionId) (p : SectionId × SectionData) (sec : Section) :
    patchSection s [p] sec = if s = p.1 then p.2.patch sec else sec := rfl

/-- Other sections stay. -/
theorem patchSection_of_ne {s : SectionId} {ps : List (SectionId × SectionData)}
    (h : ∀ p ∈ ps, s ≠ p.1) (sec : Section) : patchSection s ps sec = sec := by
  induction ps generalizing sec with
  | nil => rfl
  | cons p ps ih =>
    rw [patchSection_cons, if_neg (h p List.mem_cons_self)]
    exact ih (fun q hq => h q (List.mem_cons_of_mem p hq)) sec

/-! ## 2. Reading the view through the parts -/

theorem view_section? (c : Ctx postgres) (s : SectionId) :
    c.view.db.section? s
      = (c.world.db.section? s).map (patchSection s (countersOf c.log)) := by
  have hview : c.view = applyLog c.log c.world := rfl
  rw [hview, section?_applyLog]
  generalize c.world.db.section? s = o
  generalize c.log = log
  induction log generalizing o with
  | nil => cases o <;> rfl
  | cons wr log ih =>
    rw [List.foldl_cons, ih]
    cases wr with
    | sectionPatch s' d =>
      cases o with
      | none => rfl
      | some sec => rfl
    | enrollmentInsert r => rfl
    | enrollmentPatch id d => rfl
    | notificationInsert n => rfl
    | auditInsert e => rfl

theorem patchAll_append_of_ne {ps : List (EnrollmentId × EnrollmentData)} {r : Enrollment}
    (h : ∀ p ∈ ps, p.1 ≠ r.id) (rows : List Enrollment) :
    patchAll ps (rows ++ [r]) = patchAll ps rows ++ [r] := by
  induction ps generalizing rows with
  | nil => rfl
  | cons p ps ih =>
    have hp : patchEnrollments p.1 p.2 (rows ++ [r]) = patchEnrollments p.1 p.2 rows ++ [r] := by
      unfold patchEnrollments
      rw [Keyed.update_append, Keyed.update_cons, if_neg (Ne.symm (h p List.mem_cons_self))]
      rfl
    rw [patchAll_cons, patchAll_cons, hp]
    exact ih (fun q hq => h q (List.mem_cons_of_mem p hq)) _

theorem outbox_applyLog (log : List Write) (w : World) :
    (applyLog log w).db.auditOutbox = w.db.auditOutbox ++ eventsOf log := by
  induction log generalizing w with
  | nil => exact (List.append_nil _).symm
  | cons wr log ih =>
    rw [applyLog_cons, ih]
    cases wr with
    | auditInsert e =>
      show w.db.auditOutbox ++ [e] ++ eventsOf log = w.db.auditOutbox ++ (e :: eventsOf log)
      rw [List.append_assoc]
      rfl
    | enrollmentInsert r => rfl
    | enrollmentPatch id d => rfl
    | sectionPatch s' d => rfl
    | notificationInsert n => rfl

/-- No update of the log is of a row the log inserts. -/
def Apart (log : List Write) : Prop :=
  ∀ r ∈ insertsOf log, ∀ p ∈ patchesOf log, p.1 ≠ r.id

theorem enrollments_applyLog_apart {log : List Write} (h : Apart log) (w : World) :
    (applyLog log w).db.enrollments
      = patchAll (patchesOf log) w.db.enrollments ++ insertsOf log := by
  induction log generalizing w with
  | nil => exact (List.append_nil _).symm
  | cons wr log ih =>
    have hsub : Apart log := by
      intro r hr p hp
      refine h r (List.mem_flatMap.mpr ?_) p (List.mem_filterMap.mpr ?_)
      · obtain ⟨wr', hwr', hr'⟩ := List.mem_flatMap.mp hr
        exact ⟨wr', List.mem_cons_of_mem wr hwr', hr'⟩
      · obtain ⟨wr', hwr', hp'⟩ := List.mem_filterMap.mp hp
        exact ⟨wr', List.mem_cons_of_mem wr hwr', hp'⟩
    rw [applyLog_cons, ih hsub]
    cases wr with
    | enrollmentInsert r =>
      show patchAll (patchesOf log) (w.db.enrollments ++ [r]) ++ insertsOf log
        = patchAll (patchesOf log) w.db.enrollments ++ ([r] ++ insertsOf log)
      have hne : ∀ p ∈ patchesOf log, p.1 ≠ r.id := fun p hp => h r List.mem_cons_self p hp
      rw [patchAll_append_of_ne hne, List.append_assoc]
    | enrollmentPatch id d => rfl
    | sectionPatch s' d => rfl
    | notificationInsert n => rfl
    | auditInsert e => rfl

theorem filter_section_patchAll (ps : List (EnrollmentId × EnrollmentData)) (s : SectionId)
    (rows : List Enrollment) :
    (patchAll ps rows).filter (fun r => r.sectionId == s)
      = patchAll ps (rows.filter (fun r => r.sectionId == s)) := by
  induction ps generalizing rows with
  | nil => rfl
  | cons p ps ih =>
    rw [patchAll_cons, patchAll_cons, ih]
    congr 1
    exact Keyed.filter_update (f := p.2.patch) (fun _ => rfl) p.1 rows

/-- **The rows of a section in the view: the updates, then the insertions.** -/
theorem view_rowsOf (h : Apart c.log) (s : SectionId) :
    c.view.db.rowsOf s = patchAll (patchesOf c.log) (c.world.db.rowsOf s)
      ++ (insertsOf c.log).filter (fun r => r.sectionId == s) := by
  unfold Db.rowsOf
  rw [← filter_section_patchAll, ← List.filter_append, ← enrollments_applyLog_apart h]
  rfl

/-! ## 3. Sane logs -/

/-- The log is under the right locks and within the schema. -/
structure Sane (c : Ctx postgres) : Prop where
  /-- only active rows of locked sections are updated -/
  patches : ∀ p ∈ patchesOf c.log, ∀ r ∈ c.world.db.enrollments, r.id = p.1 →
    c.held (.sectionRow r.sectionId) ∧ r.active = true
  /-- the updated rows were there before -/
  known : ∀ p ∈ patchesOf c.log, c.world.db.hasEnrollment p.1 = true
  inserts : ∀ r ∈ insertsOf c.log, Fresh c r ∧ c.world.db.section? r.sectionId ≠ none
  single : (insertsOf c.log).length ≤ 1
  counters : ∀ p ∈ countersOf c.log, c.held (.sectionRow p.1)
  seats : ∀ s sec, c.world.db.section? s = some sec →
    (patchSection s (countersOf c.log) sec).checkSeats = true
  events : ∀ e ∈ eventsOf c.log, e.id ≤ c.world.seq

theorem Sane.of_log_nil (hv : c.world.Valid) (h : c.log = []) : Sane c where
  patches := by rw [h]; exact fun _ hp => absurd hp List.not_mem_nil
  known := by rw [h]; exact fun _ hp => absurd hp List.not_mem_nil
  inserts := by rw [h]; exact fun _ hr => absurd hr List.not_mem_nil
  single := by rw [h]; exact Nat.zero_le 1
  counters := by rw [h]; exact fun _ hp => absurd hp List.not_mem_nil
  seats := by
    intro s sec hs
    rw [h]
    exact decide_eq_true (hv.db.seats sec (section?_mem hs).1)
  events := by rw [h]; exact fun _ he => absurd he List.not_mem_nil

theorem Sane.apart (h : Sane c) : Apart c.log := by
  intro r hr p hp he
  have := h.known p hp
  rw [he, (h.inserts r hr).1.unused] at this
  exact absurd this (by simp)

theorem Sane.covered (h : Sane c) : Covered c.held c.world c.log := by
  intro wr hwr
  cases wr with
  | enrollmentInsert r =>
    have hr : r ∈ insertsOf c.log := List.mem_flatMap.mpr ⟨_, hwr, List.mem_singleton_self r⟩
    exact ⟨(h.inserts r hr).1.locked, (h.inserts r hr).1.held⟩
  | enrollmentPatch id d => exact h.patches (id, d) (List.mem_filterMap.mpr ⟨_, hwr, rfl⟩)
  | sectionPatch s d => exact h.counters (s, d) (List.mem_filterMap.mpr ⟨_, hwr, rfl⟩)
  | notificationInsert n => trivial
  | auditInsert e => trivial

theorem Sane.grows (h : Sane c) : Grows c.world c.view := h.covered.grows

/-- The row a log makes of a committed row. -/
theorem mem_patchAll {ps : List (EnrollmentId × EnrollmentData)} {rows : List Enrollment}
    {x : Enrollment} : x ∈ patchAll ps rows ↔ ∃ r ∈ rows, patchRow ps r = x := by
  rw [patchAll_eq_map, List.mem_map]

@[simp] theorem patchRow_studentId (ps : List (EnrollmentId × EnrollmentData)) (r : Enrollment) :
    (patchRow ps r).studentId = r.studentId := patchRow_kept (fun _ _ => rfl) ps r

@[simp] theorem patchRow_sectionId (ps : List (EnrollmentId × EnrollmentData)) (r : Enrollment) :
    (patchRow ps r).sectionId = r.sectionId := patchRow_kept (fun _ _ => rfl) ps r

theorem patchRow_of_ne {ps : List (EnrollmentId × EnrollmentData)} {r : Enrollment}
    (h : ∀ p ∈ ps, p.1 ≠ r.id) : patchRow ps r = r := by
  induction ps with
  | nil => rfl
  | cons p ps ih =>
    rw [patchRow_cons, if_neg (Ne.symm (h p List.mem_cons_self))]
    exact ih fun q hq => h q (List.mem_cons_of_mem p hq)

/-- An id that is listed once gets its columns. -/
theorem patchRow_of_mem {ps : List (EnrollmentId × EnrollmentData)} (hnd : (ps.map Prod.fst).Nodup)
    {p : EnrollmentId × EnrollmentData} (hp : p ∈ ps) {r : Enrollment} (he : r.id = p.1) :
    patchRow ps r = p.2.patch r := by
  induction ps generalizing r with
  | nil => exact absurd hp List.not_mem_nil
  | cons q ps ih =>
    obtain ⟨hq, hnd'⟩ := List.nodup_cons.mp hnd
    rw [patchRow_cons]
    rcases List.mem_cons.mp hp with rfl | hp'
    · rw [if_pos he]
      refine patchRow_of_ne fun p' hp' he' => hq ?_
      exact List.mem_map.mpr ⟨p', hp', he'.trans he⟩
    · have hne : r.id ≠ q.1 := fun h => hq (List.mem_map.mpr ⟨p, hp', he.symm.trans h⟩)
      rw [if_neg hne]
      exact ih hnd' hp' he

/-- Updates of rows of one section leave the others alone. -/
theorem patchAll_elsewhere (hv : c.world.Valid) {ps : List (EnrollmentId × EnrollmentData)}
    {s s' : SectionId} (hne : s' ≠ s)
    (h : ∀ p ∈ ps, ∃ r ∈ c.world.db.rowsOf s, r.id = p.1) :
    patchAll ps (c.world.db.rowsOf s') = c.world.db.rowsOf s' := by
  rw [patchAll_eq_map]
  refine (List.map_congr_left fun r hr => patchRow_of_ne fun p hp he => ?_).trans (List.map_id _)
  obtain ⟨hmem, hsec⟩ := mem_rowsOf.mp hr
  obtain ⟨r', hr', hid⟩ := h p hp
  obtain ⟨hmem', hsec'⟩ := mem_rowsOf.mp hr'
  have := Keyed.eq_of_key_eq hv.db.enrollment_id hmem' hmem (hid.trans he)
  exact hne (hsec.symm.trans (this ▸ hsec'))

/-- No update revives a row, for the updated rows are active. -/
theorem Sane.active_of_patchRow (h : Sane c) {r : Enrollment} (hr : r ∈ c.world.db.enrollments)
    (ha : (patchRow (patchesOf c.log) r).active = true) : r.active = true := by
  by_cases hp : ∃ p ∈ patchesOf c.log, p.1 = r.id
  · obtain ⟨p, hp, he⟩ := hp
    exact (h.patches p hp r hr he.symm).2
  · rw [patchRow_of_ne fun p hp' he => hp ⟨p, hp', he⟩] at ha
    exact ha

theorem map_id_patchAll (ps : List (EnrollmentId × EnrollmentData)) (rows : List Enrollment) :
    (patchAll ps rows).map Enrollment.id = rows.map Enrollment.id := by
  rw [patchAll_eq_map, List.map_map]
  exact List.map_congr_left fun r _ => patchRow_id ps r

theorem sections_applyLog (log : List Write) (w : World) :
    (applyLog log w).db.sections.map Section.id = w.db.sections.map Section.id := by
  induction log generalizing w with
  | nil => rfl
  | cons wr log ih =>
    rw [applyLog_cons, ih]
    cases wr with
    | sectionPatch s d => exact Keyed.map_update (f := d.patch) (fun _ => rfl) s w.db.sections
    | enrollmentInsert r => rfl
    | enrollmentPatch id d => rfl
    | notificationInsert n => rfl
    | auditInsert e => rfl

/-- A row of the view is a committed row with its updates, or an inserted row. -/
theorem Sane.mem_view (h : Sane c) {x : Enrollment} :
    x ∈ c.view.db.enrollments ↔
      (∃ r ∈ c.world.db.enrollments, patchRow (patchesOf c.log) r = x) ∨
        x ∈ insertsOf c.log := by
  rw [show c.view.db.enrollments = _ from enrollments_applyLog_apart h.apart c.world,
    List.mem_append, mem_patchAll]

/-- An active row of the view was active before, or is inserted. -/
theorem Sane.active_cases (h : Sane c) {x : Enrollment} (hx : x ∈ c.view.db.enrollments)
    (ha : x.active = true) :
    (∃ r ∈ c.world.db.enrollments, r.active = true ∧ patchRow (patchesOf c.log) r = x) ∨
      x ∈ insertsOf c.log := by
  rcases h.mem_view.mp hx with ⟨r, hr, rfl⟩ | hx
  · exact Or.inl ⟨r, hr, h.active_of_patchRow hr ha, rfl⟩
  · exact Or.inr hx

theorem Sane.inserted_eq (h : Sane c) {r r' : Enrollment} (hr : r ∈ insertsOf c.log)
    (hr' : r' ∈ insertsOf c.log) : r = r' := by
  have hlen := h.single
  match hins : insertsOf c.log with
  | [] => rw [hins] at hr; exact absurd hr List.not_mem_nil
  | [a] =>
    rw [hins, List.mem_singleton] at hr hr'
    exact hr.trans hr'.symm
  | a :: b :: t =>
    rw [hins] at hlen
    simp only [List.length_cons] at hlen
    omega

/-- **A sane log commits to a valid database.** -/
theorem Sane.valid (hv : c.world.Valid) (h : Sane c) : c.view.Valid := by
  have henr : c.view.db.enrollments
      = patchAll (patchesOf c.log) c.world.db.enrollments ++ insertsOf c.log :=
    enrollments_applyLog_apart h.apart c.world
  have hsec : ∀ s, (c.view.db.section? s).isSome = (c.world.db.section? s).isSome := fun s => by
    rw [view_section?, Option.isSome_map]
  refine ⟨⟨?_, ?_, ?_, ?_, ?_⟩, ?_⟩
  · exact (sections_applyLog c.log c.world) ▸ hv.db.section_id
  · rw [henr, List.map_append, map_id_patchAll, List.nodup_append]
    refine ⟨hv.db.enrollment_id, ?_, ?_⟩
    · refine List.Nodup.map_on (fun a ha b hb _ => h.inserted_eq ha hb) ?_
      match hins : insertsOf c.log with
      | [] => exact List.nodup_nil
      | [a] => exact List.nodup_singleton a
      | a :: b :: t =>
        have := h.single
        rw [hins] at this
        simp only [List.length_cons] at this
        omega
    · rintro id hid _ hid' rfl
      obtain ⟨r, hr, rfl⟩ := List.mem_map.mp hid'
      obtain ⟨r', hr', he⟩ := List.mem_map.mp hid
      have := (h.inserts r hr).1.unused
      rw [hasEnrollment_iff.mpr ⟨r', hr', he⟩] at this
      exact absurd this (by simp)
  · intro x hx
    rw [Option.ne_none_iff_isSome, hsec, ← Option.ne_none_iff_isSome]
    rcases h.mem_view.mp hx with ⟨r, hr, rfl⟩ | hr
    · rw [patchRow_sectionId]
      exact hv.db.section_fkey r hr
    · exact (h.inserts x hr).2
  · intro x hx
    have hnd : (c.view.db.sections.map Section.id).Nodup :=
      (sections_applyLog c.log c.world) ▸ hv.db.section_id
    have hlook : c.view.db.section? x.id = some x := Keyed.lookup_of_mem hnd hx
    rw [view_section?] at hlook
    obtain ⟨sec, hsec', hx'⟩ := Option.map_eq_some_iff.mp hlook
    have hseats := h.seats _ sec hsec'
    rw [hx'] at hseats
    exact of_decide_eq_true hseats
  · intro x hx y hy hax hay hst hse
    rcases h.mem_view.mp hx with ⟨r, hr, rfl⟩ | hxi
    · rcases h.mem_view.mp hy with ⟨r', hr', rfl⟩ | hyi
      · rw [patchRow_studentId, patchRow_studentId] at hst
        rw [patchRow_sectionId, patchRow_sectionId] at hse
        rw [hv.db.one_active r hr r' hr' (h.active_of_patchRow hr hax)
          (h.active_of_patchRow hr' hay) hst hse]
      · rw [patchRow_studentId] at hst
        rw [patchRow_sectionId] at hse
        exact absurd hst ((h.inserts y hyi).1.only r (mem_rowsOf.mpr ⟨hr, hse⟩)
          (h.active_of_patchRow hr hax))
    · rcases h.mem_view.mp hy with ⟨r', hr', rfl⟩ | hyi
      · rw [patchRow_studentId] at hst
        rw [patchRow_sectionId] at hse
        exact absurd hst.symm ((h.inserts x hxi).1.only r' (mem_rowsOf.mpr ⟨hr', hse.symm⟩)
          (h.active_of_patchRow hr' hay))
      · exact h.inserted_eq hxi hyi
  · intro e he
    rw [show c.view.db.auditOutbox = _ from outbox_applyLog c.log c.world] at he
    rw [show c.view.seq = c.world.seq from applyLog_seq c.log c.world]
    rcases List.mem_append.mp he with he | he
    · exact hv.outbox_seq e he
    · exact h.events e he

/-! ## 4. Rows that become active -/

/-- No row of student `u` in the sections `on` has become active. -/
def NoneGained (u : UserId) (on : SectionId → Prop) (db db' : Db) : Prop :=
  ∀ r ∈ db'.enrollments, r.active = true → r.studentId = u → on r.sectionId →
    ∃ r₀ ∈ db.enrollments, r₀.active = true ∧ r₀.id = r.id ∧ r₀.studentId = r.studentId ∧
      r₀.sectionId = r.sectionId

theorem NoneGained.refl (u : UserId) (on : SectionId → Prop) (db : Db) : NoneGained u on db db :=
  fun r hr ha _ _ => ⟨r, hr, ha, rfl, rfl, rfl⟩

theorem NoneGained.trans {u : UserId} {on : SectionId → Prop} {db db' db'' : Db}
    (h : NoneGained u on db db') (h' : NoneGained u on db' db'') : NoneGained u on db db'' := by
  intro r hr ha hu hon
  obtain ⟨r₁, hr₁, ha₁, hid₁, hst₁, hsec₁⟩ := h' r hr ha hu hon
  obtain ⟨r₀, hr₀, ha₀, hid₀, hst₀, hsec₀⟩ := h r₁ hr₁ ha₁ (hst₁.trans hu) (hsec₁ ▸ hon)
  exact ⟨r₀, hr₀, ha₀, hid₀.trans hid₁, hst₀.trans hst₁, hsec₀.trans hsec₁⟩

/-- A commit that inserts no such row. -/
theorem Sane.noneGained (h : Sane c) {u : UserId} {on : SectionId → Prop}
    (hno : ∀ x ∈ insertsOf c.log, x.studentId = u → ¬ on x.sectionId) :
    NoneGained u on c.world.db c.view.db := by
  intro x hx ha hu hon
  rcases h.active_cases hx ha with ⟨r, hr, har, rfl⟩ | hx
  · rw [patchRow_id, patchRow_studentId, patchRow_sectionId]
    exact ⟨r, hr, har, rfl, rfl, rfl⟩
  · exact absurd hon (hno x hx hu)

/-! ## 5. One row after a commit -/

theorem view_enrollment? (h : Sane c) (x : EnrollmentId) :
    c.view.db.enrollment? x
      = ((c.world.db.enrollment? x).map (patchRow (patchesOf c.log))).or
          (Keyed.lookup Enrollment.id x (insertsOf c.log)) := by
  have henr : c.view.db.enrollments
      = patchAll (patchesOf c.log) c.world.db.enrollments ++ insertsOf c.log :=
    enrollments_applyLog_apart h.apart c.world
  unfold Db.enrollment?
  rw [henr, Keyed.lookup_append, patchAll_eq_map, Keyed.lookup_map fun r => patchRow_id _ r]

/-- A row that was there. -/
theorem view_known (h : Sane c) {x : EnrollmentId} {r : Enrollment}
    (hr : c.world.db.enrollment? x = some r) :
    c.view.db.enrollment? x = some (patchRow (patchesOf c.log) r) := by
  rw [view_enrollment? h, hr]
  rfl

/-- A row that was not there. -/
theorem view_new (h : Sane c) {x : EnrollmentId} (hr : c.world.db.enrollment? x = none) :
    c.view.db.enrollment? x = Keyed.lookup Enrollment.id x (insertsOf c.log) := by
  rw [view_enrollment? h, hr]
  rfl

theorem enrollment?_none {x : EnrollmentId} (h : c.world.db.hasEnrollment x = false) :
    c.world.db.enrollment? x = none := by
  refine Keyed.lookup_none.mpr fun r hr hid => ?_
  rw [hasEnrollment_iff.mpr ⟨r, hr, hid⟩] at h
  exact absurd h (by simp)

/-- The new row in the view. -/
theorem view_inserted (hs : Sane c) {r : Enrollment} (hins : insertsOf c.log = [r]) :
    c.view.db.enrollment? r.id = some r := by
  have hr : r ∈ insertsOf c.log := hins ▸ List.mem_singleton_self r
  rw [view_new hs (enrollment?_none (hs.inserts r hr).1.unused), hins]
  simp [Keyed.lookup]

end Enroll
