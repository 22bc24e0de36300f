/-
# Reading the audit log

What the rows of `AuditOutbox` say happened, read from their own fields: `Tables` is what they
determine of the tables, `AuditOutbox.onEnrollment` and `AuditOutbox.onSection` are what a row does
to it, and `AuditOutbox.Recorded` says that its `before` object is what it found.  Nothing here knows
how the rows were written.

An event concerns sections: those of the enrollments it names, and the section it targets.  Its
`before` object can be checked with these sections alone (`Recorded.congr`), as long as the tables
have every enrollment in its section (`Sectioned`).
-/
import Enroll.History
import Enroll.Queue

namespace Enroll

/-! ## 1. Tables -/

/-- What the log determines of an enrollment. -/
structure Placement where
  sectionId : SectionId
  status : EnrollmentStatus
  waitlistPosition : Option Int
  deriving DecidableEq, Repr

/-- What the log determines of a section. -/
structure Limits where
  capacity : Int
  waitlistCap : Option Int
  deriving DecidableEq, Repr

structure Tables where
  places : EnrollmentId → Option Placement
  limits : SectionId → Option Limits

def Enrollment.placement (r : Enrollment) : Placement := ⟨r.sectionId, r.status, r.waitlistPosition⟩

def Section.limits (s : Section) : Limits := ⟨s.capacity, s.waitlistCap⟩

def Db.tables (db : Db) : Tables where
  places x := (db.enrollment? x).map Enrollment.placement
  limits s := (db.section? s).map Section.limits

/-- Given a seat, or taken off the waitlist: no position is left. -/
def Placement.settle (st : EnrollmentStatus) (p : Placement) : Placement :=
  { p with status := st, waitlistPosition := none }

/-- At the place that `ids` lists it, counted from one. -/
def Placement.listed (ids : List EnrollmentId) (x : EnrollmentId) (p : Placement) : Placement :=
  if x ∈ ids then { p with waitlistPosition := some (ids.idxOf x + 1 : Nat) } else p

/-- The placement that an object describes; a position that it does not mention is null. -/
def AuditFields.placement (f : AuditFields) : Option Placement :=
  f.sectionId.bind fun s => f.status.map fun st => ⟨s, st, f.waitlistPosition.getD none⟩

/-! ## 2. What an event does -/

namespace AuditOutbox

variable (e : AuditOutbox)

def before : AuditFields := e.payload.before.getD {}

def after : AuditFields := e.payload.after.getD {}

/-- What the event does to enrollment `x`. -/
def onEnrollment (x : EnrollmentId) (p : Option Placement) : Option Placement :=
  match e.action with
  | .ENROLLMENT_CREATED | .ENROLLMENT_WAITLISTED =>
    if e.target = .enrollmentTarget x then e.after.placement else p
  | .ENROLLMENT_DROPPED | .ENROLLMENT_WAITLIST_LEFT | .ENROLLMENT_PROMOTED
  | .ENROLLMENT_WAITLIST_EXPIRED =>
    if e.target = .enrollmentTarget x then
      p.map fun q => q.settle (e.after.status.getD q.status)
    else p
  | .ENROLLMENT_SWAPPED =>
    -- `target` and `after` are the new row, `before` is the one given up
    if e.target = .enrollmentTarget x then e.after.placement
    else if e.before.enrollmentId = some x then p.map (Placement.settle .DROPPED)
    else p
  | .WAITLIST_REORDERED => p.map (Placement.listed (e.after.orderedEnrollmentIds.getD []) x)
  | .SECTION_UPDATED => p

/-- What the event does to section `s`. -/
def onSection (s : SectionId) (l : Option Limits) : Option Limits :=
  if e.action = .SECTION_UPDATED ∧ e.target = .sectionTarget s then
    l.map fun m => ⟨e.after.capacity.getD m.capacity, e.after.waitlistCap.getD m.waitlistCap⟩
  else l

end AuditOutbox

/-- The tables after an event. -/
def Tables.step (T : Tables) (e : AuditOutbox) : Tables where
  places x := e.onEnrollment x (T.places x)
  limits s := e.onSection s (T.limits s)

/-- The tables after some events. -/
def replay (es : List AuditOutbox) (T : Tables) : Tables := es.foldl Tables.step T

theorem replay_append (es es' : List AuditOutbox) (T : Tables) :
    replay (es ++ es') T = replay es' (replay es T) := List.foldl_append

theorem replay_places (es : List AuditOutbox) (T : Tables) :
    (replay es T).places = History.replay AuditOutbox.onEnrollment es T.places := by
  induction es generalizing T with
  | nil => rfl
  | cons e es ih => exact ih (T.step e)

theorem replay_limits (es : List AuditOutbox) (T : Tables) :
    (replay es T).limits = History.replay AuditOutbox.onSection es T.limits := by
  induction es generalizing T with
  | nil => rfl
  | cons e es ih => exact ih (T.step e)

/-! ## 3. What an event records -/

/-- The fields that an object has of an enrollment are those of its placement. -/
structure AuditFields.Describes (f : AuditFields) (p : Placement) : Prop where
  sectionId : ∀ s, f.sectionId = some s → p.sectionId = s
  status : ∀ st, f.status = some st → p.status = st
  waitlistPosition : ∀ n, f.waitlistPosition = some n → p.waitlistPosition = n

/-- `ids` are the WAITLISTED enrollments of section `s`, by position. -/
structure Tables.IsWaitlist (T : Tables) (s : SectionId) (ids : List EnrollmentId) : Prop where
  nodup : ids.Nodup
  mem : ∀ x, x ∈ ids ↔ ∃ p, T.places x = some p ∧ p.sectionId = s ∧ p.status = .WAITLISTED
  sorted : ids.Pairwise fun x y =>
    positionLe ((T.places x).bind Placement.waitlistPosition)
      ((T.places y).bind Placement.waitlistPosition)

/-- The fields that an object has of section `s` are those of the tables. -/
structure AuditFields.DescribesSection (f : AuditFields) (T : Tables) (s : SectionId) : Prop where
  waitlist : ∀ ids, f.orderedEnrollmentIds = some ids → T.IsWaitlist s ids
  capacity : ∀ n, f.capacity = some n → ∃ l, T.limits s = some l ∧ l.capacity = n
  waitlistCap : ∀ n, f.waitlistCap = some n → ∃ l, T.limits s = some l ∧ l.waitlistCap = n

/-- **The event's `before` is what it found in the tables.**  `null` stands for an enrollment that
was not there; a swap names the enrollment it gave up. -/
def AuditOutbox.Recorded (e : AuditOutbox) (T : Tables) : Prop :=
  match e.target with
  | .enrollmentTarget x =>
    match e.payload.before with
    | none => T.places x = none
    | some f => ∃ p, T.places (f.enrollmentId.getD x) = some p ∧ f.Describes p
  | .sectionTarget s => e.before.DescribesSection T s

/-! ## 4. What an event concerns -/

/-- The enrollments that the event names. -/
def AuditOutbox.enrollments (e : AuditOutbox) : List EnrollmentId :=
  (match e.target with
    | .enrollmentTarget x => [x]
    | .sectionTarget _ => []) ++
  e.before.enrollmentId.toList ++ e.after.orderedEnrollmentIds.getD []

/-- The event is about section `s`, or about enrollments in it. -/
def AuditOutbox.concerns (db : Db) (s : SectionId) (e : AuditOutbox) : Bool :=
  decide (e.target = .sectionTarget s) ||
    e.enrollments.any fun x => (db.enrollment? x).any fun r => r.sectionId == s

theorem AuditOutbox.concerns_iff {db : Db} {s : SectionId} {e : AuditOutbox} :
    e.concerns db s = true ↔ e.target = .sectionTarget s ∨
      ∃ x ∈ e.enrollments, ∃ r, db.enrollment? x = some r ∧ r.sectionId = s := by
  simp [AuditOutbox.concerns, Option.any_eq_true]

/-- The event names enrollments that are there, and places one in its section. -/
structure AuditOutbox.Named (e : AuditOutbox) (db : Db) : Prop where
  known : ∀ x ∈ e.enrollments, ∃ r, db.enrollment? x = some r
  placed : ∀ x p, e.target = .enrollmentTarget x → e.after.placement = some p →
    ∃ r, db.enrollment? x = some r ∧ r.sectionId = p.sectionId

/-- The tables have their enrollments in the sections where the database has them. -/
def Sectioned (db : Db) (T : Tables) : Prop :=
  ∀ x p, T.places x = some p → ∃ r, db.enrollment? x = some r ∧ r.sectionId = p.sectionId

section Events

variable {e : AuditOutbox} {x : EnrollmentId} {s : SectionId} {db : Db} {T T' : Tables}

theorem mem_enrollments_of_target (h : e.target = .enrollmentTarget x) : x ∈ e.enrollments := by
  unfold AuditOutbox.enrollments
  simp [h]

theorem mem_enrollments_of_before (h : e.before.enrollmentId = some x) : x ∈ e.enrollments := by
  unfold AuditOutbox.enrollments
  simp [h]

theorem mem_enrollments_of_after (h : x ∈ e.after.orderedEnrollmentIds.getD []) :
    x ∈ e.enrollments := List.mem_append_right _ h

/-- An event is idle on an enrollment that it does not name. -/
theorem onEnrollment_idle (h : x ∉ e.enrollments) (p : Option Placement) :
    e.onEnrollment x p = p := by
  have htarget : e.target ≠ .enrollmentTarget x := fun ht => h (mem_enrollments_of_target ht)
  have hbefore : e.before.enrollmentId ≠ some x := fun hb => h (mem_enrollments_of_before hb)
  have hafter : x ∉ e.after.orderedEnrollmentIds.getD [] := fun ha =>
    h (mem_enrollments_of_after ha)
  have hlisted : p.map (Placement.listed (e.after.orderedEnrollmentIds.getD []) x) = p := by
    cases p with
    | none => rfl
    | some q => exact congrArg some (if_neg hafter)
  unfold AuditOutbox.onEnrollment
  cases e.action <;> simp only [if_neg htarget, if_neg hbefore, hlisted]

theorem onSection_idle (h : e.target ≠ .sectionTarget s) (l : Option Limits) :
    e.onSection s l = l := if_neg fun ha => h ha.2

/-- An event leaves every enrollment in its section. -/
theorem onEnrollment_section {p : Option Placement} {q : Placement}
    (h : e.onEnrollment x p = some q) :
    (∃ q₀, p = some q₀ ∧ q.sectionId = q₀.sectionId) ∨
      (e.target = .enrollmentTarget x ∧ e.after.placement = some q) := by
  have hmap : ∀ f : Placement → Placement, p.map f = some q →
      (∀ q, (f q).sectionId = q.sectionId) → ∃ q₀, p = some q₀ ∧ q.sectionId = q₀.sectionId := by
    intro f hq hf
    obtain ⟨q₀, hp, rfl⟩ := Option.map_eq_some_iff.mp hq
    exact ⟨q₀, hp, hf q₀⟩
  have hlisted : ∀ ids (q : Placement), (q.listed ids x).sectionId = q.sectionId := by
    intro ids q
    unfold Placement.listed
    split <;> rfl
  unfold AuditOutbox.onEnrollment at h
  cases ha : e.action <;> simp only [ha] at h
  case ENROLLMENT_CREATED | ENROLLMENT_WAITLISTED =>
    split at h
    · exact Or.inr ⟨‹_›, h⟩
    · exact Or.inl ⟨q, h, rfl⟩
  case ENROLLMENT_DROPPED | ENROLLMENT_WAITLIST_LEFT | ENROLLMENT_PROMOTED
      | ENROLLMENT_WAITLIST_EXPIRED =>
    split at h
    · exact Or.inl (hmap _ h fun _ => rfl)
    · exact Or.inl ⟨q, h, rfl⟩
  case ENROLLMENT_SWAPPED =>
    split at h
    · exact Or.inr ⟨‹_›, h⟩
    · split at h
      · exact Or.inl (hmap _ h fun _ => rfl)
      · exact Or.inl ⟨q, h, rfl⟩
  case WAITLIST_REORDERED => exact Or.inl (hmap _ h (hlisted _))
  case SECTION_UPDATED => exact Or.inl ⟨q, h, rfl⟩

theorem Sectioned.step (h : Sectioned db T) (he : e.Named db) : Sectioned db (T.step e) := by
  intro x p hp
  rcases onEnrollment_section hp with ⟨q, hq, hsec⟩ | ⟨ht, ha⟩
  · obtain ⟨r, hr, hrs⟩ := h x q hq
    exact ⟨r, hr, hrs.trans hsec.symm⟩
  · exact he.placed x p ht ha

theorem Sectioned.replay {es : List AuditOutbox} (h : Sectioned db T)
    (hes : ∀ e ∈ es, e.Named db) : Sectioned db (replay es T) := by
  induction es generalizing T with
  | nil => exact h
  | cons e es ih =>
    exact ih (h.step (hes e List.mem_cons_self)) fun e' he' => hes e' (List.mem_cons_of_mem e he')

theorem concerns_of_enrollment {r : Enrollment} (hx : x ∈ e.enrollments)
    (hr : db.enrollment? x = some r) : e.concerns db r.sectionId = true :=
  AuditOutbox.concerns_iff.mpr (Or.inr ⟨x, hx, r, hr, rfl⟩)

theorem concerns_of_target (h : e.target = .sectionTarget s) : e.concerns db s = true :=
  AuditOutbox.concerns_iff.mpr (Or.inl h)

theorem Tables.IsWaitlist.congr {ids : List EnrollmentId} (h : T.IsWaitlist s ids)
    (hs : Sectioned db T) (hs' : Sectioned db T')
    (hp : ∀ x r, db.enrollment? x = some r → r.sectionId = s → T'.places x = T.places x) :
    T'.IsWaitlist s ids := by
  have hmem : ∀ x, (∃ p, T'.places x = some p ∧ p.sectionId = s ∧ p.status = .WAITLISTED) ↔
      ∃ p, T.places x = some p ∧ p.sectionId = s ∧ p.status = .WAITLISTED := by
    intro x
    constructor
    · rintro ⟨p, hpx, hsec, hst⟩
      obtain ⟨r, hr, hrs⟩ := hs' x p hpx
      exact ⟨p, (hp x r hr (hrs.trans hsec)) ▸ hpx, hsec, hst⟩
    · rintro ⟨p, hpx, hsec, hst⟩
      obtain ⟨r, hr, hrs⟩ := hs x p hpx
      exact ⟨p, (hp x r hr (hrs.trans hsec)).trans hpx, hsec, hst⟩
  have hsame : ∀ x ∈ ids, T'.places x = T.places x := by
    intro x hx
    obtain ⟨p, hpx, hsec, -⟩ := (h.mem x).mp hx
    obtain ⟨r, hr, hrs⟩ := hs x p hpx
    exact hp x r hr (hrs.trans hsec)
  refine ⟨h.nodup, fun x => (h.mem x).trans (hmem x).symm, h.sorted.imp_of_mem ?_⟩
  intro x y hx hy hxy
  rw [hsame x hx, hsame y hy]
  exact hxy

/-- **What an event records is about the sections it concerns.** -/
theorem AuditOutbox.Recorded.congr (h : e.Recorded T) (he : e.Named db) (hs : Sectioned db T)
    (hs' : Sectioned db T')
    (hp : ∀ x r, db.enrollment? x = some r → e.concerns db r.sectionId = true →
      T'.places x = T.places x)
    (hl : ∀ s, e.concerns db s = true → T'.limits s = T.limits s) : e.Recorded T' := by
  have hnamed : ∀ x ∈ e.enrollments, T'.places x = T.places x := by
    intro x hx
    obtain ⟨r, hr⟩ := he.known x hx
    exact hp x r hr (concerns_of_enrollment hx hr)
  unfold AuditOutbox.Recorded at h ⊢
  cases ht : e.target with
  | enrollmentTarget x =>
    simp only [ht] at h ⊢
    have hx := hnamed x (mem_enrollments_of_target ht)
    cases hb : e.payload.before with
    | none =>
      simp only [hb] at h ⊢
      exact hx.trans h
    | some f =>
      simp only [hb] at h ⊢
      obtain ⟨p, hpx, hd⟩ := h
      refine ⟨p, ?_, hd⟩
      have hbefore : e.before = f := by
        unfold AuditOutbox.before
        rw [hb]
        rfl
      cases hid : f.enrollmentId with
      | none =>
        rw [hid] at hpx
        exact hx.trans hpx
      | some y =>
        rw [hid] at hpx
        refine (hnamed y (mem_enrollments_of_before ?_)).trans hpx
        rw [hbefore]
        exact hid
  | sectionTarget s =>
    simp only [ht] at h ⊢
    have hsec := hl s (concerns_of_target ht)
    refine ⟨fun ids hids => ?_, fun n hn => ?_, fun n hn => ?_⟩
    · refine (h.waitlist ids hids).congr hs hs' fun x r hr hrs => hp x r hr ?_
      exact hrs ▸ concerns_of_target ht
    · rw [hsec]
      exact h.capacity n hn
    · rw [hsec]
      exact h.waitlistCap n hn

end Events

/-! ## 5. The log by id -/

/-- The rows of the outbox by ascending id. -/
def byId (rows : List AuditOutbox) : List AuditOutbox := History.byId AuditOutbox.id rows

/-- **The log is faithful**: replayed by id from the tables `T` it gets to the tables of the
database, and every event records what the replay finds. -/
structure Faithful (T : Tables) (rows : List AuditOutbox) (db : Db) : Prop where
  reconstructs : replay (byId rows) T = db.tables
  recorded : ∀ l e r, byId rows = l ++ e :: r → e.Recorded (replay l T)

/-- The log tells the history in the order of the commits, and its ids are in that order for each
section. -/
structure Told (T : Tables) (rows : List AuditOutbox) (db : Db) : Prop where
  sectioned : Sectioned db T
  named : ∀ e ∈ rows, e.Named db
  inOrder : ∀ s, History.InOrder AuditOutbox.id (fun e => e.concerns db s) rows
  tables : replay rows T = db.tables
  recorded : ∀ l e r, rows = l ++ e :: r → e.Recorded (replay l T)

section ById

variable {T : Tables} {rows : List AuditOutbox} {db : Db}

/-- An event that does not concern the section of an enrollment is idle on it. -/
theorem idle_of_not_concerns {x : EnrollmentId} {r : Enrollment} (hr : db.enrollment? x = some r)
    {e : AuditOutbox} (he : e.concerns db r.sectionId = false) (p : Option Placement) :
    e.onEnrollment x p = p :=
  onEnrollment_idle (fun hx => absurd (concerns_of_enrollment hx hr) (by simp [he])) p

theorem idle_of_not_concerns_section {s : SectionId} {e : AuditOutbox}
    (he : e.concerns db s = false) (l : Option Limits) : e.onSection s l = l := by
  refine onSection_idle (fun ht => ?_) l
  rw [concerns_of_target ht] at he
  exact absurd he (by simp)

theorem Tables.ext' {T T' : Tables} (hp : ∀ x, T.places x = T'.places x)
    (hl : ∀ s, T.limits s = T'.limits s) : T = T' := by
  cases T
  cases T'
  congr
  · exact funext hp
  · exact funext hl

/-- **Ids in order for each section are enough.** -/
theorem Told.faithful (h : Told T rows db) : Faithful T rows db := by
  constructor
  · rw [← h.tables]
    refine Tables.ext' (fun x => ?_) fun s => ?_
    · rw [replay_places, replay_places]
      cases hx : db.enrollment? x with
      | some r => exact History.replay_byId (h.inOrder r.sectionId) fun e _ he =>
          idle_of_not_concerns hx he
      | none =>
        have hidle : ∀ e ∈ rows, ∀ p, e.onEnrollment x p = p := by
          intro e he
          refine onEnrollment_idle fun hmem => ?_
          obtain ⟨r, hr⟩ := (h.named e he).known x hmem
          exact absurd (hx.symm.trans hr) (by simp)
        exact (History.replay_idle fun e he => hidle e (History.mem_byId.mp he)).trans
          (History.replay_idle hidle).symm
    · rw [replay_limits, replay_limits]
      exact History.replay_byId (h.inOrder s) fun e _ he => idle_of_not_concerns_section he
  · intro l e r hid
    have he : e ∈ rows := History.mem_byId.mp
      (show e ∈ byId rows from hid ▸ List.mem_append_right l List.mem_cons_self)
    obtain ⟨l', r', hrows⟩ := List.append_of_mem he
    have hl : ∀ a ∈ l, a.Named db := fun a ha => h.named a (History.mem_byId.mp
      (show a ∈ byId rows from hid ▸ List.mem_append_left _ ha))
    have hl' : ∀ a ∈ l', a.Named db := fun a ha => h.named a (hrows ▸ List.mem_append_left _ ha)
    refine (h.recorded l' e r' hrows).congr (h.named e he) (h.sectioned.replay hl')
      (h.sectioned.replay hl) (fun x row hx hc => ?_) fun s hc => ?_
    · rw [replay_places, replay_places]
      exact History.replay_before (h.inOrder row.sectionId) hc hid hrows fun e _ he =>
        idle_of_not_concerns hx he
    · rw [replay_limits, replay_limits]
      exact History.replay_before (h.inOrder s) hc hid hrows fun e _ he =>
        idle_of_not_concerns_section he

end ById

end Enroll
