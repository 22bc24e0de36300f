/-
# From the registrar to the inbox

A promotion and the expiry of a waitlist write a notice in the transaction that they are part of.
`Post` runs the registrar and the notifications together: when a commit adds notices, they are rows
of the inbox from then on, under new ids.

So what is told of an enrollment is in the inbox of its student and in nobody else's, each notice
once, and it stays there, unread until the student himself reads it (`notices_reach_their_student`).
-/
import Enroll.Inbox
import Enroll.LifeCycle
import Enroll.Machine

namespace Enroll

open Txn (Ctx Label Discipline)

variable {X : Extra} {op : Op} {c : Ctx postgres}

/-! ## 1. Whom a notice is for -/

/-- The notice is for the student of the enrollment that it is about. -/
def Addressed (db : Db) (n : Notification) : Prop :=
  ∃ r ∈ db.enrollments, r.id = n.payload.enrollmentId ∧ r.studentId = n.userId ∧
    r.sectionId = n.payload.sectionId

theorem Addressed.grows {w w' : World} (hg : Grows w w') {n : Notification}
    (h : Addressed w.db n) : Addressed w'.db n := by
  obtain ⟨r, hr, hid, hst, hsec⟩ := h
  obtain ⟨r', hr', hid', hst', hsec', -⟩ := hg.rows r hr
  exact ⟨r', hr', hid'.trans hid, hst'.trans hst, hsec'.trans hsec⟩

theorem addressed_nil {db : Db} {log : List Write} (h : noticesOf log = []) :
    ∀ n ∈ noticesOf log, Addressed db n := by
  rw [h]
  exact fun n hn => absurd hn List.not_mem_nil

theorem EnrollOutcome.quiet {input : EnrollDto} {u : UserId} {actor : RequestActor}
    (h : EnrollOutcome X op input u actor c) : noticesOf c.log = [] := by
  cases h with
  | already log => rw [log]; rfl
  | seated sec live y t t' n lock seat fresh checked drawn log => rw [log]; rfl
  | queued sec live y t t' n p lock full cap position fresh checked drawn log => rw [log]; rfl

/-- What a request tells, it tells the students that it is about. -/
theorem Outcome.addressed (h : Outcome X op c) : ∀ n ∈ noticesOf c.log, Addressed c.world.db n := by
  cases op with
  | enroll input u actor => exact addressed_nil (EnrollOutcome.quiet h)
  | drop id u actor =>
    obtain ⟨r, droppedAt, t, n, h⟩ := h
    refine addressed_nil ?_
    rw [h.log, List.cons_append]
    exact (noticesOf_append (seatBack r) _).trans (by rw [noticesOf_seatBack]; rfl)
  | swap id input u actor =>
    rcases h with h | ⟨r, sec, live, y, droppedAt, t, t', n, h⟩
    · exact addressed_nil (by rw [h]; rfl)
    · refine addressed_nil ?_
      rw [h.log, List.cons_append]
      exact (noticesOf_append (seatBack r) _).trans (by rw [noticesOf_seatBack]; rfl)
  | runPromotion s =>
    rcases h with h | ⟨sec, turns, h⟩
    · exact addressed_nil (by rw [h]; rfl)
    · have hnotices : noticesOf c.log = promotionNotices sec turns := by
        rw [h.log, noticesOf_append, noticesOf_promoted]
        exact List.append_nil _
      rw [hnotices]
      intro n hn
      obtain ⟨u, hu, rfl⟩ := List.mem_map.mp hn
      obtain ⟨hmem, -, -⟩ := mem_waiting.mp (h.waiting hu)
      exact ⟨u.row, hmem, rfl, rfl, rfl⟩
  | reorder s dto actor =>
    obtain ⟨live, t, n, h⟩ := h
    refine addressed_nil (List.filterMap_eq_nil_iff.mpr fun wr hwr => ?_)
    rw [h.log] at hwr
    rcases List.mem_append.mp hwr with hwr | hwr
    · obtain ⟨p, -, rfl⟩ := List.mem_map.mp hwr
      rfl
    · rw [List.mem_singleton.mp hwr]
      rfl
  | expireSectionWaitlist s =>
    rcases h with ⟨h, -⟩ | ⟨live, turns, h⟩
    · exact addressed_nil (by rw [h]; rfl)
    · have hnotices : noticesOf c.log = expiryNotices s turns := by
        rw [h.log, noticesOf_expired]
      rw [hnotices]
      intro n hn
      obtain ⟨u, hu, rfl⟩ := List.mem_map.mp hn
      obtain ⟨hmem, hsec, -⟩ := mem_waiting.mp (h.waiting hu)
      exact ⟨u.row, hmem, rfl, rfl, hsec⟩
  | updateSection s dto actor =>
    obtain ⟨live, t, n, h⟩ := h
    exact addressed_nil (by rw [h.log]; rfl)

/-- **What a step tells.** -/
theorem notices_of_step {sys sys' : Sys} {l : Label registrar} (hG : (discipline X).Good sys)
    (hs : sys.step l = some sys') :
    ∃ ns, sys'.world.db.notifications = sys.world.db.notifications ++ ns ∧
      ∀ n ∈ ns, Addressed sys.world.db n := by
  have hm := moves_of_step hG hs
  generalize sys'.world = w' at hm
  cases hm with
  | commit t ses a ht hp ho => exact ⟨_, notifications_applyLog _ _, ho.addressed⟩
  | env e =>
    refine ⟨[], ?_, fun n hn => absurd hn List.not_mem_nil⟩
    cases e <;> exact (List.append_nil _).symm
  | draw _ n hn => exact ⟨[], (List.append_nil _).symm, fun n hn => absurd hn List.not_mem_nil⟩

theorem addressed_run {C : Sys → Label registrar → Prop} {w : World} (hv : w.Valid)
    (hempty : w.db.notifications = []) {sys : Sys}
    (hr : Txn.Sys.Reach C (Txn.Sys.init w) sys) :
    ∀ n ∈ sys.world.db.notifications, Addressed sys.world.db n := by
  induction hr with
  | refl =>
    intro n hn
    have hn : n ∈ w.db.notifications := hn
    rw [hempty] at hn
    exact absurd hn List.not_mem_nil
  | tail hr _ hs ih =>
    have hG := locks_run hv hr
    obtain ⟨ns, hns, hnew⟩ := notices_of_step hG hs
    intro n hn
    rw [hns] at hn
    refine Addressed.grows (grows_of_step hG hs) ?_
    rcases List.mem_append.mp hn with hn | hn
    · exact ih n hn
    · exact hnew n hn

end Enroll

namespace Enroll.Inbox

open Txn (Label Discipline)

/-! ## 2. Registrar and inbox -/

structure Post where
  sys : Enroll.Sys
  inbox : Sys

/-- Rows that are committed, under the ids that they are given. -/
def World.post (w : World) (posts : List (NotificationId × Notification)) : World :=
  posts.foldl (fun w p => w.env (.created p.1 p.2)) w

namespace Post

/-- Nobody is connected, and nothing was ever told. -/
def init (w : Enroll.World) (now : Time) : Post := ⟨Txn.Sys.init w, Txn.Sys.init ⟨[], now⟩⟩

inductive Event where
  /-- a step of the registrar; `ids` are the uuids of the notices that it commits -/
  | db (l : Label registrar) (ids : List NotificationId)
  | inbox (l : Label notifications)

/-- The notices that a step of the registrar has committed. -/
def told (sys sys' : Enroll.Sys) : List Notification :=
  sys'.world.db.notifications.drop sys.world.db.notifications.length

/-- Rows come from the registrar, and not by a label of the inbox's own. -/
def fromOutside : Label notifications → Bool
  | .env (.created _ _) => true
  | _ => false

/-- The ids are new, one for each notice. -/
def NewIds (p : Post) (ids : List NotificationId) (notices : List Notification) : Prop :=
  ids.length = notices.length ∧ ids.Nodup ∧ ∀ id ∈ ids, p.inbox.world.hasRow id = false

instance (p : Post) (ids : List NotificationId) (notices : List Notification) :
    Decidable (p.NewIds ids notices) := inferInstanceAs (Decidable (_ ∧ _ ∧ _))

def step (p : Post) : Event → Option Post
  | .db l ids => (p.sys.step l).bind fun sys' =>
    if p.NewIds ids (told p.sys sys') then
      some ⟨sys', { p.inbox with world := p.inbox.world.post (ids.zip (told p.sys sys')) }⟩
    else none
  | .inbox l =>
    if fromOutside l then none else (p.inbox.step l).map fun inbox' => ⟨p.sys, inbox'⟩

variable {p p' : Post}

theorem db_cases {l : Label registrar} {ids : List NotificationId}
    (h : p.step (.db l ids) = some p') :
    ∃ sys', p.sys.step l = some sys' ∧ p.NewIds ids (told p.sys sys') ∧
      p' = ⟨sys', { p.inbox with world := p.inbox.world.post (ids.zip (told p.sys sys')) }⟩ := by
  obtain ⟨sys', hs, h⟩ := Option.bind_eq_some_iff.mp h
  split at h
  · exact ⟨sys', hs, ‹_›, (Option.some.inj h).symm⟩
  · exact absurd h (by simp)

theorem inbox_cases {l : Label notifications} (h : p.step (.inbox l) = some p') :
    fromOutside l = false ∧ ∃ inbox', p.inbox.step l = some inbox' ∧ p' = ⟨p.sys, inbox'⟩ := by
  simp only [step] at h
  split at h
  · exact absurd h (by simp)
  · obtain ⟨inbox', hs, rfl⟩ := Option.map_eq_some_iff.mp h
    exact ⟨Bool.eq_false_iff.mpr ‹_›, inbox', hs, rfl⟩

end Post

/-! ## 3. What arrives -/

def arrived (q : NotificationId × Notification) : Row := ⟨q.1, q.2, none⟩

/-- New rows come one after the other. -/
theorem post_reach (sys : Sys) (posts : List (NotificationId × Notification))
    (hnd : (posts.map Prod.fst).Nodup) (hnew : ∀ q ∈ posts, sys.world.hasRow q.1 = false) :
    Txn.Sys.Reach Fresh sys { sys with world := World.post sys.world posts } ∧
      (World.post sys.world posts).rows = sys.world.rows ++ posts.map arrived := by
  induction posts generalizing sys with
  | nil => exact ⟨.refl, (List.append_nil _).symm⟩
  | cons q posts ih =>
    obtain ⟨hq, hnd⟩ := List.nodup_cons.mp hnd
    have hfirst : sys.world.hasRow q.1 = false := hnew q List.mem_cons_self
    have hworld := created_eq hfirst q.2
    have hrest : ∀ q' ∈ posts, (World.env sys.world (.created q.1 q.2)).hasRow q'.1 = false := by
      intro q' hq'
      rw [hworld]
      refine hasRow_false.mpr fun r hr => ?_
      rcases List.mem_append.mp hr with hr | hr
      · exact hasRow_false.mp (hnew q' (List.mem_cons_of_mem _ hq')) r hr
      · rw [List.mem_singleton.mp hr]
        exact fun he : q.1 = q'.1 => hq (he ▸ List.mem_map_of_mem hq')
    obtain ⟨hreach, hrows⟩ :=
      ih { sys with world := World.env sys.world (.created q.1 q.2) } hnd hrest
    have hfresh : Fresh sys (.env (.created q.1 q.2)) := by
      rintro id n ⟨⟩
      exact hfirst
    refine ⟨(Txn.Sys.Reach.refl.tail hfresh rfl).trans hreach, ?_⟩
    refine hrows.trans ?_
    show (World.env sys.world (.created q.1 q.2)).rows ++ _ = _
    rw [hworld]
    simp [arrived]

/-- A request of the inbox changes no notice. -/
theorem notices_of_inbox {sys sys' : Sys} {l : Label notifications}
    (hl : Post.fromOutside l = false) (hs : sys.step l = some sys') :
    sys'.world.rows.map Row.notice = sys.world.rows.map Row.notice := by
  rcases Txn.Accord.world_cases hs with hw | ⟨t, x, ses, s, k, out, -, -, -, -, hw⟩ | ⟨e, rfl, hw⟩
  · rw [hw]
  · have hnotice : Row.notice ∘ s.onRow = Row.notice := funext fun r => (later_onRow s r).notice
    rw [hw]
    show (Stmt.effect s x sys.world).rows.map Row.notice = _
    rw [effect_eq]
    show (List.map s.onRow _).map Row.notice = _
    rw [List.map_map, hnotice]
  · cases e with
    | tick ms => rw [hw]; rfl
    | created id n => exact absurd hl (by simp [Post.fromOutside])

theorem fresh_of_inside {sys : Sys} {l : Label notifications}
    (hl : Post.fromOutside l = false) : Fresh sys l := by
  rintro id n rfl
  exact absurd hl (by simp [Post.fromOutside])

/-- Each half runs as it does alone, and the inbox has the notices of the registrar. -/
structure Posted (w : Enroll.World) (now : Time) (p : Post) : Prop where
  sys : Txn.Sys.Reach (fun _ _ => True) (Txn.Sys.init w) p.sys
  inbox : Txn.Sys.Reach Fresh (Txn.Sys.init ⟨[], now⟩) p.inbox
  notices : p.inbox.world.rows.map Row.notice = p.sys.world.db.notifications

variable {w : Enroll.World} {now : Time} {p p' : Post}

theorem posted_run (hv : w.Valid) (hempty : w.db.notifications = [])
    {C : Post → Post.Event → Prop} (hr : Machine.Reach Post.step C (.init w now) p) :
    Posted w now p := by
  have hstart : Posted w now (.init w now) := ⟨.refl, .refl, hempty.symm⟩
  refine hr.inv hstart fun p e p' _ h hs => ?_
  cases e with
  | db l ids =>
    obtain ⟨sys', hstep, ⟨hlen, hnd, hnew⟩, rfl⟩ := Post.db_cases hs
    obtain ⟨ns, hns, -⟩ := notices_of_step (locks_run hv h.sys) hstep
    have htold : Post.told p.sys sys' = ns := by
      unfold Post.told
      rw [hns]
      exact List.drop_left
    rw [htold] at hlen ⊢
    have hfst : (ids.zip ns).map Prod.fst = ids := List.map_fst_zip (Nat.le_of_eq hlen)
    obtain ⟨hreach, hrows⟩ := post_reach p.inbox (ids.zip ns)
      (hfst.symm ▸ hnd) fun q hq => hnew q.1 (hfst ▸ List.mem_map_of_mem hq)
    refine ⟨h.sys.tail trivial hstep, h.inbox.trans hreach, ?_⟩
    show (World.post p.inbox.world (ids.zip ns)).rows.map Row.notice = sys'.world.db.notifications
    have hsnd : ((ids.zip ns).map arrived).map Row.notice = ns := by
      rw [List.map_map]
      exact List.map_snd_zip (Nat.le_of_eq hlen.symm)
    rw [hrows, List.map_append, hsnd, hns]
    exact congrArg (· ++ ns) h.notices
  | inbox l =>
    obtain ⟨hl, inbox', hstep, rfl⟩ := Post.inbox_cases hs
    exact ⟨h.sys, h.inbox.tail (fresh_of_inside hl) hstep,
      (notices_of_inbox hl hstep).trans h.notices⟩

/-! ## 4. What a student is told -/

/-- How many notices of type `t` about enrollment `x` user `u` has got. -/
def World.told (w : World) (u : UserId) (t : NotificationType) (x : EnrollmentId) : Nat :=
  (w.of u).rows.countP fun row => row.notice.tells t x

namespace Posted

variable {u : UserId} {t : NotificationType} {x : EnrollmentId}

theorem told_eq_countP (h : Posted w now p) :
    p.inbox.world.told u t x =
      p.sys.world.db.notifications.countP fun n => n.tells t x && n.userId == u := by
  rw [← h.notices, List.countP_map]
  unfold World.told World.of
  rw [List.countP_filter]
  rfl

/-- All that is told of an enrollment its student is told. -/
theorem told_student (h : Posted w now p) (hv : w.Valid) (hempty : w.db.notifications = [])
    (hu : ∀ r, p.sys.world.db.enrollment? x = some r → r.studentId = u) :
    p.inbox.world.told u t x = p.sys.world.db.notices t x := by
  rw [h.told_eq_countP]
  refine List.countP_congr fun n hn => ?_
  rw [Bool.and_eq_true, beq_iff_eq]
  refine and_iff_left_of_imp fun htells => ?_
  obtain ⟨r, hr, hid, hst, -⟩ := addressed_run hv hempty h.sys n hn
  have hx : n.payload.enrollmentId = x := by
    simp only [Notification.tells, Bool.and_eq_true, beq_iff_eq] at htells
    exact htells.2
  have hfound := (locks_run hv h.sys).inv.1.db.enrollment?_of_mem hr
  rw [hid, hx] at hfound
  exact hst.symm.trans (hu r hfound)

/-- Nobody else is told of it. -/
theorem told_other (h : Posted w now p) (hv : w.Valid) (hempty : w.db.notifications = [])
    {r : Enrollment} (hr : p.sys.world.db.enrollment? x = some r) (hu : u ≠ r.studentId) :
    p.inbox.world.told u t x = 0 := by
  rw [h.told_eq_countP]
  refine List.countP_eq_zero.mpr fun n hn hboth => hu ?_
  simp only [Notification.tells, Bool.and_eq_true, beq_iff_eq] at hboth
  obtain ⟨⟨-, hx⟩, rfl⟩ := hboth
  obtain ⟨r', hr', hid, hst, -⟩ := addressed_run hv hempty h.sys n hn
  have hfound := (locks_run hv h.sys).inv.1.db.enrollment?_of_mem hr'
  rw [hid, hx, hr] at hfound
  exact (Option.some.inj hfound) ▸ hst.symm

end Posted

/-- What the students are told, in a state of registrar and inbox. -/
structure Told (p : Post) : Prop where
  /-- the inbox has the notices of the registrar, in order, each once -/
  notices : p.inbox.world.rows.map Row.notice = p.sys.world.db.notifications
  ids : (p.inbox.world.rows.map Row.id).Nodup
  /-- a step gives an enrollment its fate, and its student the notices of that fate -/
  fate : ∀ l ids p', p.step (.db l ids) = some p' → ∀ x, ∃ f,
    Fares x f p.sys.world.db p'.sys.world.db ∧ f.By x p.sys l ∧
      ∀ r, p'.sys.world.db.enrollment? x = some r → ∀ t,
        p'.inbox.world.told r.studentId t x
          = p.inbox.world.told r.studentId t x + f.notices t ∧
        ∀ u, u ≠ r.studentId → p'.inbox.world.told u t x = 0
  /-- a notice stays, and is unread until a request of its reader marks it -/
  kept : ∀ e p', p.step e = some p' → ∀ row ∈ p.inbox.world.rows,
    ∃ row' ∈ p'.inbox.world.rows, row.Later row' ∧ (row' = row ∨ ∃ t x ses,
      e = .inbox (.exec t x) ∧ p.inbox.sessions t = some ses ∧ ses.op.Marks row)

/-- **What happens to an enrollment reaches its student, once, and nobody else.** -/
theorem notices_reach_their_student (hv : w.Valid) (hempty : w.db.notifications = [])
    {C : Post → Post.Event → Prop} (hr : Machine.Reach Post.step C (.init w now) p) : Told p := by
  have h := posted_run hv hempty hr
  have hempty' : World.Valid ⟨[], now⟩ := List.nodup_nil
  obtain ⟨own, -, hshadow⟩ := shadow_run hempty' h.inbox 0
  refine ⟨h.notices, hshadow.world.1, fun l ids p' hs x => ?_, fun e p' hs row hrow => ?_⟩
  · have h' : Posted w now p' :=
      posted_run hv hempty ((hr.mono fun _ _ _ => trivial).tail (C := fun _ _ => True) trivial hs)
    obtain ⟨sys', hstep, -, rfl⟩ := Post.db_cases hs
    obtain ⟨f, hf, hby⟩ := fares_of_step (locks_run hv h.sys) hstep x
    refine ⟨f, hf, hby, fun r hx t => ⟨?_, fun u hu => h'.told_other hv hempty hx hu⟩⟩
    have hbefore : ∀ r₀, p.sys.world.db.enrollment? x = some r₀ → r₀.studentId = r.studentId := by
      intro r₀ hx₀
      obtain ⟨hmem, hid⟩ := enrollment?_mem hx₀
      obtain ⟨r₁, hmem₁, hid₁, hst₁, -⟩ := (grows_of_step (locks_run hv h.sys) hstep).rows r₀ hmem
      have hfound := (locks_run hv h'.sys).inv.1.db.enrollment?_of_mem hmem₁
      rw [hid₁, hid] at hfound
      obtain rfl := Option.some.inj (hx.symm.trans hfound)
      exact hst₁.symm
    have hafter : ∀ r₁, sys'.world.db.enrollment? x = some r₁ → r₁.studentId = r.studentId :=
      fun r₁ hx₁ => congrArg Enrollment.studentId (Option.some.inj (hx₁.symm.trans hx))
    rw [h.told_student hv hempty hbefore, h'.told_student hv hempty hafter]
    exact hf.notices t
  · cases e with
    | db l ids =>
      obtain ⟨sys', -, ⟨hlen, hnd, hnew⟩, rfl⟩ := Post.db_cases hs
      have hfst : (ids.zip (Post.told p.sys sys')).map Prod.fst = ids :=
        List.map_fst_zip (Nat.le_of_eq hlen)
      have hrows := (post_reach p.inbox _ (hfst.symm ▸ hnd) fun q hq =>
        hnew q.1 (hfst ▸ List.mem_map_of_mem hq)).2
      refine ⟨row, ?_, .refl row, .inl rfl⟩
      show row ∈ (World.post p.inbox.world (ids.zip (Post.told p.sys sys'))).rows
      rw [hrows]
      exact List.mem_append_left _ hrow
    | inbox l =>
      obtain ⟨hl, inbox', hstep, rfl⟩ := Post.inbox_cases hs
      obtain ⟨row', hrow', hlater, hmarks⟩ :=
        row_of_step hempty' h.inbox (fresh_of_inside hl) hstep hrow
      refine ⟨row', hrow', hlater, hmarks.imp_right ?_⟩
      rintro ⟨t, x, ses, rfl, ht, hop⟩
      exact ⟨t, x, ses, rfl, ht, hop⟩

namespace Campus

open Enroll.Campus (world world_valid serve execs)
open Enroll.Inbox.Post (Event)

/-- Student 1 leaves the seat that student 2 waits for, student 2 is promoted, and reads it. -/
def promoted : List Event :=
  (Enroll.Campus.leaving ++ .begin 3 (.runPromotion 10) :: execs 3 8 0).map (.db · []) ++
    [.db (.commit 3) [7], .inbox (.begin 0 (.markRead 2 7)), .inbox (.exec 0 .none),
      .inbox (.exec 0 .none), .inbox (.exec 0 .none), .inbox (.commit 0)]

set_option maxRecDepth 4000 in
theorem promoted_runs :
    (Machine.runIf Post.step (fun _ _ => true) (.init world 0) promoted).isSome = true := by decide

def afterPromoted : Post :=
  (Machine.runIf Post.step (fun _ _ => true) (.init world 0) promoted).get promoted_runs

/-- Student 2 is told once, has read it, and student 1 is not told. -/
theorem notices_reach_their_student_promoted :
    Told afterPromoted ∧
      afterPromoted.inbox.world.rows.map (fun row => (row.id, row.notice.userId, row.readAt)) =
        [(7, 2, some 0)] ∧
      afterPromoted.inbox.world.told 2 .WAITLIST_PROMOTED 101 = 1 ∧
      afterPromoted.inbox.world.told 1 .WAITLIST_PROMOTED 101 = 0 := by
  refine ⟨notices_reach_their_student (C := fun _ _ => True) world_valid rfl
    (.of_runIf (fun _ _ _ => trivial) .refl (Option.some_get promoted_runs).symm), ?_, ?_, ?_⟩ <;>
    decide

end Campus

end Enroll.Inbox
