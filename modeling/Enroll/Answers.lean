/-
# What the answers say, and whom they wake

`Said` is everything that is known of an answer when its transaction commits: what the request has
done, and what its result says of the tables it leaves.  Two results are read off it.

`answers_tell_the_tables`: an answer describes the row and the section as they are in the committed
state, the counter included.  A swap onto the row's own section reads without a lock, so its answer
may be stale; it has changed nothing and gives up no seat.

`opened_seats_are_announced`: after a commit the service enqueues a promotion for exactly the
sections in which the commit opened a seat, and no other step opens one.
-/
import Enroll.Seats

namespace Enroll

open Txn (Ctx Discipline Session Label wp wp_bind)

variable {X : Extra} {op : Op} {c c' : Ctx postgres}

/-! ## 1. What is said -/

/-- What a request has done and answers when it commits. -/
def Said (X : Extra) (op : Op) (out : Out) (c : Ctx postgres) : Prop :=
  match op with
  | .enroll input u actor => ∃ a r, out = .enrollment a ∧ EnrollOutcome X op input u actor c ∧
      a.sectionId = input.sectionId ∧ EnrollReply X op input u a r c ∧ c.view.db.Tells a r
  | .drop id _ actor => ∃ f r droppedAt t n, out = .freed f ∧
      DropOutcome X op id actor r droppedAt t n c ∧ DropReply f r droppedAt c
  | .swap id input u actor => ∃ f, out = .freed f ∧ SwapAnswered X op id input u actor f c
  | .runPromotion s => out = .done ∧ PromotionEnds X op s c ∧ PromotionLeft X op s c
  | .reorder s dto actor => out = .done ∧ ∃ live t n, ReorderOutcome X op s dto actor live t n c
  | .expireSectionWaitlist s => out = .done ∧ ExpiryEnds X op s c
  | .updateSection s dto actor => ∃ u live t n, out = .updated u ∧
      UpdateOutcome X op s dto actor live t n c ∧ UpdateReply s live u c

theorem Said.later {out : Out} (h : Said X op out c) (hl : Later X op c c')
    (hlog : c'.log = c.log) : Said X op out c' := by
  cases op with
  | enroll input u actor =>
    obtain ⟨a, r, rfl, ho, hsec, hreply, htells⟩ := h
    refine ⟨a, r, rfl, ho.later hl hlog, hsec, hreply.later hl hlog, htells.congr ?_ ?_⟩
    · rw [hsec]
      exact Later.view_rowsOf hl hreply.held hlog
    · rw [hsec]
      exact Later.view_section? hl hreply.held hlog
  | drop id u actor =>
    obtain ⟨f, r, droppedAt, t, n, rfl, ho, hreply⟩ := h
    exact ⟨f, r, droppedAt, t, n, rfl, ho.later hl hlog, hreply.later ho.own hl hlog⟩
  | swap id input u actor =>
    obtain ⟨f, rfl, h⟩ := h
    refine ⟨f, rfl, ?_⟩
    rcases h with ⟨hin, hnil, hnone⟩ | ⟨r, sec, live, x, droppedAt, t, t', n, ho, hreply⟩
    · exact Or.inl ⟨hin.grows hl.rely.grows, hlog.trans hnil, hnone⟩
    · exact Or.inr ⟨r, sec, live, x, droppedAt, t, t', n, ho.later hl hlog,
        hreply.later ho.lock.held hl hlog⟩
  | runPromotion s =>
    have ho : Outcome X (.runPromotion s) c := h.2.1
    exact ⟨h.1, ho.later hl hlog, h.2.2.later hl hlog⟩
  | reorder s dto actor =>
    have ho : Outcome X (.reorder s dto actor) c := h.2
    exact ⟨h.1, ho.later hl hlog⟩
  | expireSectionWaitlist s =>
    have ho : Outcome X (.expireSectionWaitlist s) c := h.2
    exact ⟨h.1, ho.later hl hlog⟩
  | updateSection s dto actor =>
    obtain ⟨u, live, t, n, rfl, ho, hreply⟩ := h
    exact ⟨u, live, t, n, rfl, ho.later hl hlog, hreply.later ho.lock.held hl hlog⟩

/-- A method's specification, as what its request says. -/
theorem said_request {α : Type} {p : Tx α} {f : α → Out} {P : α → Ctx postgres → Prop}
    {F : Failure → Ctx postgres → Prop} (h : wp (Others X op) DrawsOnly p (Ends P F) c)
    (hP : ∀ a c, P a c → Said X op (f a) c) :
    wp (Others X op) DrawsOnly (p >>= fun a => pure (f a)) (Ends (Said X op) fun _ _ => True) c := by
  refine wp_bind (Txn.wp_mono ?_ h)
  intro r c' hr
  cases r with
  | ok a => exact hP a c' hr
  | error e => trivial

theorem Op.body_says (hlog : c.log = []) :
    wp (Others X op) DrawsOnly op.body (Ends (Said X op) fun _ _ => True) c := by
  cases op with
  | enroll input u actor =>
    refine said_request (enroll_answers hlog) ?_
    rintro a c' ⟨ho, hsec, r, hreply, htells⟩
    exact ⟨a, r, rfl, ho, hsec, hreply, htells⟩
  | drop id u actor =>
    refine said_request (drop_answers hlog) ?_
    rintro f c' ⟨r, droppedAt, t, n, ho, hreply⟩
    exact ⟨f, r, droppedAt, t, n, rfl, ho, hreply⟩
  | swap id input u actor => exact said_request (swap_answers hlog) fun f c' h => ⟨f, rfl, h⟩
  | runPromotion s => exact said_request (runPromotion_leaves hlog) fun _ c' h => ⟨rfl, h⟩
  | reorder s dto actor => exact said_request (reorder_spec hlog) fun _ c' h => ⟨rfl, h⟩
  | expireSectionWaitlist s =>
    exact said_request (expireSectionWaitlist_spec hlog) fun _ c' h => ⟨rfl, h⟩
  | updateSection s dto actor =>
    refine said_request (updateSection_answers hlog) ?_
    rintro u c' ⟨live, t, n, ho, hreply⟩
    exact ⟨u, live, t, n, rfl, ho, hreply⟩

/-- The registrar's discipline, with all that is said. -/
def saying (X : Extra) : Discipline registrar :=
  (discipline X).withPost fun op => Ends (Said X op) fun _ _ => True

theorem saying_start (X : Extra) (op : Op) (w : World) :
    (saying X).controlled op op.body (Ctx.start w) := by
  have hsays : wp (Others X op) DrawsOnly op.body (Ends (Said X op) fun _ _ => True)
      (Ctx.start w) := Op.body_says rfl
  have hdone : (discipline X).controlled op op.body (Ctx.start w) := registrar_start X op
  refine Txn.wp_mono ?_ (Txn.wp_and hdone hsays)
  rintro r c ⟨hr, hs⟩
  cases r with
  | ok out => exact fun w' hw => ⟨hr w' hw, Said.later hs (Quiet.of_others hw).later rfl⟩
  | error e => exact fun w' hw => ⟨hr w' hw, trivial⟩

/-- **The run rule for what is said.** -/
theorem saying_run {C : Sys → Label registrar → Prop} {J : Sys → Prop} (h : Fits X C J)
    (hJ : ∀ sys l sys', C sys l → J sys → (saying X).Good sys → sys.step l = some sys' → J sys')
    {w : World} (hv : w.Valid) (hi : X.inv w) (hJ₀ : J (Txn.Sys.init w)) {sys : Sys}
    (hr : Txn.Sys.Reach C (Txn.Sys.init w) sys) : (saying X).Good sys ∧ J sys :=
  Discipline.Reach.good ((registrar_sound h).withPost (saying_start X)) hJ hr
    (Discipline.good_init ⟨hv, hi⟩) hJ₀

/-- A session that is about to commit has said what it says. -/
theorem said_of_good {sys : Sys} (hG : (saying X).Good sys) {t : Nat} {ses : Session registrar}
    {out : Out} (ht : sys.sessions t = some ses) (hp : ses.prog = .pure out) :
    Said X ses.op out (sys.ctx t ses) := (hG.post ht hp).2

/-! ## 2. The answers -/

/-- The answer tells of the row and its section, and the counter in it counts. -/
structure Db.Reports (db : Db) (a : EnrollmentResultDto) (r : Enrollment) : Prop where
  tells : db.Tells a r
  counted : a.sectionEnrolledCount = enrolledRows (db.rowsOf a.sectionId)

theorem Db.Tells.reports {w : World} {a : EnrollmentResultDto} {r : Enrollment}
    (h : w.db.Tells a r) (hc : SeatsCounted w) : w.db.Reports a r := by
  obtain ⟨sec, hsec, hcount, -⟩ := h.counts
  exact ⟨h, hcount.trans (hc _ sec hsec)⟩

/-- What the answer `out` to `op` says is so in the tables that the commit leaves.  A swap onto the
row's own section has changed nothing, and its answer may be stale. -/
def Truthful (op : Op) (out : Out) (w w' : World) : Prop :=
  match op, out with
  | .enroll input u _, .enrollment a =>
    ∃ r, w'.db.Reports a r ∧ r.sectionId = input.sectionId ∧ r.studentId = u ∧ r.active = true
  | .drop id _ _, .freed f => ∃ r, w'.db.Reports f.result r ∧ r.id = id ∧ r.status = .DROPPED
  | .swap id input u _, .freed f =>
    (w.InSection id input.targetSectionId ∧ w'.db = w.db ∧ f.freedSeatSectionId = none) ∨
      ∃ r, w'.db.Reports f.result r ∧ r.sectionId = input.targetSectionId ∧ r.studentId = u ∧
        r.status = .ENROLLED ∧ (∃ r₀ ∈ w.db.enrollments, r₀.id = id ∧
          f.freedSeatSectionId = seatOf r₀)
  | .updateSection s _ _, .updated v => ∃ j : SectionJoin, w'.db.section? s = some j.sec ∧
      j.sec.enrolledCount = enrolledRows (w'.db.rowsOf s) ∧
      v.summary = toSummary j (w'.db.waiting s).length
  | .runPromotion _, .done => True
  | .reorder _ _ _, .done => True
  | .expireSectionWaitlist _, .done => True
  | _, _ => False

theorem Said.truthful {out : Out} (h : Said X op out c) (hc : SeatsCounted c.view) :
    Truthful op out c.world c.view := by
  cases op with
  | enroll input u actor =>
    obtain ⟨a, r, rfl, -, hsec, hreply, htells⟩ := h
    exact ⟨r, htells.reports hc, (mem_rowsOf.mp hreply.row).2, hreply.student, hreply.active⟩
  | drop id u actor =>
    obtain ⟨f, r, droppedAt, t, n, rfl, ho, hreply⟩ := h
    exact ⟨_, hreply.tells.reports hc, ho.id, rfl⟩
  | swap id input u actor =>
    obtain ⟨f, rfl, ⟨hin, hlog, hnone⟩ | ⟨r, sec, live, x, droppedAt, t, t', n, ho, hreply⟩⟩ := h
    · exact Or.inl ⟨hin, congrArg World.db (view_of_log_nil hlog), hnone⟩
    · exact Or.inr ⟨_, hreply.tells.reports hc, rfl, rfl, rfl, r, ho.own.mem, ho.id, hreply.freed⟩
  | runPromotion s =>
    obtain ⟨rfl, -⟩ := h
    trivial
  | reorder s dto actor =>
    obtain ⟨rfl, -⟩ := h
    trivial
  | expireSectionWaitlist s =>
    obtain ⟨rfl, -⟩ := h
    trivial
  | updateSection s dto actor =>
    obtain ⟨v, live, t, n, rfl, -, hreply⟩ := h
    obtain ⟨j, hj, hsummary⟩ := hreply.summary
    exact ⟨j, hj, hc s j.sec hj, hsummary⟩

/-- **Every answer tells what its commit has left in the tables.** -/
theorem answers_tell_the_tables {w : World} (hv : w.Valid) (hc : SeatsCounted w) {sys sys' : Sys}
    (hr : Txn.Sys.Reach (fun _ _ => True) (Txn.Sys.init w) sys) {t : Nat}
    (hs : sys.step (.commit t) = some sys') :
    ∃ op out, sys'.finished = (t, op, .ok out) :: sys.finished ∧
      Truthful op out sys.world sys'.world := by
  have hG : (saying accounting).Good sys :=
    (saying_run (J := fun _ => True) (accounting_fits _ _) (fun _ _ _ _ _ _ _ => trivial) hv hc
      trivial hr).1
  obtain ⟨ses, out, ht, hp, rfl⟩ := Discipline.commit_cases hs
  have hsaid := said_of_good hG ht hp
  have ho : Outcome accounting ses.op (sys.ctx t ses) := (hG.post ht hp).1
  have hcounted : SeatsCounted (sys.ctx t ses).view :=
    (ho.balanced hG.inv.1).counted hG.inv.2
  exact ⟨ses.op, out, rfl, hsaid.truthful hcounted⟩

/-! ## 3. The promotions that are asked for -/

/-- `if (freedSeatSectionId) await this.waitlist.enqueuePromotion(freedSeatSectionId)`, and for an
update `if (capacityIncreased) await this.waitlist.enqueuePromotion(sectionId)`. -/
def owed : Op → Out → List SectionId
  | .updateSection s _ _, .updated u => if u.capacityIncreased then [s] else []
  | _, .freed f => f.freedSeatSectionId.toList
  | _, _ => []

/-- The seats of a section that nobody holds. -/
def Section.free (sec : Section) : Int := sec.capacity - sec.enrolledCount

/-- The section has more free seats in `w'` than in `w`. -/
def Opens (w w' : World) (s : SectionId) : Prop :=
  ∃ sec sec', w.db.section? s = some sec ∧ w'.db.section? s = some sec' ∧ sec.free < sec'.free

theorem not_opens_of_same {w w' : World} {s : SectionId}
    (h : w'.db.section? s = w.db.section? s) : ¬ Opens w w' s := by
  rintro ⟨sec, sec', hsec, hsec', hlt⟩
  rw [h, hsec, Option.some.injEq] at hsec'
  exact absurd (hsec' ▸ hlt) (Int.lt_irrefl _)

/-- Seats are opened as the section updates of the log say. -/
theorem opens_view {s : SectionId} : Opens c.world c.view s ↔
    ∃ sec, c.world.db.section? s = some sec ∧
      sec.free < (patchSection s (countersOf c.log) sec).free := by
  unfold Opens
  rw [view_section?]
  constructor
  · rintro ⟨sec, sec', hsec, hsec', hlt⟩
    rw [hsec, Option.map_some, Option.some.injEq] at hsec'
    exact ⟨sec, hsec, hsec' ▸ hlt⟩
  · rintro ⟨sec, hsec, hlt⟩
    exact ⟨sec, _, hsec, by rw [hsec, Option.map_some], hlt⟩

@[simp] theorem free_counter (n : Int) (sec : Section) :
    ((counter n).patch sec).free = sec.free - n := by
  show sec.capacity - (sec.enrolledCount + n) = sec.capacity - sec.enrolledCount - n
  omega

/-- Giving a seat back, or a place in the queue, opens the seat that the row held. -/
theorem patchSection_seatBack {s : SectionId} {r : Enrollment} (sec : Section) :
    sec.free < (patchSection s (seatBackCounters r) sec).free ↔ seatOf r = some s := by
  unfold seatBackCounters seatOf
  by_cases henr : r.status = .ENROLLED
  · rw [if_pos henr, if_pos henr, patchSection_single, Option.some.injEq]
    by_cases hs : s = r.sectionId
    · subst hs
      rw [if_pos rfl, free_counter]
      exact ⟨fun _ => rfl, fun _ => by omega⟩
    · rw [if_neg hs]
      exact ⟨fun h => absurd h (Int.lt_irrefl _), fun h => absurd h.symm hs⟩
  · rw [if_neg henr, if_neg henr, patchSection_nil]
    exact ⟨fun h => absurd h (Int.lt_irrefl _), fun h => absurd h (by simp)⟩

theorem seatOf_eq_some {r : Enrollment} {s : SectionId} (h : seatOf r = some s) :
    r.sectionId = s := by
  unfold seatOf at h
  split at h
  · exact Option.some.inj h
  · exact absurd h (by simp)

theorem DropOutcome.opens {id : EnrollmentId} {actor : RequestActor} {r : Enrollment}
    {droppedAt t : Time} {n : OutboxId} (hv : c.world.Valid)
    (h : DropOutcome X op id actor r droppedAt t n c) {s : SectionId} :
    Opens c.world c.view s ↔ seatOf r = some s := by
  rw [opens_view, h.parts.counters]
  constructor
  · rintro ⟨sec, -, hlt⟩
    exact (patchSection_seatBack sec).mp hlt
  · intro hs
    obtain ⟨sec, hsec⟩ := Option.ne_none_iff_exists'.mp (hv.db.section_fkey r h.own.mem)
    exact ⟨sec, seatOf_eq_some hs ▸ hsec, (patchSection_seatBack sec).mpr hs⟩

/-- The seat that a swap takes is in another section than the one it opens. -/
theorem SwapOutcome.opens {id : EnrollmentId} {input : SwapDto} {u : UserId}
    {actor : RequestActor} {r : Enrollment} {sec : SectionJoin} {live : Section}
    {x : EnrollmentId} {droppedAt t t' : Time} {n : OutboxId} (hv : c.world.Valid)
    (h : SwapOutcome X op id input u actor r sec live x droppedAt t t' n c) {s : SectionId} :
    Opens c.world c.view s ↔ seatOf r = some s := by
  have hfree : ∀ sec : Section, sec.free < (patchSection s
      (seatBackCounters r ++ [(input.targetSectionId, counter 1)]) sec).free ↔
        seatOf r = some s := by
    intro sec
    rw [patchSection_append, patchSection_single]
    by_cases hs : s = input.targetSectionId
    · rw [if_pos hs, free_counter]
      have hback : ¬ sec.free < (patchSection s (seatBackCounters r) sec).free := fun hlt =>
        h.other ((seatOf_eq_some ((patchSection_seatBack sec).mp hlt)).trans hs)
      exact ⟨fun hlt => absurd (by omega) hback, fun hseat => absurd
        ((patchSection_seatBack sec).mpr hseat) hback⟩
    · rw [if_neg hs]
      exact patchSection_seatBack sec
  rw [opens_view, h.parts.counters]
  constructor
  · rintro ⟨sec, -, hlt⟩
    exact (hfree sec).mp hlt
  · intro hs
    obtain ⟨sec, hsec⟩ := Option.ne_none_iff_exists'.mp (hv.db.section_fkey r h.own.mem)
    exact ⟨sec, seatOf_eq_some hs ▸ hsec, (hfree sec).mpr hs⟩

/-- New limits open seats when the capacity grows. -/
theorem limits_free {capacity : Int} {waitlistCap : Option Int} {sec : Section} :
    sec.free < ((limits capacity waitlistCap).patch sec).free ↔
      sec.capacity < ((limits capacity waitlistCap).patch sec).capacity := by
  show sec.capacity - sec.enrolledCount < capacity - sec.enrolledCount ↔ sec.capacity < capacity
  omega

/-- No seat is opened where the section updates of the log free none. -/
theorem not_opens_of_counters {s : SectionId} {ks : List (SectionId × SectionData)}
    (hks : countersOf c.log = ks)
    (hno : ∀ sec, ¬ sec.free < (patchSection s ks sec).free) : ¬ Opens c.world c.view s := by
  rw [opens_view, hks]
  rintro ⟨sec, -, hlt⟩
  exact hno sec hlt

theorem not_opens_of_none {s : SectionId} (hks : countersOf c.log = []) :
    ¬ Opens c.world c.view s :=
  not_opens_of_counters hks fun _ => Int.lt_irrefl _

/-- An enroll takes a seat, or none. -/
theorem EnrollOutcome.not_opens {input : EnrollDto} {u : UserId} {actor : RequestActor}
    (h : EnrollOutcome X op input u actor c) {s : SectionId} : ¬ Opens c.world c.view s := by
  cases h with
  | already log => exact not_opens_of_none (by rw [log]; rfl)
  | seated sec live x t t' n lock seat fresh checked drawn log =>
    refine not_opens_of_counters (Parts.of_seated log).counters fun sec => ?_
    rw [patchSection_single]
    split
    · rw [free_counter]
      omega
    · exact Int.lt_irrefl _
  | queued sec live x t t' n p lock full cap position fresh checked drawn log =>
    exact not_opens_of_none (Parts.of_queued log).counters

/-- A promotion run takes the seats that it found open. -/
theorem PromotionOutcome.not_opens {s₀ : SectionId} {sec : SectionJoin} {turns : List Turn}
    (h : PromotionOutcome X op s₀ sec turns c) {s : SectionId} : ¬ Opens c.world c.view s := by
  rw [opens_view, h.parts.counters]
  rintro ⟨sec', hsec', hlt⟩
  rw [patchSection_single] at hlt
  split at hlt
  · rename_i hs
    subst hs
    obtain rfl := Option.some.inj (hsec'.symm.trans h.lock.row)
    have hset : ((counterSet (sec.sec.enrolledCount + turns.length)).patch sec.sec).free
        = sec.sec.capacity - (sec.sec.enrolledCount + turns.length) := rfl
    rw [hset] at hlt
    unfold Section.free at hlt
    omega
  · exact absurd hlt (Int.lt_irrefl _)

/-- A section update opens seats when the capacity has grown, and in no other section. -/
theorem UpdateOutcome.opens {s₀ : SectionId} {dto : UpdateSectionDto} {actor : RequestActor}
    {live : Section} {t : Time} {n : OutboxId} {u : SectionUpdated}
    (h : UpdateOutcome X op s₀ dto actor live t n c) (hreply : UpdateReply s₀ live u c)
    {s : SectionId} : Opens c.world c.view s ↔ s = s₀ ∧ u.capacityIncreased = true := by
  rw [hreply.grew, opens_view, view_section?, h.parts.counters]
  constructor
  · rintro ⟨sec, hsec, hlt⟩
    by_cases hs : s = s₀
    · subst hs
      obtain rfl := Option.some.inj (hsec.symm.trans h.lock.row)
      refine ⟨rfl, _, by rw [hsec, Option.map_some], ?_⟩
      rw [patchSection_single, if_pos rfl] at hlt ⊢
      exact limits_free.mp hlt
    · rw [patchSection_single, if_neg hs] at hlt
      exact absurd hlt (Int.lt_irrefl _)
  · rintro ⟨rfl, sec', hsec', hlt⟩
    rw [h.lock.row, Option.map_some, Option.some.injEq] at hsec'
    subst hsec'
    refine ⟨live, h.lock.row, ?_⟩
    rw [patchSection_single, if_pos rfl] at hlt ⊢
    exact limits_free.mpr hlt

/-- **What is owed is what was opened.** -/
theorem Said.opens {out : Out} (hv : c.world.Valid) (h : Said X op out c) (s : SectionId) :
    Opens c.world c.view s ↔ s ∈ owed op out := by
  cases op with
  | enroll input u actor =>
    obtain ⟨a, r, rfl, ho, -⟩ := h
    exact iff_of_false ho.not_opens List.not_mem_nil
  | drop id u actor =>
    obtain ⟨f, r, droppedAt, t, n, rfl, ho, hreply⟩ := h
    rw [ho.opens hv, ← hreply.freed]
    exact Option.mem_toList.symm
  | swap id input u actor =>
    obtain ⟨f, rfl, ⟨-, hlog, hfreed⟩ | ⟨r, sec, live, x, droppedAt, t, t', n, ho, hreply⟩⟩ := h
    · refine iff_of_false (not_opens_of_none (by rw [hlog]; rfl)) ?_
      show s ∉ f.freedSeatSectionId.toList
      rw [hfreed]
      exact List.not_mem_nil
    · rw [ho.opens hv, ← hreply.freed]
      exact Option.mem_toList.symm
  | runPromotion s' =>
    obtain ⟨rfl, hlog | ⟨sec, turns, ho⟩, -⟩ := h
    · exact iff_of_false (not_opens_of_none (by rw [hlog]; rfl)) List.not_mem_nil
    · exact iff_of_false ho.not_opens List.not_mem_nil
  | reorder s' dto actor =>
    obtain ⟨rfl, live, t, n, ho⟩ := h
    exact iff_of_false (not_opens_of_none ho.parts.counters) List.not_mem_nil
  | expireSectionWaitlist s' =>
    obtain ⟨rfl, ⟨hlog, -⟩ | ⟨live, turns, ho⟩⟩ := h
    · exact iff_of_false (not_opens_of_none (by rw [hlog]; rfl)) List.not_mem_nil
    · exact iff_of_false (not_opens_of_none ho.parts.counters) List.not_mem_nil
  | updateSection s' dto actor =>
    obtain ⟨u, live, t, n, rfl, ho, hreply⟩ := h
    rw [ho.opens hreply]
    show _ ↔ s ∈ (if u.capacityIncreased then [s'] else [])
    split <;> simp_all

/-- **A promotion is asked for exactly where a commit has opened a seat**, and nothing but a commit
opens one. -/
theorem opened_seats_are_announced {C : Sys → Label registrar → Prop} {w : World} (hv : w.Valid)
    {sys sys' : Sys} (hr : Txn.Sys.Reach C (Txn.Sys.init w) sys) {l : Label registrar}
    (hs : sys.step l = some sys') (s : SectionId) :
    Opens sys.world sys'.world s ↔ ∃ t op out, l = .commit t ∧
      sys'.finished = (t, op, .ok out) :: sys.finished ∧ s ∈ owed op out := by
  have hG : (saying Extra.none).Good sys :=
    (saying_run (J := fun _ => True) (Fits.none _ _) (fun _ _ _ _ _ _ _ => trivial) hv trivial
      trivial hr).1
  by_cases hcommit : ∃ t, l = .commit t
  · obtain ⟨t, rfl⟩ := hcommit
    obtain ⟨ses, out, ht, hp, rfl⟩ := Discipline.commit_cases hs
    have hopens : Opens sys.world (sys.ctx t ses).view s ↔ s ∈ owed ses.op out :=
      (said_of_good hG ht hp).opens hG.inv.1 s
    refine hopens.trans ⟨fun h => ⟨t, ses.op, out, rfl, rfl, h⟩, ?_⟩
    rintro ⟨t', op, out', -, hfin, h⟩
    obtain ⟨hhead, -⟩ := List.cons.inj hfin
    simp only [Prod.mk.injEq, Except.ok.injEq] at hhead
    obtain ⟨-, rfl, rfl⟩ := hhead
    exact h
  · refine iff_of_false (not_opens_of_same ?_) fun ⟨t, _, _, hl, _⟩ => hcommit ⟨t, hl⟩
    have hmoves := moves_of_step hG.of_withPost hs
    generalize sys'.world = w' at hmoves
    cases hmoves with
    | commit t ses out ht hp ho => exact absurd ⟨t, rfl⟩ hcommit
    | env e => cases e <;> rfl
    | draw _ n hn => rfl

namespace Campus

/-- Student 1 has given up the seat of section 10, and is about to commit. -/
def givingUp : List (Label registrar) := busy ++ .begin 2 (.drop 100 1 (actor 1)) :: execs 2 7 0

set_option maxRecDepth 4000 in
theorem givingUp_runs : (Txn.Sys.run (Txn.Sys.init world) givingUp).isSome = true := by decide

def beforeGivenUp : Sys := (Txn.Sys.run (Txn.Sys.init world) givingUp).get givingUp_runs

theorem givingUp_reached : Txn.Sys.Reach (fun _ _ => True) (Txn.Sys.init world) beforeGivenUp :=
  .of_run .refl (fun _ _ _ => trivial) (Option.some_get givingUp_runs).symm

set_option maxRecDepth 4000 in
theorem givingUp_commits : (beforeGivenUp.step (.commit 2)).isSome = true := by decide

def afterGivenUp : Sys := (beforeGivenUp.step (.commit 2)).get givingUp_commits

theorem answers_tell_givenUp :
    ∃ op out, afterGivenUp.finished = (2, op, .ok out) :: beforeGivenUp.finished ∧
      Truthful op out beforeGivenUp.world afterGivenUp.world :=
  answers_tell_the_tables world_valid world_counted givingUp_reached
    (Option.some_get givingUp_commits).symm

end Campus

end Enroll
