/-
# Seat accounting

Every operation that changes the counter of a section, by a step or by an absolute value, changes
the number of its ENROLLED rows by as much (`Outcome.balanced`).  So the counter is the number of
ENROLLED rows in every reachable state, whatever the interleaving, and since it is, giving a seat
back cannot take it below zero: the `CHECK` on `Section` never fires (`seat_accounting`).
-/
import Enroll.Registrar

namespace Enroll

open Txn (Ctx Session Label Discipline)

variable {X : Extra} {op : Op} {c c' : Ctx postgres}

/-! ## 1. Counting updated rows -/

/-- Updates that do not change whether a row counts do not change the count. -/
theorem countP_patchAll_same {f : Enrollment → Bool} {ps : List (EnrollmentId × EnrollmentData)}
    (hnd : (ps.map Prod.fst).Nodup) {rows : List Enrollment}
    (h : ∀ p ∈ ps, ∀ r ∈ rows, r.id = p.1 → f (p.2.patch r) = f r) :
    (patchAll ps rows).countP f = rows.countP f := by
  rw [patchAll_eq_map, List.countP_map]
  refine List.countP_congr fun r hr => ?_
  simp only [Function.comp]
  by_cases hp : ∃ p ∈ ps, p.1 = r.id
  · obtain ⟨p, hp, he⟩ := hp
    rw [patchRow_of_mem hnd hp he.symm, h p hp r hr he.symm]
  · rw [patchRow_of_ne fun p hp' he => hp ⟨p, hp', he⟩]

/-- Updates that each make one row count. -/
theorem countP_patchAll_gain {f : Enrollment → Bool} {ps : List (EnrollmentId × EnrollmentData)}
    (hps : (ps.map Prod.fst).Nodup) {rows : List Enrollment}
    (hnd : (rows.map Enrollment.id).Nodup)
    (h : ∀ p ∈ ps, ∃ r ∈ rows, r.id = p.1 ∧ f r = false ∧ f (p.2.patch r) = true) :
    (patchAll ps rows).countP f = rows.countP f + ps.length := by
  induction ps generalizing rows with
  | nil => rfl
  | cons p ps ih =>
    obtain ⟨hp, hps'⟩ := List.nodup_cons.mp hps
    obtain ⟨r, hr, hid, hf, hf'⟩ := h p List.mem_cons_self
    have hone : (patchEnrollments p.1 p.2 rows).countP f = rows.countP f + 1 := by
      have := Keyed.countP_update (p := f) (f := p.2.patch) hnd hr
      rw [hid, hf, hf'] at this
      unfold patchEnrollments
      simpa using this
    have hids : ((patchEnrollments p.1 p.2 rows).map Enrollment.id).Nodup := by
      rw [patchEnrollments, Keyed.map_update (f := p.2.patch) (fun _ => rfl)]
      exact hnd
    rw [patchAll_cons, ih hps' hids, hone, List.length_cons]
    · omega
    · intro q hq
      obtain ⟨r', hr', hid', hq', hq''⟩ := h q (List.mem_cons_of_mem p hq)
      refine ⟨r', Keyed.mem_update.mpr ⟨r', hr', (if_neg ?_).symm⟩, hid', hq', hq''⟩
      exact fun he => hp (List.mem_map.mpr ⟨q, hq, hid'.symm.trans he⟩)

/-! ## 2. The balance of a commit -/

/-- The number of ENROLLED rows. -/
def enrolledRows (rows : List Enrollment) : Nat := rows.countP Enrollment.enrolled

/-- The counter of every section is the number of its ENROLLED rows. -/
def SeatsCounted (w : World) : Prop :=
  ∀ s sec, w.db.section? s = some sec → sec.enrolledCount = enrolledRows (w.db.rowsOf s)

/-- The commit changes each counter by as much as the number of ENROLLED rows. -/
def Balanced (c : Ctx postgres) : Prop :=
  ∀ s sec, c.world.db.section? s = some sec →
    (patchSection s (countersOf c.log) sec).enrolledCount + enrolledRows (c.world.db.rowsOf s)
      = sec.enrolledCount + enrolledRows (c.view.db.rowsOf s)

theorem Balanced.counted (h : Balanced c) (hc : SeatsCounted c.world) : SeatsCounted c.view := by
  intro s sec hsec
  rw [view_section?] at hsec
  obtain ⟨sec₀, hsec₀, rfl⟩ := Option.map_eq_some_iff.mp hsec
  have := h s sec₀ hsec₀
  have := hc s sec₀ hsec₀
  omega

/-- The balance, by the parts of the log. -/
theorem Balanced.of_parts {ps : List (EnrollmentId × EnrollmentData)} {is : List Enrollment}
    {ks : List (SectionId × SectionData)} {es : List AuditOutbox} (hs : Sane c)
    (hp : Parts c.log ps is ks es)
    (h : ∀ s sec, c.world.db.section? s = some sec →
      (patchSection s ks sec).enrolledCount + enrolledRows (c.world.db.rowsOf s)
        = sec.enrolledCount + (enrolledRows (patchAll ps (c.world.db.rowsOf s))
          + enrolledRows (is.filter (fun r => r.sectionId == s)) : Nat)) : Balanced c := by
  intro s sec hsec
  have hrows := view_rowsOf hs.apart s
  rw [hp.patches, hp.inserts] at hrows
  rw [hp.counters, hrows, enrolledRows, enrolledRows, List.countP_append]
  exact h s sec hsec

theorem Balanced.of_log_nil (h : c.log = []) : Balanced c := by
  intro s sec _
  rw [view_of_log_nil h, h]
  rfl

/-- The counter of a section after one step of it. -/
theorem enrolledCount_counter (s s' : SectionId) (n : Int) (sec : Section) :
    (patchSection s [(s', counter n)] sec).enrolledCount
      = sec.enrolledCount + if s = s' then n else 0 := by
  rw [patchSection_single]
  split
  · rfl
  · exact (Int.add_zero _).symm

/-- The row of a departure is in one section only, and counts if it was ENROLLED. -/
theorem enrolledRows_departed (hv : c.world.Valid) {r : Enrollment} (own : OwnRow c r)
    (droppedAt : Time) (s : SectionId) :
    enrolledRows (patchAll [(r.id, departure droppedAt)] (c.world.db.rowsOf s))
        + (if s = r.sectionId then if r.status = .ENROLLED then 1 else 0 else 0)
      = enrolledRows (c.world.db.rowsOf s) := by
  have hids : ((c.world.db.rowsOf s).map Enrollment.id).Nodup :=
    Keyed.nodup_filter _ hv.db.enrollment_id
  show (patchEnrollments r.id (departure droppedAt) (c.world.db.rowsOf s)).countP _ + _ = _
  unfold patchEnrollments
  split
  · rename_i hs
    subst hs
    have := Keyed.countP_update (p := Enrollment.enrolled) (f := (departure droppedAt).patch) hids
      (mem_rowsOf.mpr ⟨own.mem, rfl⟩)
    have hgone : ((departure droppedAt).patch r).enrolled = false := rfl
    rw [hgone] at this
    unfold enrolledRows
    simpa [Enrollment.enrolled] using this
  · rename_i hs
    rw [Keyed.update_of_forall_ne]
    · rfl
    · intro r' hr' he
      obtain ⟨hmem, hsec⟩ := mem_rowsOf.mp hr'
      exact hs ((Keyed.eq_of_key_eq hv.db.enrollment_id hmem own.mem he) ▸ hsec.symm)

theorem enrolledCount_seatBack (s : SectionId) (r : Enrollment) (sec : Section) :
    (patchSection s (seatBackCounters r) sec).enrolledCount
        + ((if s = r.sectionId then if r.status = .ENROLLED then 1 else 0 else 0 : Nat) : Int)
      = sec.enrolledCount := by
  unfold seatBackCounters
  by_cases henr : r.status = .ENROLLED
  · rw [if_pos henr, enrolledCount_counter]
    by_cases hs : s = r.sectionId
    · simp only [if_pos hs, if_pos henr]
      omega
    · simp only [if_neg hs]
      omega
  · rw [if_neg henr]
    by_cases hs : s = r.sectionId
    · simp only [if_pos hs, if_neg henr, patchSection_nil]
      omega
    · simp only [if_neg hs, patchSection_nil]
      omega

/-- One row inserted into one section. -/
theorem enrolledRows_insert (r : Enrollment) (s : SectionId) :
    enrolledRows ([r].filter (fun r => r.sectionId == s))
      = if s = r.sectionId then if r.status = .ENROLLED then 1 else 0 else 0 := by
  by_cases hs : s = r.sectionId
  · subst hs
    by_cases henr : r.status = .ENROLLED <;> simp [enrolledRows, Enrollment.enrolled, henr]
  · have : ¬ r.sectionId = s := fun h => hs h.symm
    simp [enrolledRows, hs, this]

theorem EnrollOutcome.balanced {input : EnrollDto} {u : UserId} {actor : RequestActor}
    (hv : c.world.Valid) (h : EnrollOutcome X op input u actor c) : Balanced c := by
  have hsane := h.sane hv
  cases h with
  | already log => exact .of_log_nil log
  | seated sec live x t t' n lock seat fresh checked drawn log =>
    refine .of_parts hsane (.of_seated log) fun s sec' _ => ?_
    rw [enrolledCount_counter, enrolledRows_insert, patchAll_nil]
    show _ + (if s = input.sectionId then 1 else 0) + _ = _ + ((_ +
      (if s = input.sectionId then 1 else 0) : Nat) : Int)
    split <;> omega
  | queued sec live x t t' n p lock full cap position fresh checked drawn log =>
    refine .of_parts hsane (.of_queued log) fun s sec' _ => ?_
    rw [enrolledRows_insert, patchAll_nil, patchSection_nil]
    show _ = _ + ((_ + (if s = input.sectionId then 0 else 0) : Nat) : Int)
    split <;> rfl

theorem DropOutcome.balanced {id : EnrollmentId} {actor : RequestActor} {r : Enrollment}
    {droppedAt t : Time} {n : OutboxId} (hv : c.world.Valid)
    (h : DropOutcome X op id actor r droppedAt t n c) : Balanced c := by
  refine .of_parts (h.sane hv) h.parts fun s sec _ => ?_
  have hcount := enrolledCount_seatBack s r sec
  have hrows := enrolledRows_departed hv h.own droppedAt s
  show _ = _ + ((_ + 0 : Nat) : Int)
  omega

theorem SwapOutcome.balanced {id : EnrollmentId} {input : SwapDto} {u : UserId}
    {actor : RequestActor} {r : Enrollment} {sec : SectionJoin} {live : Section}
    {x : EnrollmentId} {droppedAt t t' : Time} {n : OutboxId} (hv : c.world.Valid)
    (h : SwapOutcome X op id input u actor r sec live x droppedAt t t' n c) : Balanced c := by
  refine .of_parts (h.sane hv) h.parts fun s sec' _ => ?_
  have hcount := enrolledCount_seatBack s r sec'
  have hrows := enrolledRows_departed hv h.own droppedAt s
  rw [patchSection_append, enrolledCount_counter, enrolledRows_insert]
  show _ + (if s = input.targetSectionId then 1 else 0) + _ = _ + ((_ +
    (if s = input.targetSectionId then 1 else 0) : Nat) : Int)
  by_cases hs : s = input.targetSectionId
  · simp only [if_pos hs]
    omega
  · simp only [if_neg hs]
    omega

/-- Each promotion turn makes one waiting row count. -/
theorem enrolledRows_promoted (hv : c.world.Valid) {s : SectionId} {sec : SectionJoin}
    {turns : List Turn} (h : PromotionOutcome X op s sec turns c) :
    enrolledRows (patchAll (promotions turns) (c.world.db.rowsOf s))
      = enrolledRows (c.world.db.rowsOf s) + turns.length := by
  have hids : (promotions turns).map Prod.fst
      = ((byPosition (c.world.db.waiting s)).map Enrollment.id).take turns.length := by
    rw [promotions_ids, h.rows, List.map_take]
  have hps : ((promotions turns).map Prod.fst).Nodup :=
    hids ▸ (hv.db.nodup_byPosition s).sublist (List.take_sublist ..)
  have hrows : ((c.world.db.rowsOf s).map Enrollment.id).Nodup :=
    Keyed.nodup_filter _ hv.db.enrollment_id
  have hlen : (promotions turns).length = turns.length := List.length_map _
  rw [← hlen]
  refine countP_patchAll_gain hps hrows fun p hp => ?_
  obtain ⟨t, ht, rfl⟩ := List.mem_map.mp hp
  obtain ⟨hin, hsec, hst⟩ := mem_waiting.mp (h.waiting ht)
  exact ⟨t.row, mem_rowsOf.mpr ⟨hin, hsec⟩, rfl, by simp [Enrollment.enrolled, hst], rfl⟩

theorem PromotionOutcome.balanced {s : SectionId} {sec : SectionJoin} {turns : List Turn}
    (hv : c.world.Valid) (h : PromotionOutcome X op s sec turns c) : Balanced c := by
  refine .of_parts (h.sane hv) h.parts fun s' sec' hsec' => ?_
  rw [patchSection_single]
  by_cases hs : s' = s
  · subst hs
    have hlive : sec' = sec.sec := Option.some.inj (hsec'.symm.trans h.lock.row)
    subst hlive
    rw [if_pos rfl, enrolledRows_promoted hv h]
    show sec.sec.enrolledCount + (turns.length : Int) + _ = _ + ((_ + 0 : Nat) : Int)
    omega
  · rw [if_neg hs, patchAll_elsewhere hv hs]
    · rfl
    · intro p hp
      obtain ⟨t, ht, rfl⟩ := List.mem_map.mp hp
      obtain ⟨hin, hsec, -⟩ := mem_waiting.mp (h.waiting ht)
      exact ⟨t.row, mem_rowsOf.mpr ⟨hin, hsec⟩, rfl⟩

theorem ExpiryOutcome.balanced {s : SectionId} {live : Section} {turns : List Turn}
    (hv : c.world.Valid) (h : ExpiryOutcome X op s live turns c) : Balanced c := by
  have hids : (departures turns).map Prod.fst = (c.world.db.waiting s).map Enrollment.id := by
    rw [← h.rows, departures, List.map_map, List.map_map]
    rfl
  refine .of_parts (h.sane hv) h.parts fun s' sec _ => ?_
  have hps : ((departures turns).map Prod.fst).Nodup := hids ▸ hv.db.nodup_waiting s
  have hsame : enrolledRows (patchAll (departures turns) (c.world.db.rowsOf s'))
      = enrolledRows (c.world.db.rowsOf s') := by
    refine countP_patchAll_same hps ?_
    intro p hp r hr he
    obtain ⟨t, ht, rfl⟩ := List.mem_map.mp hp
    obtain ⟨hin, -, hst⟩ := mem_waiting.mp (h.waiting ht)
    have hr' : r = t.row :=
      Keyed.eq_of_key_eq hv.db.enrollment_id (mem_rowsOf.mp hr).1 hin he
    rw [hr']
    simp [Enrollment.enrolled, hst, EnrollmentData.patch, departure]
  rw [hsame, patchSection_nil]
  rfl

theorem ReorderOutcome.balanced {s : SectionId} {dto : ReorderWaitlistDto} {actor : RequestActor}
    {live : Section} {t : Time} {n : OutboxId} (hv : c.world.Valid)
    (h : ReorderOutcome X op s dto actor live t n c) : Balanced c := by
  refine .of_parts (h.sane hv) h.parts fun s' sec _ => ?_
  have hsame : enrolledRows (patchAll (placements dto.orderedEnrollmentIds 0)
      (c.world.db.rowsOf s')) = enrolledRows (c.world.db.rowsOf s') := by
    refine countP_patchAll_same (by rw [placements_ids]; exact dto.unique) ?_
    intro p hp r _ _
    obtain ⟨q, -, rfl⟩ := List.mem_map.mp hp
    rfl
  rw [hsame, patchSection_nil]
  rfl

theorem UpdateOutcome.balanced {s : SectionId} {dto : UpdateSectionDto} {actor : RequestActor}
    {live : Section} {t : Time} {n : OutboxId} (hv : c.world.Valid)
    (h : UpdateOutcome X op s dto actor live t n c) : Balanced c := by
  refine .of_parts (h.sane hv) h.parts fun s' sec _ => ?_
  rw [patchSection_single]
  show _ = _ + ((_ + 0 : Nat) : Int)
  split <;> rfl

/-- **Every commit changes each counter by as much as the number of ENROLLED rows.** -/
theorem Outcome.balanced (hv : c.world.Valid) (h : Outcome X op c) : Balanced c := by
  cases op with
  | enroll input u actor => exact EnrollOutcome.balanced hv h
  | drop id u actor =>
    obtain ⟨r, droppedAt, t, n, h⟩ := h
    exact h.balanced hv
  | swap id input u actor =>
    rcases h with h | ⟨r, sec, live, x, droppedAt, t, t', n, h⟩
    · exact .of_log_nil h
    · exact h.balanced hv
  | runPromotion s =>
    rcases h with h | ⟨sec, turns, h⟩
    · exact .of_log_nil h
    · exact h.balanced hv
  | reorder s dto actor =>
    obtain ⟨live, t, n, h⟩ := h
    exact h.balanced hv
  | expireSectionWaitlist s =>
    rcases h with ⟨h, -⟩ | ⟨live, turns, h⟩
    · exact .of_log_nil h
    · exact h.balanced hv
  | updateSection s dto actor =>
    obtain ⟨live, t, n, h⟩ := h
    exact h.balanced hv

/-! ## 3. Every reachable state -/

/-- The counters count. -/
def accounting : Extra := .ofInv SeatsCounted fun _ _ _ h => h

/-- No answer was a refusal by the `CHECK` on `Section`. -/
def NoCheckViolation (sys : Sys) : Prop :=
  ∀ x ∈ sys.finished, ∀ e, x.2.2 = .error e → e ≠ .db .checkViolation

theorem accounting_fits (C : Sys → Label registrar → Prop) (J : Sys → Prop) :
    Fits accounting C J :=
  Fits.ofInv (fun hv hc ho => (ho.balanced hv).counted hc) fun w e h => by
    cases e <;> exact h

/-- A counter that counts is not overdrawn. -/
theorem SeatsCounted.not_overdrawn (h : SeatsCounted c.world) : ¬ Overdrawn c := by
  rintro ⟨s, sec, r, lock, hle, hr, hst⟩
  have hpos : 0 < enrolledRows (c.world.db.rowsOf s) :=
    List.countP_pos_iff.mpr ⟨r, hr, by simp [Enrollment.enrolled, hst]⟩
  have := h s sec lock.row
  omega

theorem no_check_violation {sys : Sys} (hG : (discipline accounting).Good sys) {t : Nat}
    {ses : Session registrar} {e : Failure} (ht : sys.sessions t = some ses)
    (hp : ses.prog = .throw e) : e ≠ .db .checkViolation := by
  intro he
  have hfail : Failed ses.op e (sys.ctx t ses) := hG.post_error ht hp
  exact SeatsCounted.not_overdrawn (c := sys.ctx t ses) hG.inv.2 (hfail.1 he)

theorem noCheckViolation_step {sys sys' : Sys} {l : Label registrar} (h : NoCheckViolation sys)
    (hG : (discipline accounting).Good sys) (hs : sys.step l = some sys') :
    NoCheckViolation sys' := by
  cases l with
  | begin t op =>
    obtain ⟨-, rfl⟩ := Discipline.begin_cases hs
    exact h
  | exec t x =>
    obtain ⟨ses, s, k, r, c', -, -, -, -, ses', -, -, -, -, rfl, -⟩ :=
      Discipline.stepExec_cases hs
    exact h
  | commit t =>
    obtain ⟨ses, a, -, -, rfl⟩ := Discipline.commit_cases hs
    intro x hx e he
    rcases List.mem_cons.mp hx with rfl | hx
    · exact absurd he (by simp)
    · exact h x hx e he
  | rollback t =>
    obtain ⟨ses, e, ht, hp, rfl⟩ := Discipline.rollback_cases hs
    intro x hx e' he
    rcases List.mem_cons.mp hx with rfl | hx
    · exact (Except.error.inj he) ▸ no_check_violation hG ht hp
    · exact h x hx e' he
  | crash t =>
    rw [Discipline.crash_cases hs]
    exact h
  | env e =>
    rw [Discipline.env_cases hs]
    exact h

theorem accounting_run {w : World} (hv : w.Valid) (hc : SeatsCounted w) {sys : Sys}
    (hr : Txn.Sys.Reach (fun _ _ => True) (Txn.Sys.init w) sys) :
    (discipline accounting).Good sys ∧ NoCheckViolation sys :=
  registrar_run (accounting_fits _ _) (fun _ _ _ _ h hG hs => noCheckViolation_step h hG hs) hv hc
    (fun _ hx => absurd hx List.not_mem_nil) hr

/-- What `enroll` commits leaves the waitlist within its cap. -/
theorem waitlist_within_cap {sys sys' : Sys} {t : Nat} {ses : Session registrar}
    (hG : (discipline X).Good sys) (ht : sys.sessions t = some ses)
    {input : EnrollDto} {u : UserId} {actor : RequestActor} (hop : ses.op = .enroll input u actor)
    (hs : sys.step (.commit t) = some sys') {r : Enrollment}
    (hr : Write.enrollmentInsert r ∈ ses.log) (hst : r.status = .WAITLISTED) {sec : Section}
    {cap : Int} (hsec : sys'.world.db.section? r.sectionId = some sec)
    (hcap : sec.waitlistCap = some cap) :
    ((sys'.world.db.waiting r.sectionId).length : Int) ≤ cap := by
  obtain ⟨ses', a, ht', hp, rfl⟩ := Discipline.commit_cases hs
  rw [ht, Option.some.injEq] at ht'
  subst ht'
  have ho : Outcome X ses.op (sys.ctx t ses) := hG.post ht hp
  rw [hop] at ho
  have hsane := EnrollOutcome.sane hG.inv.1 ho
  have hmem : r ∈ insertsOf (sys.ctx t ses).log :=
    List.mem_flatMap.mpr ⟨_, hr, List.mem_singleton_self r⟩
  cases ho with
  | already log =>
    rw [log] at hmem
    exact absurd hmem List.not_mem_nil
  | seated sec live x t t' n lock seat fresh checked drawn log =>
    rw [log] at hmem
    rw [List.mem_singleton.mp hmem] at hst
    exact absurd hst (by simp [seatRow, EnrollmentCreate.row])
  | queued sec' live x t₁ t' n p lock full hlt position fresh checked drawn log =>
    have hrow := hmem
    rw [log] at hrow
    have hr' := List.mem_singleton.mp hrow
    have hs' : r.sectionId = input.sectionId := by rw [hr']; rfl
    -- one more row waits, and the section row is as it was
    have hwait : (sys.ctx t ses).view.db.waiting input.sectionId
        = sys.world.db.waiting input.sectionId
          ++ [(queueRow u input.sectionId p).row x t₁] := by
      unfold Db.waiting
      rw [view_rowsOf hsane.apart, log, List.filter_append]
      congr 1
      simp [insertsOf, Write.inserted, queueRow, EnrollmentCreate.row, Enrollment.waitlisted]
    have hrow' := view_section? (sys.ctx t ses) input.sectionId
    rw [lock.row, log] at hrow'
    rw [hs'] at hsec ⊢
    have hlive : sec = live := Option.some.inj (hsec.symm.trans hrow')
    have := hlt cap (hlive ▸ hcap)
    show (((sys.ctx t ses).view.db.waiting input.sectionId).length : Int) ≤ cap
    rw [hwait, List.length_append, List.length_singleton]
    have hlen : ((sys.world.db.waiting input.sectionId).length : Int) < cap := this
    omega

/-- **Seat accounting.**  In every reachable state the counter of each section is the number of its
ENROLLED rows and lies between zero and the capacity; no request is ever refused by the `CHECK`;
and no `enroll` that commits a WAITLISTED row leaves more of them than the cap in force. -/
theorem seat_accounting {w : World} (hv : w.Valid) (hc : SeatsCounted w) {sys : Sys}
    (hr : Txn.Sys.Reach (fun _ _ => True) (Txn.Sys.init w) sys) :
    (∀ s sec, sys.world.db.section? s = some sec →
      sec.enrolledCount = enrolledRows (sys.world.db.rowsOf s) ∧
        0 ≤ sec.enrolledCount ∧ sec.enrolledCount ≤ sec.capacity) ∧
    (∀ t ses, sys.sessions t = some ses → ses.prog ≠ .throw (.db .checkViolation)) ∧
    NoCheckViolation sys ∧
    (∀ t ses input u actor sys', sys.sessions t = some ses → ses.op = .enroll input u actor →
      sys.step (.commit t) = some sys' → ∀ r, Write.enrollmentInsert r ∈ ses.log →
        r.status = .WAITLISTED → ∀ sec cap, sys'.world.db.section? r.sectionId = some sec →
          sec.waitlistCap = some cap →
            ((sys'.world.db.waiting r.sectionId).length : Int) ≤ cap) := by
  obtain ⟨hG, hno⟩ := accounting_run hv hc hr
  refine ⟨fun s sec hsec => ?_, fun t ses ht hp => ?_, hno, ?_⟩
  · exact ⟨hG.inv.2 s sec hsec, hG.inv.1.db.seats sec (section?_mem hsec).1⟩
  · exact no_check_violation hG ht hp rfl
  · intro t ses input u actor sys' ht hop hs r hr' hst sec cap hsec hcap
    exact waitlist_within_cap hG ht hop hs hr' hst hsec hcap

namespace Campus

theorem world_counted : SeatsCounted world := by
  intro s sec hsec
  have hmem := (section?_mem hsec).1
  have hzero : sec.enrolledCount = 0 := by
    rcases List.mem_cons.mp hmem with rfl | hmem
    · rfl
    · rw [List.mem_singleton.mp hmem]
  rw [hzero]
  rfl

set_option maxRecDepth 4000 in
theorem seat_accounting_busy :
    afterBusy.world.db.sections.map Section.enrolledCount = [1, 0] ∧
    (afterBusy.world.db.waiting 10).map Enrollment.id = [101] ∧
    (∀ s sec, afterBusy.world.db.section? s = some sec →
      sec.enrolledCount = enrolledRows (afterBusy.world.db.rowsOf s) ∧
        0 ≤ sec.enrolledCount ∧ sec.enrolledCount ≤ sec.capacity) :=
  ⟨by decide, by decide, (seat_accounting world_valid world_counted busy_reached).1⟩

end Campus

end Enroll
