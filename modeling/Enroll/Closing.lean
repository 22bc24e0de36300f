/-
# When registration is over

`enroll` and `swap` look at the clock before they lock anything, and `runPromotion` when it holds the
section.  So once a term's registration is over, and as long as nobody puts the deadline off, whatever
begins afterwards adds nobody to a section: the students who are active in it were so before, with
the status they had (`over_is_final`).  What was already under way is another matter, for a request
that has passed its check may still be waiting for the lock.

`Bars` does the work for the sessions that begin after the deadline; `After` says what is asked of
the rest.
-/
import Enroll.Barred
import Enroll.LifeCycle

namespace Enroll

open Txn (Ctx Prog Session Label Discipline wp wp_bind)

variable {X : Extra} {op : Op} {c c' : Ctx postgres} {s : SectionId}

/-! ## 1. Deadlines -/

/-- The staff do not move the end of a term's registration to a later time. -/
def NotPutOff (sys : Sys) : Label registrar → Prop
  | .env (.reference r) => ∀ t,
    (r.term t).registrationCloses ≤ (sys.world.db.ref.term t).registrationCloses
  | _ => True

/-- Registration for section `s` is over. -/
def Over (s : SectionId) (w : World) : Prop :=
  ∃ sec, w.db.section? s = some sec ∧ (w.db.ref.term sec.termId).registrationCloses < w.now

/-- The same for an earlier deadline at a later time. -/
theorem Over.grows {w w' : World} (h : Over s w) (hg : Grows w w')
    (hclose : ∀ t, (w'.db.ref.term t).registrationCloses ≤ (w.db.ref.term t).registrationCloses) :
    Over s w' := by
  obtain ⟨sec, hsec, hlate⟩ := h
  have hfixed := hg.sections s
  rw [hsec, Option.map_some] at hfixed
  obtain ⟨sec', hsec', hsame⟩ := Option.map_eq_some_iff.mp hfixed
  refine ⟨sec', hsec', ?_⟩
  rw [fixed_termId hsame]
  exact Nat.lt_of_le_of_lt (hclose _) (Nat.lt_of_lt_of_le hlate hg.now)

theorem over_step {sys sys' : Sys} {l : Label registrar} (hG : (discipline X).Good sys)
    (hC : NotPutOff sys l) (hs : sys.step l = some sys') (h : Over s sys.world) :
    Over s sys'.world := by
  refine h.grows (grows_of_step hG hs) ?_
  have hm := moves_of_step hG hs
  generalize sys'.world = w' at hm
  cases hm with
  | commit t ses a ht hp ho =>
    have href : (sys.ctx t ses).view.db.ref = sys.world.db.ref := applyLog_ref ses.log sys.world
    exact fun _ => Nat.le_of_eq (by rw [href])
  | env e =>
    cases e with
    | tick ms => exact fun _ => Nat.le_refl _
    | reference r => exact hC
  | draw _ n hn => exact fun _ => Nat.le_refl _

/-! ## 2. What is turned away -/

/-- The request would put a row into section `s`, or give a waiting one a seat there. -/
def Op.Joins (s : SectionId) : Op → Prop
  | enroll input _ _ => input.sectionId = s
  | swap _ input _ _ => input.targetSectionId = s
  | runPromotion s' => s' = s
  | drop _ _ _ => False
  | reorder _ _ _ => False
  | expireSectionWaitlist _ => False
  | updateSection _ _ _ => False

/-- While registration for `s` is over. -/
abbrev whileOver (s : SectionId) : Extra := .ofInv (Over s) fun _ _ _ h => h

section Gates

variable {u : UserId}

/-- **No gate lets anybody through to a section that is over.** -/
theorem wp_registrationGate_over (hlog : c.log = []) (hover : Over s c.world) {sec : SectionJoin}
    (hsec : (c.world.db.section? s).map c.world.db.joinSection = some sec) {closed : String}
    {P : Unit → Ctx postgres → Prop} :
    wp (Others (whileOver s) op) DrawsOnly (registrationGate sec u closed)
      (Ends P fun _ _ => True) c := by
  obtain ⟨row, hrow, hlate⟩ := hover
  rw [hrow, Option.map_some, Option.some.injEq] at hsec
  subst hsec
  refine wp_bind (wp_query fun c₁ h₁ _ => ?_)
  have hnow : Query.now.eval c₁.view = c₁.world.now := by
    rw [view_of_log_nil (h₁.log_nil hlog)]
    rfl
  refine wp_bind (Txn.wp_throwIf (fun _ => trivial) fun hopen => ?_)
  rw [hnow] at hopen
  exact absurd (Nat.lt_of_lt_of_le hlate h₁.later.rely.grows.now) hopen

theorem enroll_over (hlog : c.log = []) {input : EnrollDto} (hs : input.sectionId = s)
    {actor : RequestActor} :
    wp (Others (whileOver s) op) DrawsOnly (enroll input u actor)
      (Ends (fun _ c' => c'.log = []) fun _ _ => True) c := by
  refine wp_bind (wp_query fun c₁ h₁ _ => ?_)
  have hlog₁ := h₁.log_nil hlog
  rw [view_of_log_nil hlog₁]
  refine wp_bind (Txn.wp_orThrow (fun _ => trivial) fun sec hsec => ?_)
  refine wp_bind (Txn.wp_mono ?_ (wp_registrationGate_over (P := fun _ _ => False) hlog₁
    h₁.later.rely.inv (hs ▸ hsec)))
  intro r c' hr
  cases r with
  | ok a => exact hr.elim
  | error e => exact trivial

/-- A swap within one section commits nothing; any other meets the gate of its target. -/
theorem swap_over (hlog : c.log = []) {id : EnrollmentId} {input : SwapDto}
    (hs : input.targetSectionId = s) {actor : RequestActor} :
    wp (Others (whileOver s) op) DrawsOnly (swap id input u actor)
      (Ends (fun _ c' => c'.log = []) fun _ _ => True) c := by
  refine wp_bind (wp_query fun c₁ h₁ _ => ?_)
  have hlog₁ := h₁.log_nil hlog
  refine wp_bind (Txn.wp_orThrow (fun _ => trivial) fun source _ => ?_)
  refine wp_bind (Txn.wp_throwIf (fun _ => trivial) fun _ => ?_)
  refine Txn.wp_ite (fun _ => ?_) fun _ => ?_
  · refine wp_bind (wp_query fun c₂ h₂ _ => ?_)
    exact h₂.log_nil hlog₁
  · refine wp_bind (wp_query fun c₂ h₂ _ => ?_)
    have hlog₂ := h₂.log_nil hlog₁
    rw [view_of_log_nil hlog₂]
    refine wp_bind (Txn.wp_orThrow (fun _ => trivial) fun target htarget => ?_)
    refine wp_bind (Txn.wp_mono ?_ (wp_registrationGate_over (P := fun _ _ => False) hlog₂
      h₂.later.rely.inv (hs ▸ htarget)))
    intro r c' hr
    cases r with
    | ok a => exact hr.elim
    | error e => exact trivial

theorem runPromotion_over (hlog : c.log = []) :
    wp (Others (whileOver s) op) DrawsOnly (runPromotion s)
      (Ends (fun _ c' => c'.log = []) fun _ _ => True) c := by
  refine wp_bind (wp_sectionForUpdate fun c₁ h₁ hlog₁ _ _ => ?_)
  rw [hlog] at hlog₁
  rw [view_of_log_nil hlog₁]
  obtain ⟨row, hrow, hlate⟩ : Over s c₁.world := h₁.rely.inv
  rw [hrow]
  refine wp_bind (wp_query fun c₂ h₂ _ => ?_)
  have hlog₂ := h₂.log_nil hlog₁
  have hnow : Query.now.eval c₂.view = c₂.world.now := by
    rw [view_of_log_nil hlog₂]
    rfl
  refine Txn.wp_ite (fun _ => hlog₂) fun hopen => ?_
  rw [hnow] at hopen
  exact absurd (Nat.lt_of_lt_of_le hlate h₂.later.rely.grows.now) hopen

end Gates

/-- Registration that is over bars what would join the section. -/
def overBars (s : SectionId) : Bars where
  cond := Over s
  cond_seq _ _ _ h := h
  stops := Op.Joins s
  barred op hstop c _ hlog := by
    have hrest {α : Type} {p : Tx α} {f : α → Out}
        (h : wp (Others (whileOver s) op) DrawsOnly p
          (Ends (fun _ c' => c'.log = []) fun _ _ => True) c) :
        wp (Others (whileOver s) op) DrawsOnly (p >>= fun a => pure (f a))
          (Ends (fun _ c' => c'.log = []) fun _ _ => True) c := by
      refine wp_bind (Txn.wp_mono ?_ h)
      intro r c' hr
      cases r with
      | ok a => exact hr
      | error e => exact trivial
    cases op with
    | enroll input u actor => exact hrest (enroll_over hlog hstop)
    | swap id input u actor => exact hrest (swap_over hlog hstop)
    | runPromotion s' =>
      obtain rfl : s' = s := hstop
      exact hrest (runPromotion_over hlog)
    | drop id u actor => exact hstop.elim
    | reorder s' dto actor => exact hstop.elim
    | expireSectionWaitlist s' => exact hstop.elim
    | updateSection s' dto actor => exact hstop.elim

/-! ## 3. Runs after the deadline -/

/-- A commit that does not join the section adds no active row to it, and leaves those that stay
active with their status. -/
theorem stays_of_commit (hv : c.world.Valid) (ho : Outcome X op c) (hjoin : ¬ op.Joins s)
    {r' : Enrollment} (hr' : r' ∈ c.view.db.rowsOf s) (ha : r'.active = true) :
    ∃ r ∈ c.world.db.rowsOf s, r.id = r'.id ∧ r.status = r'.status := by
  have hs := ho.sane hv
  obtain ⟨hmem, hsec⟩ := mem_rowsOf.mp hr'
  have hlookup : c.view.db.enrollment? r'.id = some r' := (hs.valid hv).db.enrollment?_of_mem hmem
  -- a promotion of another section touches the rows of that section alone
  by_cases hprom : ∃ s', op = .runPromotion s'
  · obtain ⟨s', rfl⟩ := hprom
    rcases ho with hlog | ⟨sec, turns, h⟩
    · rw [view_of_log_nil hlog] at hr'
      exact ⟨r', hr', rfl, rfl⟩
    · rw [view_rowsOf hs.apart, h.parts.patches, h.parts.inserts, List.filter_nil, List.append_nil,
        patchAll_elsewhere hv (Ne.symm hjoin) fun p hp => ?_] at hr'
      · exact ⟨r', hr', rfl, rfl⟩
      · obtain ⟨u, hu, rfl⟩ := List.mem_map.mp hp
        exact ⟨u.row, (List.mem_filter.mp (h.waiting hu)).1, rfl⟩
  obtain ⟨f, hf, hof⟩ := ho.fares hv r'.id
  have hturns := hf.row
  rw [hlookup] at hturns
  cases f with
  | kept =>
    cases h₀ : c.world.db.enrollment? r'.id with
    | none =>
      rw [h₀] at hturns
      exact absurd hturns (by simp [Fate.Turns])
    | some r =>
      rw [h₀] at hturns
      simp only [Fate.Turns, Option.map_some, Option.some.injEq, Prod.mk.injEq] at hturns
      obtain ⟨hr, hid⟩ := enrollment?_mem h₀
      have hsame := (reread_fixed (hs.valid hv) hs.grows h₀ hlookup).2
      exact ⟨r, mem_rowsOf.mpr ⟨hr, hsame.symm.trans hsec⟩, hid, hturns.1.symm⟩
  | created =>
    have hins : r' ∈ insertsOf c.log := by
      rcases hs.mem_view.mp hmem with ⟨r₀, hr₀, hpatch⟩ | hins
      · have hid : r₀.id = r'.id := by
          rw [← hpatch]
          exact (patchRow_kept (fun d r => rfl) (patchesOf c.log) r₀).symm
        exact absurd hid (Keyed.lookup_none.mp hturns.1 r₀ hr₀)
      · exact hins
    cases ho.newRow hins with
    | seated live x t lock seat => exact absurd hsec hjoin
    | queued x t p => exact absurd hsec hjoin
    | moved live x t lock seat => exact absurd hsec hjoin
  | departed b =>
    obtain ⟨r₀, r₁, -, hr₁, -, hst, -⟩ := hturns
    obtain rfl := Option.some.inj hr₁
    unfold Enrollment.active at ha
    rw [hst] at ha
    exact absurd ha (by decide)
  | promoted => exact absurd hof hprom

/-- `sys` comes after `sys₀`, where registration for `s` was over and nobody was under way who would
join it; the deadline has not been put off since. -/
structure After (C : Sys → Label registrar → Prop) (w : World) (s : SectionId) (sys₀ sys : Sys) :
    Prop where
  start : Txn.Sys.Reach C (Txn.Sys.init w) sys₀
  closed : Over s sys₀.world
  nobody : ∀ t ses, sys₀.sessions t = some ses → ¬ ses.op.Joins s
  run : Txn.Sys.Reach (fun sys l => C sys l ∧ NotPutOff sys l) sys₀ sys

namespace After

variable {C : Sys → Label registrar → Prop} {w : World} {sys₀ sys sys' : Sys}

theorem reach (h : After C w s sys₀ sys) : Txn.Sys.Reach C (Txn.Sys.init w) sys :=
  h.start.trans (h.run.mono fun _ _ hc => hc.1)

theorem tail (h : After C w s sys₀ sys) {l : Label registrar} (hC : C sys l)
    (hput : NotPutOff sys l) (hs : sys.step l = some sys') : After C w s sys₀ sys' :=
  ⟨h.start, h.closed, h.nobody, h.run.tail ⟨hC, hput⟩ hs⟩

/-- It stays over, all the way. -/
theorem still_over (hv : w.Valid) (h : After C w s sys₀ sys) :
    Txn.Sys.Reach (fun sys l => C sys l ∧ Over s sys.world) sys₀ sys ∧ Over s sys.world := by
  obtain ⟨hstart, hover, -, hrun⟩ := h
  induction hrun with
  | refl => exact ⟨.refl, hover⟩
  | tail hrun hc hs ih =>
    have hG := locks_run hv (hstart.trans (hrun.mono fun _ _ hc => hc.1))
    exact ⟨ih.1.tail ⟨hc.1, ih.2⟩ hs, over_step hG hc.2 hs ih.2⟩

/-- **One step**: whoever is active in the section afterwards was so before. -/
theorem stays (hv : w.Valid) (h : After C w s sys₀ sys) {l : Label registrar}
    (hs : sys.step l = some sys') {r' : Enrollment} (hr' : r' ∈ sys'.world.db.rowsOf s)
    (ha : r'.active = true) :
    ∃ r ∈ sys.world.db.rowsOf s, r.id = r'.id ∧ r.status = r'.status := by
  have hG := locks_run hv h.reach
  have hm := moves_of_step hG hs
  generalize sys'.world = w' at hm hr'
  cases hm with
  | commit t ses a ht hp ho =>
    by_cases hjoin : ses.op.Joins s
    · -- it has begun after the deadline, and commits nothing
      obtain ⟨hrun, hover⟩ := h.still_over hv
      rcases Txn.begun hrun ht with ⟨ses₀, ht₀, hop⟩ | ⟨sys₁, hr₁, hnone, hr₁'⟩
      · exact absurd (hop ▸ hjoin) (h.nobody t ses₀ ht₀)
      · have hlog : (sys.ctx t ses).log = [] :=
          Bars.barred_commits_nothing (B := overBars s) hv
            (h.start.trans (hr₁.mono fun _ _ hc => hc.1)) hnone hr₁' hover ht hp hjoin
        rw [view_of_log_nil hlog] at hr'
        exact ⟨r', hr', rfl, rfl⟩
    · exact stays_of_commit hG.inv.1 ho hjoin hr' ha
  | env e =>
    have hrows : (sys.world.env e).db.rowsOf s = sys.world.db.rowsOf s := by cases e <;> rfl
    exact ⟨r', hrows ▸ hr', rfl, rfl⟩
  | draw _ n hn => exact ⟨r', hr', rfl, rfl⟩

/-- A waitlist that has run empty stays empty. -/
theorem empty (hv : w.Valid) (h : After C w s sys₀ sys) {l : Label registrar}
    (hs : sys.step l = some sys') (hnil : sys.world.db.waiting s = []) :
    sys'.world.db.waiting s = [] := by
  refine List.eq_nil_iff_forall_not_mem.mpr fun r' hr' => ?_
  obtain ⟨hmem, hsec, hst⟩ := mem_waiting.mp hr'
  have ha : r'.active = true := by
    unfold Enrollment.active
    rw [hst]
    rfl
  obtain ⟨r, hr, -, hst'⟩ := h.stays hv hs (mem_rowsOf.mpr ⟨hmem, hsec⟩) ha
  obtain ⟨hmem', hsec'⟩ := mem_rowsOf.mp hr
  have hwait : r ∈ sys.world.db.waiting s := mem_waiting.mpr ⟨hmem', hsec', hst'.trans hst⟩
  rw [hnil] at hwait
  exact absurd hwait List.not_mem_nil

end After

/-- **Once registration is over nobody gets into a section any more**, nor from its waitlist into a
seat: whoever is active in it later was so at the deadline, with the same status. -/
theorem over_is_final {C : Sys → Label registrar → Prop} {w : World} (hv : w.Valid) {sys₀ sys : Sys}
    (h : After C w s sys₀ sys) {r' : Enrollment} (hr' : r' ∈ sys.world.db.rowsOf s)
    (ha : r'.active = true) :
    ∃ r ∈ sys₀.world.db.rowsOf s, r.id = r'.id ∧ r.status = r'.status := by
  obtain ⟨hstart, hover, hnobody, hrun⟩ := h
  induction hrun generalizing r' with
  | refl => exact ⟨r', hr', rfl, rfl⟩
  | tail hrun hc hs ih =>
    obtain ⟨r₁, hr₁, hid₁, hst₁⟩ := After.stays hv ⟨hstart, hover, hnobody, hrun⟩ hs hr' ha
    have ha₁ : r₁.active = true := by
      unfold Enrollment.active
      rw [hst₁]
      exact ha
    obtain ⟨r, hr, hid, hst⟩ := ih hr₁ ha₁
    exact ⟨r, hr, hid.trans hid₁, hst.trans hst₁⟩

namespace Campus

/-- Student 1 has the seat of section 10 and student 2 waits for it when the term closes. -/
def deadline : List (Label registrar) := busy ++ [.env (.tick 1000)]

set_option maxRecDepth 4000 in
theorem deadline_runs : (Txn.Sys.run (Txn.Sys.init world) deadline).isSome = true := by decide

def afterDeadline : Sys := (Txn.Sys.run (Txn.Sys.init world) deadline).get deadline_runs

theorem deadline_reached : Txn.Sys.Reach (fun _ _ => True) (Txn.Sys.init world) afterDeadline :=
  .of_run .refl (fun _ _ _ => trivial) (Option.some_get deadline_runs).symm

set_option maxRecDepth 4000 in
theorem deadline_over : Over 10 afterDeadline.world :=
  ⟨⟨10, "001", 5, 7, "MWF 9:00-9:50", 1, 1, none⟩, by decide, by decide⟩

set_option maxRecDepth 4000 in
theorem deadline_sessions (t : Nat) : afterDeadline.sessions t = none := by
  by_cases h₀ : t = 0
  · subst h₀
    exact Option.isNone_iff_eq_none.mp (by decide)
  by_cases h₁ : t = 1
  · subst h₁
    exact Option.isNone_iff_eq_none.mp (by decide)
  have htwo : 2 ≤ t := by omega
  exact Discipline.run_no_session (Option.some_get deadline_runs).symm (by decide) htwo rfl

theorem nobody_joins (t : Nat) (ses : Session registrar)
    (ht : afterDeadline.sessions t = some ses) : ¬ ses.op.Joins 10 :=
  absurd ((deadline_sessions t).symm.trans ht) (by simp)

/-- The waitlist is cleared after that. -/
def expiry : List (Label registrar) := serve 2 (.expireSectionWaitlist 10) 6 0

set_option maxRecDepth 4000 in
theorem expiry_runs : (Txn.Sys.run afterDeadline expiry).isSome = true := by decide

def afterExpiry : Sys := (Txn.Sys.run afterDeadline expiry).get expiry_runs

theorem expiry_after : After (fun _ _ => True) world 10 afterDeadline afterExpiry := by
  refine ⟨deadline_reached, deadline_over, nobody_joins,
    .of_run .refl (fun l hl sys => ⟨trivial, ?_⟩) (Option.some_get expiry_runs).symm⟩
  rcases List.mem_append.mp hl with hl | hl
  · rcases List.mem_cons.mp hl with rfl | hl
    · trivial
    · rw [List.eq_of_mem_replicate hl]
      trivial
  · rw [List.mem_singleton.mp hl]
    trivial

set_option maxRecDepth 4000 in
theorem over_is_final_expired :
    ∃ r ∈ afterDeadline.world.db.rowsOf 10, r.id = 100 ∧ r.status = .ENROLLED :=
  over_is_final world_valid expiry_after
    (show (seatRow 1 10).row 100 10 ∈ afterExpiry.world.db.rowsOf 10 by decide) (by decide)

end Campus

end Enroll
