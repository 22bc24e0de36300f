/-
# The audit log is a faithful history

Every commit adds the events of its log to the outbox, and they tell it (`Outcome.tells`).  Ids are
drawn before the commit, so rows may appear in the outbox in another order than that of their ids.
For one section they do not: while a request holds it nobody else commits an event about it
(`Avoids`), so every row about it that is there at the commit was there when the id was drawn, and
has a smaller one.
-/
import Enroll.AuditEvents

namespace Enroll

open Txn (Ctx Discipline Session Label)

variable {X : Extra} {op : Op} {c c' : Ctx postgres}

/-! ## 1. What a request relies on -/

/-- The rows of the outbox after the first `k`. -/
def Db.auditSince (db : Db) (k : Nat) : List AuditOutbox := db.auditOutbox.drop k

/-- The later rows of the outbox name enrollments that are there, under ids that were drawn. -/
structure Audited (k : Nat) (w : World) : Prop where
  long : k ≤ w.db.auditOutbox.length
  named : ∀ e ∈ w.db.auditSince k, e.Named w.db
  drawn : ∀ e ∈ w.db.auditSince k, e.id ≤ w.seq

/-- The rows that the outbox has got since `c` avoid the sections held at `c`. -/
structure Avoids (k : Nat) (c : Ctx postgres) (w : World) : Prop where
  drawn : ∀ e ∈ c.world.db.auditSince k, e.id ≤ c.world.seq
  grew : ∀ e ∈ c.world.db.auditSince k, e ∈ w.db.auditSince k
  same : ∀ e ∈ c.world.db.auditSince k, ∀ s, e.concerns w.db s = e.concerns c.world.db s
  fresh : ∀ e ∈ w.db.auditSince k, e ∉ c.world.db.auditSince k → ∀ s, c.held (.sectionRow s) →
    e.concerns w.db s = false

theorem Avoids.trans {k : Nat} {w w' : World} (h : Avoids k c w) (h' : Avoids k (c.at' w) w') :
    Avoids k c w' where
  drawn := h.drawn
  grew e he := h'.grew e (h.grew e he)
  same e he s := (h'.same e (h.grew e he) s).trans (h.same e he s)
  fresh e he hnew s hs := by
    by_cases hw : e ∈ w.db.auditSince k
    · exact (h'.same e hw s).trans (h.fresh e hw hnew s hs)
    · exact h'.fresh e he hw s hs

/-- Nothing has been added. -/
theorem Avoids.of_db {k : Nat} {w : World} (h : Audited k c.world)
    (hout : w.db.auditOutbox = c.world.db.auditOutbox)
    (hrows : w.db.enrollments = c.world.db.enrollments) : Avoids k c w := by
  have hsince : w.db.auditSince k = c.world.db.auditSince k := congrArg (List.drop k) hout
  refine ⟨h.drawn, fun e he => hsince ▸ he, fun e _ s => ?_, fun e he hno => ?_⟩
  · unfold AuditOutbox.concerns Db.enrollment?
    rw [hrows]
  · exact absurd (hsince ▸ he) hno

/-- What the audit log needs beyond the locks. -/
def audited (k : Nat) : Extra where
  inv := Audited k
  holds _ := Avoids k
  inv_seq w n hn h := ⟨h.long, h.named, fun e he => Nat.le_trans (h.drawn e he) hn⟩
  refl _ _ h := .of_db h rfl rfl
  trans _ _ _ _ h h' := h.trans h'
  anti _ c c' w hw _ hh _ h := by
    refine ⟨?_, ?_, ?_, ?_⟩ <;> rw [hw]
    · exact h.drawn
    · exact h.grew
    · exact h.same
    · exact fun e he hnew s hs => h.fresh e he hnew s (hh _ hs)
  seq _ _ _ _ h := .of_db h rfl rfl

theorem auditSince_view {k : Nat} (h : Audited k c.world) :
    c.view.db.auditSince k = c.world.db.auditSince k ++ eventsOf c.log := by
  have hout : c.view.db.auditOutbox = c.world.db.auditOutbox ++ eventsOf c.log :=
    outbox_applyLog c.log c.world
  unfold Db.auditSince
  rw [hout, List.drop_append_of_le_length h.long]

/-- A commit adds the events of its log, which name known enrollments. -/
theorem Audited.view {k : Nat} (hv : c.world.Valid) (h : Audited k c.world)
    (ho : Outcome X op c) : Audited k c.view := by
  obtain ⟨ss, es, ht⟩ := ho.tells hv
  have hs := Outcome.sane hv ho
  have hseq : c.view.seq = c.world.seq := applyLog_seq c.log c.world
  constructor
  · exact Nat.le_trans h.long hs.grows.outbox.length_le
  · intro e he
    rw [auditSince_view h, ht.events] at he
    rcases List.mem_append.mp he with he | he
    · exact hs.grows.named (hs.valid hv) (h.named e he)
    · exact ht.named e he
  · intro e he
    rw [auditSince_view h, ht.events] at he
    rw [hseq]
    rcases List.mem_append.mp he with he | he
    · exact h.drawn e he
    · exact (ht.drawn e he).le

theorem audited_fits (k : Nat) (C : Sys → Label registrar → Prop) (J : Sys → Prop) :
    Fits (audited k) C J where
  inv _ _ _ _ _ hG _ _ _ ho := Audited.view hG.inv.1 hG.inv.2 ho
  holds sys t ses t' ses' _ _ hG _ _ _ ho hne _ _ := by
    obtain ⟨ss, es, htells⟩ := Outcome.tells hG.inv.1 ho
    have hs := Outcome.sane hG.inv.1 ho
    have hv := hs.valid hG.inv.1
    have hi : Audited k (sys.ctx t ses).world := hG.inv.2
    have hsince := auditSince_view hi
    refine ⟨hi.drawn, fun e he => ?_, fun e he s => hs.grows.concerns hv (hi.named e he) s, ?_⟩
    · exact hsince ▸ List.mem_append_left _ he
    · intro e he hnew s hheld
      rw [hsince, htells.events] at he
      refine Bool.eq_false_iff.mpr fun hc => ?_
      -- the committing session holds the sections of its events, so nobody else does
      have hev := (List.mem_append.mp he).resolve_left hnew
      obtain ⟨c₁, hl, hss, -⟩ := (htells.drawn e hev).next
      have hmine : sys.owner (.sectionRow s) = some t :=
        hl.held _ (hss s (htells.about e hev s hc))
      exact hne (Option.some.inj (Eq.trans (Eq.symm hheld) hmine))
  env_inv sys e _ hG := by
    have hi : Audited k sys.world := hG.inv.2
    have hnamed : ∀ a ∈ (sys.world.env e).db.auditSince k, a.Named (sys.world.env e).db := by
      intro a ha
      refine (Grows.env sys.world e).named (hG.inv.1.env e) (hi.named a ?_)
      cases e <;> exact ha
    cases e with
    | tick ms => exact ⟨hi.long, hnamed, hi.drawn⟩
    | reference r => exact ⟨hi.long, hnamed, hi.drawn⟩
  env_holds sys e _ hG t ses _ := by
    cases e with
    | tick ms => exact .of_db hG.inv.2 rfl rfl
    | reference r => exact .of_db hG.inv.2 rfl rfl

/-! ## 2. The log along a run -/

/-- **A commit adds its events to the tale.** -/
theorem Told.commit {k : Nat} {T : Tables} (h : Told T (c.world.db.auditSince k) c.world.db)
    (hv : c.world.Valid) (hi : Audited k c.world) (ho : Outcome (audited k) op c) :
    Told T (c.view.db.auditSince k) c.view.db := by
  obtain ⟨ss, es, ht⟩ := ho.tells hv
  have hs := Outcome.sane hv ho
  have hg := hs.grows
  have hv' := hs.valid hv
  have hsince : c.view.db.auditSince k = c.world.db.auditSince k ++ es :=
    ht.events ▸ auditSince_view hi
  constructor
  · exact hg.sectioned hv' h.sectioned
  · exact (Audited.view hv hi ho).named
  · intro s
    have hold : (c.world.db.auditSince k).filter (fun e => e.concerns c.view.db s)
        = (c.world.db.auditSince k).filter (fun e => e.concerns c.world.db s) :=
      List.filter_congr fun e he => hg.concerns hv' (hi.named e he) s
    unfold History.InOrder
    rw [hsince, List.filter_append, hold, List.pairwise_append]
    refine ⟨h.inOrder s, ht.ascending.sublist List.filter_sublist, fun a ha b hb => ?_⟩
    obtain ⟨ha, hca⟩ := List.mem_filter.mp ha
    obtain ⟨hb, hcb⟩ := List.mem_filter.mp hb
    -- `a` was there when the id of `b` was drawn
    obtain ⟨c₁, hl, hss, hid⟩ := (ht.drawn b hb).next
    have havoids : Avoids k c₁ c.world := hl.rely.extra
    have ha₁ : a ∈ c₁.world.db.auditSince k := by
      by_contra hnew
      have := havoids.fresh a ha hnew s (hss s (ht.about b hb s hcb))
      rw [hca] at this
      exact absurd this (by simp)
    exact hid ▸ Nat.lt_succ_of_le (havoids.drawn a ha₁)
  · rw [hsince, replay_append, h.tables]
    exact ht.tables
  · intro l e r hes
    rw [hsince] at hes
    rcases List.append_eq_append_iff.mp hes with ⟨l', rfl, hes'⟩ | ⟨l', hrows, hes'⟩
    · rw [replay_append, h.tables]
      exact ht.recorded l' e r hes'
    · cases l' with
      | nil =>
        rw [List.append_nil] at hrows
        rw [← hrows, h.tables]
        exact ht.recorded [] e r hes'.symm
      | cons a l' =>
        obtain ⟨rfl, -⟩ := List.cons.inj hes'
        exact h.recorded l e l' hrows

theorem Told.step {k : Nat} {T : Tables} {sys sys' : Sys} {l : Label registrar}
    (h : Told T (sys.world.db.auditSince k) sys.world.db) (hG : (discipline (audited k)).Good sys)
    (hs : sys.step l = some sys') : Told T (sys'.world.db.auditSince k) sys'.world.db := by
  have hm := moves_of_step hG hs
  generalize sys'.world = w' at hm
  cases hm with
  | commit t ses a ht hp ho => exact Told.commit h hG.inv.1 hG.inv.2 ho
  | env e =>
    have hg := Grows.env sys.world e
    have hv' := hG.inv.1.env e
    have hi : Audited k sys.world := hG.inv.2
    have hnamed : ∀ a ∈ sys.world.db.auditSince k, a.Named (sys.world.env e).db :=
      fun a ha => hg.named hv' (hi.named a ha)
    cases e with
    | tick ms => exact ⟨hg.sectioned hv' h.sectioned, hnamed, h.inOrder, h.tables, h.recorded⟩
    | reference r => exact ⟨hg.sectioned hv' h.sectioned, hnamed, h.inOrder, h.tables, h.recorded⟩
  | draw _ n hn => exact h

/-- Only a commit adds rows to the outbox. -/
theorem outbox_step {sys sys' : Sys} {l : Label registrar} (hG : (discipline X).Good sys)
    (hs : sys.step l = some sys') (hl : ∀ t, l ≠ .commit t) :
    sys'.world.db.auditOutbox = sys.world.db.auditOutbox := by
  have hm := moves_of_step hG hs
  generalize sys'.world = w' at hm
  cases hm with
  | commit t ses a ht hp ho => exact absurd rfl (hl t)
  | env e => cases e <;> rfl
  | draw _ n hn => rfl

/-- The request asks for what is so already: a place in a section where the student has one, or a
move of an enrollment to its own section. -/
def Op.Repeats (db : Db) : Op → Prop
  | .enroll input u _ => ∃ r ∈ db.enrollments, r.active = true ∧ r.studentId = u ∧
      r.sectionId = input.sectionId
  | .swap id input _ _ => ∃ r ∈ db.enrollments, r.id = id ∧ r.sectionId = input.targetSectionId
  | .drop _ _ _ => False
  | .runPromotion _ => False
  | .reorder _ _ _ => False
  | .expireSectionWaitlist _ => False
  | .updateSection _ _ _ => False

theorem Outcome.repeats (hv : c.world.Valid) (h : Outcome X op c) (hrep : op.Repeats c.world.db) :
    c.log = [] := by
  cases op with
  | enroll input u actor =>
    obtain ⟨r, hr, ha, hu, hsec⟩ := hrep
    cases h with
    | already log => exact log
    | seated sec live x t t' n lock seat fresh =>
      exact absurd hu (fresh.only r (mem_rowsOf.mpr ⟨hr, hsec⟩) ha)
    | queued sec live x t t' n p lock full cap position fresh =>
      exact absurd hu (fresh.only r (mem_rowsOf.mpr ⟨hr, hsec⟩) ha)
  | swap id input u actor =>
    obtain ⟨r', hr', hid, hsec⟩ := hrep
    rcases h with h | ⟨r, sec, live, x, droppedAt, t, t', n, h⟩
    · exact h
    · obtain rfl := Keyed.eq_of_key_eq hv.db.enrollment_id hr' h.own.mem (hid.trans h.id.symm)
      exact absurd hsec h.other
  | drop id u actor => exact hrep.elim
  | runPromotion s => exact hrep.elim
  | reorder s dto actor => exact hrep.elim
  | expireSectionWaitlist s => exact hrep.elim
  | updateSection s dto actor => exact hrep.elim

/-- **The audit log is a faithful history.**  In every reachable state the rows added to the outbox
reconstruct the tables from the initial ones, and each records what the replay by id finds.  Nothing
but a commit adds rows, and a commit of a request that repeats another adds none. -/
theorem audit_log_faithful {w : World} (hv : w.Valid) {sys : Sys}
    (hr : Txn.Sys.Reach (fun _ _ => True) (Txn.Sys.init w) sys) :
    (∃ rows, sys.world.db.auditOutbox = w.db.auditOutbox ++ rows ∧
      Faithful w.db.tables rows sys.world.db) ∧
    (∀ l sys', sys.step l = some sys' → (∀ t, l ≠ .commit t) →
      sys'.world.db.auditOutbox = sys.world.db.auditOutbox) ∧
    (∀ t ses sys', sys.sessions t = some ses → sys.step (.commit t) = some sys' →
      ses.op.Repeats sys.world.db → sys'.world.db.auditOutbox = sys.world.db.auditOutbox) := by
  have hsince : w.db.auditSince w.db.auditOutbox.length = [] := List.drop_length
  have hi : Audited w.db.auditOutbox.length w := by
    refine ⟨Nat.le_refl _, ?_, ?_⟩ <;> rw [hsince] <;> exact fun _ he => absurd he List.not_mem_nil
  have htold : Told w.db.tables (w.db.auditSince w.db.auditOutbox.length) w.db := by
    rw [hsince]
    exact ⟨sectioned_tables, fun _ he => absurd he List.not_mem_nil, fun _ => List.Pairwise.nil,
      rfl, fun l e r hes => absurd hes (by simp)⟩
  obtain ⟨hG, hJ⟩ := registrar_run
    (J := fun sys => Told w.db.tables (sys.world.db.auditSince w.db.auditOutbox.length) sys.world.db)
    (audited_fits _ _ _) (fun _ _ _ _ hJ hG hs => hJ.step hG hs) hv hi htold hr
  refine ⟨?_, fun l sys' hs hl => outbox_step hG hs hl, ?_⟩
  · obtain ⟨rows, hrows⟩ := (grows_run hv .refl hr).outbox
    refine ⟨rows, hrows.symm, ?_⟩
    have hrest : sys.world.db.auditSince w.db.auditOutbox.length = rows := by
      unfold Db.auditSince
      rw [← hrows]
      exact List.drop_left
    exact hrest ▸ hJ.faithful
  · intro t ses sys' ht hs hrep
    obtain ⟨ses', a, ht', hp, rfl⟩ := Discipline.commit_cases hs
    obtain rfl := Option.some.inj (ht.symm.trans ht')
    have hlog : (sys.ctx t ses).log = [] := Outcome.repeats hG.inv.1 (hG.post ht hp) hrep
    exact congrArg (fun w => w.db.auditOutbox) (view_of_log_nil hlog)

end Enroll
