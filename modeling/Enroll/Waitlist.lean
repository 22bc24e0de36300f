/-
# The waitlist is an ordered list

The positions of a waitlist are sparse numbers that four operations null, one renumbers and one
draws from the maximum; what they stand for is a list of rows (`Db.wl`).  Every commit does to that
list what `Op.action` says, and nothing else touches it (`waitlist_refines`).

What carries this is `Positioned`: in every reachable state the WAITLISTED rows of a section have
distinct positions, and no other row has one.  So the position after the maximum is behind all the
others, and taking rows off keeps the order of the rest.  As long as nobody reorders the list,
students leave it by promotion in the order they joined (`Fifo.Follows.served_first`).
-/
import Enroll.Registrar
import Enroll.Fifo

namespace Enroll

open Txn (Ctx Session Label Discipline)

variable {X : Extra} {op : Op} {c c' : Ctx postgres}

/-! ## 1. Positions -/

/-- WAITLISTED rows have distinct positions in their section, and no other row has one. -/
structure Positioned (w : World) : Prop where
  some : ∀ r ∈ w.db.enrollments, r.status = .WAITLISTED → r.waitlistPosition ≠ none
  none : ∀ r ∈ w.db.enrollments, r.status ≠ .WAITLISTED → r.waitlistPosition = none
  distinct : ∀ r ∈ w.db.enrollments, ∀ r' ∈ w.db.enrollments, r.status = .WAITLISTED →
    r'.status = .WAITLISTED → r.sectionId = r'.sectionId →
      r.waitlistPosition = r'.waitlistPosition → r = r'

/-- The columns take a row off the waitlist and null its position. -/
structure EnrollmentData.Clears (d : EnrollmentData) : Prop where
  status : ∀ r, (d.patch r).status ≠ .WAITLISTED
  position : ∀ r, (d.patch r).waitlistPosition = none

theorem departure_clears (t : Time) : (departure t).Clears where
  status r := by simp [departure, EnrollmentData.patch]
  position _ := rfl

theorem promotion_clears (t : Time) : (promotion t).Clears where
  status r := by simp [promotion, EnrollmentData.patch]
  position _ := rfl

/-- Updates that clear leave a row alone or clear it. -/
theorem patchRow_cleared {ps : List (EnrollmentId × EnrollmentData)}
    (h : ∀ p ∈ ps, p.2.Clears) (r : Enrollment) :
    patchRow ps r = r ∨
      (patchRow ps r).status ≠ .WAITLISTED ∧ (patchRow ps r).waitlistPosition = none := by
  induction ps generalizing r with
  | nil => exact Or.inl rfl
  | cons p ps ih =>
    have hps := fun q hq => h q (List.mem_cons_of_mem p hq)
    by_cases he : r.id = p.1
    · have hstep : patchRow (p :: ps) r = patchRow ps (p.2.patch r) := by
        rw [patchRow, List.foldl_cons, if_pos he]
        rfl
      rw [hstep]
      have hp := h p List.mem_cons_self
      rcases ih hps (p.2.patch r) with h' | h'
      · rw [h']
        exact Or.inr ⟨hp.status r, hp.position r⟩
      · exact Or.inr h'
    · have hstep : patchRow (p :: ps) r = patchRow ps r := by
        rw [patchRow, List.foldl_cons, if_neg he]
        rfl
      rw [hstep]
      exact ih hps r

/-- A new row is behind all others, or not on the waitlist. -/
def Placed (c : Ctx postgres) (r : Enrollment) : Prop :=
  r.status = .WAITLISTED ∧
      r.waitlistPosition = some (nextPosition (c.world.db.waiting r.sectionId)) ∨
    r.status ≠ .WAITLISTED ∧ r.waitlistPosition = none

/-- The position of a waiting row is below the next one. -/
theorem Positioned.lt_next {w : World} (h : Positioned w) {r : Enrollment}
    (hr : r ∈ w.db.enrollments) (hst : r.status = .WAITLISTED) :
    ∃ p, r.waitlistPosition = Option.some p ∧ p < nextPosition (w.db.waiting r.sectionId) := by
  obtain ⟨p, hp⟩ := Option.ne_none_iff_exists'.mp (h.some r hr hst)
  exact ⟨p, hp, lt_nextPosition (mem_waiting.mpr ⟨hr, rfl, hst⟩) hp⟩

/-- **Clearing rows and placing a new one keeps the positions distinct.** -/
theorem Positioned.of_cleared (hs : Sane c) (h : Positioned c.world)
    (hps : ∀ p ∈ patchesOf c.log, p.2.Clears) (his : ∀ r ∈ insertsOf c.log, Placed c r) :
    Positioned c.view := by
  -- a waiting row of the view is a waiting row of the world as it was, or a new one
  have hwaiting : ∀ x ∈ c.view.db.enrollments, x.status = .WAITLISTED →
      x ∈ c.world.db.enrollments ∨ x ∈ insertsOf c.log := by
    intro x hx hst
    rcases hs.mem_view.mp hx with ⟨r, hr, rfl⟩ | hx
    · rcases patchRow_cleared hps r with he | ⟨hno, -⟩
      · exact Or.inl (he.symm ▸ hr)
      · exact absurd hst hno
    · exact Or.inr hx
  have hnew : ∀ x ∈ c.world.db.enrollments, ∀ y ∈ insertsOf c.log, x.status = .WAITLISTED →
      y.status = .WAITLISTED → x.sectionId = y.sectionId →
        x.waitlistPosition ≠ y.waitlistPosition := by
    intro x hx y hy hstx hsty hsec
    obtain ⟨p, hp, hlt⟩ := h.lt_next hx hstx
    rcases his y hy with ⟨-, hpos⟩ | ⟨hno, -⟩
    · rw [hp, hpos, ← hsec]
      exact fun he => absurd (Option.some.inj he) (Int.ne_of_lt hlt)
    · exact absurd hsty hno
  refine ⟨fun x hx hst => ?_, fun x hx hst => ?_, fun x hx y hy hstx hsty hsec hpos => ?_⟩
  · rcases hwaiting x hx hst with hx | hx
    · exact h.some x hx hst
    · rcases his x hx with ⟨-, hpos⟩ | ⟨hno, -⟩
      · rw [hpos]
        exact Option.some_ne_none _
      · exact absurd hst hno
  · rcases hs.mem_view.mp hx with ⟨r, hr, rfl⟩ | hx
    · rcases patchRow_cleared hps r with he | ⟨-, hpos⟩
      · rw [he] at hst ⊢
        exact h.none r hr hst
      · exact hpos
    · rcases his x hx with ⟨hw, -⟩ | ⟨-, hpos⟩
      · exact absurd hw hst
      · exact hpos
  · rcases hwaiting x hx hstx with hx | hx
    · rcases hwaiting y hy hsty with hy | hy
      · exact h.distinct x hx y hy hstx hsty hsec hpos
      · exact absurd hpos (hnew x hx y hy hstx hsty hsec)
    · rcases hwaiting y hy hsty with hy | hy
      · exact absurd hpos.symm (hnew y hy x hx hsty hstx hsec.symm)
      · exact hs.inserted_eq hx hy

/-- The rows that a reorder renumbers are the waiting rows of its section. -/
theorem ReorderOutcome.listed {s : SectionId} {dto : ReorderWaitlistDto} {actor : RequestActor}
    {live : Section} {t : Time} {n : OutboxId} (hv : c.world.Valid)
    (h : ReorderOutcome X op s dto actor live t n c) {r : Enrollment}
    (hr : r ∈ c.world.db.enrollments) :
    r.id ∈ dto.orderedEnrollmentIds ↔ r.sectionId = s ∧ r.status = .WAITLISTED := by
  rw [h.perm.mem_iff, mem_wl]
  constructor
  · rintro ⟨r', hr', hid⟩
    obtain ⟨hmem, hsec, hst⟩ := mem_waiting.mp hr'
    rw [← Keyed.eq_of_key_eq hv.db.enrollment_id hmem hr hid]
    exact ⟨hsec, hst⟩
  · rintro ⟨hsec, hst⟩
    exact ⟨r, mem_waiting.mpr ⟨hr, hsec, hst⟩, rfl⟩

theorem ReorderOutcome.positioned {s : SectionId} {dto : ReorderWaitlistDto}
    {actor : RequestActor} {live : Section} {t : Time} {n : OutboxId} (hv : c.world.Valid)
    (hp : Positioned c.world) (h : ReorderOutcome X op s dto actor live t n c) :
    Positioned c.view := by
  have hpatches := h.parts.patches
  have hinserts := h.parts.inserts
  -- a row of the view is a renumbered row of the world
  have hview : ∀ x ∈ c.view.db.enrollments, ∃ r ∈ c.world.db.enrollments,
      x = if r.id ∈ dto.orderedEnrollmentIds then
          { r with waitlistPosition :=
            Option.some (0 + dto.orderedEnrollmentIds.idxOf r.id + 1 : Nat) }
        else r := by
    intro x hx
    rcases (h.sane hv).mem_view.mp hx with ⟨r, hr, rfl⟩ | hx
    · rw [hpatches, patchRow_placements dto.unique]
      exact ⟨r, hr, rfl⟩
    · rw [hinserts] at hx
      exact absurd hx List.not_mem_nil
  refine ⟨fun x hx hst => ?_, fun x hx hst => ?_, fun x hx y hy hstx hsty hsec hpos => ?_⟩
  · obtain ⟨r, hr, rfl⟩ := hview x hx
    split at hst
    · rename_i hin
      rw [if_pos hin]
      exact Option.some_ne_none _
    · rename_i hin
      rw [if_neg hin]
      exact hp.some r hr hst
  · obtain ⟨r, hr, rfl⟩ := hview x hx
    split at hst
    · rename_i hin
      exact absurd ((h.listed hv hr).mp hin).2 hst
    · rename_i hin
      rw [if_neg hin]
      exact hp.none r hr hst
  · obtain ⟨a, ha, rfl⟩ := hview x hx
    obtain ⟨b, hb, rfl⟩ := hview y hy
    have hmem : ∀ r ∈ c.world.db.enrollments, ∀ r' ∈ c.world.db.enrollments,
        r.id ∈ dto.orderedEnrollmentIds → r'.status = .WAITLISTED → r.sectionId = r'.sectionId →
          r'.id ∈ dto.orderedEnrollmentIds := fun r hr r' hr' hin hst hsec =>
      (h.listed hv hr').mpr ⟨hsec.symm.trans ((h.listed hv hr).mp hin).1, hst⟩
    by_cases hain : a.id ∈ dto.orderedEnrollmentIds
    · rw [if_pos hain] at hstx hsec hpos ⊢
      have hbin : b.id ∈ dto.orderedEnrollmentIds := by
        by_contra hbin
        rw [if_neg hbin] at hsty hsec
        exact hbin (hmem a ha b hb hain hsty hsec)
      rw [if_pos hbin] at hpos ⊢
      have hidx : dto.orderedEnrollmentIds.idxOf a.id = dto.orderedEnrollmentIds.idxOf b.id := by
        have := Option.some.inj hpos
        omega
      have hab : a = b := Keyed.eq_of_key_eq hv.db.enrollment_id ha hb
        ((List.idxOf_inj hain).mp hidx)
      rw [hab]
    · rw [if_neg hain] at hstx hsec hpos ⊢
      by_cases hbin : b.id ∈ dto.orderedEnrollmentIds
      · rw [if_pos hbin] at hsec
        exact absurd (hmem b hb a ha hbin hstx hsec.symm) hain
      · rw [if_neg hbin] at hsty hsec hpos ⊢
        exact hp.distinct a ha b hb hstx hsty hsec hpos

theorem EnrollOutcome.positioned {input : EnrollDto} {u : UserId} {actor : RequestActor}
    (hv : c.world.Valid) (hp : Positioned c.world) (h : EnrollOutcome X op input u actor c) :
    Positioned c.view := by
  have hsane := h.sane hv
  cases h with
  | already log =>
    rw [view_of_log_nil log]
    exact hp
  | seated sec live x t t' n lock seat fresh checked drawn log =>
    have hparts := Parts.of_seated log
    refine .of_cleared hsane hp ?_ ?_
    · simp [hparts.patches]
    · rw [hparts.inserts]
      intro r hr
      rw [List.mem_singleton.mp hr]
      exact Or.inr ⟨by simp [seatRow, EnrollmentCreate.row], rfl⟩
  | queued sec live x t t' n p lock full cap position fresh checked drawn log =>
    have hparts := Parts.of_queued log
    refine .of_cleared hsane hp ?_ ?_
    · simp [hparts.patches]
    · rw [hparts.inserts]
      intro r hr
      rw [List.mem_singleton.mp hr]
      exact Or.inl ⟨rfl, congrArg Option.some position⟩

/-- **Every commit keeps the positions distinct.** -/
theorem Outcome.positioned (hv : c.world.Valid) (hp : Positioned c.world) (h : Outcome X op c) :
    Positioned c.view := by
  have hsane := h.sane hv
  have hnil : c.log = [] → Positioned c.view := fun hlog => by
    rw [view_of_log_nil hlog]
    exact hp
  cases op with
  | enroll input u actor => exact EnrollOutcome.positioned hv hp h
  | drop id u actor =>
    obtain ⟨r, droppedAt, t, n, h⟩ := h
    refine .of_cleared hsane hp ?_ ?_
    · rw [h.parts.patches]
      intro p hp'
      rw [List.mem_singleton.mp hp']
      exact departure_clears droppedAt
    · rw [h.parts.inserts]
      exact fun _ hr => absurd hr List.not_mem_nil
  | swap id input u actor =>
    rcases h with hlog | ⟨r, sec, live, x, droppedAt, t, t', n, h⟩
    · exact hnil hlog
    · refine .of_cleared hsane hp ?_ ?_
      · rw [h.parts.patches]
        intro p hp'
        rw [List.mem_singleton.mp hp']
        exact departure_clears droppedAt
      · rw [h.parts.inserts]
        intro r' hr'
        rw [List.mem_singleton.mp hr']
        exact Or.inr ⟨by simp [seatRow, EnrollmentCreate.row], rfl⟩
  | runPromotion s =>
    rcases h with hlog | ⟨sec, turns, h⟩
    · exact hnil hlog
    · refine .of_cleared hsane hp ?_ ?_
      · rw [h.parts.patches]
        intro p hp'
        obtain ⟨u, -, rfl⟩ := List.mem_map.mp hp'
        exact promotion_clears u.stamp
      · rw [h.parts.inserts]
        exact fun _ hr => absurd hr List.not_mem_nil
  | reorder s dto actor =>
    obtain ⟨live, t, n, h⟩ := h
    exact h.positioned hv hp
  | expireSectionWaitlist s =>
    rcases h with ⟨hlog, -⟩ | ⟨live, turns, h⟩
    · exact hnil hlog
    · refine .of_cleared hsane hp ?_ ?_
      · rw [h.parts.patches]
        intro p hp'
        obtain ⟨u, -, rfl⟩ := List.mem_map.mp hp'
        exact departure_clears u.stamp
      · rw [h.parts.inserts]
        exact fun _ hr => absurd hr List.not_mem_nil
  | updateSection s dto actor =>
    obtain ⟨live, t, n, h⟩ := h
    refine .of_cleared hsane hp ?_ ?_
    · simp [h.parts.patches]
    · simp [h.parts.inserts]

/-! ## 2. What each commit does to the list -/

open Fifo (Action)

/-- What a committed request with the writes `log` does to the waitlist of section `s`. -/
def Op.action (op : Op) (log : List Write) (s : SectionId) : Action EnrollmentId :=
  match op with
  | .enroll _ _ _ =>
    match (insertsOf log).find? (fun r => r.waitlisted && r.sectionId == s) with
    | some r => .append r.id
    | none => .keep
  | .drop id _ _ => .delete id
  | .swap id _ _ _ => if log.isEmpty then .keep else .delete id
  | .runPromotion s' => if s = s' then .serve (patchesOf log).length else .keep
  | .reorder s' dto _ => if s = s' then .replace dto.orderedEnrollmentIds else .keep
  | .expireSectionWaitlist s' => if s = s' then .clear else .keep
  | .updateSection _ _ _ => .keep

/-- The waitlist of the view, by the parts of the log. -/
theorem wl_of_parts {ps : List (EnrollmentId × EnrollmentData)} {is : List Enrollment}
    {ks : List (SectionId × SectionData)} {es : List AuditOutbox} (hs : Sane c)
    (hp : Parts c.log ps is ks es) (s : SectionId) :
    c.view.db.waiting s = (patchAll ps (c.world.db.rowsOf s)).filter Enrollment.waitlisted
      ++ (is.filter (fun r => r.sectionId == s)).filter Enrollment.waitlisted := by
  unfold Db.waiting
  rw [view_rowsOf hs.apart, hp.patches, hp.inserts, List.filter_append]

/-- A departure takes its row out of the list. -/
theorem wl_departed (hv : c.world.Valid) (id : EnrollmentId) (t : Time) (s : SectionId) :
    (byPosition ((patchAll [(id, departure t)] (c.world.db.rowsOf s)).filter
      Enrollment.waitlisted)).map Enrollment.id = (c.world.db.wl s).erase id := by
  rw [byPosition_left (by simpa using departure_leaves t)]
  have hnd := hv.db.nodup_wl s
  rw [hnd.erase_eq_filter, Db.wl, List.filter_map]
  congr 1
  refine List.filter_congr fun r _ => ?_
  simp [bne, beq_eq_decide]

theorem wl_of_log_nil (hlog : c.log = []) (s : SectionId) : c.view.db.wl s = c.world.db.wl s := by
  rw [view_of_log_nil hlog]

theorem EnrollOutcome.acts {input : EnrollDto} {u : UserId} {actor : RequestActor}
    (hv : c.world.Valid) (hp : Positioned c.world) (h : EnrollOutcome X op input u actor c)
    (s : SectionId) :
    c.view.db.wl s = ((Op.enroll input u actor).action c.log s).apply (c.world.db.wl s) := by
  have hsane := h.sane hv
  cases h with
  | already log =>
    rw [wl_of_log_nil log, log]
    rfl
  | seated sec live x t t' n lock seat fresh checked drawn log =>
    have hparts := Parts.of_seated log
    have hwait := wl_of_parts hsane hparts s
    have hrow : ((seatRow u input.sectionId).row x t).waitlisted = false := rfl
    rw [patchAll_nil, List.filter_filter, List.filter_cons_of_neg (by simp [hrow]),
      List.filter_nil, List.append_nil] at hwait
    simp only [Op.action, hparts.inserts, List.find?_cons, hrow, Bool.false_and, List.find?_nil]
    exact congrArg (fun l => (byPosition l).map Enrollment.id) hwait
  | queued sec live x t t' n p lock full cap position fresh checked drawn log =>
    have hparts := Parts.of_queued log
    have hwait := wl_of_parts hsane hparts s
    have hrow : ((queueRow u input.sectionId p).row x t).waitlisted = true := rfl
    have hsec : ((queueRow u input.sectionId p).row x t).sectionId = input.sectionId := rfl
    simp only [Op.action, hparts.inserts, List.find?_cons, hrow, hsec, Bool.true_and,
      List.find?_nil]
    rw [patchAll_nil, List.filter_filter] at hwait
    by_cases hs : input.sectionId = s
    · subst hs
      rw [List.filter_cons_of_pos (by simp [hrow, hsec]), List.filter_nil] at hwait
      rw [beq_self_eq_true]
      have hlast : byPosition (c.view.db.waiting input.sectionId)
          = byPosition (c.world.db.waiting input.sectionId)
            ++ [(queueRow u input.sectionId p).row x t] := by
        refine (congrArg byPosition hwait).trans (byPosition_append fun r hr => ?_)
        -- every waiting row has a position, and it is below the new one
        obtain ⟨hmem, hrs, hst⟩ := mem_waiting.mp hr
        obtain ⟨q, hq, hlt⟩ := hp.lt_next hmem hst
        rw [hrs, ← position] at hlt
        rw [hq]
        exact decide_eq_false (Int.not_le.mpr hlt)
      rw [Db.wl, hlast, List.map_append]
      rfl
    · rw [List.filter_cons_of_neg (by simp [hsec, hs]), List.filter_nil, List.append_nil] at hwait
      rw [beq_false_of_ne hs]
      exact congrArg (fun l => (byPosition l).map Enrollment.id) hwait

theorem PromotionOutcome.acts {s : SectionId} {sec : SectionJoin} {turns : List Turn}
    (hv : c.world.Valid) (h : PromotionOutcome X op s sec turns c) (s' : SectionId) :
    c.view.db.wl s' = ((Op.runPromotion s).action c.log s').apply (c.world.db.wl s') := by
  have hwait := wl_of_parts (h.sane hv) h.parts s'
  rw [List.filter_nil, List.filter_nil, List.append_nil] at hwait
  have hlen : (patchesOf c.log).length = turns.length := by
    rw [h.parts.patches]
    exact List.length_map _
  simp only [Op.action, hlen]
  by_cases hs : s' = s
  · subst hs
    rw [if_pos rfl]
    have hdrop : byPosition (c.view.db.waiting s')
        = (byPosition (c.world.db.waiting s')).drop turns.length := by
      rw [hwait]
      refine byPosition_headsLeft (promotions_leave turns)
        (Keyed.nodup_filter _ hv.db.enrollment_id) ?_
      rw [promotions_ids, h.rows]
      rfl
    rw [Db.wl, hdrop, List.map_drop]
    rfl
  · rw [if_neg hs]
    rw [patchAll_elsewhere hv hs fun p hp => ?_] at hwait
    · exact congrArg (fun l => (byPosition l).map Enrollment.id) hwait
    · obtain ⟨u, hu, rfl⟩ := List.mem_map.mp hp
      exact ⟨u.row, (List.mem_filter.mp (h.waiting hu)).1, rfl⟩

theorem ExpiryOutcome.acts {s : SectionId} {live : Section} {turns : List Turn}
    (hv : c.world.Valid) (h : ExpiryOutcome X op s live turns c) (s' : SectionId) :
    c.view.db.wl s'
      = ((Op.expireSectionWaitlist s).action c.log s').apply (c.world.db.wl s') := by
  have hwait := wl_of_parts (h.sane hv) h.parts s'
  rw [List.filter_nil, List.filter_nil, List.append_nil] at hwait
  have hids : (departures turns).map Prod.fst = (c.world.db.waiting s).map Enrollment.id := by
    rw [← h.rows, departures, List.map_map, List.map_map]
    rfl
  simp only [Op.action]
  by_cases hs : s' = s
  · subst hs
    rw [if_pos rfl]
    have hnone : c.view.db.waiting s' = [] := by
      rw [hwait, waitlisted_patchAll, List.filter_eq_nil_iff]
      · intro r hr hout
        exact of_decide_eq_true hout (hids ▸ List.mem_map_of_mem hr)
      · intro p hp
        obtain ⟨u, -, rfl⟩ := List.mem_map.mp hp
        exact departure_leaves u.stamp
    rw [Db.wl, hnone]
    rfl
  · rw [if_neg hs]
    rw [patchAll_elsewhere hv hs fun p hp => ?_] at hwait
    · exact congrArg (fun l => (byPosition l).map Enrollment.id) hwait
    · obtain ⟨u, hu, rfl⟩ := List.mem_map.mp hp
      exact ⟨u.row, (List.mem_filter.mp (h.waiting hu)).1, rfl⟩

theorem ReorderOutcome.acts {s : SectionId} {dto : ReorderWaitlistDto} {actor : RequestActor}
    {live : Section} {t : Time} {n : OutboxId} (hv : c.world.Valid)
    (h : ReorderOutcome X op s dto actor live t n c) (s' : SectionId) :
    c.view.db.wl s'
      = ((Op.reorder s dto actor).action c.log s').apply (c.world.db.wl s') := by
  have hwait := wl_of_parts (h.sane hv) h.parts s'
  rw [List.filter_nil, List.filter_nil, List.append_nil] at hwait
  simp only [Op.action]
  by_cases hs : s' = s
  · subst hs
    rw [if_pos rfl, Db.wl, hwait]
    exact byPosition_renumbered dto.unique
      (h.perm.trans ((byPosition_perm _).map Enrollment.id))
  · rw [if_neg hs]
    rw [patchAll_elsewhere hv hs fun p hp => ?_] at hwait
    · exact congrArg (fun l => (byPosition l).map Enrollment.id) hwait
    · obtain ⟨r, hr, hid⟩ := h.waiting hp
      exact ⟨r, (List.mem_filter.mp hr).1, hid⟩

/-- A section that is not there has no rows. -/
theorem waiting_of_no_section {w : World} (hv : w.Valid) {s : SectionId}
    (hs : w.db.section? s = none) : w.db.waiting s = [] := by
  refine List.filter_eq_nil_iff.mpr fun r hr => ?_
  obtain ⟨hmem, hsec⟩ := mem_rowsOf.mp hr
  exact absurd (hsec ▸ hs) (hv.db.section_fkey r hmem)

/-- **A commit acts on every waitlist as the list operation of its request.** -/
theorem Outcome.acts (hv : c.world.Valid) (hp : Positioned c.world) (h : Outcome X op c)
    (s : SectionId) : c.view.db.wl s = (op.action c.log s).apply (c.world.db.wl s) := by
  have hsane := h.sane hv
  cases op with
  | enroll input u actor => exact EnrollOutcome.acts hv hp h s
  | drop id u actor =>
    obtain ⟨r, droppedAt, t, n, h⟩ := h
    have hwait := wl_of_parts hsane h.parts s
    rw [List.filter_nil, List.filter_nil, List.append_nil] at hwait
    rw [Db.wl, hwait, wl_departed hv, h.id]
    rfl
  | swap id input u actor =>
    rcases h with hlog | ⟨r, sec, live, x, droppedAt, t, t', n, h⟩
    · rw [wl_of_log_nil hlog, hlog]
      rfl
    · have hwait := wl_of_parts hsane h.parts s
      have hrow : ((seatRow u input.targetSectionId).row x t).waitlisted = false := rfl
      rw [List.filter_filter (l := [_]), List.filter_cons_of_neg (by simp [hrow]),
        List.filter_nil, List.append_nil] at hwait
      rw [Db.wl, hwait, wl_departed hv, h.id, Op.action, h.log]
      rfl
  | runPromotion s' =>
    rcases h with hlog | ⟨sec, turns, h⟩
    · rw [wl_of_log_nil hlog, hlog]
      by_cases hs : s = s'
      · simp only [Op.action, if_pos hs]
        rfl
      · simp only [Op.action, if_neg hs]
        rfl
    · exact h.acts hv s
  | reorder s' dto actor =>
    obtain ⟨live, t, n, h⟩ := h
    exact h.acts hv s
  | expireSectionWaitlist s' =>
    rcases h with ⟨hlog, hs'⟩ | ⟨live, turns, h⟩
    · rw [wl_of_log_nil hlog]
      by_cases hs : s = s'
      · subst hs
        simp only [Op.action, if_pos, Action.apply]
        rw [Db.wl, waiting_of_no_section hv hs']
        rfl
      · simp only [Op.action, if_neg hs]
        rfl
    · exact h.acts hv s
  | updateSection s' dto actor =>
    obtain ⟨live, t, n, h⟩ := h
    have hwait := wl_of_parts hsane h.parts s
    rw [patchAll_nil, List.filter_nil, List.filter_nil, List.append_nil] at hwait
    exact congrArg (fun l => (byPosition l).map Enrollment.id) hwait

/-! ## 3. Every run -/

/-- The waitlists are positioned. -/
def positioning : Extra := .ofInv Positioned fun _ _ _ h => ⟨h.some, h.none, h.distinct⟩

theorem positioning_fits (C : Sys → Label registrar → Prop) (J : Sys → Prop) :
    Fits positioning C J :=
  Fits.ofInv (fun hv hp ho => ho.positioned hv hp) fun w e h => by
    cases e <;> exact ⟨h.some, h.none, h.distinct⟩

theorem positioning_run {w : World} (hv : w.Valid) (hp : Positioned w) {sys : Sys}
    (hr : Txn.Sys.Reach (fun _ _ => True) (Txn.Sys.init w) sys) :
    (discipline positioning).Good sys :=
  (registrar_run (J := fun _ => True) (positioning_fits _ _) (fun _ _ _ _ _ _ _ => trivial) hv hp
    trivial hr).1

/-- A step that is no commit leaves the waitlists alone. -/
theorem wl_step {sys sys' : Sys} {l : Label registrar} (hG : (discipline X).Good sys)
    (hs : sys.step l = some sys') (hl : ∀ t, l ≠ .commit t) (s : SectionId) :
    sys'.world.db.wl s = sys.world.db.wl s := by
  have hm := moves_of_step hG hs
  generalize sys'.world = w' at hm
  cases hm with
  | commit t ses a ht hp ho => exact absurd rfl (hl t)
  | env e => cases e <;> rfl
  | draw _ n hn => rfl

/-- A commit acts on them as its request. -/
theorem wl_commit {sys sys' : Sys} {t : Nat} {ses : Session registrar}
    (hG : (discipline positioning).Good sys) (ht : sys.sessions t = some ses)
    (hs : sys.step (.commit t) = some sys') (s : SectionId) :
    sys'.world.db.wl s = (ses.op.action ses.log s).apply (sys.world.db.wl s) := by
  obtain ⟨ses', a, ht', hp, rfl⟩ := Discipline.commit_cases hs
  obtain rfl : ses = ses' := Option.some.inj (ht.symm.trans ht')
  have ho : Outcome positioning ses.op (sys.ctx t ses) := hG.post ht hp
  have hpos : Positioned (sys.ctx t ses).world := hG.inv.2
  exact ho.acts hG.inv.1 hpos s

/-- The step commits no reorder of section `s`. -/
def NoReorder (s : SectionId) (sys : Sys) (l : Label registrar) : Prop :=
  ∀ t ses dto actor, l = .commit t → sys.sessions t = some ses → ses.op ≠ .reorder s dto actor

/-- An appended row is new. -/
theorem Outcome.appended_new (h : Outcome X op c) {s : SectionId} {x : EnrollmentId}
    (ha : op.action c.log s = .append x) (hv : c.world.Valid) :
    c.world.db.hasEnrollment x = false := by
  have hsane := h.sane hv
  cases op with
  | enroll input u actor =>
    simp only [Op.action] at ha
    cases hfind : (insertsOf c.log).find? (fun r => r.waitlisted && r.sectionId == s) with
    | none => rw [hfind] at ha; exact absurd ha (by simp)
    | some r =>
      rw [hfind, Action.append.injEq] at ha
      exact ha ▸ (hsane.inserts r (List.mem_of_find?_eq_some hfind)).1.unused
  | drop id u actor => exact absurd ha (by simp [Op.action])
  | swap id input u actor =>
    simp only [Op.action] at ha
    split at ha <;> exact absurd ha (by simp)
  | runPromotion s' =>
    simp only [Op.action] at ha
    split at ha <;> exact absurd ha (by simp)
  | reorder s' dto actor =>
    simp only [Op.action] at ha
    split at ha <;> exact absurd ha (by simp)
  | expireSectionWaitlist s' =>
    simp only [Op.action] at ha
    split at ha <;> exact absurd ha (by simp)
  | updateSection s' dto actor => exact absurd ha (by simp [Op.action])

/-- Only a reorder of the section replaces its waitlist. -/
theorem Op.action_replace {log : List Write} {s : SectionId} {l : List EnrollmentId}
    (h : op.action log s = .replace l) : ∃ dto actor, op = .reorder s dto actor := by
  cases op with
  | reorder s' dto actor =>
    simp only [Op.action] at h
    split at h
    · rename_i hs
      exact ⟨dto, actor, hs ▸ rfl⟩
    · exact absurd h (by simp)
  | enroll input u actor =>
    simp only [Op.action] at h
    split at h <;> exact absurd h (by simp)
  | drop id u actor => exact absurd h (by simp [Op.action])
  | swap id input u actor =>
    simp only [Op.action] at h
    split at h <;> exact absurd h (by simp)
  | runPromotion s' =>
    simp only [Op.action] at h
    split at h <;> exact absurd h (by simp)
  | expireSectionWaitlist s' =>
    simp only [Op.action] at h
    split at h <;> exact absurd h (by simp)
  | updateSection s' dto actor => exact absurd h (by simp [Op.action])

/-- The rows there have been since `w` are there, and the waitlist follows the one at `w`. -/
structure Queued (w : World) (s : SectionId) (w' : World) : Prop where
  known : ∀ id, w.db.hasEnrollment id = true → w'.db.hasEnrollment id = true
  follows : Fifo.Follows (fun id => w.db.hasEnrollment id = true) (w.db.wl s) (w'.db.wl s)

theorem Queued.step {w : World} {s : SectionId} {sys sys' : Sys} {l : Label registrar}
    (h : Queued w s sys.world) (hG : (discipline positioning).Good sys) (hl : NoReorder s sys l)
    (hs : sys.step l = some sys') : Queued w s sys'.world := by
  have hm := moves_of_step hG hs
  generalize sys'.world = w' at hm
  cases hm with
  | commit t ses a ht hp ho =>
    have hsane : Sane (sys.ctx t ses) := ho.sane hG.inv.1
    refine ⟨fun id hid => ?_, ?_⟩
    · obtain ⟨r, hr, he⟩ := hasEnrollment_iff.mp (h.known id hid)
      obtain ⟨r', hr', he', -⟩ := hsane.covered.grows.rows r hr
      exact hasEnrollment_iff.mpr ⟨r', hr', he'.trans he⟩
    · have hpos : Positioned (sys.ctx t ses).world := hG.inv.2
      rw [ho.acts hG.inv.1 hpos s]
      refine h.follows.action (fun l' hrep => ?_) fun x happ hold => ?_
      · obtain ⟨dto, actor, hop⟩ := Op.action_replace hrep
        exact hl t ses dto actor rfl ht hop
      · have hnew : sys.world.db.hasEnrollment x = false := ho.appended_new happ hG.inv.1
        rw [h.known x hold] at hnew
        exact absurd hnew (by simp)
  | env e => cases e <;> exact ⟨h.known, h.follows⟩
  | draw _ n hn => exact ⟨h.known, h.follows⟩

theorem queued_run {w : World} (hv : w.Valid) (hp : Positioned w) {sys sys₁ : Sys} {s : SectionId}
    (hr : Txn.Sys.Reach (fun _ _ => True) (Txn.Sys.init w) sys)
    (hr₁ : Txn.Sys.Reach (NoReorder s) sys sys₁) : Queued sys.world s sys₁.world := by
  induction hr₁ with
  | refl => exact ⟨fun _ h => h, .refl _⟩
  | tail hr' hc hs ih =>
    have hG := positioning_run hv hp (hr.trans (hr'.mono fun _ _ _ => trivial))
    exact ih.step hG hc hs

/-- As long as nobody reorders, whoever stood in front is promoted no later. -/
theorem promoted_in_order {w : World} (hv : w.Valid) (hp : Positioned w) {sys sys₁ sys₂ : Sys}
    {s : SectionId} (hr : Txn.Sys.Reach (fun _ _ => True) (Txn.Sys.init w) sys)
    (hr₁ : Txn.Sys.Reach (NoReorder s) sys sys₁) {x y : EnrollmentId}
    (hxy : [x, y].Sublist (sys.world.db.wl s)) {t : Nat} {ses : Session registrar}
    (ht : sys₁.sessions t = some ses) (hop : ses.op = .runPromotion s)
    (hs : sys₁.step (.commit t) = some sys₂) (hy : y ∈ sys₁.world.db.wl s)
    (hgone : y ∉ sys₂.world.db.wl s) : x ∉ sys₂.world.db.wl s := by
  have hG := positioning_run hv hp hr
  have hG₁ := positioning_run hv hp (hr.trans (hr₁.mono fun _ _ _ => trivial))
  have hold : ∀ z ∈ sys.world.db.wl s, sys.world.db.hasEnrollment z = true := by
    intro z hz
    obtain ⟨r, hr, hid⟩ := mem_wl.mp hz
    exact hasEnrollment_iff.mpr ⟨r, (mem_waiting.mp hr).1, hid⟩
  have hserve : sys₂.world.db.wl s = (sys₁.world.db.wl s).drop (patchesOf ses.log).length := by
    rw [wl_commit hG₁ ht hs, hop]
    simp only [Op.action, if_pos]
    rfl
  rw [hserve] at hgone ⊢
  exact (queued_run hv hp hr hr₁).follows.served_first hold (hG.inv.1.db.nodup_wl s)
    (hG₁.inv.1.db.nodup_wl s) hxy hy hgone

theorem reorder_commits_iff {sys : Sys} (hG : (discipline X).Good sys) {t : Nat}
    {ses : Session registrar} (ht : sys.sessions t = some ses) {s : SectionId}
    {dto : ReorderWaitlistDto} {actor : RequestActor} (hop : ses.op = .reorder s dto actor)
    (hsec : sys.world.db.section? s ≠ none) :
    (∀ a, ses.prog = .pure a → dto.orderedEnrollmentIds.Perm (sys.world.db.wl s)) ∧
      (∀ e, ses.prog = .throw e → ¬ dto.orderedEnrollmentIds.Perm (sys.world.db.wl s)) := by
  constructor
  · intro a hp
    have ho : Outcome X ses.op (sys.ctx t ses) := hG.post ht hp
    rw [hop] at ho
    obtain ⟨live, t', n, ho⟩ := ho
    exact ho.perm
  · intro e hp
    have hf : Failed ses.op e (sys.ctx t ses) := hG.post_error ht hp
    rw [hop] at hf
    rcases hf.2 with hnone | ⟨live, -, hno⟩
    · exact absurd hnone hsec
    · exact hno

/-- **The sparse positions are an ordered list.**  In every reachable state the positions are
distinct and only WAITLISTED rows have one; a commit acts on every waitlist as its request's list
operation, and nothing else does; a reorder commits or fails as its list is a permutation of the
waitlist or not; and while nobody reorders a waitlist, its students are promoted in order. -/
theorem waitlist_refines {w : World} (hv : w.Valid) (hp : Positioned w) {sys : Sys}
    (hr : Txn.Sys.Reach (fun _ _ => True) (Txn.Sys.init w) sys) :
    Positioned sys.world ∧
    (∀ l sys' s, sys.step l = some sys' →
      (∀ t ses, l = .commit t → sys.sessions t = some ses →
        sys'.world.db.wl s = (ses.op.action ses.log s).apply (sys.world.db.wl s)) ∧
      ((∀ t, l ≠ .commit t) → sys'.world.db.wl s = sys.world.db.wl s)) ∧
    (∀ t ses s dto actor, sys.sessions t = some ses → ses.op = .reorder s dto actor →
      sys.world.db.section? s ≠ none →
        (∀ a, ses.prog = .pure a → dto.orderedEnrollmentIds.Perm (sys.world.db.wl s)) ∧
        (∀ e, ses.prog = .throw e → ¬ dto.orderedEnrollmentIds.Perm (sys.world.db.wl s))) ∧
    (∀ s sys₁, Txn.Sys.Reach (NoReorder s) sys sys₁ →
      ∀ x y, [x, y].Sublist (sys.world.db.wl s) →
        ∀ t ses sys₂, sys₁.sessions t = some ses → ses.op = .runPromotion s →
          sys₁.step (.commit t) = some sys₂ → y ∈ sys₁.world.db.wl s →
            y ∉ sys₂.world.db.wl s → x ∉ sys₂.world.db.wl s) := by
  have hG := positioning_run hv hp hr
  refine ⟨hG.inv.2, fun l sys' s hs => ⟨?_, fun hl => wl_step hG hs hl s⟩, ?_, ?_⟩
  · rintro t ses rfl ht
    exact wl_commit hG ht hs s
  · exact fun t ses s dto actor ht hop hsec => reorder_commits_iff hG ht hop hsec
  · exact fun s sys₁ hr₁ x y hxy t ses sys₂ ht hop hs hy hgone =>
      promoted_in_order hv hp hr hr₁ hxy ht hop hs hy hgone

namespace Campus

theorem world_positioned : Positioned world := by
  constructor <;>
    · intro r hr
      exact absurd hr List.not_mem_nil

/-- Student 4 is put first. -/
def order : ReorderWaitlistDto := ⟨[103, 101, 102], by decide⟩

/-- Three students queue, and the administrator is about to commit a reorder. -/
def reordering : List (Label registrar) :=
  queueing ++ .begin 4 (.reorder 10 order (actor 4)) :: execs 4 6 0

set_option maxRecDepth 8000 in
theorem reordering_runs : (Txn.Sys.run (Txn.Sys.init world) reordering).isSome = true := by decide

def beforeOrder : Sys := (Txn.Sys.run (Txn.Sys.init world) reordering).get reordering_runs

theorem beforeOrder_reached : Txn.Sys.Reach (fun _ _ => True) (Txn.Sys.init world) beforeOrder :=
  .of_run .refl (fun _ _ _ => trivial) (Option.some_get reordering_runs).symm

set_option maxRecDepth 8000 in
theorem reordering_commits : (beforeOrder.step (.commit 4)).isSome = true := by decide

def afterOrder : Sys := (beforeOrder.step (.commit 4)).get reordering_commits

theorem afterOrder_reached : Txn.Sys.Reach (fun _ _ => True) (Txn.Sys.init world) afterOrder :=
  beforeOrder_reached.tail trivial (Option.some_get reordering_commits).symm

theorem threeSeats_min (n : Int) (h : some (some 3) = some (some n)) : 1 ≤ n := by
  obtain rfl : 3 = n := Option.some.inj (Option.some.inj h)
  omega

theorem no_cap_min (n : Int) (h : none = some (some n)) : 0 ≤ n := absurd h (by simp)

/-- `{ capacity: 3 }`. -/
def threeSeats : UpdateSectionDto := ⟨some (some 3), none, threeSeats_min, no_cap_min⟩

/-- Two seats are added, and a promotion run is about to commit. -/
def serving : List (Label registrar) :=
  serve 5 (.updateSection 10 threeSeats (actor 4)) 4 0 ++ .begin 6 (.runPromotion 10) :: execs 6 13 0

/-- A check that no reorder is committed. -/
def unordered (sys : Sys) : Label registrar → Bool
  | .commit t => match sys.sessions t with
    | some ⟨.reorder _ _ _, _, _, _⟩ => false
    | _ => true
  | _ => true

theorem noReorder_of_unordered {s : SectionId} {sys : Sys} {l : Label registrar}
    (h : unordered sys l = true) : NoReorder s sys l := by
  rintro t ⟨op, prog, log, tr⟩ dto actor rfl ht rfl
  simp [unordered, ht] at h

set_option maxRecDepth 8000 in
theorem serving_runs :
    (Txn.Sys.runIf (fun sys l => unordered sys l = true) afterOrder serving).isSome = true := by
  decide

def beforeServed : Sys :=
  (Txn.Sys.runIf (fun sys l => unordered sys l = true) afterOrder serving).get serving_runs

theorem beforeServed_reached : Txn.Sys.Reach (NoReorder 10) afterOrder beforeServed :=
  (Txn.Sys.Reach.of_runIf .refl (Option.some_get serving_runs).symm).mono
    fun _ _ h => noReorder_of_unordered h

set_option maxRecDepth 8000 in
theorem serving_commits : (beforeServed.step (.commit 6)).isSome = true := by decide

def afterServed : Sys := (beforeServed.step (.commit 6)).get serving_commits

set_option maxRecDepth 8000 in
/-- The reorder commits a permutation, and the run that promotes student 2 has promoted student 4
before. -/
theorem waitlist_refines_served :
    Positioned beforeOrder.world ∧
      afterOrder.world.db.wl 10
        = (Action.replace order.orderedEnrollmentIds).apply (beforeOrder.world.db.wl 10) ∧
      order.orderedEnrollmentIds.Perm (beforeOrder.world.db.wl 10) ∧
      afterServed.world.db.wl 10 = [102] ∧ 103 ∉ afterServed.world.db.wl 10 := by
  obtain ⟨hpos, hstep, hreorder, -⟩ :=
    waitlist_refines world_valid world_positioned beforeOrder_reached
  obtain ⟨-, -, -, horder⟩ := waitlist_refines world_valid world_positioned afterOrder_reached
  have hwl : beforeServed.world.db.wl 10 = [103, 101, 102] := by decide
  have hserved : afterServed.world.db.wl 10 = [102] := by decide
  refine ⟨hpos, ?_, ?_, hserved, ?_⟩
  · exact (hstep (.commit 4) afterOrder 10 (Option.some_get reordering_commits).symm).1 4 _ rfl rfl
  · exact (hreorder 4 _ 10 order (actor 4) rfl rfl (by decide)).1 .done rfl
  · refine horder 10 beforeServed beforeServed_reached 103 101 (by decide) 6 _ afterServed rfl rfl
      (Option.some_get serving_commits).symm ?_ ?_
    · rw [hwl]
      decide
    · rw [hserved]
      decide

end Campus

end Enroll
