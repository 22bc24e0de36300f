/-
# Audit rows are delivered exactly once

Two stores are updated without a common transaction, by any number of drainers and purges that may
fail or die between any two statements.  `Delivered` is what holds all the time: Mongo has at most
one document for a row, and only for rows that were committed; a row that is marked drained, or that
has been purged, has its document.

A drainer may mark its batch only because `insertMany` has said that every document is there:
either it reported no error, or every error was a duplicate key (`delivered_docs`).  That survives
whatever the others do, since documents are never taken away.
-/
import Mathlib
import Enroll.AuditOutboxWorker

namespace Enroll.Audit

open Txn (Ctx Prog Session Label Accord Discipline wp_bind)

/-! ## 1. Bulk inserts -/

section Insert

variable {l : List (AuditEventDoc × Fate)} {docs : List AuditEventDoc}

theorem insertDocs_grows (l : List (AuditEventDoc × Fate)) (docs : List AuditEventDoc) :
    docs <+: (insertDocs l docs).1 := by
  induction l generalizing docs with
  | nil => exact List.prefix_refl _
  | cons p l ih =>
    obtain ⟨d, f⟩ := p
    cases f with
    | attempted =>
      unfold insertDocs
      split
      · exact ih docs
      · exact (List.prefix_append docs [d]).trans (ih _)
    | refused code => exact ih docs
    | skipped => exact ih docs

theorem insertDocs_mem {d : AuditEventDoc} (h : d ∈ (insertDocs l docs).1) :
    d ∈ docs ∨ d ∈ l.map Prod.fst := by
  induction l generalizing docs with
  | nil => exact Or.inl h
  | cons p l ih =>
    obtain ⟨a, f⟩ := p
    have hcons : ∀ {docs'}, d ∈ (insertDocs l docs').1 → (d ∈ docs' → d ∈ docs ∨ d = a) →
        d ∈ docs ∨ d ∈ ((a, f) :: l).map Prod.fst := by
      intro docs' h' hd
      rcases ih h' with h' | h'
      · rcases hd h' with h' | rfl
        · exact Or.inl h'
        · exact Or.inr List.mem_cons_self
      · exact Or.inr (List.mem_cons_of_mem _ h')
    cases f with
    | attempted =>
      unfold insertDocs at h
      split at h
      · exact hcons h Or.inl
      · refine hcons h fun hd => ?_
        rcases List.mem_append.mp hd with hd | hd
        · exact Or.inl hd
        · exact Or.inr (List.mem_singleton.mp hd)
    | refused code => exact hcons h Or.inl
    | skipped => exact hcons h Or.inl

/-- The unique index. -/
theorem insertDocs_nodup (h : (docs.map AuditEventDoc.outboxId).Nodup) :
    ((insertDocs l docs).1.map AuditEventDoc.outboxId).Nodup := by
  induction l generalizing docs with
  | nil => exact h
  | cons p l ih =>
    obtain ⟨d, f⟩ := p
    cases f with
    | attempted =>
      unfold insertDocs
      split
      · exact ih h
      · rename_i hnew
        refine ih ?_
        rw [List.map_append, List.nodup_append]
        refine ⟨h, List.nodup_singleton _, ?_⟩
        rintro id hid _ hid' rfl
        obtain ⟨e, he, rfl⟩ := List.mem_map.mp hid
        exact hnew (List.any_eq_true.mpr ⟨e, he, beq_iff_eq.mpr (List.mem_singleton.mp hid')⟩)
    | refused code => exact ih h
    | skipped => exact ih h

theorem insertDocs_refused {d : AuditEventDoc} {code : Nat} (h : (d, Fate.refused code) ∈ l) :
    code ∈ (insertDocs l docs).2 := by
  induction l generalizing docs with
  | nil => exact absurd h List.not_mem_nil
  | cons p l ih =>
    obtain ⟨a, f⟩ := p
    rcases List.mem_cons.mp h with hhead | htail
    · obtain ⟨rfl, rfl⟩ := Prod.mk.inj hhead
      exact List.mem_cons_self
    · cases f with
      | attempted =>
        unfold insertDocs
        split
        · exact List.mem_cons_of_mem _ (ih htail)
        · exact ih htail
      | refused code' => exact List.mem_cons_of_mem _ (ih htail)
      | skipped => exact ih htail

/-- A document that was attempted is there, under its key. -/
theorem insertDocs_attempted {d : AuditEventDoc} (h : (d, Fate.attempted) ∈ l) :
    ∃ e ∈ (insertDocs l docs).1, e.outboxId = d.outboxId := by
  induction l generalizing docs with
  | nil => exact absurd h List.not_mem_nil
  | cons p l ih =>
    obtain ⟨a, f⟩ := p
    rcases List.mem_cons.mp h with hhead | htail
    · obtain ⟨rfl, rfl⟩ := Prod.mk.inj hhead
      unfold insertDocs
      split
      · rename_i hdup
        obtain ⟨e, he, hid⟩ := List.any_eq_true.mp hdup
        exact ⟨e, (insertDocs_grows l docs).subset he, beq_iff_eq.mp hid⟩
      · refine ⟨d, (insertDocs_grows l _).subset ?_, rfl⟩
        exact List.mem_append_right docs (List.mem_singleton_self d)
    · cases f with
      | attempted =>
        unfold insertDocs
        split <;> exact ih htail
      | refused code' => exact ih htail
      | skipped => exact ih htail

end Insert

/-- **The classification of errors is right**: what counts as delivered was refused nothing but
duplicates. -/
theorem delivered_codes {codes : List Nat} {n : Nat} {bare concern : Bool}
    (h : delivered (bulkResult codes n bare concern) = true) :
    ∀ code ∈ codes, code = DUPLICATE_KEY := by
  have hmany : ∀ {codes : List Nat}, delivered (.bulkWriteError (.many codes) n) = true →
      ∀ code ∈ codes, code = DUPLICATE_KEY := by
    intro codes h code hcode
    have hall := (Bool.and_eq_true_iff.mp h).2
    have hsome := List.all_eq_true.mp hall (some code) (List.mem_map_of_mem hcode)
    exact Option.some.inj (beq_iff_eq.mp hsome)
  have hone : ∀ {code : Nat}, delivered (.bulkWriteError (.one (some code)) n) = true →
      code = DUPLICATE_KEY := by
    intro code h
    simpa [delivered, isDuplicateKeyOnly, WriteErrors.list] using h
  unfold bulkResult at h
  split at h
  · exact fun _ hc => absurd hc List.not_mem_nil
  · exact fun _ hc => absurd hc List.not_mem_nil
  · intro code hcode
    rw [List.mem_singleton.mp hcode]
    exact hone h
  · exact hmany h

/-- **After a delivery every document of the batch is there, under its key.** -/
theorem delivered_docs {docs : List AuditEventDoc} {fates : List Fate} {bare concern : Bool}
    {events : List AuditEventDoc} {n : Nat} (hf : Fates docs fates true = true)
    (h : delivered (bulkResult (insertDocs (docs.zip fates) events).2 n bare concern) = true)
    {d : AuditEventDoc} (hd : d ∈ docs) :
    ∃ e ∈ (insertDocs (docs.zip fates) events).1, e.outboxId = d.outboxId := by
  obtain ⟨hlen, hall⟩ := Bool.and_eq_true_iff.mp hf
  rw [Bool.not_true, Bool.false_or, List.all_eq_true] at hall
  have hlen' : docs.length = fates.length := (beq_iff_eq.mp hlen).symm
  obtain ⟨f, hzip⟩ : ∃ f, (d, f) ∈ docs.zip fates := by
    rw [← List.map_fst_zip (Nat.le_of_eq hlen')] at hd
    obtain ⟨⟨d', f⟩, hp, rfl⟩ := List.mem_map.mp hd
    exact ⟨f, hp⟩
  have hmem : f ∈ fates := (List.of_mem_zip hzip).2
  obtain ⟨hskip, hdup⟩ := Bool.and_eq_true_iff.mp (hall f hmem)
  cases f with
  | attempted => exact insertDocs_attempted hzip
  | refused code =>
    have hcode := delivered_codes h code (insertDocs_refused hzip)
    rw [hcode] at hdup
    exact absurd hdup (by simp)
  | skipped => exact absurd hskip (by simp)

/-! ## 2. What holds all the time -/

/-- A row as it was committed. -/
def undrained (r : AuditOutbox) : AuditOutbox := { r with drainedAt := none }

/-- The two stores agree. -/
structure Delivered (w : World) : Prop where
  /-- `AuditOutbox_pkey`, over all rows there have been -/
  ids : (w.committed.map AuditOutbox.id).Nodup
  rows : ∀ r ∈ w.outbox, undrained r ∈ w.committed
  /-- the unique index on `outboxId` -/
  single : (w.auditEvents.map AuditEventDoc.outboxId).Nodup
  sourced : ∀ d ∈ w.auditEvents, ∃ r ∈ w.committed, outboxRowToAuditEvent r = d
  drained : ∀ r ∈ w.outbox, r.drainedAt ≠ none → outboxRowToAuditEvent r ∈ w.auditEvents
  kept : ∀ r ∈ w.committed, (∃ r' ∈ w.outbox, undrained r' = r) ∨
    outboxRowToAuditEvent r ∈ w.auditEvents

/-- Nothing that was committed or delivered is taken back. -/
def deliveredAccord : Accord auditStore where
  inv := Delivered
  keeps w w' := Delivered w' ∧ w.committed ⊆ w'.committed ∧ w.auditEvents ⊆ w'.auditEvents
  refl _ h := ⟨h, List.Subset.refl _, List.Subset.refl _⟩
  trans _ _ _ h h' := ⟨h'.1, fun _ hr => h'.2.1 (h.2.1 hr), fun _ hd => h'.2.2 (h.2.2 hd)⟩
  inv_of_keeps _ _ h := h.1

section Effects

variable {w : World} {r : AuditOutbox}

/-- A document with the key of a row is the document of that row. -/
theorem Delivered.doc_of_key (h : Delivered w) (hr : r ∈ w.committed) {d : AuditEventDoc}
    (hd : d ∈ w.auditEvents) (hid : d.outboxId = (outboxRowToAuditEvent r).outboxId) :
    d = outboxRowToAuditEvent r := by
  obtain ⟨r', hr', rfl⟩ := h.sourced d hd
  have : r'.id = r.id := Nat.repr_injective hid
  rw [Keyed.eq_of_key_eq h.ids hr' hr this]

theorem insertMany_keeps (h : Delivered w) {l : List (AuditEventDoc × Fate)}
    (hl : ∀ d ∈ l.map Prod.fst, ∃ r ∈ w.committed, outboxRowToAuditEvent r = d) :
    deliveredAccord.keeps w { w with auditEvents := (insertDocs l w.auditEvents).1 } := by
  have hsub : w.auditEvents ⊆ (insertDocs l w.auditEvents).1 :=
    (insertDocs_grows l w.auditEvents).subset
  refine ⟨⟨h.ids, h.rows, insertDocs_nodup h.single, ?_, ?_, ?_⟩, List.Subset.refl _, hsub⟩
  · intro d hd
    rcases insertDocs_mem hd with hd | hd
    · exact h.sourced d hd
    · exact hl d hd
  · exact fun r hr hdr => hsub (h.drained r hr hdr)
  · exact fun r hr => (h.kept r hr).imp_right fun hd => hsub hd

/-- Marking rows whose documents are there. -/
theorem mark_keeps (h : Delivered w) (ids : List OutboxId) (t : Time)
    (hids : ∀ r ∈ w.committed, r.id ∈ ids → outboxRowToAuditEvent r ∈ w.auditEvents) :
    deliveredAccord.keeps w { w with
      outbox := w.outbox.map fun r =>
        if ids.contains r.id then { r with drainedAt := some t } else r } := by
  have hundrained : ∀ r : AuditOutbox,
      undrained (if ids.contains r.id then { r with drainedAt := some t } else r) = undrained r := by
    intro r
    split <;> rfl
  refine ⟨⟨h.ids, ?_, h.single, h.sourced, ?_, ?_⟩, List.Subset.refl _, List.Subset.refl _⟩
  · intro r' hr'
    obtain ⟨r, hr, rfl⟩ := List.mem_map.mp hr'
    exact (hundrained r).symm ▸ h.rows r hr
  · intro r' hr' hdr
    obtain ⟨r, hr, rfl⟩ := List.mem_map.mp hr'
    by_cases hc : ids.contains r.id = true
    · rw [if_pos hc]
      have hdoc := hids (undrained r) (h.rows r hr) (List.contains_iff_mem.mp hc)
      exact hdoc
    · rw [if_neg hc] at hdr ⊢
      exact h.drained r hr hdr
  · intro r hr
    refine (h.kept r hr).imp_left ?_
    rintro ⟨r', hr', rfl⟩
    exact ⟨_, List.mem_map_of_mem hr', hundrained r'⟩

/-- A purged row was drained, so its document is there. -/
theorem purged_delivered (h : Delivered w) {cutoff : Time} (hr : r ∈ w.outbox)
    (hgone : r ∉ w.outbox.filter (fun r => !drainedBefore cutoff r)) :
    outboxRowToAuditEvent r ∈ w.auditEvents := by
  refine h.drained r hr fun hnone => hgone (List.mem_filter.mpr ⟨hr, ?_⟩)
  unfold drainedBefore
  rw [hnone]
  rfl

theorem purge_keeps (h : Delivered w) (cutoff : Time) :
    deliveredAccord.keeps w
      { w with outbox := w.outbox.filter (fun r => !drainedBefore cutoff r) } := by
  refine ⟨⟨h.ids, ?_, h.single, h.sourced, ?_, ?_⟩, List.Subset.refl _, List.Subset.refl _⟩
  · exact fun r hr => h.rows r (List.mem_of_mem_filter hr)
  · exact fun r hr => h.drained r (List.mem_of_mem_filter hr)
  · intro r hr
    rcases h.kept r hr with ⟨r', hr', rfl⟩ | hd
    · by_cases hin : r' ∈ w.outbox.filter (fun r => !drainedBefore cutoff r)
      · exact Or.inl ⟨r', hin, rfl⟩
      · have hdoc := purged_delivered h hr' hin
        exact Or.inr hdoc
    · exact Or.inr hd

theorem commitRow_keeps (h : Delivered w) (row : AuditOutbox) :
    deliveredAccord.keeps w (w.commitRow row) := by
  unfold World.commitRow
  split
  · exact deliveredAccord.refl w h
  · rename_i hnew
    refine ⟨⟨?_, ?_, h.single, ?_, ?_, ?_⟩, List.subset_append_left _ _, List.Subset.refl _⟩
    · rw [List.map_append, List.nodup_append]
      refine ⟨h.ids, List.nodup_singleton _, ?_⟩
      rintro id hid _ hid' rfl
      obtain ⟨r, hr, rfl⟩ := List.mem_map.mp hid
      exact hnew (List.any_eq_true.mpr ⟨r, hr, beq_iff_eq.mpr (List.mem_singleton.mp hid')⟩)
    · intro r hr
      rcases List.mem_append.mp hr with hr | hr
      · exact List.mem_append_left _ (h.rows r hr)
      · obtain rfl := List.mem_singleton.mp hr
        exact List.mem_append_right _ (List.mem_singleton_self _)
    · intro d hd
      obtain ⟨r, hr, hd⟩ := h.sourced d hd
      exact ⟨r, List.mem_append_left _ hr, hd⟩
    · intro r hr hdr
      rcases List.mem_append.mp hr with hr | hr
      · exact h.drained r hr hdr
      · exact absurd rfl (List.mem_singleton.mp hr ▸ hdr)
    · intro r hr
      rcases List.mem_append.mp hr with hr | hr
      · refine (h.kept r hr).imp_left ?_
        rintro ⟨r', hr', he⟩
        exact ⟨r', List.mem_append_left _ hr', he⟩
      · refine Or.inl ⟨{ row with drainedAt := none }, ?_, (List.mem_singleton.mp hr).symm⟩
        exact List.mem_append_right _ (List.mem_singleton_self _)

theorem env_keeps (h : Delivered w) (e : EnvChange) : deliveredAccord.keeps w (w.env e) := by
  cases e with
  | tick ms =>
    exact ⟨⟨h.ids, h.rows, h.single, h.sourced, h.drained, h.kept⟩, List.Subset.refl _,
      List.Subset.refl _⟩
  | commit rows =>
    have hrun : ∀ (rows : List AuditOutbox) {w : World}, Delivered w →
        deliveredAccord.keeps w (rows.foldl World.commitRow w) := by
      intro rows
      induction rows with
      | nil => exact fun h => deliveredAccord.refl _ h
      | cons row rows ih =>
        intro w h
        have hrow := commitRow_keeps h row
        exact deliveredAccord.trans _ _ _ hrow (ih hrow.1)
    exact hrun rows h

end Effects

/-! ## 3. The workers -/

section Workers

variable {c : Ctx auditStore}

/-- A statement that only reads. -/
theorem read_allows {s : Stmt} (h : ∀ x w, s.effect x w = w) : deliveredAccord.Allows s := by
  intro x w out hi _
  have hw : auditStore.effect s x w = w := h x w
  rw [hw]
  exact deliveredAccord.refl w hi

theorem insertMany_allows {docs : List AuditEventDoc} {w₀ : World}
    (hdocs : ∀ d ∈ docs, ∃ r ∈ w₀.committed, outboxRowToAuditEvent r = d) :
    deliveredAccord.AllowsFrom w₀ (Stmt.insertMany docs) := by
  intro x w out hw hexec
  have hzip : ∀ fates : List Fate, ∀ d ∈ (docs.zip fates).map Prod.fst,
      ∃ r ∈ w.committed, outboxRowToAuditEvent r = d := by
    intro fates d hd
    obtain ⟨p, hp, rfl⟩ := List.mem_map.mp hd
    obtain ⟨r, hr, he⟩ := hdocs p.1 (List.of_mem_zip hp).1
    exact ⟨r, hw.2.1 hr, he⟩
  cases x with
  | bulk fates bare concern => exact insertMany_keeps hw.1 (hzip fates)
  | lost fates => exact insertMany_keeps hw.1 (hzip fates)
  | ok => exact absurd hexec (by simp [Stmt.exec])
  | fails => exact absurd hexec (by simp [Stmt.exec])
  | unheard => exact absurd hexec (by simp [Stmt.exec])
  | ready database => exact absurd hexec (by simp [Stmt.exec])

theorem mark_allows {ids : List OutboxId} {t : Time} {w₀ : World} {batch : List AuditOutbox}
    (hids : ids = batch.map AuditOutbox.id) (hrows : ∀ r ∈ batch, undrained r ∈ w₀.committed)
    (hdocs : ∀ r ∈ batch, outboxRowToAuditEvent r ∈ w₀.auditEvents) :
    deliveredAccord.AllowsFrom w₀ (Stmt.updateManyDrained ids t) := by
  intro x w out hw _
  have hmark := mark_keeps hw.1 ids t fun r hr hid => by
    rw [hids] at hid
    obtain ⟨b, hb, hb'⟩ := List.mem_map.mp hid
    rw [← Keyed.eq_of_key_eq hw.1.ids (hw.2.1 (hrows b hb)) hr hb']
    exact hw.2.2 (hdocs b hb)
  cases x with
  | fails => exact deliveredAccord.refl w hw.1
  | ok => exact hmark
  | unheard => exact hmark
  | ready database => exact hmark
  | bulk fates bare concern => exact hmark
  | lost fates => exact hmark

theorem purge_allows (cutoff : Time) :
    deliveredAccord.Allows (Stmt.deleteManyDrained cutoff) := by
  intro x w out hi _
  have hpurge := purge_keeps hi cutoff
  cases x with
  | fails => exact deliveredAccord.refl w hi
  | ok => exact hpurge
  | unheard => exact hpurge
  | ready database => exact hpurge
  | bulk fates bare concern => exact hpurge
  | lost fates => exact hpurge

/-- The marking of a batch that has been delivered. -/
theorem markDrained_spec {batch : List AuditOutbox}
    (hrows : ∀ r ∈ batch, undrained r ∈ c.world.committed)
    (hdocs : ∀ r ∈ batch, outboxRowToAuditEvent r ∈ c.world.auditEvents) :
    deliveredAccord.wp (markDrained (batch.map AuditOutbox.id)) (fun _ _ => True) c := by
  refine wp_bind (Accord.wp_lift (read_allows fun _ _ => rfl) (fun w x v ws c' hw _ hc' hk => ?_)
    fun _ _ _ _ _ _ => trivial)
  refine wp_bind (Accord.wp_lift_from (mark_allows rfl ?_ ?_) (fun _ _ _ _ _ _ _ _ _ => trivial)
    fun _ _ _ _ _ _ => trivial)
  · exact fun r hr => hk.2.1 (hw.2.1 (hrows r hr))
  · exact fun r hr => hk.2.2 (hw.2.2 (hdocs r hr))

/-- **The delivery of a batch of committed rows.** -/
theorem deliver_spec {batch : List AuditOutbox}
    (hrows : ∀ r ∈ batch, undrained r ∈ c.world.committed) :
    deliveredAccord.wp (deliver batch) (fun _ _ => True) c := by
  unfold deliver
  split
  · trivial
  have hallows : deliveredAccord.AllowsFrom c.world
      (Stmt.insertMany (batch.map outboxRowToAuditEvent)) := by
    refine insertMany_allows fun d hd => ?_
    obtain ⟨r, hr, rfl⟩ := List.mem_map.mp hd
    exact ⟨undrained r, hrows r hr, rfl⟩
  refine wp_bind (Accord.wp_lift_from hallows (fun w x v ws c' hw hexec hc' hk => ?_)
    fun _ _ _ _ _ _ => trivial)
  have hif : deliveredAccord.wp (if delivered v then markDrained (batch.map AuditOutbox.id)
      else pure ()) (fun _ _ => True) c' := by
    split
    · rename_i hdel
      refine markDrained_spec (fun r hr => hk.2.1 (hw.2.1 (hrows r hr))) fun r hr => ?_
      have hcommitted : undrained r ∈ c'.world.committed := hk.2.1 (hw.2.1 (hrows r hr))
      have hdoc : outboxRowToAuditEvent r ∈ batch.map outboxRowToAuditEvent :=
        List.mem_map_of_mem hr
      cases x with
      | bulk fates bare concern =>
        simp only [Stmt.exec] at hexec
        split at hexec
        · rename_i hf
          obtain ⟨rfl, -⟩ := Prod.mk.inj (Except.ok.inj (Option.some.inj hexec))
          obtain ⟨e, he, hid⟩ := delivered_docs hf hdel hdoc
          have hmem : e ∈ c'.world.auditEvents := by
            rw [hc']
            exact he
          exact hk.1.doc_of_key hcommitted hmem hid ▸ hmem
        · exact absurd hexec (by simp)
      | lost fates =>
        simp only [Stmt.exec] at hexec
        split at hexec
        · obtain ⟨rfl, -⟩ := Prod.mk.inj (Except.ok.inj (Option.some.inj hexec))
          exact absurd hdel (by simp [delivered, isDuplicateKeyOnly])
        · exact absurd hexec (by simp)
      | ok => exact absurd hexec (by simp [Stmt.exec])
      | fails => exact absurd hexec (by simp [Stmt.exec])
      | unheard => exact absurd hexec (by simp [Stmt.exec])
      | ready database => exact absurd hexec (by simp [Stmt.exec])
    · trivial
  exact hif

/-- A batch is read from the outbox, so its rows were committed. -/
theorem drainBatch_spec : deliveredAccord.wp drainBatch (fun _ _ => True) c := by
  refine wp_bind (Accord.wp_lift (read_allows fun _ _ => rfl)
    (fun w x batch ws c' hw hexec _ hk => deliver_spec fun r hr => ?_) fun _ _ _ _ _ _ => trivial)
  have hbatch : ∀ x : Input, auditStore.exec (.findManyUndrained BATCH_SIZE) x w
      = some (.ok (batch, ws)) → batch = w.undrained.take BATCH_SIZE := by
    intro x hexec
    cases x <;> simp [Stmt.exec] at hexec
    exact (Prod.mk.inj hexec).1.symm
  have hmem : r ∈ w.undrained := List.mem_of_mem_take (hbatch x hexec ▸ hr)
  have hout : r ∈ w.outbox :=
    List.mem_of_mem_filter ((List.perm_insertionSort _ _).mem_iff.mp hmem)
  exact hk.2.1 (hw.1.rows r hout)

theorem drain_spec : deliveredAccord.wp drain (fun _ _ => True) c := by
  refine wp_bind (wp_bind (Accord.wp_lift (read_allows fun _ _ => rfl)
    (fun _ _ _ _ c₁ _ _ _ _ => ?_) fun _ _ _ _ _ _ => trivial))
  refine wp_bind (Accord.wp_lift (read_allows fun _ _ => rfl)
    (fun _ _ v _ c₂ _ _ _ _ => ?_) fun _ _ _ _ _ _ => trivial)
  have hif : ∀ ready : Bool,
      deliveredAccord.wp (if ready then drainBatch else pure ()) (fun _ _ => True) c₂ := by
    intro ready
    split
    · exact drainBatch_spec
    · trivial
  exact hif v

theorem body_spec (op : Op) : deliveredAccord.wp op.body (fun _ _ => True) c := by
  cases op with
  | drain => exact drain_spec
  | purgeDrainedOutbox =>
    refine wp_bind (wp_bind (Accord.wp_lift (read_allows fun _ _ => rfl)
      (fun _ _ _ _ _ _ _ _ _ => ?_) fun _ _ _ _ _ _ => trivial))
    exact Accord.wp_lift (purge_allows _) (fun _ _ _ _ _ _ _ _ _ => trivial)
      fun _ _ _ _ _ _ => trivial

end Workers

/-- Everybody keeps the stores in agreement. -/
abbrev delivering : Discipline auditWorkers := deliveredAccord.discipline fun _ _ _ => True

theorem delivering_sound {C : Sys → Label auditWorkers → Prop} {J : Sys → Prop} :
    delivering.Sound C J := by
  refine Accord.sound (fun sys t op _ _ _ => ?_) fun sys e _ hi => env_keeps hi e
  refine Txn.wp_mono (fun r c _ => ?_) (body_spec op)
  cases r with
  | ok a => exact fun _ _ => trivial
  | error e => exact fun _ _ => trivial

/-- No rows and no documents yet. -/
def World.empty (now : Time) : World := ⟨[], [], now, []⟩

theorem empty_delivered (now : Time) : Delivered (World.empty now) where
  ids := List.nodup_nil
  rows _ h := absurd h List.not_mem_nil
  single := List.nodup_nil
  sourced _ h := absurd h List.not_mem_nil
  drained _ h := absurd h List.not_mem_nil
  kept _ h := absurd h List.not_mem_nil

/-- **Audit delivery is exactly-once at rest.**  In every reachable state a drained row has its
document; a row has at most one document, and only committed rows have one; a committed row is in
the outbox or has its document; and a purge deletes only rows that have theirs. -/
theorem audit_delivered_once {now : Time} {sys : Sys}
    (hr : Txn.Sys.Reach (fun _ _ => True) (Txn.Sys.init (World.empty now)) sys) :
    (∀ r ∈ sys.world.outbox, r.drainedAt ≠ none →
      outboxRowToAuditEvent r ∈ sys.world.auditEvents) ∧
    (∀ r ∈ sys.world.committed,
      sys.world.auditEvents.countP (fun d => d.outboxId == toString r.id) ≤ 1) ∧
    (∀ d ∈ sys.world.auditEvents, ∃ r ∈ sys.world.committed, outboxRowToAuditEvent r = d) ∧
    (∀ r ∈ sys.world.committed, (∃ r' ∈ sys.world.outbox, undrained r' = r) ∨
      outboxRowToAuditEvent r ∈ sys.world.auditEvents) ∧
    (∀ t ses cutoff k x sys', sys.sessions t = some ses →
      ses.prog = .stmt (Stmt.deleteManyDrained cutoff) k → sys.step (.exec t x) = some sys' →
        ∀ r ∈ sys.world.outbox, r ∉ sys'.world.outbox →
          outboxRowToAuditEvent r ∈ sys.world.auditEvents) := by
  have hG := (Discipline.Reach.good (J := fun _ => True) delivering_sound
    (fun _ _ _ _ _ _ _ => trivial) hr (Discipline.good_init (empty_delivered now)) trivial).1
  have hi : Delivered sys.world := hG.inv
  refine ⟨hi.drained, fun r _ => ?_, hi.sourced, hi.kept, ?_⟩
  · have hcount : sys.world.auditEvents.countP (fun d => d.outboxId == toString r.id)
        = (sys.world.auditEvents.map AuditEventDoc.outboxId).count (toString r.id) := by
      rw [List.count, List.countP_map]
      rfl
    rw [hcount]
    exact List.nodup_iff_count_le_one.mp hi.single _
  · intro t ses cutoff k x sys' ht hp hs r hr hgone
    obtain ⟨ses', s, k', res, c', ht', hp', -, hrun, ses₁, -, -, -, -, -, hctx⟩ :=
      Discipline.stepExec_cases hs
    obtain rfl := Option.some.inj (ht.symm.trans ht')
    obtain ⟨rfl, -⟩ := Prog.stmt.inj (hp.symm.trans hp')
    have hw : sys'.world = Stmt.effect (.deleteManyDrained cutoff) x sys.world :=
      (congrArg Ctx.world hctx).trans (Accord.run_cases hrun).1
    rw [hw] at hgone
    cases x with
    | fails => exact absurd hr hgone
    | ok => exact purged_delivered hi hr hgone
    | unheard => exact purged_delivered hi hr hgone
    | ready database => exact purged_delivered hi hr hgone
    | bulk fates bare concern => exact purged_delivered hi hr hgone
    | lost fates => exact purged_delivered hi hr hgone

namespace Campus

def row : AuditOutbox where
  id := 1
  action := .ENROLLMENT_CREATED
  actor := ⟨some 1, none, none⟩
  target := .enrollmentTarget 100
  payload := ⟨none, some { sectionId := some 10, status := some .ENROLLED }, {}⟩
  createdAt := 10
  drainedAt := none

/-- A drainer stores the document and dies. -/
def firstDrain : List (Label auditWorkers) :=
  [.begin 0 .drain, .exec 0 .ok, .exec 0 (.ready true), .exec 0 .ok,
    .exec 0 (.bulk [.attempted] false false), .crash 0]

/-- The next one finds a duplicate, and marks the row. -/
def secondDrain : List (Label auditWorkers) :=
  [.begin 1 .drain, .exec 1 .ok, .exec 1 (.ready true), .exec 1 .ok,
    .exec 1 (.bulk [.attempted] true false), .exec 1 .ok, .exec 1 .ok, .commit 1]

def drained : List (Label auditWorkers) := .env (.commit [row]) :: firstDrain ++ secondDrain

set_option maxRecDepth 4000 in
theorem drained_runs : (Txn.Sys.run (Txn.Sys.init (World.empty 10)) drained).isSome = true := by
  decide

def afterDrain : Sys := (Txn.Sys.run (Txn.Sys.init (World.empty 10)) drained).get drained_runs

set_option maxRecDepth 4000 in
theorem audit_delivered_once_replayed :
    afterDrain.world.outbox.map AuditOutbox.drainedAt = [some 10] ∧
      afterDrain.world.auditEvents.length = 1 ∧
      ∀ r ∈ afterDrain.world.outbox, r.drainedAt ≠ none →
        outboxRowToAuditEvent r ∈ afterDrain.world.auditEvents :=
  ⟨by decide, by decide, (audit_delivered_once
    (.of_run .refl (fun _ _ _ => trivial) (Option.some_get drained_runs).symm)).1⟩

end Campus

end Enroll.Audit
