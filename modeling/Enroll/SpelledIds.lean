/-
# Ids as requests write them

The tables know a section by its uuid, a request by a text of it, and Postgres reads the text
whatever the case of its letters.  Most of the code hands the text on to the database.  Two places
compare it with an id that the database has written:

* `swap` asks `source.sectionId === input.targetSectionId`.  In another spelling a swap onto the
  row's own section goes on as one between two sections: the row is dropped, a new one is inserted,
  and an `ENROLLMENT_SWAPPED` says so.
* `reorder` compares two sets of enrollment ids.  In another spelling it refuses.

(`enroll` compares too, with the sections of the student's other rows, after it has found under the
lock that the student has none in this one.  `swap` also sorts the two ids as texts, but its query
takes the locks in the order of the uuids.)

`addressed` is the registrar with requests of this kind.  As long as no swap names its row's own
section in another spelling it follows the registrar, so what holds of the registrar's runs holds of
its own.
-/
import Enroll.Answers
import Enroll.AuditLog
import Enroll.Txn.Follow
import Enroll.Uuid

namespace Enroll.Spelled

open Txn (Prog Follows Starts Label Discipline)

/-! ## 1. The two methods -/

/-- The body of `PATCH /sections/:id/waitlist`, as it is written. -/
structure ReorderWaitlistDto where
  orderedEnrollmentIds : List Uuid.Text
  unique : (orderedEnrollmentIds.map Uuid.Text.chars).Nodup

/-- The ids it lists. -/
def ReorderWaitlistDto.ids (dto : ReorderWaitlistDto) : List EnrollmentId :=
  dto.orderedEnrollmentIds.map Uuid.Text.id

/-- `currentSet.size === submittedSet.size && currentIds.every((id) => submittedSet.has(id))`. -/
def sameMembers (currentIds submitted : List (List Char)) : Bool :=
  currentIds.dedup.length == submitted.dedup.length && currentIds.all (submitted.contains ·)

/-- The submitted order replaces the current one, if it lists the same rows. -/
def replaceOrder (sectionId : SectionId) (dto : ReorderWaitlistDto) (actor : RequestActor)
    (currentIds : List EnrollmentId) : Tx Unit := do
  Prog.throwIf (!sameMembers (currentIds.map Uuid.write)
      (dto.orderedEnrollmentIds.map Uuid.Text.chars))
    (conflict .WAITLIST_CHANGED
      "The waitlist changed since it was loaded. Reload and try again.")
  Prog.each dto.ids.zipIdx renumber
  Tx.recordEvent (reorderedEvent sectionId actor currentIds dto.ids)

/-- `WaitlistService.reorder`, the transaction. -/
def reorder (sectionId : SectionId) (dto : ReorderWaitlistDto) (actor : RequestActor) :
    Tx Unit := do
  let locked ← Tx.sectionForUpdate sectionId
  let _ ← Prog.orThrow locked (notFound .SECTION_NOT_FOUND "Section does not exist.")
  let current ← Tx.enrollmentFindManyByPosition
    { sectionId := some sectionId, status := some [.WAITLISTED] }
  replaceOrder sectionId dto actor (current.map (fun c => c.row.id))

/-- `EnrollmentService.swap`. -/
def swap (enrollmentId : EnrollmentId) (targetSectionId : Uuid.Text) (userId : UserId)
    (actor : RequestActor) : Tx FreedSeat := do
  let found ← Tx.enrollmentFindUnique enrollmentId
  let source ← Prog.orThrow found enrollmentNotFound
  Prog.throwIf (!source.row.active) (badRequest .ALREADY_DROPPED
    s!"Cannot swap an enrollment in status {source.row.status.text}.")
  if Uuid.write source.row.sectionId = targetSectionId.chars then swapSame source
  else swapInto enrollmentId source ⟨targetSectionId.id⟩ userId actor

/-! ## 2. The service -/

inductive Request where
  | enroll (input : EnrollDto) (userId : UserId) (actor : RequestActor)
  | drop (enrollmentId : EnrollmentId) (userId : UserId) (actor : RequestActor)
  | swap (enrollmentId : EnrollmentId) (targetSectionId : Uuid.Text) (userId : UserId)
    (actor : RequestActor)
  | runPromotion (sectionId : SectionId)
  | reorder (sectionId : SectionId) (dto : ReorderWaitlistDto) (actor : RequestActor)
  | expireSectionWaitlist (sectionId : SectionId)
  | updateSection (sectionId : SectionId) (dto : UpdateSectionDto) (actor : RequestActor)

/-- The request, with the ids in it read. -/
def Request.op : Request → Op
  | enroll input userId actor => .enroll input userId actor
  | drop enrollmentId userId actor => .drop enrollmentId userId actor
  | swap enrollmentId targetSectionId userId actor =>
    .swap enrollmentId ⟨targetSectionId.id⟩ userId actor
  | runPromotion sectionId => .runPromotion sectionId
  | reorder sectionId dto actor => .reorder sectionId ⟨dto.ids.dedup, List.nodup_dedup _⟩ actor
  | expireSectionWaitlist sectionId => .expireSectionWaitlist sectionId
  | updateSection sectionId dto actor => .updateSection sectionId dto actor

/-- The transaction of each request. -/
def Request.body : Request → Tx Out
  | swap enrollmentId targetSectionId userId actor => do
    let f ← Spelled.swap enrollmentId targetSectionId userId actor
    pure (.freed f)
  | reorder sectionId dto actor => do
    Spelled.reorder sectionId dto actor
    pure .done
  | req => req.op.body

/-- A swap that finds its row active in the section it names has named it as the database does. -/
def Request.OwnAsStored : Request → World → Prop
  | swap enrollmentId targetSectionId _ _, w => ∀ r ∈ w.db.enrollments, r.id = enrollmentId →
      r.active = true → r.sectionId = targetSectionId.id → targetSectionId.Stored
  | _, _ => True

instance (req : Request) (w : World) : Decidable (req.OwnAsStored w) :=
  match req with
  | .swap enrollmentId targetSectionId _ _ => inferInstanceAs (Decidable (∀ r ∈ w.db.enrollments,
      r.id = enrollmentId → r.active = true → r.sectionId = targetSectionId.id →
        targetSectionId.Stored))
  | .enroll _ _ _ => isTrue trivial
  | .drop _ _ _ => isTrue trivial
  | .runPromotion _ => isTrue trivial
  | .reorder _ _ _ => isTrue trivial
  | .expireSectionWaitlist _ => isTrue trivial
  | .updateSection _ _ _ => isTrue trivial

/-! ## 3. It follows the registrar -/

/-- **The set comparison lets through the ids that the database has written, and no others.** -/
theorem stored_of_sameMembers {currentIds : List EnrollmentId} {submitted : List Uuid.Text}
    (h : sameMembers (currentIds.map Uuid.write) (submitted.map Uuid.Text.chars) = true) :
    ∀ t ∈ submitted, t.Stored ∧ t.id ∈ currentIds := by
  obtain ⟨hlen, hall⟩ := Bool.and_eq_true_iff.mp h
  have hsub : (currentIds.map Uuid.write).dedup ⊆ (submitted.map Uuid.Text.chars).dedup := by
    intro cs hcs
    have := List.all_eq_true.mp hall cs (List.mem_dedup.mp hcs)
    exact List.mem_dedup.mpr (List.contains_iff_mem.mp this)
  have hperm := (List.subperm_of_subset (List.nodup_dedup _) hsub).perm_of_length_le
    (Nat.le_of_eq (beq_iff_eq.mp hlen).symm)
  intro t ht
  have hmem : t.chars ∈ currentIds.map Uuid.write := by
    refine List.mem_dedup.mp (hperm.mem_iff.mpr (List.mem_dedup.mpr ?_))
    exact List.mem_map_of_mem ht
  obtain ⟨id, hid, hchars⟩ := List.mem_map.mp hmem
  obtain ⟨rfl, hstored⟩ := Uuid.Text.write_eq_chars.mp hchars
  exact ⟨hstored, hid⟩

theorem dedup_length_map {α β : Type} [DecidableEq α] [DecidableEq β] {f : α → β}
    (hf : Function.Injective f) (l : List α) : (l.map f).dedup.length = l.dedup.length := by
  rw [List.dedup_map_of_injective hf, List.length_map]

/-- Of stored ids the texts tell what the ids do. -/
theorem sameMembers_write (currentIds submitted : List EnrollmentId) :
    sameMembers (currentIds.map Uuid.write) (submitted.map Uuid.write)
      = Enroll.sameMembers currentIds submitted := by
  unfold sameMembers Enroll.sameMembers
  rw [dedup_length_map Uuid.write_injective, dedup_length_map Uuid.write_injective, List.all_map]
  congr 1
  refine List.all_congr rfl fun id => ?_
  rw [Bool.eq_iff_iff]
  simp [Uuid.write_injective.eq_iff]

theorem replaceOrder_follows (s : SectionId) (dto : ReorderWaitlistDto) (actor : RequestActor)
    (currentIds : List EnrollmentId) :
    Follows (replaceOrder s dto actor currentIds)
      (Enroll.replaceOrder s ⟨dto.ids.dedup, List.nodup_dedup _⟩ actor currentIds) := by
  cases hsame : sameMembers (currentIds.map Uuid.write)
      (dto.orderedEnrollmentIds.map Uuid.Text.chars) with
  | false =>
    unfold replaceOrder
    rw [hsame]
    exact .throw _ _
  | true =>
    have hstored := stored_of_sameMembers hsame
    have hchars : dto.orderedEnrollmentIds.map Uuid.Text.chars = dto.ids.map Uuid.write := by
      unfold ReorderWaitlistDto.ids
      rw [List.map_map]
      exact List.map_congr_left fun t ht => (hstored t ht).1
    have hids : dto.ids.dedup = dto.ids :=
      List.dedup_eq_self.mpr (List.Nodup.of_map Uuid.write (hchars ▸ dto.unique))
    have heq : replaceOrder s dto actor currentIds
        = Enroll.replaceOrder s ⟨dto.ids.dedup, List.nodup_dedup _⟩ actor currentIds := by
      unfold replaceOrder Enroll.replaceOrder
      simp only [hids, hchars, sameMembers_write]
    rw [heq]
    exact .refl _

theorem reorder_follows (s : SectionId) (dto : ReorderWaitlistDto) (actor : RequestActor) :
    Follows (reorder s dto actor)
      (Enroll.reorder s ⟨dto.ids.dedup, List.nodup_dedup _⟩ actor) :=
  Follows.bind (.refl _) fun _ => Follows.bind (.refl _) fun _ =>
    Follows.bind (.refl _) fun _ => replaceOrder_follows s dto actor _

/-- What `swap` does with the row that it finds. -/
theorem swap_starts (id : EnrollmentId) (target : Uuid.Text) (u : UserId) (actor : RequestActor) :
    Starts (Request.swap id target u actor).OwnAsStored (swap id target u actor)
      (Enroll.swap id ⟨target.id⟩ u actor) := by
  refine Starts.lift fun w x found ws hok hexec => ?_
  obtain ⟨rfl, -⟩ := Prod.mk.inj (Except.ok.inj (Option.some.inj hexec))
  have heval : Query.eval (.enrollmentFindUnique id) w
      = (w.db.enrollment? id).map w.db.joinEnrollment := rfl
  rw [heval]
  cases hfound : w.db.enrollment? id with
  | none => exact .throw _ _
  | some r =>
    obtain ⟨hmem, hid⟩ := enrollment?_mem hfound
    show Follows
      ((Prog.throwIf (!r.active) _).bind fun _ =>
        if Uuid.write r.sectionId = target.chars then swapSame _ else swapInto id _ _ u actor)
      ((Prog.throwIf (!r.active) _).bind fun _ =>
        if r.sectionId = target.id then swapSame _ else swapInto id _ _ u actor)
    cases hactive : r.active with
    | false => exact .throw _ _
    | true =>
      have hsame : Uuid.write r.sectionId = target.chars ↔ r.sectionId = target.id :=
        Uuid.Text.write_eq_chars.trans
          ⟨And.left, fun hsec => ⟨hsec, hok r hmem hid hactive hsec⟩⟩
      refine Follows.bind (.refl _) fun _ => ?_
      rw [if_congr hsame rfl rfl]
      exact .refl _

/-- The registrar, asked in texts. -/
abbrev addressed : Txn.Follower registrar where
  Op := Request
  body := Request.body
  reads := Request.op
  ok := Request.OwnAsStored
  starts req := by
    cases req with
    | swap id target u actor => exact (swap_starts id target u actor).bind fun _ => .refl _
    | reorder s dto actor =>
      exact .follows ((reorder_follows s dto actor).bind fun _ => .refl _)
    | enroll input u actor => exact .follows (.refl _)
    | drop id u actor => exact .follows (.refl _)
    | runPromotion s => exact .follows (.refl _)
    | expireSectionWaitlist s => exact .follows (.refl _)
    | updateSection s dto actor => exact .follows (.refl _)

abbrev Sys := Txn.Sys addressed.service

/-! ## 4. The audit log -/

/-- Only a commit writes. -/
theorem tables_of_step {S : Txn.Service postgres} {sys sys' : Txn.Sys S} {l : Label S}
    (hs : sys.step l = some sys') (hl : ∀ t, l ≠ .commit t) :
    ∃ ref, sys'.world.db = { sys.world.db with ref := ref } := by
  cases l with
  | begin t op =>
    obtain ⟨-, rfl⟩ := Discipline.begin_cases hs
    exact ⟨_, rfl⟩
  | exec t x =>
    obtain ⟨ses, s, k, r, c', -, -, -, -, ses', -, -, -, -, rfl, -⟩ := Discipline.stepExec_cases hs
    exact ⟨sys.world.db.ref, by cases s <;> rfl⟩
  | commit t => exact absurd rfl (hl t)
  | rollback t =>
    obtain ⟨ses, e, -, -, rfl⟩ := Discipline.rollback_cases hs
    exact ⟨_, rfl⟩
  | crash t =>
    rw [Discipline.crash_cases hs]
    exact ⟨_, rfl⟩
  | env e =>
    rw [Discipline.env_cases hs]
    cases e with
    | tick ms => exact ⟨_, rfl⟩
    | reference ref => exact ⟨ref, rfl⟩

/-- **The audit log is a faithful history of what is asked in texts**, as long as every swap that
finds its row in the section it names has named the section as the database does. -/
theorem history_of_texts {w : World} (hv : w.Valid) {sys : Sys}
    (hr : Txn.Sys.Reach addressed.Meets (Txn.Sys.init w) sys) :
    (∃ rows, sys.world.db.auditOutbox = w.db.auditOutbox ++ rows ∧
      Faithful w.db.tables rows sys.world.db) ∧
    (∀ l sys', sys.step l = some sys' → (∀ t, l ≠ .commit t) →
      sys'.world.db.auditOutbox = sys.world.db.auditOutbox) ∧
    (∀ t ses sys', sys.sessions t = some ses → sys.step (.commit t) = some sys' →
      ses.op.op.Repeats sys.world.db →
        sys'.world.db.auditOutbox = sys.world.db.auditOutbox) := by
  obtain ⟨reg, hr', hlead⟩ := Txn.Follower.run hr
  obtain ⟨hrows, -, hrepeats⟩ := audit_log_faithful hv hr'
  refine ⟨?_, fun l sys' hs hl => ?_, fun t ses sys' ht hs hrep => ?_⟩
  · rw [hlead.world] at hrows
    exact hrows
  · obtain ⟨ref, hdb⟩ := tables_of_step hs hl
    rw [hdb]
  · obtain ⟨op, a, reg', -, hs', -, hlead', ses₁, ses₂, ht₁, hop₁, ht₂, hop₂⟩ := hlead.commit hs
    obtain rfl := Option.some.inj (ht.symm.trans ht₁)
    have hsame := hrepeats t ses₂ reg' ht₂ hs' (by rw [hop₂, ← hop₁, hlead.world]; exact hrep)
    rw [hlead.world, hlead'.world] at hsame
    exact hsame

namespace Campus

open Enroll.Campus (reference actor)

def first : SectionId := 0xc0ffee00000040008000000000000010

def second : SectionId := 0xc0ffee00000040008000000000000011

/-- The id of a section in the database's spelling, and in capitals. -/
def firstStored : Uuid.Text := ⟨Uuid.write first, by decide⟩

def firstInCapitals : Uuid.Text := ⟨(Uuid.write first).map Char.toUpper, by decide⟩

def secondInCapitals : Uuid.Text := ⟨(Uuid.write second).map Char.toUpper, by decide⟩

/-- Two sections of one course, with two seats and with one. -/
def world : World :=
  ⟨⟨reference, [⟨first, "001", 5, 7, "MWF 9:00-9:50", 2, 0, none⟩,
    ⟨second, "002", 5, 7, "TR 9:00-9:50", 1, 0, none⟩], [], [], []⟩, 10, 0⟩

theorem world_valid : world.Valid := by
  refine ⟨⟨by decide, by decide, ?_, by decide, ?_⟩, ?_⟩ <;>
    · intro r hr
      exact absurd hr List.not_mem_nil

/-- Session `t` serves `req` in `n` statements, up to its commit. -/
def served (t : Nat) (req : Request) (n : Nat) (x : EnrollmentId) :
    List (Label addressed.service) :=
  .begin t req :: List.replicate n (.exec t x)

def serve (t : Nat) (req : Request) (n : Nat) (x : EnrollmentId) :
    List (Label addressed.service) := served t req n x ++ [.commit t]

/-- Student 1 has a seat in the first section, and swaps it for one in the same section, whose id
the request writes in capitals. -/
def ownInCapitals : List (Label addressed.service) :=
  serve 0 (.enroll ⟨first⟩ 1 (actor 1)) 13 100 ++
    served 1 (.swap 100 firstInCapitals 1 (actor 1)) 17 101

set_option maxRecDepth 8000 in
theorem ownInCapitals_runs :
    (Txn.Sys.run (Txn.Sys.init world) ownInCapitals).isSome = true := by decide

def beforeOwn : Sys := (Txn.Sys.run (Txn.Sys.init world) ownInCapitals).get ownInCapitals_runs

theorem beforeOwn_reached :
    Txn.Sys.Reach (fun _ _ => True) (Txn.Sys.init world) beforeOwn :=
  .of_run .refl (fun _ _ _ => trivial) (Option.some_get ownInCapitals_runs).symm

set_option maxRecDepth 8000 in
theorem own_commits : (beforeOwn.step (.commit 1)).isSome = true := by decide

def afterOwn : Sys := (beforeOwn.step (.commit 1)).get own_commits

/-- **A swap onto the row's own section is audited**, if it names the section in capitals. -/
theorem own_swap_is_audited :
    world.Valid ∧ Txn.Sys.Reach (fun _ _ => True) (Txn.Sys.init world) beforeOwn ∧
      (beforeOwn.sessions 1).map (fun ses => ses.op.op)
        = some (.swap 100 ⟨first⟩ 1 (actor 1)) ∧
      (∃ r ∈ beforeOwn.world.db.enrollments, r.id = 100 ∧ r.sectionId = first) ∧
      beforeOwn.step (.commit 1) = some afterOwn ∧
      beforeOwn.world.db.auditOutbox.map AuditOutbox.action = [.ENROLLMENT_CREATED] ∧
      afterOwn.world.db.auditOutbox.map AuditOutbox.action
        = [.ENROLLMENT_CREATED, .ENROLLMENT_SWAPPED] :=
  ⟨world_valid, beforeOwn_reached, rfl, by decide, (Option.some_get own_commits).symm, by decide,
    by decide⟩

/-- Students 1 and 2 have the seats of the first section, and student 3 waits.  Student 1 is about
to leave for the second section, whose id the request writes in capitals. -/
def leaving : List (Label addressed.service) :=
  serve 0 (.enroll ⟨first⟩ 1 (actor 1)) 13 100 ++ serve 1 (.enroll ⟨first⟩ 2 (actor 2)) 13 101 ++
    serve 2 (.enroll ⟨first⟩ 3 (actor 3)) 14 0xabc ++
    served 3 (.swap 100 secondInCapitals 1 (actor 1)) 17 103

set_option maxRecDepth 8000 in
theorem leaving_runs :
    (Txn.Sys.runIf addressed.Meets (Txn.Sys.init world) leaving).isSome = true := by decide

def beforeLeft : Sys :=
  (Txn.Sys.runIf addressed.Meets (Txn.Sys.init world) leaving).get leaving_runs

theorem beforeLeft_reached : Txn.Sys.Reach addressed.Meets (Txn.Sys.init world) beforeLeft :=
  .of_runIf .refl (Option.some_get leaving_runs).symm

/-- The waiting row's id, in capitals. -/
def waitingInCapitals : ReorderWaitlistDto :=
  ⟨[⟨(Uuid.write 0xabc).map Char.toUpper, by decide⟩], by decide⟩

/-- Then a reorder that writes the row in capitals is refused, student 3 is promoted, and student 2
is about to commit a swap onto the own section. -/
def later : List (Label addressed.service) :=
  leaving ++ .commit 3 :: served 4 (.reorder first waitingInCapitals (actor 4)) 2 104 ++
    .rollback 4 :: serve 5 (.runPromotion first) 8 105 ++
    served 6 (.swap 101 firstStored 2 (actor 2)) 2 106

set_option maxRecDepth 8000 in
theorem later_runs :
    (Txn.Sys.runIf addressed.Meets (Txn.Sys.init world) later).isSome = true := by decide

def afterLater : Sys :=
  (Txn.Sys.runIf addressed.Meets (Txn.Sys.init world) later).get later_runs

set_option maxRecDepth 8000 in
theorem later_commits : (afterLater.step (.commit 6)).isSome = true := by decide

def afterEnd : Sys := (afterLater.step (.commit 6)).get later_commits

set_option maxRecDepth 8000 in
theorem history_of_texts_later :
    afterLater.world.db.auditOutbox.map AuditOutbox.action
        = [.ENROLLMENT_CREATED, .ENROLLMENT_CREATED, .ENROLLMENT_WAITLISTED, .ENROLLMENT_SWAPPED,
          .ENROLLMENT_PROMOTED] ∧
      (∃ rows, afterLater.world.db.auditOutbox = world.db.auditOutbox ++ rows ∧
        Faithful world.db.tables rows afterLater.world.db) ∧
      afterEnd.world.db.auditOutbox = afterLater.world.db.auditOutbox := by
  have hr : Txn.Sys.Reach addressed.Meets (Txn.Sys.init world) afterLater :=
    .of_runIf .refl (Option.some_get later_runs).symm
  obtain ⟨hrows, -, hrepeats⟩ := history_of_texts world_valid hr
  refine ⟨by decide, hrows, ?_⟩
  have hrow : ∃ r ∈ afterLater.world.db.enrollments, r.id = 101 ∧ r.sectionId = first := by decide
  exact hrepeats 6 _ afterEnd rfl (Option.some_get later_commits).symm hrow

end Campus

/-! ## 5. The promotions that are asked for -/

/-- **A promotion is asked for exactly where a commit has opened a seat**, under the same
condition. -/
theorem seats_of_texts {w : World} (hv : w.Valid) {sys sys' : Sys}
    (hr : Txn.Sys.Reach addressed.Meets (Txn.Sys.init w) sys) {l : Label addressed.service}
    (hs : sys.step l = some sys') (s : SectionId) :
    Opens sys.world sys'.world s ↔ ∃ t req out, l = .commit t ∧
      sys'.finished = (t, req, .ok out) :: sys.finished ∧ s ∈ owed req.op out := by
  by_cases hcommit : ∃ t, l = .commit t
  · obtain ⟨t, rfl⟩ := hcommit
    obtain ⟨reg, hr', hlead⟩ := Txn.Follower.run hr
    obtain ⟨req, out, reg', hfin, hs', hfin', hlead', -⟩ := hlead.commit hs
    rw [← hlead.world, ← hlead'.world, opened_seats_are_announced hv hr' hs' s]
    constructor
    · rintro ⟨t', op', out', -, hfin₂, howed⟩
      obtain ⟨hhead, -⟩ := List.cons.inj (hfin'.symm.trans hfin₂)
      simp only [Prod.mk.injEq, Except.ok.injEq] at hhead
      obtain ⟨-, rfl, rfl⟩ := hhead
      exact ⟨t, req, out, rfl, hfin, howed⟩
    · rintro ⟨t', req', out', -, hfin₂, howed⟩
      obtain ⟨hhead, -⟩ := List.cons.inj (hfin.symm.trans hfin₂)
      simp only [Prod.mk.injEq, Except.ok.injEq] at hhead
      obtain ⟨-, rfl, rfl⟩ := hhead
      exact ⟨t, req.op, out, rfl, hfin', howed⟩
  · obtain ⟨ref, hdb⟩ := tables_of_step hs fun t hl => hcommit ⟨t, hl⟩
    refine iff_of_false (not_opens_of_same ?_) fun ⟨t, _, _, hl, _⟩ => hcommit ⟨t, hl⟩
    rw [hdb]
    rfl

namespace Campus

open Enroll.Campus (actor)

set_option maxRecDepth 8000 in
theorem leaving_commits : (beforeLeft.step (.commit 3)).isSome = true := by decide

def afterLeft : Sys := (beforeLeft.step (.commit 3)).get leaving_commits

/-- The seat that student 1 gives up is announced. -/
theorem seats_of_texts_left : Opens beforeLeft.world afterLeft.world first :=
  (seats_of_texts world_valid beforeLeft_reached (Option.some_get leaving_commits).symm first).mpr
    ⟨3, .swap 100 secondInCapitals 1 (actor 1), _, rfl, rfl, by decide⟩

end Campus

end Enroll.Spelled
