/-
# The waitlist page of an administrator

`WaitlistPage` renders the waitlist of a section on the server and hands it to `WaitlistReorder`,
which takes it as the first value of its state `order` and moves rows about in that.  Saving sends
the ids of `order` to `PATCH /sections/:id/waitlist`, which accepts them if they are the waitlist's.
Meanwhile students join and leave, and renders are on their way to the browser.

While the component is mounted its rows stay the rows that it was mounted with (`Known`): a refresh
renders the page anew and leaves `order` alone.  So a save commits exactly when those are the rows
of the waitlist still (`save_commits_iff`); and once a row of the page has left the waitlist no save
commits until the component is mounted again, and `Refresh` does not do that
(`stale_page_saves_nothing`).
-/
import Enroll.Changes
import Enroll.Machine
import Enroll.Txn.Trace
import Enroll.Waitlist

namespace Enroll.ReorderPage

open Txn (Label Session Discipline)

/-! ## 1. The component -/

/-- How a save ends for the component. -/
inductive Reply where
  | saved
  /-- 409 WAITLIST_CHANGED -/
  | changed
  | failed
  deriving DecidableEq, Repr

/-- `pending`: the request and its response. -/
inductive Saving where
  | idle
  /-- the request with the body `ids` is served as session `t` -/
  | sent (t : Nat) (ids : List EnrollmentId)
  | answered (r : Reply)
  deriving DecidableEq, Repr

/-- The state of a mounted `WaitlistReorder`. -/
structure Page where
  order : List EnrollmentId
  saving : Saving
  stale : Bool
  error : Bool
  deriving DecidableEq, Repr

namespace Page

variable (page : Page)

/-- `useState(entries)`. -/
def mount (entries : List EnrollmentId) : Page := ⟨entries, .idle, false, false⟩

/-- `move(index, direction)`. -/
def move (index : Nat) (direction : Int) : Page :=
  let target := (index : Int) + direction
  if target < 0 ∨ (page.order.length : Int) ≤ target then page
  else
    match page.order[index]?, page.order[target.toNat]? with
    | some a, some b => { page with order := (page.order.set index b).set target.toNat a }
    | _, _ => page

/-- The page's save is session `t`. -/
def waitsFor (t : Nat) : Bool :=
  match page.saving with
  | .sent t' _ => t' == t
  | _ => false

/-- Session `t` ends. -/
def close (t : Nat) (r : Reply) : Page :=
  if page.waitsFor t then { page with saving := .answered r } else page

/-- What a step of the database means for a save. -/
def hear (sys' : Sys) : Label registrar → Page
  | .commit t => page.close t .saved
  | .rollback t =>
    match sys'.finished with
    | (_, _, .error (.http ⟨_, some .WAITLIST_CHANGED, _⟩)) :: _ => page.close t .changed
    | _ => page.close t .failed
  | .crash t => page.close t .failed
  | .begin _ _ => page
  | .exec _ _ => page
  | .env _ => page

/-- The response of a save. -/
def receive (r : Reply) : Page :=
  match r with
  | .saved => { page with saving := .idle }
  | .changed => { page with saving := .idle, stale := true }
  | .failed => { page with saving := .idle, error := true }

end Page

/-! ## 2. The page and the server -/

/-- What `WaitlistPage` has rendered: whether the viewer is an administrator, and the waitlist. -/
structure Render where
  isAdmin : Bool
  entries : List EnrollmentId

/-- The server, the renders on their way to the browser, and the component if it is mounted. -/
structure Desk where
  sys : Sys
  renders : List Render
  page : Option Page

inductive Event where
  | db (l : Label registrar)
  /-- the server renders the page: a first visit, or `router.refresh()` -/
  | render (isAdmin : Bool)
  /-- a render reaches the browser -/
  | deliver (i : Nat)
  | move (index : Nat) (direction : Int)
  /-- `save()`; the request is session `t` -/
  | save (t : Nat)
  /-- the response arrives, or is lost on its way -/
  | response (lost : Bool)
  /-- the administrator goes to another page -/
  | leave

/-- The component after a render: mounted, kept as it is, or unmounted. -/
def Render.apply (r : Render) (page : Option Page) : Option Page :=
  if r.isAdmin && !r.entries.isEmpty then some (page.getD (.mount r.entries)) else none

/-- The page of section `s` in the hands of `actor`. -/
structure Visit where
  sectionId : SectionId
  actor : RequestActor

namespace Desk

def init (w : World) : Desk := ⟨Txn.Sys.init w, [], none⟩

/-- One event; `none` when it cannot happen. -/
def step (v : Visit) (desk : Desk) : Event → Option Desk
  | .db l => (desk.sys.step l).map fun sys' =>
    { desk with sys := sys', page := desk.page.map fun page => page.hear sys' l }
  | .render isAdmin =>
    some { desk with renders := ⟨isAdmin, desk.sys.world.db.wl v.sectionId⟩ :: desk.renders }
  | .deliver i =>
    match desk.renders[i]? with
    | none => none
    | some r => some { desk with renders := desk.renders.eraseIdx i, page := r.apply desk.page }
  | .move index direction =>
    desk.page.map fun page => { desk with page := some (page.move index direction) }
  | .save t =>
    match desk.page with
    | none => none
    | some page =>
      if page.saving = .idle then
        if h : page.order.Nodup then
          (desk.sys.step (.begin t (.reorder v.sectionId ⟨page.order, h⟩ v.actor))).map fun sys' =>
            { desk with
              sys := sys'
              page := some
                { page with saving := .sent t page.order, stale := false, error := false } }
        else some { desk with
          page := some { page with saving := .answered .failed, stale := false, error := false } }
      else none
  | .response lost =>
    match desk.page with
    | some page =>
      match page.saving with
      | .answered r => some { desk with page := some (page.receive (if lost then .failed else r)) }
      | _ => none
    | none => none
  | .leave => some { desk with page := none }

end Desk

/-! ## 3. What an event does -/

variable {v : Visit} {desk desk' : Desk}

theorem db_cases {l : Label registrar} (h : desk.step v (.db l) = some desk') :
    ∃ sys', desk.sys.step l = some sys' ∧
      desk' = { desk with sys := sys', page := desk.page.map fun page => page.hear sys' l } := by
  obtain ⟨sys', hs, rfl⟩ := Option.map_eq_some_iff.mp h
  exact ⟨sys', hs, rfl⟩

theorem deliver_cases {i : Nat} (h : desk.step v (.deliver i) = some desk') :
    ∃ r, r ∈ desk.renders ∧
      desk' = { desk with renders := desk.renders.eraseIdx i, page := r.apply desk.page } := by
  simp only [Desk.step] at h
  split at h
  · exact absurd h (by simp)
  · rename_i r hr
    exact ⟨r, List.mem_of_getElem? hr, (Option.some.inj h).symm⟩

theorem move_cases {index : Nat} {direction : Int}
    (h : desk.step v (.move index direction) = some desk') :
    ∃ page, desk.page = some page ∧
      desk' = { desk with page := some (page.move index direction) } := by
  obtain ⟨page, hpage, rfl⟩ := Option.map_eq_some_iff.mp h
  exact ⟨page, hpage, rfl⟩

theorem save_cases {t : Nat} (h : desk.step v (.save t) = some desk') :
    ∃ page, desk.page = some page ∧ page.saving = .idle ∧
      ((∃ dto sys', dto.orderedEnrollmentIds = page.order ∧
        desk.sys.step (.begin t (.reorder v.sectionId dto v.actor)) = some sys' ∧
        desk' = { desk with
          sys := sys'
          page := some
            { page with saving := .sent t page.order, stale := false, error := false } }) ∨
      ¬ page.order.Nodup ∧ desk' = { desk with
        page := some { page with saving := .answered .failed, stale := false, error := false } }) := by
  simp only [Desk.step] at h
  split at h
  · exact absurd h (by simp)
  · rename_i page hpage
    split at h
    · rename_i hidle
      refine ⟨page, hpage, hidle, ?_⟩
      split at h
      · rename_i hnd
        obtain ⟨sys', hs, rfl⟩ := Option.map_eq_some_iff.mp h
        exact .inl ⟨⟨page.order, hnd⟩, sys', rfl, hs, rfl⟩
      · exact .inr ⟨‹_›, (Option.some.inj h).symm⟩
    · exact absurd h (by simp)

theorem response_cases {lost : Bool} (h : desk.step v (.response lost) = some desk') :
    ∃ page r, desk.page = some page ∧ desk' = { desk with page := some (page.receive r) } := by
  simp only [Desk.step] at h
  split at h
  · rename_i page hpage
    split at h
    · exact ⟨page, _, hpage, (Option.some.inj h).symm⟩
    · exact absurd h (by simp)
  · exact absurd h (by simp)

/-- An event, as the database sees it. -/
theorem sys_of_step {e : Event} (h : desk.step v e = some desk') :
    desk'.sys = desk.sys ∨ ∃ l, desk.sys.step l = some desk'.sys := by
  cases e with
  | db l =>
    obtain ⟨sys', hs, rfl⟩ := db_cases h
    exact .inr ⟨l, hs⟩
  | render isAdmin => exact Option.some.inj h ▸ .inl rfl
  | deliver i =>
    obtain ⟨r, -, rfl⟩ := deliver_cases h
    exact .inl rfl
  | move index direction =>
    obtain ⟨page, -, rfl⟩ := move_cases h
    exact .inl rfl
  | save t =>
    obtain ⟨page, -, -, ⟨dto, sys', -, hs, rfl⟩ | ⟨-, rfl⟩⟩ := save_cases h
    · exact .inr ⟨_, hs⟩
    · exact .inl rfl
  | response lost =>
    obtain ⟨page, r, -, rfl⟩ := response_cases h
    exact .inl rfl
  | leave => exact Option.some.inj h ▸ .inl rfl

/-- The rows that are shown stay the same. -/
theorem move_perm (page : Page) (index : Nat) (direction : Int) :
    (page.move index direction).order.Perm page.order := by
  unfold Page.move
  simp only
  split
  · exact .refl _
  · split
    · rename_i a b ha hb
      obtain ⟨hi, rfl⟩ := List.getElem?_eq_some_iff.mp ha
      obtain ⟨hj, rfl⟩ := List.getElem?_eq_some_iff.mp hb
      exact List.set_set_perm hi hj
    · exact .refl _

theorem move_saving (page : Page) (index : Nat) (direction : Int) :
    (page.move index direction).saving = page.saving := by
  unfold Page.move
  simp only
  split
  · rfl
  · split <;> rfl

theorem close_order (page : Page) (t : Nat) (r : Reply) : (page.close t r).order = page.order := by
  unfold Page.close
  split <;> rfl

theorem hear_order (page : Page) (sys' : Sys) (l : Label registrar) :
    (page.hear sys' l).order = page.order := by
  cases l with
  | commit t => exact close_order page t _
  | rollback t =>
    simp only [Page.hear]
    split <;> exact close_order page t _
  | crash t => exact close_order page t _
  | begin t op => rfl
  | exec t x => rfl
  | env e => rfl

theorem receive_order (page : Page) (r : Reply) : (page.receive r).order = page.order := by
  cases r <;> rfl

/-- A save that is still on its way has not ended. -/
theorem sent_of_hear {page : Page} {sys' : Sys} {l : Label registrar} {t : Nat}
    {ids : List EnrollmentId} (h : (page.hear sys' l).saving = .sent t ids) :
    page.saving = .sent t ids ∧ l.ends ≠ some t := by
  have hclose {t' : Nat} {r : Reply} (hr : (page.close t' r).saving = .sent t ids) :
      page.saving = .sent t ids ∧ t' ≠ t := by
    unfold Page.close at hr
    split at hr
    · exact absurd hr (by simp)
    · rename_i hno
      refine ⟨hr, fun he => hno ?_⟩
      simp [Page.waitsFor, hr, he]
  have hne {t' : Nat} (h' : page.saving = .sent t ids ∧ t' ≠ t) :
      page.saving = .sent t ids ∧ some t' ≠ some t := ⟨h'.1, fun he => h'.2 (Option.some.inj he)⟩
  cases l with
  | commit t' => exact hne (hclose h)
  | rollback t' =>
    simp only [Page.hear] at h
    split at h <;> exact hne (hclose h)
  | crash t' => exact hne (hclose h)
  | begin t' op => exact ⟨h, by simp [Label.ends]⟩
  | exec t' x => exact ⟨h, by simp [Label.ends]⟩
  | env e => exact ⟨h, by simp [Label.ends]⟩

/-! ## 4. Rows of the section -/

/-- Row `x` is of section `s`. -/
def RowOf (w : World) (s : SectionId) (x : EnrollmentId) : Prop :=
  ∃ r, w.db.enrollment? x = some r ∧ r.sectionId = s

/-- It is, and does not wait. -/
def Left (w : World) (s : SectionId) (x : EnrollmentId) : Prop :=
  ∃ r, w.db.enrollment? x = some r ∧ r.sectionId = s ∧ r.status ≠ .WAITLISTED

section Rows

variable {X : Extra} {w w' : World} {s : SectionId} {x : EnrollmentId} {sys sys' : Sys}
  {l : Label registrar}

theorem RowOf.grows (hv : w'.Valid) (hg : Grows w w') (h : RowOf w s x) : RowOf w' s x := by
  obtain ⟨r, hr, rfl⟩ := h
  exact hg.enrollment? hv hr

theorem rowOf_of_mem_wl (hv : w.Valid) (h : x ∈ w.db.wl s) : RowOf w s x := by
  obtain ⟨r, hr, rfl⟩ := mem_wl.mp h
  obtain ⟨hmem, hsec, -⟩ := mem_waiting.mp hr
  exact ⟨r, hv.db.enrollment?_of_mem hmem, hsec⟩

theorem left_iff (hv : w.Valid) (h : RowOf w s x) : Left w s x ↔ x ∉ w.db.wl s := by
  obtain ⟨r, hr, hsec⟩ := h
  constructor
  · rintro ⟨r', hr', -, hst⟩ hmem
    obtain rfl := Option.some.inj (hr.symm.trans hr')
    obtain ⟨r'', hwait, rfl⟩ := mem_wl.mp hmem
    obtain ⟨hin, -, hst'⟩ := mem_waiting.mp hwait
    obtain rfl := Option.some.inj (hr.symm.trans (hv.db.enrollment?_of_mem hin))
    exact hst hst'
  · intro hno
    refine ⟨r, hr, hsec, fun hst => hno ?_⟩
    obtain ⟨hin, hid⟩ := enrollment?_mem hr
    exact mem_wl.mpr ⟨r, mem_waiting.mpr ⟨hin, hsec, hst⟩, hid⟩

/-- A row that does not wait any more never does again. -/
theorem left_of_step (hG : (discipline X).Good sys) (hs : sys.step l = some sys')
    (hv' : sys'.world.Valid) (h : Left sys.world s x) : Left sys'.world s x := by
  obtain ⟨r, hr, rfl, hst⟩ := h
  obtain ⟨r', hr', hsec⟩ := (grows_of_step hG hs).enrollment? hv' hr
  refine ⟨r', hr', hsec, ?_⟩
  obtain ⟨f, hf, -⟩ := fares_of_step hG hs x
  have hturns := hf.row
  rw [hr, hr'] at hturns
  cases f with
  | kept =>
    simp only [Fate.Turns, Option.map_some, Option.some.injEq, Prod.mk.injEq] at hturns
    rw [hturns.1]
    exact hst
  | created => exact absurd hturns.1 (by simp)
  | departed b =>
    obtain ⟨r₁, r₂, -, h₂, -, hdropped, -⟩ := hturns
    obtain rfl := Option.some.inj h₂
    rw [hdropped]
    decide
  | promoted =>
    obtain ⟨r₁, r₂, h₁, -, hwait, -⟩ := hturns
    obtain rfl := Option.some.inj h₁
    exact absurd hwait hst

end Rows

/-! ## 5. What is shown -/

abbrev Runs (v : Visit) (C : Desk → Event → Prop) : Desk → Desk → Prop :=
  Machine.Reach (Desk.step v) C

variable {C : Desk → Event → Prop} {w : World}

theorem Runs.sys (h : Runs v C desk desk') :
    Txn.Sys.Reach (fun _ _ => True) desk.sys desk'.sys := by
  induction h with
  | refl => exact .refl
  | tail _ _ hs ih =>
    rcases sys_of_step hs with he | ⟨l, hl⟩
    · rw [he]
      exact ih
    · exact ih.tail trivial hl

/-- A list of the section's rows, each once. -/
def Listing (w : World) (s : SectionId) (ids : List EnrollmentId) : Prop :=
  ids.Nodup ∧ ∀ x ∈ ids, RowOf w s x

theorem Listing.perm {s : SectionId} {ids ids' : List EnrollmentId} (hp : ids'.Perm ids)
    (h : Listing w s ids) : Listing w s ids' :=
  ⟨hp.nodup_iff.mpr h.1, fun x hx => h.2 x (hp.mem_iff.mp hx)⟩

theorem Listing.grows {w' : World} {s : SectionId} {ids : List EnrollmentId} (hv : w'.Valid)
    (hg : Grows w w') (h : Listing w s ids) : Listing w' s ids :=
  ⟨h.1, fun x hx => (h.2 x hx).grows hv hg⟩

/-- Renders and the component list rows of the section, and a save on its way was sent with those of
the component. -/
structure Known (v : Visit) (desk : Desk) : Prop where
  renders : ∀ r ∈ desk.renders, Listing desk.sys.world v.sectionId r.entries
  page : ∀ page, desk.page = some page → Listing desk.sys.world v.sectionId page.order
  sent : ∀ page t ids, desk.page = some page → page.saving = .sent t ids →
    ids.Perm page.order ∧ ∃ ses dto, desk.sys.sessions t = some ses ∧
      ses.op = .reorder v.sectionId dto v.actor ∧ dto.orderedEnrollmentIds = ids

namespace Known

/-- The registrar takes a step, of which the page may hear. -/
theorem db {l : Label registrar} (hG : (discipline Extra.none).Good desk.sys) (h : Known v desk)
    (hs : desk.step v (.db l) = some desk') (hv' : desk'.sys.world.Valid) : Known v desk' := by
  obtain ⟨sys', hl, rfl⟩ := db_cases hs
  have hg := grows_of_step hG hl
  refine ⟨fun r hr => (h.renders r hr).grows hv' hg, fun page' hpage' => ?_,
    fun page' t ids hpage' hsent => ?_⟩
  · obtain ⟨page, hpage, rfl⟩ := Option.map_eq_some_iff.mp hpage'
    rw [hear_order]
    exact (h.page page hpage).grows hv' hg
  · obtain ⟨page, hpage, rfl⟩ := Option.map_eq_some_iff.mp hpage'
    obtain ⟨hsent, hends⟩ := sent_of_hear hsent
    obtain ⟨hperm, ses, dto, ht, hop, hids⟩ := h.sent page t ids hpage hsent
    obtain ⟨ses', ht', hop'⟩ := Txn.stays_of_step hl ht hends
    exact ⟨(hear_order page sys' l).symm ▸ hperm, ses', dto, ht', hop'.trans hop, hids⟩

/-- A rendering mounts the component, or leaves the mounted one as it is. -/
theorem deliver {i : Nat} (h : Known v desk) (hs : desk.step v (.deliver i) = some desk') :
    Known v desk' := by
  obtain ⟨r, hr, rfl⟩ := deliver_cases hs
  have happly {page : Page} (hpage : r.apply desk.page = some page) :
      desk.page = some page ∨ page = .mount r.entries := by
    unfold Render.apply at hpage
    split at hpage
    · cases hp : desk.page with
      | none =>
        rw [hp] at hpage
        exact .inr (Option.some.inj hpage).symm
      | some page₀ =>
        rw [hp] at hpage
        exact .inl hpage
    · exact absurd hpage (by simp)
  refine ⟨fun r' hr' => h.renders r' (List.mem_of_mem_eraseIdx hr'), fun page hpage => ?_,
    fun page t ids hpage hsent => ?_⟩
  · rcases happly hpage with hp | rfl
    · exact h.page page hp
    · exact h.renders r hr
  · rcases happly hpage with hp | rfl
    · exact h.sent page t ids hp hsent
    · exact absurd hsent (by simp [Page.mount])

/-- A save begins a reorder with the rows that are shown. -/
theorem save {t : Nat} (hG : (discipline Extra.none).Good desk.sys) (h : Known v desk)
    (hs : desk.step v (.save t) = some desk') (hv' : desk'.sys.world.Valid) : Known v desk' := by
  obtain ⟨page, hpage, -, ⟨dto, sys', hdto, hl, rfl⟩ | ⟨hdup, -⟩⟩ := save_cases hs
  · have hg := grows_of_step hG hl
    refine ⟨fun r hr => (h.renders r hr).grows hv' hg, fun page' hp => ?_,
      fun page' t' ids hp hsent => ?_⟩
    · obtain rfl := Option.some.inj hp
      exact (h.page page hpage).grows hv' hg
    · obtain rfl := Option.some.inj hp
      obtain ⟨rfl, rfl⟩ := Saving.sent.inj hsent
      obtain ⟨-, rfl⟩ := Discipline.begin_cases hl
      exact ⟨.refl _, _, dto, Function.update_self _ _ _, rfl, hdto⟩
  · exact absurd (h.page page hpage).1 hdup

theorem tail (hv : w.Valid) (hr : Runs v C (.init w) desk) (h : Known v desk) {e : Event}
    (hs : desk.step v e = some desk') : Known v desk' := by
  have hG := locks_run hv (Runs.sys hr)
  have hreach' : Txn.Sys.Reach (fun _ _ => True) (Txn.Sys.init w) desk'.sys := by
    rcases sys_of_step hs with he | ⟨l, hl⟩
    · exact he ▸ Runs.sys hr
    · exact (Runs.sys hr).tail trivial hl
  have hv' := (locks_run hv hreach').inv.1
  cases e with
  | db l => exact h.db hG hs hv'
  | render isAdmin =>
    obtain rfl := Option.some.inj hs
    refine ⟨fun r hr => ?_, h.page, h.sent⟩
    rcases List.mem_cons.mp hr with rfl | hr
    · exact ⟨hv'.db.nodup_wl _, fun x hx => rowOf_of_mem_wl hv' hx⟩
    · exact h.renders r hr
  | deliver i => exact h.deliver hs
  | move index direction =>
    obtain ⟨page, hpage, rfl⟩ := move_cases hs
    have hperm := move_perm page index direction
    refine ⟨h.renders, fun page' hp => ?_, fun page' t ids hp hsent => ?_⟩
    · obtain rfl := Option.some.inj hp
      exact (h.page page hpage).perm hperm
    · obtain rfl := Option.some.inj hp
      rw [move_saving] at hsent
      obtain ⟨hids, hses⟩ := h.sent page t ids hpage hsent
      exact ⟨hids.trans hperm.symm, hses⟩
  | save t => exact h.save hG hs hv'
  | response lost =>
    obtain ⟨page, r, hpage, rfl⟩ := response_cases hs
    refine ⟨h.renders, fun page' hp => ?_, fun page' t ids hp hsent => ?_⟩
    · obtain rfl := Option.some.inj hp
      rw [receive_order]
      exact h.page page hpage
    · obtain rfl := Option.some.inj hp
      cases r <;> exact absurd hsent (by simp [Page.receive])
  | leave =>
    obtain rfl := Option.some.inj hs
    exact ⟨h.renders, fun page hp => absurd hp (by simp), fun page t ids hp => absurd hp (by simp)⟩

end Known

/-- **The component shows rows of the section, each once, and saves what it shows.** -/
theorem known_run (hv : w.Valid) (hr : Runs v C (.init w) desk) : Known v desk := by
  induction hr with
  | refl =>
    exact ⟨fun r hr => absurd hr List.not_mem_nil, fun page hp => absurd hp (by simp [Desk.init]),
      fun page t ids hp => absurd hp (by simp [Desk.init])⟩
  | tail hr _ hs ih => exact ih.tail hv hr hs

/-! ## 6. What is saved -/

/-- A save that ends has sent the waitlist, in some order, or has been refused. -/
theorem ends_of_sent (hv : w.Valid) (hr : Runs v C (.init w) desk) {page : Page}
    (hpage : desk.page = some page) {t : Nat} {ids : List EnrollmentId}
    (hsent : page.saving = .sent t ids) {ses : Session registrar}
    (ht : desk.sys.sessions t = some ses) :
    (∀ a, ses.prog = .pure a → page.order.Perm (desk.sys.world.db.wl v.sectionId)) ∧
      ∀ e, ses.prog = .throw e → desk.sys.world.db.section? v.sectionId = none ∨
        ¬ page.order.Perm (desk.sys.world.db.wl v.sectionId) := by
  have hG := locks_run hv (Runs.sys hr)
  obtain ⟨hperm, ses', dto, ht', hop, rfl⟩ := (known_run hv hr).sent page t ids hpage hsent
  obtain rfl := Option.some.inj (ht.symm.trans ht')
  refine ⟨fun a hp => ?_, fun e hp => ?_⟩
  · have ho : Outcome Extra.none ses.op (desk.sys.ctx t ses) := hG.post ht hp
    rw [hop] at ho
    obtain ⟨live, t', n, ho⟩ := ho
    exact hperm.symm.trans ho.perm
  · have hf : Failed ses.op e (desk.sys.ctx t ses) := hG.post_error ht hp
    rw [hop] at hf
    rcases hf.2 with hnone | ⟨live, -, hno⟩
    · exact .inl hnone
    · exact .inr fun horder => hno (hperm.trans horder)

/-- **A save commits exactly when the rows that are shown are those of the waitlist**, and then it
puts them in the order that was shown when it was sent. -/
theorem save_commits_iff (hv : w.Valid) (hp : Positioned w) (hr : Runs v C (.init w) desk)
    {page : Page} (hpage : desk.page = some page) {t : Nat} {ids : List EnrollmentId}
    (hsent : page.saving = .sent t ids) :
    (∀ desk', desk.step v (.db (.commit t)) = some desk' →
      page.order.Perm (desk.sys.world.db.wl v.sectionId) ∧ ids.Perm page.order ∧
        desk'.sys.world.db.wl v.sectionId = ids) ∧
      ∀ desk', desk.step v (.db (.rollback t)) = some desk' →
        desk.sys.world.db.section? v.sectionId = none ∨
          ¬ page.order.Perm (desk.sys.world.db.wl v.sectionId) := by
  obtain ⟨hperm, ses, dto, ht, hop, rfl⟩ := (known_run hv hr).sent page t ids hpage hsent
  obtain ⟨hpure, hthrow⟩ := ends_of_sent hv hr hpage hsent ht
  refine ⟨fun desk' hs => ?_, fun desk' hs => ?_⟩
  · obtain ⟨sys', hl, rfl⟩ := db_cases hs
    obtain ⟨ses', a, ht', hprog, -⟩ := Discipline.commit_cases hl
    obtain rfl := Option.some.inj (ht.symm.trans ht')
    refine ⟨hpure a hprog, hperm, ?_⟩
    have hcommit := wl_commit (positioning_run hv hp (Runs.sys hr)) ht hl v.sectionId
    rw [hop] at hcommit
    simp only [Op.action, if_true] at hcommit
    exact hcommit
  · obtain ⟨sys', hl, rfl⟩ := db_cases hs
    obtain ⟨ses', e, ht', hprog, -⟩ := Discipline.rollback_cases hl
    obtain rfl := Option.some.inj (ht.symm.trans ht')
    exact hthrow e hprog

/-- The event leaves the component mounted. -/
def stays (desk : Desk) : Event → Bool
  | .leave => false
  | .deliver i => (desk.renders[i]?).all fun r => r.isAdmin && !r.entries.isEmpty
  | _ => true

/-- What is mounted keeps its rows, whatever is rendered anew. -/
theorem kept_of_step {page : Page} (hpage : desk.page = some page) {e : Event}
    (hc : stays desk e = true) (hs : desk.step v e = some desk') :
    ∃ page', desk'.page = some page' ∧ page'.order.Perm page.order := by
  cases e with
  | db l =>
    obtain ⟨sys', -, rfl⟩ := db_cases hs
    exact ⟨page.hear sys' l, congrArg (Option.map _) hpage, by rw [hear_order]⟩
  | render isAdmin => exact Option.some.inj hs ▸ ⟨page, hpage, .refl _⟩
  | deliver i =>
    simp only [Desk.step] at hs
    cases hi : desk.renders[i]? with
    | none => simp [hi] at hs
    | some r =>
      simp only [hi, Option.some.injEq] at hs
      subst hs
      simp only [stays, hi, Option.all_some] at hc
      refine ⟨page, ?_, .refl _⟩
      simp only [Render.apply, hc, if_true, hpage, Option.getD_some]
  | move index direction =>
    obtain ⟨page₀, hpage₀, rfl⟩ := move_cases hs
    obtain rfl := Option.some.inj (hpage.symm.trans hpage₀)
    exact ⟨_, rfl, move_perm page index direction⟩
  | save t =>
    obtain ⟨page₀, hpage₀, -, ⟨dto, sys', -, -, rfl⟩ | ⟨-, rfl⟩⟩ := save_cases hs <;>
      · obtain rfl := Option.some.inj (hpage.symm.trans hpage₀)
        exact ⟨_, rfl, .refl _⟩
  | response lost =>
    obtain ⟨page₀, r, hpage₀, rfl⟩ := response_cases hs
    obtain rfl := Option.some.inj (hpage.symm.trans hpage₀)
    exact ⟨_, rfl, by rw [receive_order]⟩
  | leave => exact absurd hc Bool.false_ne_true

/-- **A page that shows somebody who has left the waitlist saves nothing any more**: however often it
is refreshed, as long as the component stays mounted it shows the same rows, and no save commits. -/
theorem stale_page_saves_nothing (hv : w.Valid) (hr : Runs v C (.init w) desk) {page : Page}
    (hpage : desk.page = some page) {x : EnrollmentId} (hx : x ∈ page.order)
    (hleft : x ∉ desk.sys.world.db.wl v.sectionId)
    (hr' : Runs v (fun desk e => stays desk e = true) desk desk') :
    ∃ page', desk'.page = some page' ∧ page'.order.Perm page.order ∧
      x ∉ desk'.sys.world.db.wl v.sectionId ∧
        ∀ t ids, page'.saving = .sent t ids → desk'.step v (.db (.commit t)) = none := by
  have hr : Runs v (fun _ _ => True) (.init w) desk := hr.mono fun _ _ _ => trivial
  have hrow := ((known_run hv hr).page page hpage).2 x hx
  have hstart := (left_iff (locks_run hv (Runs.sys hr)).inv.1 hrow).mpr hleft
  have hmounted : ∃ page', desk'.page = some page' ∧ page'.order.Perm page.order ∧
      Left desk'.sys.world v.sectionId x := by
    induction hr' with
    | refl => exact ⟨page, hpage, .refl _, hstart⟩
    | tail hr' hc hs ih =>
      obtain ⟨page₁, hpage₁, hperm₁, hleft₁⟩ := ih
      obtain ⟨page₂, hpage₂, hperm₂⟩ := kept_of_step hpage₁ hc hs
      refine ⟨page₂, hpage₂, hperm₂.trans hperm₁, ?_⟩
      have hreach := Runs.sys (hr.trans (hr'.mono fun _ _ _ => trivial))
      rcases sys_of_step hs with he | ⟨l, hl⟩
      · exact he ▸ hleft₁
      · have hvalid := (locks_run hv (hreach.tail trivial hl)).inv.1
        exact left_of_step (locks_run hv hreach) hl hvalid hleft₁
  obtain ⟨page', hpage', hperm, hleft'⟩ := hmounted
  have hrun : Runs v (fun _ _ => True) (.init w) desk' := hr.trans (hr'.mono fun _ _ _ => trivial)
  have hv' := (locks_run hv (Runs.sys hrun)).inv.1
  have hx' := hperm.mem_iff.mpr hx
  have hgone := (left_iff hv' (((known_run hv hrun).page page' hpage').2 x hx')).mp hleft'
  refine ⟨page', hpage', hperm, hgone, fun t ids hsent => ?_⟩
  cases hs : desk'.step v (.db (.commit t)) with
  | none => rfl
  | some desk'' =>
    obtain ⟨sys', hl, -⟩ := db_cases hs
    obtain ⟨ses, a, ht, hprog, -⟩ := Discipline.commit_cases hl
    exact absurd (((ends_of_sent hv hrun hpage' hsent ht).1 a hprog).mem_iff.mp hx') hgone

namespace Campus

open Enroll.Campus (world world_valid world_positioned execs serve actor busy)

/-- The administrator at the page of section 10. -/
def visit : Visit := ⟨10, actor 4⟩

/-- Students 2 and 3 wait for section 10 and are shown, as rows 101 and 102. -/
def shown : List Event :=
  (busy ++ serve 2 (Enroll.Campus.enroll 3 10) 14 102).map .db ++ [.render true, .deliver 0]

/-- Student 3 is moved to the top. -/
def saving : List Event := shown ++ [.move 1 (-1), .save 3] ++ (execs 3 5 0).map .db

/-- Student 2 has left when that is saved. -/
def refusing : List Event :=
  shown ++ (serve 3 (.drop 101 2 (actor 2)) 7 0).map .db ++ [.move 1 (-1), .save 4] ++
    (execs 4 2 0).map .db

/-- The save is refused. -/
def refused : List Event := refusing ++ [.db (.rollback 4), .response false]

/-- The administrator refreshes the page, and saves again. -/
def refreshed : List Event := [.render true, .deliver 0, .save 5] ++ (execs 5 2 0).map .db

def run (events : List Event) : Option Desk :=
  Machine.runIf (Desk.step visit) stays (.init world) events

theorem reach_of_run {events : List Event} {desk : Desk} (h : run events = some desk) :
    Runs visit (fun desk e => stays desk e = true) (.init world) desk :=
  Machine.Reach.of_runIf (fun _ _ h => h) .refl h

set_option maxRecDepth 8000 in
theorem saving_runs : (run saving).isSome = true := by decide

def sent : Desk := (run saving).get saving_runs

set_option maxRecDepth 8000 in
theorem sent_page : sent.page = some ⟨[102, 101], .sent 3 [102, 101], false, false⟩ := by decide

set_option maxRecDepth 8000 in
theorem refusing_runs : (run refusing).isSome = true := by decide

def stale : Desk := (run refusing).get refusing_runs

set_option maxRecDepth 8000 in
theorem stale_page : stale.page = some ⟨[102, 101], .sent 4 [102, 101], false, false⟩ := by decide

set_option maxRecDepth 8000 in
theorem stale_rolls_back : (stale.step visit (.db (.rollback 4))).isSome = true := by decide

set_option maxRecDepth 8000 in
/-- The first save puts student 3 first; the second shows a row that has left. -/
theorem save_commits_iff_saving :
    (((sent.step visit (.db (.commit 3))).map fun desk => desk.sys.world.db.wl 10) =
        some [102, 101] ∧
      ∀ desk', sent.step visit (.db (.commit 3)) = some desk' →
        [102, 101].Perm (sent.sys.world.db.wl 10) ∧ [102, 101].Perm [102, 101] ∧
          desk'.sys.world.db.wl 10 = [102, 101]) ∧
      (stale.sys.world.db.section? 10 = none ∨ ¬ [102, 101].Perm (stale.sys.world.db.wl 10)) :=
  ⟨⟨by decide, (save_commits_iff world_valid world_positioned
      (reach_of_run (Option.some_get saving_runs).symm) sent_page rfl).1⟩,
    (save_commits_iff world_valid world_positioned
      (reach_of_run (Option.some_get refusing_runs).symm) stale_page rfl).2 _
      (Option.some_get stale_rolls_back).symm⟩

set_option maxRecDepth 8000 in
theorem refused_runs : (run refused).isSome = true := by decide

/-- The page after the refusal. -/
def stalePage : Desk := (run refused).get refused_runs

set_option maxRecDepth 8000 in
theorem refreshed_runs :
    (Machine.runIf (Desk.step visit) stays stalePage refreshed).isSome = true := by decide

def again : Desk := (Machine.runIf (Desk.step visit) stays stalePage refreshed).get refreshed_runs

set_option maxRecDepth 8000 in
theorem stalePage_page : stalePage.page = some ⟨[102, 101], .idle, true, false⟩ := by decide

set_option maxRecDepth 8000 in
theorem stale_page_saves_nothing_refreshed :
    stalePage.page = some ⟨[102, 101], .idle, true, false⟩ ∧
      again.sys.world.db.wl 10 = [102] ∧
      again.page = some ⟨[102, 101], .sent 5 [102, 101], false, false⟩ ∧
      ∃ page', again.page = some page' ∧ page'.order.Perm [102, 101] ∧
        101 ∉ again.sys.world.db.wl 10 ∧
        ∀ t ids, page'.saving = .sent t ids → again.step visit (.db (.commit t)) = none :=
  ⟨stalePage_page, by decide, by decide,
    stale_page_saves_nothing world_valid
      (reach_of_run (Option.some_get refused_runs).symm) stalePage_page (by decide) (by decide)
      (Machine.Reach.of_runIf (fun _ _ h => h) .refl (Option.some_get refreshed_runs).symm)⟩

end Campus

end Enroll.ReorderPage
