/-
# The notifications of a student

`NotificationsService.list`, `markRead` and `markAllRead` as programs over the `Notification` table.
They run outside any transaction: every statement is committed at once, other requests come in
between, and the registrar's commits add rows.

Nobody's inbox depends on anybody else's.  What a user's requests find and what they are answered is
what it would be if the table had no rows but his and nobody else ever asked (`inbox_is_private`):
so a 404 tells nothing of whether the row exists.
-/
import Enroll.Paging
import Enroll.Schema
import Enroll.Txn.Shadow

namespace Enroll.Inbox

open Txn (Engine Label Prog Service Session Shadow Shadows)

abbrev NotificationId := Nat

/-! ## 1. The table -/

/-- A row of `Notification`; the columns that `createInTx` writes are `notice`. -/
structure Row where
  id : NotificationId
  notice : Notification
  readAt : Option Time
  deriving DecidableEq, Repr

def Row.unread (r : Row) : Bool := r.readAt.isNone

structure World where
  rows : List Row
  now : Time

namespace World

variable (w : World)

def hasRow (id : NotificationId) : Bool := w.rows.any fun r => r.id == id

def row? (id : NotificationId) : Option Row := Keyed.lookup Row.id id w.rows

/-- The table with the rows of user `u` only. -/
def of (u : UserId) : World := { w with rows := w.rows.filter fun r => r.notice.userId == u }

/-- `where: { userId, readAt: null }`, the second part as `unreadOnly` says. -/
def matching (userId : UserId) (unreadOnly : Bool) : List Row :=
  w.rows.filter fun r => r.notice.userId == userId && (!unreadOnly || r.unread)

/-- `Notification_pkey`. -/
def Valid : Prop := (w.rows.map Row.id).Nodup

end World

/-- `readAt` of a row, set. -/
def Row.read (readAt : Time) (r : Row) : Row := { r with readAt := some readAt }

/-! ## 2. Statements -/

inductive Stmt where
  | now
  /-- which of two queries that are sent together the database answers first -/
  | race
  | findMany (userId : UserId) (unreadOnly : Bool) (take : Nat)
  | count (userId : UserId)
  | findUnique (id : NotificationId)
  | update (id : NotificationId) (readAt : Time)
  | updateMany (userId : UserId) (readAt : Time)
  deriving DecidableEq, Repr

/-- What is left to the database. -/
inductive Input where
  | none
  | first (yes : Bool)
  /-- the rows of a query, in an order that the database may give them -/
  | order (rows : List Row)

inductive Failure where
  | notFound (code message : String)
  | db (e : DbError)
  deriving DecidableEq, Repr

namespace Stmt

def Res : Stmt → Type
  | now => Time
  | race => Bool
  | findMany _ _ _ => List Row
  | count _ => Nat
  | findUnique _ => Option Row
  | update _ _ => Row
  | updateMany _ _ => Nat

/-- `orderBy: { createdAt: 'desc' }`. -/
def newestFirst (a b : Row) : Bool := b.notice.createdAt ≤ a.notice.createdAt

def exec (s : Stmt) (x : Input) (w : World) : Option (Except Failure (s.Res × List Empty)) :=
  match s with
  | now => some (.ok (w.now, []))
  | race =>
    match x with
    | .first yes => some (.ok (yes, []))
    | _ => none
  | findMany userId unreadOnly take =>
    match x with
    | .order rows =>
      if rows.Perm (w.matching userId unreadOnly) ∧ rows.Pairwise (newestFirst · ·) then
        some (.ok (rows.take take, []))
      else none
    | _ => none
  | count userId => some (.ok ((w.matching userId true).length, []))
  | findUnique id => some (.ok (w.row? id, []))
  | update id readAt =>
    match w.row? id with
    | some r => some (.ok (r.read readAt, []))
    | none => some (.error (.db .recordNotFound))
  | updateMany userId _ => some (.ok ((w.matching userId true).length, []))

def effect (s : Stmt) (_ : Input) (w : World) : World :=
  match s with
  | update id readAt => { w with rows := Keyed.update Row.id id (Row.read readAt) w.rows }
  | updateMany userId readAt =>
    { w with rows := w.rows.map fun r =>
        if r.notice.userId == userId && r.unread then r.read readAt else r }
  | now => w
  | race => w
  | findMany _ _ _ => w
  | count _ => w
  | findUnique _ => w

end Stmt

/-- What happens besides the requests. -/
inductive EnvChange where
  /-- a transaction commits a row -/
  | created (id : NotificationId) (notice : Notification)
  | tick (ms : Time)

def World.env (w : World) : EnvChange → World
  | .created id notice =>
    if w.hasRow id then w else { w with rows := w.rows ++ [⟨id, notice, none⟩] }
  | .tick ms => { w with now := w.now + ms }

/-- The table, one statement at a time. -/
abbrev notificationStore : Engine where
  World := World
  Write := Empty
  Key := Empty
  Stmt := Stmt
  Res := Stmt.Res
  Input := Input
  Env := EnvChange
  Err := Failure
  decKey := inferInstance
  apply w _ := w
  env := World.env
  exec := Stmt.exec
  locks _ _ _ := []
  effect := Stmt.effect

instance : Txn.Autocommit notificationStore :=
  ⟨inferInstanceAs (IsEmpty Empty), inferInstanceAs (IsEmpty Empty)⟩

abbrev Call (α : Type) : Type := Prog notificationStore α

namespace Call

def now : Call Time := Prog.lift (E := notificationStore) Stmt.now

def race : Call Bool := Prog.lift (E := notificationStore) Stmt.race

def findMany (userId : UserId) (unreadOnly : Bool) (take : Nat) : Call (List Row) :=
  Prog.lift (E := notificationStore) (.findMany userId unreadOnly take)

def count (userId : UserId) : Call Nat := Prog.lift (E := notificationStore) (.count userId)

def findUnique (id : NotificationId) : Call (Option Row) :=
  Prog.lift (E := notificationStore) (.findUnique id)

def update (id : NotificationId) (readAt : Time) : Call Row :=
  Prog.lift (E := notificationStore) (.update id readAt)

def updateMany (userId : UserId) (readAt : Time) : Call Nat :=
  Prog.lift (E := notificationStore) (.updateMany userId readAt)

end Call

/-! ## 3. The service -/

structure NotificationItem where
  id : NotificationId
  type : NotificationType
  title : String
  body : String
  payload : NotificationPayload
  readAt : Option String
  createdAt : String
  deriving DecidableEq, Repr

structure NotificationsResponse where
  data : List NotificationItem
  unreadCount : Nat
  deriving DecidableEq, Repr

structure ListOptions where
  unreadOnly : Option Bool
  limit : Option Nat
  deriving DecidableEq, Repr

def toItem (row : Row) : NotificationItem where
  id := row.id
  type := row.notice.type
  title := row.notice.title
  body := row.notice.body
  payload := row.notice.payload
  readAt := row.readAt.map toISOString
  createdAt := toISOString row.notice.createdAt

/-- The two queries go out together. -/
def list (userId : UserId) (opts : ListOptions) : Call NotificationsResponse := do
  let take := min (opts.limit.getD 50) 100
  let unreadOnly := opts.unreadOnly.getD false
  let rowsFirst ← Call.race
  if rowsFirst then do
    let rows ← Call.findMany userId unreadOnly take
    let unreadCount ← Call.count userId
    pure ⟨rows.map toItem, unreadCount⟩
  else do
    let unreadCount ← Call.count userId
    let rows ← Call.findMany userId unreadOnly take
    pure ⟨rows.map toItem, unreadCount⟩

def notificationNotFound : Failure :=
  .notFound "NOTIFICATION_NOT_FOUND" "Notification does not exist."

/-- `markRead` with the user's own row. -/
def stamp (id : NotificationId) (row : Row) : Call NotificationItem :=
  match row.readAt with
  | some _ => pure (toItem row)
  | none => do
    let now ← Call.now
    let updated ← Call.update id now
    pure (toItem updated)

def markRead (userId : UserId) (id : NotificationId) : Call NotificationItem := do
  let found ← Call.findUnique id
  let row ← Prog.orThrow (found.filter fun row => row.notice.userId == userId) notificationNotFound
  stamp id row

def markAllRead (userId : UserId) : Call Nat := do
  let now ← Call.now
  Call.updateMany userId now

inductive Op where
  | list (userId : UserId) (opts : ListOptions)
  | markRead (userId : UserId) (id : NotificationId)
  | markAllRead (userId : UserId)
  deriving DecidableEq, Repr

/-- `@CurrentUser()`. -/
def Op.userId : Op → UserId
  | list userId _ => userId
  | markRead userId _ => userId
  | markAllRead userId => userId

inductive Out where
  | listed (response : NotificationsResponse)
  | marked (item : NotificationItem)
  | updated (count : Nat)
  deriving DecidableEq, Repr

def Op.body : Op → Call Out
  | list userId opts => do
    let response ← Inbox.list userId opts
    pure (.listed response)
  | markRead userId id => do
    let item ← Inbox.markRead userId id
    pure (.marked item)
  | markAllRead userId => do
    let count ← Inbox.markAllRead userId
    pure (.updated count)

abbrev notifications : Service notificationStore := ⟨Op, Out, Op.body⟩

abbrev Sys := Txn.Sys notifications

/-! ## 4. What a statement does -/

/-- The row is the same one; what was read stays read. -/
structure Row.Later (r r' : Row) : Prop where
  id : r'.id = r.id
  notice : r'.notice = r.notice
  read : r.readAt.isSome → r'.readAt.isSome

theorem Row.Later.refl (r : Row) : r.Later r := ⟨rfl, rfl, fun h => h⟩

theorem Row.Later.trans {r r' r'' : Row} (h : r.Later r') (h' : r'.Later r'') : r.Later r'' :=
  ⟨h'.id.trans h.id, h'.notice.trans h.notice, fun hr => h'.read (h.read hr)⟩

theorem Row.later_read (r : Row) (t : Time) : r.Later (r.read t) := ⟨rfl, rfl, fun _ => rfl⟩

/-- No row is lost, and none unread again. -/
def Kept (w w' : World) : Prop := ∀ r ∈ w.rows, ∃ r' ∈ w'.rows, r.Later r'

theorem Kept.refl (w : World) : Kept w w := fun r hr => ⟨r, hr, .refl r⟩

theorem Kept.trans {w w' w'' : World} (h : Kept w w') (h' : Kept w' w'') : Kept w w'' := by
  intro r hr
  obtain ⟨r', hr', hl⟩ := h r hr
  obtain ⟨r'', hr'', hl'⟩ := h' r' hr'
  exact ⟨r'', hr'', hl.trans hl'⟩

/-- What a statement does to a row. -/
def Stmt.onRow (s : Stmt) (r : Row) : Row :=
  match s with
  | update id readAt => if r.id = id then r.read readAt else r
  | updateMany userId readAt =>
    if r.notice.userId == userId && r.unread then r.read readAt else r
  | now => r
  | race => r
  | findMany _ _ _ => r
  | count _ => r
  | findUnique _ => r

theorem effect_eq (s : Stmt) (x : Input) (w : World) :
    s.effect x w = { w with rows := w.rows.map s.onRow } := by
  have hsame : { w with rows := w.rows.map fun r => r } = w := by rw [List.map_id']
  cases s with
  | update id readAt => rfl
  | updateMany userId readAt => rfl
  | _ => exact hsame.symm

theorem later_onRow (s : Stmt) (r : Row) : r.Later (s.onRow r) := by
  cases s with
  | update id readAt =>
    show r.Later (if r.id = id then r.read readAt else r)
    split
    · exact r.later_read readAt
    · exact .refl r
  | updateMany userId readAt =>
    show r.Later (if r.notice.userId == userId && r.unread then r.read readAt else r)
    split
    · exact r.later_read readAt
    · exact .refl r
  | _ => exact .refl r

theorem effect_kept (s : Stmt) (x : Input) (w : World) : Kept w (s.effect x w) := by
  intro r hr
  rw [effect_eq]
  exact ⟨s.onRow r, List.mem_map_of_mem hr, later_onRow s r⟩

theorem effect_valid (s : Stmt) (x : Input) {w : World} (hv : w.Valid) : (s.effect x w).Valid := by
  have hid : Row.id ∘ s.onRow = Row.id := funext fun r => (later_onRow s r).id
  unfold World.Valid
  rw [effect_eq]
  show ((w.rows.map s.onRow).map Row.id).Nodup
  rw [List.map_map, hid]
  exact hv

section User

variable {u : UserId} {w : World}

/-- A statement does the same to the rows of one user, whether the others are there or not. -/
theorem of_effect (s : Stmt) (x : Input) (w : World) :
    (s.effect x w).of u = s.effect x (w.of u) := by
  have huser : (fun r : Row => r.notice.userId == u) ∘ s.onRow = fun r => r.notice.userId == u :=
    funext fun r => by simp only [Function.comp, (later_onRow s r).notice]
  rw [effect_eq, effect_eq]
  simp only [World.of, List.filter_map, huser]

/-- A statement that does nothing to the rows of a user. -/
theorem of_effect_fixed {s : Stmt} (x : Input)
    (h : ∀ r ∈ w.rows, r.notice.userId = u → s.onRow r = r) : (s.effect x w).of u = w.of u := by
  rw [of_effect, effect_eq]
  have hfix : (w.of u).rows.map s.onRow = (w.of u).rows := by
    refine (List.map_congr_left fun r hr => ?_).trans (List.map_id _)
    obtain ⟨hmem, hu⟩ := List.mem_filter.mp hr
    exact h r hmem (by simpa using hu)
  rw [hfix]

theorem valid_of (hv : w.Valid) : (w.of u).Valid := hv.sublist (List.filter_sublist.map _)

theorem row?_mem {id : NotificationId} {r : Row} (h : w.row? id = some r) : r ∈ w.rows ∧ r.id = id :=
  Keyed.lookup_some h

theorem World.Valid.row? (hv : w.Valid) {r : Row} (hr : r ∈ w.rows) : w.row? r.id = some r :=
  Keyed.lookup_of_mem hv hr

/-- A row of the user is found among his rows. -/
theorem row?_of (hv : w.Valid) (id : NotificationId) :
    (w.of u).row? id = (w.row? id).filter fun r => r.notice.userId == u := by
  cases hrow : w.row? id with
  | none =>
    refine Keyed.lookup_none.mpr fun r hr he => ?_
    have hnone := Keyed.lookup_none.mp hrow r (List.mem_of_mem_filter hr)
    exact hnone he
  | some r =>
    obtain ⟨hr, rfl⟩ := row?_mem hrow
    rw [Option.filter_some]
    split
    · exact (valid_of hv).row? (List.mem_filter.mpr ⟨hr, ‹_›⟩)
    · rename_i hu
      refine Keyed.lookup_none.mpr fun r' hr' he => hu ?_
      obtain ⟨hmem, hu'⟩ := List.mem_filter.mp hr'
      obtain rfl := Keyed.eq_of_key_eq hv hmem hr he
      exact hu'

theorem matching_of (unreadOnly : Bool) :
    (w.of u).matching u unreadOnly = w.matching u unreadOnly := by
  unfold World.matching World.of
  rw [List.filter_filter]
  refine List.filter_congr fun r _ => ?_
  cases r.notice.userId == u <;> simp

end User

/-! ## 5. One user alone -/

/-- The service as it is when only user `u` asks, and only his rows are there. -/
def alone (u : UserId) : Shadow notifications where
  G := Unit
  rel _ w v := w.Valid ∧ v = w.of u
  later := Kept
  serves op := op.userId == u
  safe _ _ _ := True
  later_refl := Kept.refl
  later_trans _ _ _ := Kept.trans
  later_effect s x w _ _ := effect_kept s x w

section Alone

variable {u : UserId} {w : World} {α : Type}

/-- A statement that finds the user's rows and no others. -/
theorem blind_stmt {s : Stmt} {k : s.Res → Call α}
    (hs : ∀ x w', Kept w w' → w'.Valid → s.exec x (w'.of u) = s.exec x w')
    (hk : ∀ r w', Kept w w' → (alone u).Blind (k r) w') : (alone u).Blind (.stmt s k) w := by
  refine Shadow.Blind.same ?_ hk
  rintro g x w' v hw ⟨hv, rfl⟩ -
  exact ⟨hs x w' hw hv, effect_valid s x hv, (of_effect s x w').symm⟩

/-- A statement that leaves the user's rows alone. -/
theorem mute_stmt {s : Stmt} {k : s.Res → Call α}
    (hs : ∀ w', Kept w w' → w'.Valid → ∀ r ∈ w'.rows, r.notice.userId = u → s.onRow r = r)
    (hk : ∀ r w', Kept w w' → (alone u).Mute (k r) w') : (alone u).Mute (.stmt s k) w := by
  refine Shadow.Mute.silent ?_ hk
  rintro g x w' v hw ⟨hv, rfl⟩
  exact ⟨effect_valid s x hv, (of_effect_fixed x (hs w' hw hv)).symm⟩

theorem exec_findMany (unreadOnly : Bool) (take : Nat) (x : Input) (w : World) :
    Stmt.exec (.findMany u unreadOnly take) x (w.of u) =
      Stmt.exec (.findMany u unreadOnly take) x w := by
  simp only [Stmt.exec, matching_of]

theorem exec_count (x : Input) (w : World) :
    Stmt.exec (.count u) x (w.of u) = Stmt.exec (.count u) x w := by
  simp only [Stmt.exec, matching_of]

theorem exec_updateMany (t : Time) (x : Input) (w : World) :
    Stmt.exec (.updateMany u t) x (w.of u) = Stmt.exec (.updateMany u t) x w := by
  simp only [Stmt.exec, matching_of]

/-- A row stays its reader's. -/
theorem row?_later {w' : World} (hw : Kept w w') (hv : w'.Valid) {r : Row} (hr : r ∈ w.rows) :
    ∃ r', w'.row? r.id = some r' ∧ r'.notice = r.notice := by
  obtain ⟨r', hr', hl⟩ := hw r hr
  exact ⟨r', hl.id ▸ hv.row? hr', hl.notice⟩

theorem blind_list (opts : ListOptions) : (alone u).Blind (list u opts) w := by
  refine blind_stmt (fun x w' _ _ => rfl) fun first w' _ => ?_
  cases first with
  | true =>
    exact blind_stmt (fun x w' _ _ => exec_findMany _ _ x w') fun rows w' _ =>
      blind_stmt (fun x w' _ _ => exec_count x w') fun _ _ _ => trivial
  | false =>
    exact blind_stmt (fun x w' _ _ => exec_count x w') fun n w' _ =>
      blind_stmt (fun x w' _ _ => exec_findMany _ _ x w') fun _ _ _ => trivial

theorem blind_stamp {r : Row} (hr : r ∈ w.rows) (hu : r.notice.userId = u) :
    (alone u).Blind (stamp r.id r) w := by
  unfold stamp
  split
  · trivial
  · refine blind_stmt (fun x w' _ _ => rfl) fun now w₁ hw₁ => ?_
    refine blind_stmt (fun x w₂ hw₂ hv => ?_) fun _ _ _ => trivial
    obtain ⟨r', hrow, hnotice⟩ := row?_later (hw₁.trans hw₂) hv hr
    have hown : (w₂.of u).row? r.id = some r' := by
      rw [row?_of hv, hrow]
      exact Option.filter_some_pos (by simp [hnotice, hu])
    simp only [Stmt.exec, hrow, hown]

theorem blind_markRead (id : NotificationId) : (alone u).Blind (markRead u id) w := by
  rintro g x w' v out hw ⟨hv, rfl⟩ - hexec
  obtain rfl := Option.some.inj hexec
  refine ⟨⟨.ok ((w'.of u).row? id, []), rfl, ?_⟩, ⟨hv, rfl⟩, ?_⟩
  · show (Prog.orThrow (Option.filter _ ((w'.of u).row? id)) _).bind _ =
      (Prog.orThrow (Option.filter _ (w'.row? id)) _).bind _
    rw [row?_of hv, Option.filter_filter]
    simp only [Bool.and_self]
  · show (alone u).Blind ((Prog.orThrow (Option.filter _ (w'.row? id)) _).bind _) w'
    cases hrow : (w'.row? id).filter fun r => r.notice.userId == u with
    | none => trivial
    | some r =>
      obtain ⟨hfound, hu⟩ := Option.filter_eq_some_iff.mp hrow
      obtain ⟨hr, rfl⟩ := row?_mem hfound
      exact blind_stamp hr (beq_iff_eq.mp hu)

theorem blind_markAllRead : (alone u).Blind (markAllRead u) w :=
  blind_stmt (fun _ _ _ _ => rfl) fun _ _ _ =>
    blind_stmt (fun x w' _ _ => exec_updateMany _ x w') fun _ _ _ => trivial

/-- **A user's requests cannot tell whether anybody else is there.** -/
theorem blind_body (op : Op) (w : World) (hu : op.userId = u) : (alone u).Blind op.body w := by
  subst hu
  cases op with
  | list userId opts => exact (blind_list opts).bind fun _ _ _ => trivial
  | markRead userId id => exact (blind_markRead id).bind fun _ _ _ => trivial
  | markAllRead userId => exact blind_markAllRead.bind fun _ _ _ => trivial

theorem mute_stamp {r : Row} (hr : r ∈ w.rows) (hu : r.notice.userId ≠ u) :
    (alone u).Mute (stamp r.id r) w := by
  unfold stamp
  split
  · trivial
  · refine mute_stmt (fun w' _ _ _ _ _ => rfl) fun now w₁ hw₁ => ?_
    refine mute_stmt (fun w₂ hw₂ hv q hq hqu => ?_) fun _ _ _ => trivial
    refine if_neg fun he => hu ?_
    obtain ⟨r', hrow, hnotice⟩ := row?_later (hw₁.trans hw₂) hv hr
    rw [← he, hv.row? hq] at hrow
    obtain rfl := Option.some.inj hrow
    exact (congrArg Notification.userId hnotice.symm).trans hqu

theorem mute_markRead {userId : UserId} (hu : userId ≠ u) (id : NotificationId) :
    (alone u).Mute (markRead userId id) w := by
  rintro g x w' v out hw ⟨hv, rfl⟩ hexec
  obtain rfl := Option.some.inj hexec
  refine ⟨⟨hv, rfl⟩, ?_⟩
  show (alone u).Mute ((Prog.orThrow (Option.filter _ (w'.row? id)) _).bind _) w'
  cases hrow : (w'.row? id).filter fun r => r.notice.userId == userId with
  | none => trivial
  | some r =>
    obtain ⟨hfound, huser⟩ := Option.filter_eq_some_iff.mp hrow
    obtain ⟨hr, rfl⟩ := row?_mem hfound
    exact mute_stamp hr fun he => hu ((beq_iff_eq.mp huser).symm.trans he)

/-- **What others ask for does not show in a user's rows.** -/
theorem mute_body (op : Op) (w : World) (hu : op.userId ≠ u) : (alone u).Mute op.body w := by
  cases op with
  | list userId opts =>
    refine Shadow.Mute.bind ?_ fun _ _ _ => trivial
    refine mute_stmt (fun w' _ _ _ _ _ => rfl) fun first w' _ => ?_
    cases first <;>
      exact mute_stmt (fun w' _ _ _ _ _ => rfl) fun _ w' _ =>
        mute_stmt (fun w' _ _ _ _ _ => rfl) fun _ _ _ => trivial
  | markRead userId id => exact (mute_markRead hu id).bind fun _ _ _ => trivial
  | markAllRead userId =>
    refine Shadow.Mute.bind ?_ fun _ _ _ => trivial
    refine mute_stmt (fun w' _ _ _ _ _ => rfl) fun now w' _ => ?_
    refine mute_stmt (fun w' _ _ r _ hr => if_neg ?_) fun _ _ _ => trivial
    have hne : r.notice.userId ≠ userId := fun he => hu (he.symm.trans hr)
    simp [hne]

end Alone

/-! ## 6. Privacy -/

variable {u : UserId} {w : World} {sys sys' own : Sys}

/-- A new row has a new id. -/
def Fresh (sys : Sys) (l : Label notifications) : Prop :=
  ∀ id notice, l = .env (.created id notice) → sys.world.hasRow id = false

/-- The steps of a run in which only `u` asks, and only he is written to. -/
def OnlyBy (u : UserId) (sys : Sys) (l : Label notifications) : Prop :=
  Fresh sys l ∧ (∀ t op, l = .begin t op → op.userId = u) ∧
    ∀ id notice, l = .env (.created id notice) → notice.userId = u

theorem created_eq {id : NotificationId} (hfresh : w.hasRow id = false) (n : Notification) :
    w.env (.created id n) = { w with rows := w.rows ++ [⟨id, n, none⟩] } :=
  if_neg (by simp [hfresh])

theorem kept_created {id : NotificationId} (hfresh : w.hasRow id = false) (n : Notification) :
    Kept w (w.env (.created id n)) := by
  rw [created_eq hfresh]
  exact fun r hr => ⟨r, List.mem_append_left _ hr, .refl r⟩

theorem hasRow_false {id : NotificationId} : w.hasRow id = false ↔ ∀ r ∈ w.rows, r.id ≠ id := by
  simp [World.hasRow]

theorem valid_created {id : NotificationId} (hfresh : w.hasRow id = false) (hv : w.Valid)
    (n : Notification) : (w.env (.created id n)).Valid := by
  rw [created_eq hfresh]
  unfold World.Valid
  rw [List.map_append]
  refine List.Nodup.append hv (List.nodup_singleton _) ?_
  intro id' hmem hmem'
  obtain ⟨r, hr, rfl⟩ := List.mem_map.mp hmem
  exact hasRow_false.mp hfresh r hr (List.mem_singleton.mp hmem')

theorem hasRow_of {id : NotificationId} (hfresh : w.hasRow id = false) :
    (w.of u).hasRow id = false :=
  hasRow_false.mpr fun r hr => hasRow_false.mp hfresh r (List.mem_of_mem_filter hr)

/-- A step has its like where `u` is alone, or it does not show there. -/
theorem alone_step (h : Shadows (alone u) () sys own) {l : Label notifications}
    (hfresh : Fresh sys l) (hs : sys.step l = some sys') :
    Shadows (alone u) () sys' own ∨ OnlyBy u own l ∧ ∃ own', own.step l = some own' ∧
      Shadows (alone u) () sys' own' := by
  obtain ⟨hv, hown⟩ := h.world
  by_cases henv : ∃ e, l = .env e
  · obtain ⟨e, rfl⟩ := henv
    rw [Txn.Discipline.env_cases hs]
    cases e with
    | tick ms =>
      refine .inr ⟨⟨by rintro _ _ ⟨⟩, by rintro _ _ ⟨⟩, by rintro _ _ ⟨⟩⟩, _, rfl, ?_⟩
      exact h.env (Kept.refl _) ⟨hv, by rw [hown]; rfl⟩
    | created id n =>
      have hnew := hfresh id n rfl
      have hv' := valid_created hnew hv n
      by_cases hu : n.userId = u
      · have hnew' : own.world.hasRow id = false := hown ▸ hasRow_of hnew
        refine .inr ⟨⟨?_, by rintro _ _ ⟨⟩, ?_⟩, _, rfl, h.env (kept_created hnew n) ⟨hv', ?_⟩⟩
        · rintro _ _ ⟨⟩
          exact hnew'
        · rintro _ _ ⟨⟩
          exact hu
        · show World.env own.world (.created id n) = World.of (World.env sys.world (.created id n)) u
          rw [created_eq hnew', created_eq hnew, hown]
          simp [World.of, hu]
      · refine .inl (h.env (kept_created hnew n) ⟨hv', ?_⟩)
        show own.world = World.of (World.env sys.world (.created id n)) u
        rw [created_eq hnew, hown]
        simp [World.of, hu]
  · have henv (e : EnvChange) : l ≠ .env e := fun he => henv ⟨e, he⟩
    have hstep := (Shadows.step (fun op w hserves => blind_body op w (beq_iff_eq.mp hserves))
      (fun op w hserves => mute_body op w (beq_eq_false_iff_ne.mp hserves)) h henv
      (fun _ _ _ _ _ _ _ _ _ => trivial) hs).2
    refine hstep.imp_right fun ⟨hserves, hown'⟩ => ⟨⟨?_, ?_, ?_⟩, hown'⟩
    · exact fun id n he => absurd he (henv _)
    · exact fun t op hl => beq_iff_eq.mp (hserves t op hl)
    · exact fun id n he => absurd he (henv _)

theorem shadow_run (hv : w.Valid) (hr : Txn.Sys.Reach Fresh (Txn.Sys.init w) sys) (u : UserId) :
    ∃ own, Txn.Sys.Reach (OnlyBy u) (Txn.Sys.init (w.of u)) own ∧
      Shadows (alone u) () sys own := by
  induction hr with
  | refl => exact ⟨_, .refl, .init ⟨hv, rfl⟩⟩
  | tail _ hfresh hs ih =>
    obtain ⟨own, hreach, h⟩ := ih
    rcases alone_step h hfresh hs with h' | ⟨honly, own', hs', h'⟩
    · exact ⟨own, hreach, h'⟩
    · exact ⟨own', hreach.tail honly hs', h'⟩

/-- **Nobody's inbox depends on anybody else's**: of every run there is one in which only `u` asks
and only he is written to, and it brings him the same rows, has the same requests of his under way
and has given them the same answers. -/
theorem inbox_is_private (hv : w.Valid) (hr : Txn.Sys.Reach Fresh (Txn.Sys.init w) sys)
    (u : UserId) :
    ∃ own, Txn.Sys.Reach (OnlyBy u) (Txn.Sys.init (w.of u)) own ∧ own.world = sys.world.of u ∧
      (∀ t, own.sessions t = (sys.sessions t).filter fun ses => ses.op.userId == u) ∧
      own.finished = sys.finished.filter fun e => e.2.1.userId == u := by
  obtain ⟨own, hreach, h⟩ := shadow_run hv hr u
  exact ⟨own, hreach, h.world.2, h.sessions, h.finished⟩

namespace Campus

/-- Students 1 and 2 have one notice each. -/
def notice (userId : UserId) (createdAt : Time) : Notification :=
  ⟨userId, .WAITLIST_PROMOTED, "You were enrolled from the waitlist", "A seat opened.",
    ⟨100, 10, some 5⟩, createdAt⟩

def posted : World := ⟨[⟨7, notice 1 10, none⟩, ⟨8, notice 2 20, none⟩], 30⟩

theorem posted_valid : posted.Valid := by
  unfold World.Valid
  decide

/-- Student 1 reads his notice, and asks for the other's. -/
def prying : List (Label notifications) :=
  [.begin 0 (.markRead 1 7), .begin 1 (.markRead 1 8), .exec 0 .none, .exec 1 .none, .exec 0 .none,
    .exec 0 .none, .begin 2 (.list 2 ⟨none, none⟩), .rollback 1, .commit 0]

theorem prying_runs : (Txn.Sys.run (Txn.Sys.init posted) prying).isSome = true := by decide

def afterPrying : Sys := (Txn.Sys.run (Txn.Sys.init posted) prying).get prying_runs

/-- It is as if the other's notice did not exist. -/
theorem inbox_is_private_prying :
    (∃ own, Txn.Sys.Reach (OnlyBy 1) (Txn.Sys.init (posted.of 1)) own ∧
      own.world = afterPrying.world.of 1 ∧
      (∀ t, own.sessions t = (afterPrying.sessions t).filter fun ses => ses.op.userId == 1) ∧
      own.finished = afterPrying.finished.filter fun e => e.2.1.userId == 1) ∧
      (afterPrying.world.of 1).rows = [⟨7, notice 1 10, some 30⟩] ∧
      afterPrying.finished.map (fun e => e.2.2) =
        [.ok (.marked (toItem ⟨7, notice 1 10, some 30⟩)), .error notificationNotFound] := by
  refine ⟨inbox_is_private posted_valid (.of_run .refl ?_ (Option.some_get prying_runs).symm) 1,
    by decide, by decide⟩
  intro l hl sys id n he
  subst he
  exact absurd hl (by simp [prying])

end Campus

/-! ## 7. Who reads -/

/-- The statements of a request. -/
def Op.Writes : Op → Stmt → Prop
  | .markRead _ id, .update id' _ => id' = id
  | .markAllRead userId, .updateMany userId' _ => userId' = userId
  | _, .update _ _ => False
  | _, .updateMany _ _ => False
  | _, _ => True

theorem writes_stamp (userId : UserId) (id : NotificationId) (row : Row) :
    Txn.Only (Op.Writes (.markRead userId id)) (stamp id row) := by
  unfold stamp
  split
  · exact Txn.Only.pure
  · refine Txn.Only.bind (p := Call.now) (fun now => ?_) (Txn.Only.lift trivial)
    exact Txn.Only.bind (fun _ => Txn.Only.pure) (Txn.Only.lift rfl)

theorem writes_body (op : Op) : Txn.Only op.Writes op.body := by
  cases op with
  | list userId opts =>
    refine Txn.Only.bind (fun _ => Txn.Only.pure) ?_
    refine Txn.Only.bind (fun first => ?_) (Txn.Only.lift trivial)
    cases first <;>
      exact Txn.Only.bind (fun _ => Txn.Only.bind (fun _ => Txn.Only.pure) (Txn.Only.lift trivial))
        (Txn.Only.lift trivial)
  | markRead userId id =>
    refine Txn.Only.bind (fun _ => Txn.Only.pure) ?_
    refine Txn.Only.bind (fun found => ?_) (Txn.Only.lift trivial)
    exact Txn.Only.bind (fun row => writes_stamp userId id row) Txn.Only.orThrow
  | markAllRead userId =>
    refine Txn.Only.bind (fun _ => Txn.Only.pure) ?_
    refine Txn.Only.bind (p := Call.now) (fun now => ?_) (Txn.Only.lift trivial)
    exact Txn.Only.lift rfl

/-- A request by which a row is read. -/
def Op.Marks (op : Op) (r : Row) : Prop :=
  op = .markRead r.notice.userId r.id ∨ op = .markAllRead r.notice.userId

/-- **A row is there for good, and only its reader marks it.** -/
theorem row_of_step (hv : w.Valid) (hr : Txn.Sys.Reach Fresh (Txn.Sys.init w) sys)
    {l : Label notifications} (hfresh : Fresh sys l) (hs : sys.step l = some sys') {r : Row}
    (hmem : r ∈ sys.world.rows) :
    ∃ r' ∈ sys'.world.rows, r.Later r' ∧ (r' = r ∨ ∃ t x ses, l = .exec t x ∧
      sys.sessions t = some ses ∧ ses.op.Marks r) := by
  rcases Txn.Accord.world_cases hs with hw | ⟨t, x, ses, s, k, out, rfl, ht, hp, hexec, hw⟩ |
    ⟨e, rfl, hw⟩
  · exact ⟨r, hw.symm ▸ hmem, .refl r, .inl rfl⟩
  · have hmem' : s.onRow r ∈ sys'.world.rows := by
      rw [hw]
      show s.onRow r ∈ (Stmt.effect s x sys.world).rows
      rw [effect_eq]
      exact List.mem_map_of_mem hmem
    refine ⟨s.onRow r, hmem', later_onRow s r, ?_⟩
    by_cases hsame : s.onRow r = r
    · exact .inl hsame
    refine .inr ⟨t, x, ses, rfl, ht, ?_⟩
    have hasks := (Txn.Asks.run writes_body (fun t ses ht => absurd ht (by simp [Txn.Sys.init])) hr
      t ses ht).1
    rw [hp] at hasks
    have hwrites : ses.op.Writes s := hasks.1
    -- the others' statements leave the reader's rows alone
    have hreader : ses.op.userId = r.notice.userId := by
      by_contra hother
      obtain ⟨own, -, h⟩ := shadow_run hv hr r.notice.userId
      have hmute := h.mute t ses ht (beq_eq_false_iff_ne.mpr hother)
      rw [hp] at hmute
      obtain ⟨⟨hv', hown'⟩, -⟩ := hmute () x _ _ out (Kept.refl _) h.world hexec
      have hrows : (World.of (s.effect x sys.world) r.notice.userId) =
          World.of sys.world r.notice.userId := hown'.symm.trans h.world.2
      have hmem' : s.onRow r ∈ (World.of (s.effect x sys.world) r.notice.userId).rows := by
        rw [effect_eq]
        exact List.mem_filter.mpr ⟨List.mem_map_of_mem hmem, by simp [(later_onRow s r).notice]⟩
      rw [hrows] at hmem'
      exact hsame (Keyed.eq_of_key_eq h.world.1 (List.mem_of_mem_filter hmem') hmem
        (later_onRow s r).id)
    cases s with
    | update id readAt =>
      have hid : r.id = id := by
        by_contra hne
        exact hsame (if_neg hne)
      cases hop : ses.op with
      | markRead userId id' =>
        rw [hop] at hwrites hreader
        have hid' : id = id' := hwrites
        exact .inl (by rw [hid, hid', ← hreader]; rfl)
      | list userId opts => rw [hop] at hwrites; exact False.elim hwrites
      | markAllRead userId => rw [hop] at hwrites; exact False.elim hwrites
    | updateMany userId readAt =>
      cases hop : ses.op with
      | markAllRead userId' =>
        rw [hop] at hreader
        exact .inr (by rw [← hreader]; rfl)
      | list userId opts => rw [hop] at hwrites; exact False.elim hwrites
      | markRead userId id' => rw [hop] at hwrites; exact False.elim hwrites
    | _ => exact absurd rfl hsame
  · rw [hw]
    cases e with
    | tick ms => exact ⟨r, hmem, .refl r, .inl rfl⟩
    | created id n =>
      refine ⟨r, ?_, .refl r, .inl rfl⟩
      show r ∈ (World.env sys.world (.created id n)).rows
      rw [created_eq (hfresh id n rfl)]
      exact List.mem_append_left _ hmem

end Enroll.Inbox
