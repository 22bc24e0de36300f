/-
# Who may change what

Every route that changes something is behind the same guards: `JwtAuthGuard` asks who is calling,
`RolesGuard` asks for a role, and `EnrollmentOwnershipGuard` asks whose the enrollment of the path
is.  They are asked when the request arrives; the transaction begins later, and commits later still,
among the transactions of everybody else.  The workers of the process pass no guard.

`Front` is the registrar with this door in front of it, and `Ticket.May` is what an admitted caller
may do to a row.  In every run, every change to an enrollment, to the limits of a section and to the
audit outbox has somebody behind it who may make it (`every_change_is_authorized`).
-/
import Enroll.Changes
import Enroll.Machine
import Enroll.Ownership

namespace Enroll.Access

open Txn (Label Session Discipline)

/-! ## 1. The routes and their guards -/

/-- A request to one of the routes that change something. -/
inductive Route where
  /-- `POST /enrollments` -/
  | enroll (body : EnrollDto)
  /-- `PATCH /enrollments/:id/drop` -/
  | drop (id : EnrollmentId)
  /-- `PATCH /enrollments/:id/swap` -/
  | swap (id : EnrollmentId) (body : SwapDto)
  /-- `PATCH /sections/:id/waitlist` -/
  | reorder (id : SectionId) (body : ReorderWaitlistDto)
  /-- `PATCH /sections/:id` -/
  | update (id : SectionId) (body : UpdateSectionDto)

/-- What the guards and `requestContext` read of a request. -/
structure HttpRequest where
  access_token : Option String
  route : Route
  ip : Option String
  userAgent : Option String

/-- `reflector.getAllAndOverride(ROLES_KEY, [handler, class])`. -/
def getAllAndOverride (handler controller : Option (List Role)) : List Role :=
  (handler <|> controller).getD []

/-- The `@Roles()` of the handler and of its controller. -/
def Route.required : Route → List Role
  | enroll _ => getAllAndOverride none (some [.STUDENT])
  | drop _ => getAllAndOverride none (some [.STUDENT])
  | swap _ _ => getAllAndOverride none (some [.STUDENT])
  | reorder _ _ => getAllAndOverride (some [.ADMIN]) (some [.ADMIN, .ADVISOR])
  | update _ _ => getAllAndOverride (some [.ADMIN]) none

/-- The enrollment behind `@UseGuards(EnrollmentOwnershipGuard)`. -/
def Route.owned : Route → Option EnrollmentId
  | enroll _ => none
  | drop id => some id
  | swap id _ => some id
  | reorder _ _ => none
  | update _ _ => none

/-- What `JwtService.verifyAsync` makes of a token at a time. -/
abbrev Verifier := Time → String → Option JwtPayload

/-- `JwtAuthGuard.canActivate`; it answers `request.user`. -/
def jwtAuthGuard (verifyAsync : Verifier) (now : Time) (req : HttpRequest) :
    Except HttpException JwtPayload :=
  match req.access_token with
  | none => .error unauthorized
  | some token =>
    match verifyAsync now token with
    | none => .error unauthorized
    | some payload => .ok payload

/-- The guards of a route: those of its controller, then its own. -/
def guards (verifyAsync : Verifier) (w : World) (req : HttpRequest) :
    Except HttpException JwtPayload := do
  let user ← jwtAuthGuard verifyAsync w.now req
  rolesGuard req.route.required (some user)
  match req.route.owned with
  | none => pure user
  | some id => do
    enrollmentOwnershipGuard w.db (some user) (some id)
    pure user

def actorFrom (req : HttpRequest) (userId : UserId) : RequestActor :=
  ⟨userId, req.ip, req.userAgent⟩

/-- An admitted request. -/
structure Ticket where
  user : JwtPayload
  request : HttpRequest

/-- What the handler of the route calls. -/
def Ticket.op (k : Ticket) : Op :=
  let actor := actorFrom k.request k.user.sub
  match k.request.route with
  | .enroll body => .enroll body k.user.sub actor
  | .drop id => .drop id k.user.sub actor
  | .swap id body => .swap id body k.user.sub actor
  | .reorder id body => .reorder id body actor
  | .update id body => .updateSection id body actor

/-- What the workers of the process call. -/
inductive Work where
  | promotion (s : SectionId)
  | expiry (s : SectionId)

def Work.op : Work → Op
  | promotion s => .runPromotion s
  | expiry s => .expireSectionWaitlist s

section Guards

variable {verifyAsync : Verifier} {w : World} {req : HttpRequest} {user : JwtPayload}

/-- The role that a route asks for. -/
theorem role_of_rolesGuard {role : Role} (h : rolesGuard [role] (some user) = .ok ()) :
    role ∈ user.roles := by
  by_cases hrole : role ∈ user.roles
  · exact hrole
  · refine absurd h ?_
    simp [rolesGuard, hrole]

theorem passed_of_guards (h : guards verifyAsync w req = .ok user) :
    rolesGuard req.route.required (some user) = .ok () ∧
      ∀ id, req.route.owned = some id →
        enrollmentOwnershipGuard w.db (some user) (some id) = .ok () := by
  unfold guards at h
  cases hjwt : jwtAuthGuard verifyAsync w.now req with
  | error e =>
    rw [hjwt] at h
    exact absurd h (by simp [bind, Except.bind])
  | ok payload =>
    rw [hjwt] at h
    cases hroles : rolesGuard req.route.required (some payload) with
    | error e =>
      simp only [bind, Except.bind, hroles] at h
      exact absurd h (by simp)
    | ok u =>
      simp only [bind, Except.bind, hroles] at h
      cases hid : req.route.owned with
      | none =>
        simp only [hid, pure, Except.pure, Except.ok.injEq] at h
        subst h
        exact ⟨hroles, fun id h => absurd h (by simp)⟩
      | some id =>
        cases hown : enrollmentOwnershipGuard w.db (some payload) (some id) with
        | error e =>
          simp only [hid, hown] at h
          exact absurd h (by simp)
        | ok u' =>
          simp only [hid, hown, pure, Except.pure, Except.ok.injEq] at h
          subst h
          refine ⟨hroles, fun id' h => ?_⟩
          obtain rfl := Option.some.inj h
          exact hown

/-- Whom `EnrollmentOwnershipGuard` lets through. -/
def Holds (db : Db) (user : JwtPayload) (r : Enrollment) : Prop :=
  Role.ADMIN ∈ user.roles ∨ r.studentId = user.sub ∨
    Role.ADVISOR ∈ user.roles ∧ db.advisorOf r = some user.sub

theorem holds_of_ownershipGuard {db : Db} {id : EnrollmentId}
    (h : enrollmentOwnershipGuard db (some user) (some id) = .ok ()) :
    Role.ADMIN ∈ user.roles ∨ ∃ r, db.enrollment? id = some r ∧ Holds db user r := by
  by_cases hadmin : Role.ADMIN ∈ user.roles
  · exact .inl hadmin
  simp only [enrollmentOwnershipGuard, Option.bind_some, List.contains_eq_mem, hadmin,
    decide_false, Bool.false_eq_true, if_false] at h
  cases hrow : db.enrollment? id with
  | none =>
    rw [hrow] at h
    exact absurd h (by simp)
  | some r =>
    refine .inr ⟨r, rfl, ?_⟩
    rw [hrow] at h
    by_cases hmine : r.studentId = user.sub
    · exact .inr (.inl hmine)
    by_cases hadvisor : Role.ADVISOR ∈ user.roles
    · by_cases hadvisee : db.advisorOf r = some user.sub
      · exact .inr (.inr ⟨hadvisor, hadvisee⟩)
      · refine absurd h ?_
        simp [hmine, hadvisor, hadvisee]
    · refine absurd h ?_
      simp [hmine, hadvisor]

end Guards

/-! ## 2. The registrar behind its door -/

/-- The database, and the request that each session serves; the workers' sessions serve none. -/
structure Front where
  sys : Sys
  caller : Nat → Option Ticket

inductive Event where
  /-- a request arrives, and is to be session `t` -/
  | arrive (t : Nat) (req : HttpRequest)
  /-- its handler begins the transaction -/
  | handle (t : Nat)
  /-- a worker begins one -/
  | work (t : Nat) (work : Work)
  /-- any other step of the database -/
  | db (l : Label registrar)

namespace Front

def init (w : World) : Front := ⟨Txn.Sys.init w, fun _ => none⟩

/-- Nobody is session `t`. -/
def free (front : Front) (t : Nat) : Bool :=
  (front.caller t).isNone && (front.sys.sessions t).isNone

/-- One event; `none` when it cannot happen. -/
def step (verifyAsync : Verifier) (front : Front) : Event → Option Front
  | .arrive t req =>
    if front.free t then
      match guards verifyAsync front.sys.world req with
      | .error _ => some front
      | .ok user => some { front with caller := Function.update front.caller t (some ⟨user, req⟩) }
    else none
  | .handle t =>
    match front.caller t with
    | none => none
    | some k => (front.sys.step (.begin t k.op)).map fun sys' => { front with sys := sys' }
  | .work t work =>
    if front.free t then
      (front.sys.step (.begin t work.op)).map fun sys' => { front with sys := sys' }
    else none
  | .db l =>
    match l with
    | .begin _ _ => none
    | l => (front.sys.step l).map fun sys' =>
      ⟨sys', fun t => if l.ends = some t then none else front.caller t⟩

/-- What session `t` runs. -/
def Serves (front : Front) (t : Nat) (op : Op) : Prop :=
  match front.caller t with
  | some k => op = k.op
  | none => ∃ work : Work, op = work.op

end Front

variable {verifyAsync : Verifier} {front front' : Front} {w : World}

theorem free_iff {t : Nat} :
    front.free t = true ↔ front.caller t = none ∧ front.sys.sessions t = none := by
  unfold Front.free
  rw [Bool.and_eq_true, Option.isNone_iff_eq_none, Option.isNone_iff_eq_none]

theorem arrive_cases {t : Nat} {req : HttpRequest}
    (h : front.step verifyAsync (.arrive t req) = some front') :
    front.caller t = none ∧ front.sys.sessions t = none ∧
      (front' = front ∨ ∃ user, guards verifyAsync front.sys.world req = .ok user ∧
        front' = { front with caller := Function.update front.caller t (some ⟨user, req⟩) }) := by
  simp only [Front.step] at h
  split at h
  · rename_i hfree
    obtain ⟨hcaller, hsession⟩ := free_iff.mp hfree
    refine ⟨hcaller, hsession, ?_⟩
    cases hg : guards verifyAsync front.sys.world req with
    | error e => simp only [hg, Option.some.injEq] at h; exact .inl h.symm
    | ok user => simp only [hg, Option.some.injEq] at h; exact .inr ⟨user, rfl, h.symm⟩
  · exact absurd h (by simp)

theorem handle_cases {t : Nat} (h : front.step verifyAsync (.handle t) = some front') :
    ∃ k sys', front.caller t = some k ∧ front.sys.step (.begin t k.op) = some sys' ∧
      front' = { front with sys := sys' } := by
  simp only [Front.step] at h
  cases hk : front.caller t with
  | none => simp [hk] at h
  | some k =>
    simp only [hk] at h
    obtain ⟨sys', hs, rfl⟩ := Option.map_eq_some_iff.mp h
    exact ⟨k, sys', rfl, hs, rfl⟩

theorem work_cases {t : Nat} {work : Work}
    (h : front.step verifyAsync (.work t work) = some front') :
    front.caller t = none ∧ ∃ sys', front.sys.step (.begin t work.op) = some sys' ∧
      front' = { front with sys := sys' } := by
  simp only [Front.step] at h
  split at h
  · rename_i hfree
    obtain ⟨sys', hs, rfl⟩ := Option.map_eq_some_iff.mp h
    exact ⟨(free_iff.mp hfree).1, sys', hs, rfl⟩
  · exact absurd h (by simp)

theorem db_cases {l : Label registrar} (h : front.step verifyAsync (.db l) = some front') :
    (∀ t op, l ≠ .begin t op) ∧ ∃ sys', front.sys.step l = some sys' ∧
      front' = ⟨sys', fun t => if l.ends = some t then none else front.caller t⟩ := by
  have hmap (hstep : (front.sys.step l).map (fun sys' =>
      (⟨sys', fun t => if l.ends = some t then none else front.caller t⟩ : Front)) = some front') :
      ∃ sys', front.sys.step l = some sys' ∧
        front' = ⟨sys', fun t => if l.ends = some t then none else front.caller t⟩ := by
    obtain ⟨sys', hs, rfl⟩ := Option.map_eq_some_iff.mp hstep
    exact ⟨sys', hs, rfl⟩
  cases l with
  | begin t op => simp [Front.step] at h
  | exec t x => exact ⟨fun _ _ => by simp, hmap h⟩
  | commit t => exact ⟨fun _ _ => by simp, hmap h⟩
  | rollback t => exact ⟨fun _ _ => by simp, hmap h⟩
  | crash t => exact ⟨fun _ _ => by simp, hmap h⟩
  | env e => exact ⟨fun _ _ => by simp, hmap h⟩

/-- The label of an event, as the database sees it. -/
theorem sys_of_step {e : Event} (h : front.step verifyAsync e = some front') :
    front'.sys = front.sys ∨ ∃ l, front.sys.step l = some front'.sys := by
  cases e with
  | arrive t req =>
    obtain ⟨-, -, rfl | ⟨user, -, rfl⟩⟩ := arrive_cases h <;> exact .inl rfl
  | handle t =>
    obtain ⟨k, sys', -, hs, rfl⟩ := handle_cases h
    exact .inr ⟨_, hs⟩
  | work t work =>
    obtain ⟨-, sys', hs, rfl⟩ := work_cases h
    exact .inr ⟨_, hs⟩
  | db l =>
    obtain ⟨-, sys', hs, rfl⟩ := db_cases h
    exact .inr ⟨_, hs⟩

/-- A run of the whole. -/
abbrev Runs (verifyAsync : Verifier) : Front → Front → Prop :=
  Machine.Reach (Front.step verifyAsync) fun _ _ => True

theorem Runs.sys (h : Runs verifyAsync front front') :
    Txn.Sys.Reach (fun _ _ => True) front.sys front'.sys := by
  induction h with
  | refl => exact .refl
  | tail _ _ hs ih =>
    rcases sys_of_step hs with he | ⟨l, hl⟩
    · rw [he]
      exact ih
    · exact ih.tail trivial hl

/-! ## 3. Whom a session serves -/

/-- The ticket `k` of session `t` was admitted at `front₀`. -/
structure Admitted (verifyAsync : Verifier) (w : World) (front₀ front : Front) (t : Nat)
    (k : Ticket) : Prop where
  before : Runs verifyAsync (Front.init w) front₀
  since : Runs verifyAsync front₀ front
  caller : front.caller t = some k
  passed : guards verifyAsync front₀.sys.world k.request = .ok k.user

/-- Every caller was admitted, and every session serves a caller or is a worker's. -/
structure Known (verifyAsync : Verifier) (w : World) (front : Front) : Prop where
  admitted : ∀ t k, front.caller t = some k → ∃ front₀, Admitted verifyAsync w front₀ front t k
  serves : ∀ t ses, front.sys.sessions t = some ses → front.Serves t ses.op

theorem Admitted.tail {front₀ : Front} {t : Nat} {k : Ticket} {e : Event}
    (h : Admitted verifyAsync w front₀ front t k) (hs : front.step verifyAsync e = some front')
    (hk : front'.caller t = some k) : Admitted verifyAsync w front₀ front' t k :=
  ⟨h.before, h.since.tail trivial hs, hk, h.passed⟩

theorem Front.Serves.of_caller {t : Nat} {op : Op} (h : front.Serves t op)
    (hc : front'.caller t = front.caller t) : front'.Serves t op := by
  unfold Front.Serves at h ⊢
  rw [hc]
  exact h

theorem Front.Serves.of_ticket {t : Nat} {op : Op} {k : Ticket} (h : front.Serves t op)
    (hk : front.caller t = some k) : op = k.op := by
  unfold Front.Serves at h
  rw [hk] at h
  exact h

theorem Front.Serves.of_free {t : Nat} {op : Op} (h : front.Serves t op)
    (hk : front.caller t = none) : ∃ work : Work, op = work.op := by
  unfold Front.Serves at h
  rw [hk] at h
  exact h

/-- A session that begins as `op`, when that is what its caller asked for. -/
theorem serves_of_begin {sys' : Sys} {t : Nat} {op : Op}
    (h : ∀ t ses, front.sys.sessions t = some ses → front.Serves t ses.op)
    (hop : front.Serves t op) (hs : front.sys.step (.begin t op) = some sys') (t' : Nat)
    (ses : Session registrar) (ht : sys'.sessions t' = some ses) : front.Serves t' ses.op := by
  rcases Txn.op_of_step hs ht with ⟨ses₀, ht₀, hop₀⟩ | he
  · exact hop₀ ▸ h t' ses₀ ht₀
  · obtain ⟨rfl, rfl⟩ := Label.begin.inj he
    exact hop

theorem Known.tail {e : Event} (hr : Runs verifyAsync (Front.init w) front)
    (h : Known verifyAsync w front) (hs : front.step verifyAsync e = some front') :
    Known verifyAsync w front' := by
  have hkeep {t : Nat} {k : Ticket} (hk : front.caller t = some k)
      (hk' : front'.caller t = some k) :
      ∃ front₀, Admitted verifyAsync w front₀ front' t k :=
    (h.admitted t k hk).imp fun _ ha => ha.tail hs hk'
  cases e with
  | arrive t req =>
    obtain ⟨hnone, hsession, rfl | ⟨user, hpass, rfl⟩⟩ := arrive_cases hs
    · exact h
    refine ⟨fun t' k hk => ?_, fun t' ses ht' => ?_⟩
    · by_cases he : t' = t
      · subst he
        have hself : some (⟨user, req⟩ : Ticket) = some k :=
          (Function.update_self t' _ front.caller).symm.trans hk
        obtain rfl := Option.some.inj hself
        exact ⟨front, hr, Machine.Reach.refl.tail trivial hs, hk, hpass⟩
      · exact hkeep (by rw [← hk]; exact (Function.update_of_ne he _ _).symm) hk
    · have he : t' ≠ t := by
        rintro rfl
        exact absurd (hsession.symm.trans ht') (by simp)
      exact (h.serves t' ses ht').of_caller (Function.update_of_ne he _ _)
  | handle t =>
    obtain ⟨k, sys', hk, hstep, rfl⟩ := handle_cases hs
    refine ⟨fun t' k' hk' => hkeep hk' hk', fun t' ses ht' => ?_⟩
    have hserves : front.Serves t k.op := by
      unfold Front.Serves
      rw [hk]
    exact serves_of_begin h.serves hserves hstep t' ses ht'
  | work t work =>
    obtain ⟨hnone, sys', hstep, rfl⟩ := work_cases hs
    refine ⟨fun t' k' hk' => hkeep hk' hk', fun t' ses ht' => ?_⟩
    have hserves : front.Serves t work.op := by
      unfold Front.Serves
      rw [hnone]
      exact ⟨work, rfl⟩
    exact serves_of_begin h.serves hserves hstep t' ses ht'
  | db l =>
    obtain ⟨hbegin, sys', hstep, rfl⟩ := db_cases hs
    refine ⟨fun t' k hk => ?_, fun t' ses ht' => ?_⟩
    · have hk' := hk
      simp only at hk'
      split at hk'
      · exact absurd hk' (by simp)
      · exact hkeep hk' hk
    · have hopen : l.ends ≠ some t' := fun he =>
        absurd ((Txn.closed_of_step he hstep).symm.trans ht') (by simp)
      rcases Txn.op_of_step hstep ht' with ⟨ses₀, ht₀, hop⟩ | he
      · exact (hop ▸ h.serves t' ses₀ ht₀).of_caller (if_neg hopen)
      · exact absurd he (hbegin _ _)

theorem known_run (hr : Runs verifyAsync (Front.init w) front) : Known verifyAsync w front := by
  induction hr with
  | refl => exact ⟨fun t k hk => absurd hk (by simp [Front.init]),
      fun t ses ht => absurd ht (by simp [Front.init, Txn.Sys.init])⟩
  | tail hr _ hs ih => exact ih.tail hr hs

/-! ## 4. Who may do what -/

/-- What the caller with the ticket `k` may do to a row; `db₀` is what the guards saw. -/
inductive Ticket.May (db₀ : Db) (k : Ticket) : Option Enrollment → Option Enrollment → Prop
  /-- a student joins a section, or its waitlist -/
  | join {r : Enrollment} (role : Role.STUDENT ∈ k.user.roles)
      (own : r.studentId = k.user.sub) : May db₀ k none (some r)
  /-- a student gives up a row that is his to give up -/
  | leave (r : Enrollment) (t : Time) (role : Role.STUDENT ∈ k.user.roles)
      (holds : Holds db₀ k.user r) : May db₀ k (some r) (some ((departure t).patch r))
  /-- an administrator moves a row of a waitlist -/
  | place (r : Enrollment) (n : Nat) (role : Role.ADMIN ∈ k.user.roles)
      (waits : r.status = .WAITLISTED) : May db₀ k (some r) (some ((placeAt n).patch r))

/-- What the workers may do to a row: they touch nobody's seat. -/
inductive WorkerMay : Option Enrollment → Option Enrollment → Prop
  | promote (r : Enrollment) (t : Time) (waits : r.status = .WAITLISTED) :
      WorkerMay (some r) (some ((promotion t).patch r))
  | expire (r : Enrollment) (t : Time) (waits : r.status = .WAITLISTED) :
      WorkerMay (some r) (some ((departure t).patch r))

/-- Who is behind the change of a row by session `t`. -/
inductive Behind (verifyAsync : Verifier) (w : World) (front : Front) (t : Nat)
    (o o' : Option Enrollment) : Prop
  | caller (front₀ : Front) (k : Ticket) (admitted : Admitted verifyAsync w front₀ front t k)
      (may : k.May front₀.sys.world.db o o')
  | worker (free : front.caller t = none) (may : WorkerMay o o')

/-- Whom the audit rows of session `t` name. -/
def Front.signature (front : Front) (t : Nat) : AuditActor :=
  match front.caller t with
  | some k => (actorFrom k.request k.user.sub).audit
  | none => systemActor

/-- Every change that the event `e` makes has somebody behind it who may make it. -/
structure Authorized (verifyAsync : Verifier) (w : World) (front : Front) (e : Event)
    (front' : Front) : Prop where
  rows : ∀ x, front'.sys.world.db.enrollment? x = front.sys.world.db.enrollment? x ∨
    ∃ t, e = .db (.commit t) ∧ Behind verifyAsync w front t
      (front.sys.world.db.enrollment? x) (front'.sys.world.db.enrollment? x)
  limits : ∀ s, front'.sys.world.db.tables.limits s = front.sys.world.db.tables.limits s ∨
    ∃ t front₀ k body, e = .db (.commit t) ∧ Admitted verifyAsync w front₀ front t k ∧
      k.request.route = .update s body ∧ Role.ADMIN ∈ k.user.roles
  outbox : ∃ new, front'.sys.world.db.auditOutbox = front.sys.world.db.auditOutbox ++ new ∧
    ∀ a ∈ new, ∃ t, e = .db (.commit t) ∧ a.actor = front.signature t

/-- What the guards saw of a row still holds of its student. -/
theorem Holds.later {w w' : World} (hv : w'.Valid) (hg : Grows w w') {user : JwtPayload}
    {id : EnrollmentId} {r₀ r : Enrollment} (h₀ : w.db.enrollment? id = some r₀)
    (hr : w'.db.enrollment? id = some r) (h : Holds w.db user r₀) : Holds w.db user r := by
  obtain ⟨hst, -⟩ := reread_fixed hv hg h₀ hr
  unfold Holds Db.advisorOf at h ⊢
  rw [hst]
  exact h

/-- An admitted caller holds the row that he asked for. -/
theorem Admitted.holds {front₀ : Front} {t : Nat} {k : Ticket} (hv : w.Valid)
    (h : Admitted verifyAsync w front₀ front t k) {r : Enrollment}
    (hr : front.sys.world.db.enrollment? r.id = some r)
    (howned : k.request.route.owned = some r.id) : Holds front₀.sys.world.db k.user r := by
  have hguard := (passed_of_guards h.passed).2 _ howned
  rcases holds_of_ownershipGuard hguard with hadmin | ⟨r₀, h₀, hh⟩
  · exact .inl hadmin
  · have hreach : Runs verifyAsync (Front.init w) front := h.before.trans h.since
    exact hh.later (locks_run hv hreach.sys).inv.1 (grows_run hv h.before.sys h.since.sys) h₀ hr

/-- What an admitted request does, its caller may do. -/
theorem may_of_does {front₀ : Front} {t : Nat} {k : Ticket} (hv : w.Valid)
    (h : Admitted verifyAsync w front₀ front t k) {x : EnrollmentId} {o' : Option Enrollment}
    (hd : k.op.Does (front.sys.world.db.enrollment? x) o') :
    k.May front₀.sys.world.db (front.sys.world.db.enrollment? x) o' := by
  obtain ⟨hrole, -⟩ := passed_of_guards h.passed
  have hholds {r : Enrollment} (hr : front.sys.world.db.enrollment? x = some r)
      (howned : k.request.route.owned = some r.id) : Holds front₀.sys.world.db k.user r := by
    refine h.holds hv ?_ howned
    rw [(enrollment?_mem hr).2]
    exact hr
  generalize ho : front.sys.world.db.enrollment? x = o at hd ⊢
  cases hroute : k.request.route with
  | enroll body =>
    simp only [Ticket.op, hroute] at hd
    rw [hroute] at hrole
    cases hd with
    | enrolls student => exact .join (role_of_rolesGuard hrole) student
  | drop id =>
    simp only [Ticket.op, hroute] at hd
    rw [hroute] at hrole
    cases hd with
    | drops r t => exact .leave r t (role_of_rolesGuard hrole) (hholds ho (by rw [hroute]; rfl))
  | swap id body =>
    simp only [Ticket.op, hroute] at hd
    rw [hroute] at hrole
    cases hd with
    | leaves r t => exact .leave r t (role_of_rolesGuard hrole) (hholds ho (by rw [hroute]; rfl))
    | joins student => exact .join (role_of_rolesGuard hrole) student
  | reorder s body =>
    simp only [Ticket.op, hroute] at hd
    rw [hroute] at hrole
    cases hd with
    | places r n waits => exact .place r n (role_of_rolesGuard hrole) waits
  | update s body =>
    simp only [Ticket.op, hroute] at hd
    cases hd

theorem workerMay_of_does {work : Work} {o o' : Option Enrollment} (h : work.op.Does o o') :
    WorkerMay o o' := by
  cases work with
  | promotion s =>
    cases h with
    | promotes r t waits => exact .promote r t waits
  | expiry s =>
    cases h with
    | expires r t waits => exact .expire r t waits

theorem signature_of_serves {t : Nat} {op : Op} (h : front.Serves t op) :
    op.signature = front.signature t := by
  unfold Front.signature
  cases hk : front.caller t with
  | none =>
    obtain ⟨work, rfl⟩ := h.of_free hk
    cases work <;> rfl
  | some k =>
    obtain rfl := h.of_ticket hk
    unfold Ticket.op
    cases k.request.route <;> rfl

/-- An event that leaves the tables alone needs nobody's leave. -/
theorem Authorized.of_same {e : Event}
    (henr : front'.sys.world.db.enrollments = front.sys.world.db.enrollments)
    (hsec : front'.sys.world.db.sections = front.sys.world.db.sections)
    (hout : front'.sys.world.db.auditOutbox = front.sys.world.db.auditOutbox) :
    Authorized verifyAsync w front e front' where
  rows x := .inl (by unfold Db.enrollment?; rw [henr])
  limits s := .inl (by simp only [Db.tables, Db.section?]; rw [hsec])
  outbox := ⟨[], by rw [hout, List.append_nil], fun a ha => absurd ha List.not_mem_nil⟩

/-- Who is behind what a commit does to a row. -/
theorem behind_of_does (hv : w.Valid) (hknown : Known verifyAsync w front) {t : Nat} {op : Op}
    (h : front.Serves t op) {x : EnrollmentId} {o' : Option Enrollment}
    (hd : op.Does (front.sys.world.db.enrollment? x) o') :
    Behind verifyAsync w front t (front.sys.world.db.enrollment? x) o' := by
  cases hk : front.caller t with
  | none =>
    obtain ⟨work, rfl⟩ := h.of_free hk
    exact .worker hk (workerMay_of_does hd)
  | some k =>
    obtain ⟨front₀, hadmitted⟩ := hknown.admitted t k hk
    obtain rfl := h.of_ticket hk
    exact .caller front₀ k hadmitted (may_of_does hv hadmitted hd)

/-- Only an administrator sets the limits of a section. -/
theorem admin_of_resizes (hknown : Known verifyAsync w front) {t : Nat} {op : Op}
    (h : front.Serves t op) {s : SectionId} (hop : op.Resizes s) :
    ∃ front₀ k body, Admitted verifyAsync w front₀ front t k ∧
      k.request.route = .update s body ∧ Role.ADMIN ∈ k.user.roles := by
  obtain ⟨dto, actor, rfl⟩ := hop
  cases hk : front.caller t with
  | none =>
    obtain ⟨work, hwork⟩ := h.of_free hk
    cases work <;> exact absurd hwork (by simp [Work.op])
  | some k =>
    have hop := h.of_ticket hk
    obtain ⟨front₀, hadmitted⟩ := hknown.admitted t k hk
    obtain ⟨hrole, -⟩ := passed_of_guards hadmitted.passed
    cases hroute : k.request.route with
    | update s' body =>
      simp only [Ticket.op, hroute, Op.updateSection.injEq] at hop
      obtain ⟨rfl, -, -⟩ := hop
      rw [hroute] at hrole
      exact ⟨front₀, k, body, hadmitted, hroute, role_of_rolesGuard hrole⟩
    | enroll body => exact absurd hop (by simp [Ticket.op, hroute])
    | drop id => exact absurd hop (by simp [Ticket.op, hroute])
    | swap id body => exact absurd hop (by simp [Ticket.op, hroute])
    | reorder s' body => exact absurd hop (by simp [Ticket.op, hroute])

/-- **In every run, every change has somebody behind it who may make it.** -/
theorem every_change_is_authorized (hv : w.Valid) (hr : Runs verifyAsync (Front.init w) front)
    {e : Event} (hs : front.step verifyAsync e = some front') :
    Authorized verifyAsync w front e front' := by
  have hG := locks_run hv hr.sys
  have hknown := known_run hr
  cases e with
  | arrive t req =>
    obtain ⟨-, -, rfl | ⟨user, -, rfl⟩⟩ := arrive_cases hs <;> exact .of_same rfl rfl rfl
  | handle t =>
    obtain ⟨k, sys', -, hstep, rfl⟩ := handle_cases hs
    obtain ⟨-, rfl⟩ := Discipline.begin_cases hstep
    exact .of_same rfl rfl rfl
  | work t work =>
    obtain ⟨-, sys', hstep, rfl⟩ := work_cases hs
    obtain ⟨-, rfl⟩ := Discipline.begin_cases hstep
    exact .of_same rfl rfl rfl
  | db l =>
    obtain ⟨-, sys', hstep, rfl⟩ := db_cases hs
    have hm := moves_of_step hG hstep
    generalize hw' : sys'.world = w' at hm
    cases hm with
    | env e => cases e <;> exact .of_same (by rw [hw']; rfl) (by rw [hw']; rfl) (by rw [hw']; rfl)
    | draw _ n hn => exact .of_same (by rw [hw']) (by rw [hw']) (by rw [hw'])
    | commit t ses a ht hp ho =>
      have hserves := hknown.serves t ses ht
      refine ⟨fun x => ?_, fun s => ?_, eventsOf (front.sys.ctx t ses).log, ?_, fun a ha => ?_⟩
      · rw [hw']
        refine (ho.touches hG.inv.1 x).imp_right fun hd => ?_
        exact ⟨t, rfl, behind_of_does hv hknown hserves hd⟩
      · rw [hw']
        refine (ho.limits s).imp_right fun hop => ?_
        obtain ⟨front₀, k, body, hadmin⟩ := admin_of_resizes hknown hserves hop
        exact ⟨t, front₀, k, body, rfl, hadmin⟩
      · rw [hw']
        exact outbox_applyLog _ _
      · exact ⟨t, rfl, (ho.signed ha).trans (signature_of_serves hserves)⟩

namespace Campus

open Enroll.Campus (world world_valid execs)

/-- Two students and an administrator who studies. -/
def verify : Verifier := fun _ token =>
  if token = "one" then some ⟨1, [.STUDENT]⟩
  else if token = "two" then some ⟨2, [.STUDENT]⟩
  else if token = "four" then some ⟨4, [.STUDENT, .ADMIN]⟩
  else none

def request (token : String) (route : Route) : HttpRequest := ⟨some token, route, none, none⟩

/-- Student 1 takes a seat; student 2 may not drop it, but the administrator is about to. -/
def dropping : List Event :=
  [.arrive 0 (request "one" (.enroll ⟨10⟩)), .handle 0] ++ (execs 0 13 100).map .db ++
    [.db (.commit 0), .arrive 1 (request "two" (.drop 100)), .arrive 1 (request "four" (.drop 100)),
      .handle 1] ++ (execs 1 7 0).map .db

def beforeDrop? : Option Front :=
  Machine.runIf (Front.step verify) (fun _ _ => true) (.init world) dropping

set_option maxRecDepth 4000 in
theorem dropping_runs : beforeDrop?.isSome = true := by decide

def beforeDrop : Front := beforeDrop?.get dropping_runs

set_option maxRecDepth 4000 in
theorem drop_commits : (beforeDrop.step verify (.db (.commit 1))).isSome = true := by decide

def afterDrop : Front := (beforeDrop.step verify (.db (.commit 1))).get drop_commits

set_option maxRecDepth 4000 in
theorem every_change_is_authorized_dropped :
    Authorized verify world beforeDrop (.db (.commit 1)) afterDrop ∧
      (beforeDrop.sys.world.db.enrollment? 100).map Enrollment.status = some .ENROLLED ∧
      (afterDrop.sys.world.db.enrollment? 100).map Enrollment.status = some .DROPPED :=
  ⟨every_change_is_authorized world_valid
      (Machine.Reach.of_runIf (fun _ _ _ => trivial) .refl (Option.some_get dropping_runs).symm)
      (Option.some_get drop_commits).symm,
    by decide, by decide⟩

end Campus

end Enroll.Access
