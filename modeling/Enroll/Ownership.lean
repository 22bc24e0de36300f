/-
# Whose enrollment a swap moves

`PATCH /enrollments/:id/swap` is admitted by two guards: `RolesGuard` asks for the role STUDENT, and
`EnrollmentOwnershipGuard` asks that the enrollment be the caller's own, unless the caller is an
administrator or the student's advisor.  Behind them `swap` drops the enrollment it is given and
enrolls its CALLER: the new row and every check are about `userId`.

So a swap stays with one student exactly when the caller is the student of the enrollment
(`swap_keeps_student_iff`).  For a caller without the bypasses the guards see to that; a user who is
both STUDENT and ADMIN moves somebody else's seat to himself (`Campus.swap_moves_a_seat`).
-/
import Enroll.Registrar
import Enroll.Txn.Trace

namespace Enroll

open Txn (Ctx Session Label Discipline Only Asks)

variable {X : Extra} {op : Op} {c c' : Ctx postgres}

/-! ## 1. The guards -/

/-- The claims of the access token that the guards read. -/
structure JwtPayload where
  sub : UserId
  roles : List Role
  deriving DecidableEq, Repr

def unauthorized : HttpException := ⟨.unauthorized, none, "Unauthorized"⟩

def forbidden : HttpException := ⟨.forbidden, none, "Forbidden"⟩

def noSuchEnrollment : HttpException := ⟨.notFound, none, "Enrollment not found."⟩

/-- `RolesGuard.canActivate`; `required` is the metadata of `@Roles()`. -/
def rolesGuard (required : List Role) (user : Option JwtPayload) : Except HttpException Unit :=
  if required.isEmpty then .ok ()
  else
    match user with
    | none => .error unauthorized
    | some user =>
      if user.roles.any (fun r => required.contains r) then .ok () else .error forbidden

/-- `User.advisorId` of the student of a row. -/
def Db.advisorOf (db : Db) (r : Enrollment) : Option UserId :=
  (db.ref.users.find? (fun u => u.id == r.studentId)).bind User.advisorId

/-- `EnrollmentOwnershipGuard.canActivate`; `enrollmentId` is `none` when the parameter is absent or
no uuid. -/
def enrollmentOwnershipGuard (db : Db) (user : Option JwtPayload)
    (enrollmentId : Option EnrollmentId) : Except HttpException Unit :=
  match user with
  | none => .error unauthorized
  | some user =>
    if user.roles.contains .ADMIN then .ok ()
    else
      match enrollmentId.bind db.enrollment? with
      | none => .error noSuchEnrollment
      | some enrollment =>
        if enrollment.studentId = user.sub then .ok ()
        else if user.roles.contains .ADVISOR then
          if db.advisorOf enrollment = some user.sub then .ok () else .error noSuchEnrollment
        else .error forbidden

/-- The guards of `PATCH /enrollments/:id/swap`, in order. -/
def swapGuards (db : Db) (user : JwtPayload) (enrollmentId : EnrollmentId) :
    Except HttpException Unit := do
  rolesGuard [.STUDENT] (some user)
  enrollmentOwnershipGuard db (some user) (some enrollmentId)

/-- Without the bypasses only the owner gets through. -/
theorem owner_of_swapGuards {db : Db} {user : JwtPayload} {id : EnrollmentId}
    (h : swapGuards db user id = .ok ()) (hadmin : Role.ADMIN ∉ user.roles)
    (hadvisor : Role.ADVISOR ∉ user.roles) :
    ∃ r, db.enrollment? id = some r ∧ r.studentId = user.sub := by
  have hown : enrollmentOwnershipGuard db (some user) (some id) = .ok () := by
    unfold swapGuards at h
    cases hroles : rolesGuard [.STUDENT] (some user) with
    | error e => rw [hroles] at h; exact absurd h (by simp [bind, Except.bind])
    | ok u => rw [hroles] at h; exact h
  simp only [enrollmentOwnershipGuard, Option.bind_some, List.contains_eq_mem, hadmin, hadvisor,
    decide_false, Bool.false_eq_true, if_false] at hown
  cases hrow : db.enrollment? id with
  | none => rw [hrow] at hown; exact absurd hown (by simp)
  | some r =>
    rw [hrow] at hown
    simp only at hown
    by_cases hr : r.studentId = user.sub
    · exact ⟨r, rfl, hr⟩
    · rw [if_neg hr] at hown
      exact absurd hown (by simp)

/-! ## 2. Whom a statement is about -/

/-- The student whose data a statement asks for, or whose row it inserts. -/
def Stmt.student : Stmt → Option UserId
  | read (.userFindUnique u) => some u
  | read (.advisorHoldFindFirst u) => some u
  | read (.overloadApprovalFindUnique u _) => some u
  | read (.enrollmentFindFirst w) => w.studentId
  | read (.enrollmentFindMany w) => w.studentId
  | read (.enrollmentFindManyByPosition w) => w.studentId
  | read (.enrollmentCount w) => w.studentId
  | read (.enrollmentMaxPosition w) => w.studentId
  | enrollmentCreate d => some d.studentId
  | _ => none

/-- The statement is about `u`, if it is about a student at all. -/
def Stmt.Names (u : UserId) (st : Stmt) : Prop := ∀ v, st.student = some v → v = u

theorem Stmt.Names.of_eq {u : UserId} {st : Stmt} (h : st.student = some u) : st.Names u :=
  fun _ hv => Option.some.inj (hv.symm.trans h)

theorem Stmt.Names.of_none {u : UserId} {st : Stmt} (h : st.student = none) : st.Names u :=
  fun _ hv => absurd (h.symm.trans hv) (by simp)

section Programs

variable {u : UserId}

theorem registrationGate_names (sec : SectionJoin) (closed : String) :
    Only (E := postgres) (Stmt.Names u) (registrationGate sec u closed) := by
  refine .bind (fun now => .bind (fun _ => .bind (fun found => .bind (fun student => ?_)
    .orThrow) (.lift (.of_eq rfl))) .throwIf) (.lift (.of_none rfl))
  refine .bind (fun window => .bind (fun _ => .bind (fun hold => ?_) (.lift (.of_eq rfl)))
    .throwIf) ?_
  · cases hold <;> trivial
  · unfold registrationWindow
    cases student.classStanding with
    | none => trivial
    | some standing => exact .lift (.of_none rfl)

theorem prerequisiteGate_names (courseId : CourseId) (message : String) :
    Only (E := postgres) (Stmt.Names u) (prerequisiteGate courseId u message) := by
  refine .bind (fun prereqs => ?_) (.lift (.of_none rfl))
  split
  · exact .bind (fun _ => .throwIf) (.lift (.of_eq rfl))
  · trivial

theorem scheduleGate_names (sec : SectionJoin) (existing : List EnrollmentJoin) :
    Only (E := postgres) (Stmt.Names u) (scheduleGate sec u existing) := by
  refine .bind (fun _ => .bind (fun _ => .throwIf) (.lift (.of_eq rfl))) ?_
  unfold timeConflictGate
  split <;> trivial

theorem swapEligibility_names (id : EnrollmentId) (source : EnrollmentJoin)
    (target : SectionJoin) :
    Only (E := postgres) (Stmt.Names u) (swapEligibility id source target u) := by
  refine .bind (fun _ => .bind (fun _ => scheduleGate_names target _) (.lift (.of_eq rfl))) ?_
  unfold crossCourseGate
  split
  · trivial
  · exact .bind (fun dup => .bind (fun _ => prerequisiteGate_names _ _) .throwIf)
      (.lift (.of_eq rfl))

theorem swapExecute_names (id : EnrollmentId) (source : EnrollmentJoin) (locked : Enrollment)
    (input : SwapDto) (actor : RequestActor) :
    Only (E := postgres) (Stmt.Names u) (swapExecute id source locked input u actor) := by
  refine .bind (fun droppedAt => .bind (fun _ => .bind (fun _ => .bind (fun new => .bind
    (fun updated => .bind (fun _ => .pure) (.lift (.of_none rfl))) (.lift (.of_none rfl)))
    (.lift (.of_eq rfl))) ?_) (.lift (.of_none rfl))) (.lift (.of_none rfl))
  unfold vacate
  split
  · exact .bind (fun _ => .pure) (.lift (.of_none rfl))
  · trivial

/-- **Every check of a swap, and the row it inserts, is about the caller.** -/
theorem swap_names (id : EnrollmentId) (input : SwapDto) (actor : RequestActor) :
    Only (E := postgres) (Stmt.Names u) (swap id input u actor) := by
  refine .bind (fun found => .bind (fun source => .bind (fun _ => ?_) .throwIf) .orThrow)
    (.lift (.of_none rfl))
  split
  · exact .bind (fun _ => .pure) (.lift (.of_none rfl))
  · refine .bind (fun found => .bind (fun target => .bind (fun _ => .bind (fun _ => .bind
      (fun reread => .bind (fun locked => .bind (fun lockedTarget => .bind (fun _ => .bind
        (fun _ => swapExecute_names _ _ _ _ _) (swapEligibility_names _ _ _)) .orThrow)
        (.lift (.of_none rfl))) .orThrow) (.lift (.of_none rfl))) ?_)
      (registrationGate_names _ _)) .orThrow) (.lift (.of_none rfl))
    exact .bind (fun _ => .bind (fun _ => .pure) (.lift (.of_none rfl))) (.lift (.of_none rfl))

end Programs

/-! ## 3. Swaps that commit -/

/-- `user`'s swap of the enrollment `id` was admitted at `sys₀`, and at `sys` its session `ses` is
about to commit a new enrollment. -/
structure SwapCommits (w : World) (sys₀ sys : Sys) (user : JwtPayload) (id : EnrollmentId)
    (input : SwapDto) (actor : RequestActor) (t : Nat) (ses : Session registrar) : Prop where
  reached : Txn.Sys.Reach (fun _ _ => True) (Txn.Sys.init w) sys₀
  admitted : swapGuards sys₀.world.db user id = .ok ()
  runs : Txn.Sys.Reach (fun _ _ => True) sys₀ sys
  session : sys.sessions t = some ses
  op : ses.op = .swap id input user.sub actor
  done : ∃ a, ses.prog = .pure a
  new : insertsOf ses.log ≠ []

/-- The swap stays with the student of the source enrollment: the new row is theirs, and so is
every check that was run. -/
def SwapKeepsStudent (db : Db) (id : EnrollmentId) (ses : Session registrar) : Prop :=
  ∃ source, db.enrollment? id = some source ∧
    (∀ r ∈ insertsOf ses.log, r.studentId = source.studentId) ∧
      ∀ st ∈ ses.trace, Stmt.Names source.studentId st

/-- What the statements of a request are about. -/
def Op.Asks : Op → Stmt → Prop
  | swap _ _ u _ => Stmt.Names u
  | _ => fun _ => True

theorem body_asks (op : Op) : Only (E := postgres) op.Asks op.body := by
  cases op with
  | swap id input u actor => exact .bind (fun _ => .pure) (swap_names id input actor)
  | enroll input u actor => exact .of_forall (fun _ => trivial) _
  | drop id u actor => exact .of_forall (fun _ => trivial) _
  | runPromotion s => exact .of_forall (fun _ => trivial) _
  | reorder s dto actor => exact .of_forall (fun _ => trivial) _
  | expireSectionWaitlist s => exact .of_forall (fun _ => trivial) _
  | updateSection s dto actor => exact .of_forall (fun _ => trivial) _

section

variable {w : World} {sys₀ sys : Sys} {user : JwtPayload} {id : EnrollmentId} {input : SwapDto}
  {actor : RequestActor} {t : Nat} {ses : Session registrar}

/-- The new row is the caller's, and the source row is there. -/
theorem SwapCommits.rows (hv : w.Valid)
    (h : SwapCommits w sys₀ sys user id input actor t ses) :
    (∃ source, sys.world.db.enrollment? id = some source) ∧
      ∃ r ∈ insertsOf ses.log, r.studentId = user.sub ∧ insertsOf ses.log = [r] := by
  have hG := locks_run hv (h.reached.trans h.runs)
  obtain ⟨a, hp⟩ := h.done
  have ho : Outcome Extra.none ses.op (sys.ctx t ses) := hG.post h.session hp
  rw [h.op] at ho
  rcases ho with hlog | ⟨r, sec, live, x, droppedAt, t₁, t₂, n, ho⟩
  · exact absurd (show insertsOf ses.log = [] by rw [show ses.log = [] from hlog]; rfl) h.new
  · have hins : insertsOf ses.log = [(seatRow user.sub input.targetSectionId).row x t₁] :=
      ho.parts.inserts
    refine ⟨⟨r, ?_⟩, _, hins ▸ List.mem_singleton_self _, rfl, hins⟩
    exact ho.id ▸ ho.own.lookup hG.inv.1

/-- Every check was about the caller. -/
theorem SwapCommits.names (h : SwapCommits w sys₀ sys user id input actor t ses) :
    ∀ st ∈ ses.trace, Stmt.Names user.sub st := by
  have hasks : Asks Op.Asks sys := by
    refine Asks.run body_asks ?_ (h.reached.trans h.runs)
    intro t' ses' ht'
    exact absurd ht' (by simp [Txn.Sys.init])
  have htrace := (hasks t ses h.session).2
  rw [h.op] at htrace
  exact htrace

/-- **A swap stays with one student exactly when its caller is the student of the enrollment**, and
without the bypasses of an administrator or an advisor the guards admit nobody else. -/
theorem swap_keeps_student_iff (hv : w.Valid)
    (h : SwapCommits w sys₀ sys user id input actor t ses) :
    (SwapKeepsStudent sys.world.db id ses ↔
      ∃ source, sys.world.db.enrollment? id = some source ∧ source.studentId = user.sub) ∧
    (Role.ADMIN ∉ user.roles → Role.ADVISOR ∉ user.roles →
      SwapKeepsStudent sys.world.db id ses) := by
  obtain ⟨⟨source, hsource⟩, r, hr, hru, hins⟩ := h.rows hv
  have hback : source.studentId = user.sub → SwapKeepsStudent sys.world.db id ses := by
    intro hmine
    refine ⟨source, hsource, fun r' hr' => ?_, hmine ▸ h.names⟩
    rw [hins, List.mem_singleton] at hr'
    rw [hr', hru, hmine]
  refine ⟨⟨?_, ?_⟩, fun hadmin hadvisor => ?_⟩
  · rintro ⟨source', hsource', hrows, -⟩
    exact ⟨source', hsource', (hrows r hr).symm.trans hru⟩
  · rintro ⟨source', hsource', hmine⟩
    obtain rfl : source = source' := Option.some.inj (hsource.symm.trans hsource')
    exact hback hmine
  · -- the row that the guard read is the row that is swapped
    obtain ⟨r₀, hr₀, hmine⟩ := owner_of_swapGuards h.admitted hadmin hadvisor
    have hG := locks_run hv (h.reached.trans h.runs)
    have hfixed := reread_fixed hG.inv.1 (grows_run hv h.reached h.runs) hr₀ hsource
    exact hback (hfixed.1.trans hmine)

end

namespace Campus

/-- Caller `u` swaps the seat of student 1 in section 10 into section 11, and is about to commit. -/
def swapping (u : UserId) : List (Label registrar) :=
  .begin 1 (.swap 100 ⟨11⟩ u (actor u)) :: execs 1 17 101

/-- A user who is both STUDENT and ADMIN. -/
def administrator : JwtPayload := ⟨4, [.STUDENT, .ADMIN]⟩

set_option maxRecDepth 4000 in
theorem takeover_runs : (Txn.Sys.run seated (swapping 4)).isSome = true := by decide

def afterTakeover : Sys := (Txn.Sys.run seated (swapping 4)).get takeover_runs

set_option maxRecDepth 4000 in
theorem takeover_open : (afterTakeover.sessions 1).isSome = true := by decide

/-- The administrator's session. -/
def takeover : Session registrar := (afterTakeover.sessions 1).get takeover_open

set_option maxRecDepth 4000 in
theorem takeover_commits :
    SwapCommits world seated afterTakeover administrator 100 ⟨11⟩ (actor 4) 1 takeover where
  reached := seated_reached
  admitted := by decide
  runs := .of_run .refl (fun _ _ _ => trivial) (Option.some_get takeover_runs).symm
  session := (Option.some_get takeover_open).symm
  op := rfl
  done := ⟨_, rfl⟩
  new := by decide

set_option maxRecDepth 4000 in
/-- **An administrator who studies moves student 1's seat to himself.** -/
theorem swap_moves_a_seat :
    ¬ ∀ (w : World) (sys₀ sys : Sys) (user : JwtPayload) (id : EnrollmentId) (input : SwapDto)
      (actor : RequestActor) (t : Nat) (ses : Session registrar), w.Valid →
        SwapCommits w sys₀ sys user id input actor t ses →
          SwapKeepsStudent sys.world.db id ses := by
  intro h
  obtain ⟨source, hsource, hrows, -⟩ := h world seated afterTakeover administrator 100 ⟨11⟩
    (actor 4) 1 takeover world_valid takeover_commits
  have hrow : afterTakeover.world.db.enrollment? 100 = some ((seatRow 1 10).row 100 10) := by decide
  obtain rfl : source = (seatRow 1 10).row 100 10 := Option.some.inj (hsource.symm.trans hrow)
  have hstudents : (insertsOf takeover.log).map Enrollment.studentId = [4] := by decide
  obtain ⟨r, hr, hr4⟩ := List.mem_map.mp
    (show 4 ∈ (insertsOf takeover.log).map Enrollment.studentId from hstudents ▸ List.mem_cons_self)
  exact absurd (hr4.symm.trans (hrows r hr)) (by decide)

/-- Student 1 himself. -/
def student : JwtPayload := ⟨1, [.STUDENT]⟩

set_option maxRecDepth 4000 in
theorem move_runs : (Txn.Sys.run seated (swapping 1)).isSome = true := by decide

def afterMove : Sys := (Txn.Sys.run seated (swapping 1)).get move_runs

set_option maxRecDepth 4000 in
theorem move_open : (afterMove.sessions 1).isSome = true := by decide

/-- The student's session. -/
def move : Session registrar := (afterMove.sessions 1).get move_open

set_option maxRecDepth 4000 in
theorem move_commits :
    SwapCommits world seated afterMove student 100 ⟨11⟩ (actor 1) 1 move where
  reached := seated_reached
  admitted := by decide
  runs := .of_run .refl (fun _ _ _ => trivial) (Option.some_get move_runs).symm
  session := (Option.some_get move_open).symm
  op := rfl
  done := ⟨_, rfl⟩
  new := by decide

set_option maxRecDepth 4000 in
theorem swap_keeps_student_move : SwapKeepsStudent afterMove.world.db 100 move :=
  (swap_keeps_student_iff world_valid move_commits).1.mpr
    ⟨(seatRow 1 10).row 100 10, by decide, rfl⟩

end Campus

end Enroll
