/-
# A service that follows another

Two services on one store.  The first goes through the statements of the second, or gives up on the
way (`Follows`); its requests are written in another way, and `reads` says which request of the
second each amounts to.

What the first does the second can do: it runs the same statements, and is cut off where the first
gives up.  So every run of the first has a run of the second beside it with the same world and the
same locks (`Follower.run`), and what is known of the second's worlds holds of the first's.

A request may follow only if its first statement finds what it should (`ok`); then the runs are
those in which it does.
-/
import Enroll.Txn.Rely

namespace Txn

variable {E : Engine} {α β : Type}

/-! ## 1. Programs -/

/-- `p` goes through the statements of `q`, or gives up on the way. -/
inductive Follows : Prog E α → Prog E α → Prop where
  | pure (a : α) : Follows (.pure a) (.pure a)
  | throw (e : E.Err) (q : Prog E α) : Follows (.throw e) q
  | stmt (s : E.Stmt) {k k' : E.Res s → Prog E α} (h : ∀ r, Follows (k r) (k' r)) :
      Follows (.stmt s k) (.stmt s k')

theorem Follows.refl (p : Prog E α) : Follows p p := by
  induction p with
  | pure a => exact .pure a
  | throw e => exact .throw e _
  | stmt s k ih => exact .stmt s ih

theorem Follows.bind {p q : Prog E α} {f g : α → Prog E β} (h : Follows p q)
    (hf : ∀ a, Follows (f a) (g a)) : Follows (p.bind f) (q.bind g) := by
  induction h with
  | pure a => exact hf a
  | throw e q => exact .throw e _
  | stmt s h ih => exact .stmt s ih

/-- The same of a program whose first statement finds a world that is `ok`. -/
inductive Starts (ok : E.World → Prop) : Prog E α → Prog E α → Prop where
  | follows {p q : Prog E α} (h : Follows p q) : Starts ok p q
  | stmt (s : E.Stmt) {k k' : E.Res s → Prog E α}
      (h : ∀ w x r ws, ok w → E.exec s x w = some (.ok (r, ws)) → Follows (k r) (k' r)) :
      Starts ok (.stmt s k) (.stmt s k')

theorem Starts.bind {ok : E.World → Prop} {p q : Prog E α} {f g : α → Prog E β}
    (h : Starts ok p q) (hf : ∀ a, Follows (f a) (g a)) :
    Starts ok (p.bind f) (q.bind g) := by
  cases h with
  | follows h => exact .follows (h.bind hf)
  | stmt s h => exact .stmt s fun w x r ws hok hexec => (h w x r ws hok hexec).bind hf

/-- A first statement, and what comes after it. -/
theorem Starts.lift {ok : E.World → Prop} {s : E.Stmt} {f g : E.Res s → Prog E α}
    (h : ∀ w x r ws, ok w → E.exec s x w = some (.ok (r, ws)) → Follows (f r) (g r)) :
    Starts ok ((Prog.lift s).bind f) ((Prog.lift s).bind g) :=
  .stmt s h

/-- What is left of a program after a statement. -/
def rest {s : E.Stmt} (k : E.Res s → Prog E α) :
    Except E.Err (E.Res s × List E.Write) → Prog E α
  | .error e => .throw e
  | .ok (r, _) => k r

theorem Follows.rest {s : E.Stmt} {k : E.Res s → Prog E α} {q : Prog E α}
    (h : Follows (.stmt s k) q) (out : Except E.Err (E.Res s × List E.Write)) :
    ∃ k', q = .stmt s k' ∧ Follows (rest k out) (rest k' out) := by
  cases h with
  | stmt _ hk =>
    refine ⟨_, rfl, ?_⟩
    cases out with
    | error e => exact .throw e _
    | ok v => exact hk v.1

theorem Starts.rest {ok : E.World → Prop} {s : E.Stmt} {k : E.Res s → Prog E α} {q : Prog E α}
    (h : Starts ok (.stmt s k) q) {w : E.World} {x : E.Input}
    {out : Except E.Err (E.Res s × List E.Write)} (hok : ok w) (hexec : E.exec s x w = some out) :
    ∃ k', q = .stmt s k' ∧ Follows (rest k out) (rest k' out) := by
  cases h with
  | follows h => exact h.rest out
  | stmt _ hk =>
    refine ⟨_, rfl, ?_⟩
    cases out with
    | error e => exact .throw e _
    | ok v => exact hk w x v.1 v.2 hok hexec

theorem Starts.of_pure {ok : E.World → Prop} {a : α} {q : Prog E α} (h : Starts ok (.pure a) q) :
    q = .pure a := by
  cases h with
  | follows h =>
    cases h
    rfl

/-! ## 2. Services -/

/-- A service whose requests follow those of `T`. -/
structure Follower (T : Service E) where
  Op : Type
  body : Op → Prog E T.Out
  /-- the request of `T` that a request amounts to -/
  reads : Op → T.Op
  /-- what the first statement of a request has to find -/
  ok : Op → E.World → Prop
  starts : ∀ op, Starts (ok op) (body op) (T.body (reads op))

namespace Follower

variable {T : Service E} (F : Follower T)

abbrev service : Service E := ⟨F.Op, T.Out, F.body⟩

/-- A request's first statement finds what it should. -/
def Meets (sys : Sys F.service) : Label F.service → Prop
  | .exec t _ => ∀ ses ∈ sys.sessions t, ses.trace = [] → F.ok ses.op sys.world
  | _ => True

instance [∀ op w, Decidable (F.ok op w)] (sys : Sys F.service) (l : Label F.service) :
    Decidable (F.Meets sys l) :=
  match l with
  | .exec t _ =>
    inferInstanceAs (Decidable (∀ ses ∈ sys.sessions t, ses.trace = [] → F.ok ses.op sys.world))
  | .begin _ _ => isTrue trivial
  | .commit _ => isTrue trivial
  | .rollback _ => isTrue trivial
  | .crash _ => isTrue trivial
  | .env _ => isTrue trivial

/-- The session of a request and that of the request it amounts to. -/
inductive Beside : Option (Session F.service) → Option (Session T) → Prop where
  | none : Beside none none
  | begun (op : F.Op) : Beside (some ⟨op, F.body op, [], []⟩)
      (some ⟨F.reads op, T.body (F.reads op), [], []⟩)
  | follows (op : F.Op) {p q : Prog E T.Out} (log : List E.Write) (tr : List E.Stmt)
      (h : Follows p q) : Beside (some ⟨op, p, log, tr⟩) (some ⟨F.reads op, q, log, tr⟩)

/-- A system of the follower beside one of the service it follows. -/
structure Leads (sys : Sys F.service) (sys' : Sys T) : Prop where
  world : sys'.world = sys.world
  owner : sys'.owner = sys.owner
  sessions : ∀ t, F.Beside (sys.sessions t) (sys'.sessions t)

variable {F} {sys sys₁ : Sys F.service} {sys' : Sys T}

theorem Leads.init (w : E.World) : F.Leads (Sys.init w) (Sys.init w) :=
  ⟨rfl, rfl, fun _ => .none⟩

theorem Leads.update (h : F.Leads sys sys') (t : Nat) {o : Option (Session F.service)}
    {o' : Option (Session T)} (ho : F.Beside o o') :
    ∀ t', F.Beside (Function.update sys.sessions t o t')
      (Function.update sys'.sessions t o' t') := by
  intro t'
  by_cases he : t' = t
  · subst he
    rwa [Function.update_self, Function.update_self]
  · rw [Function.update_of_ne he, Function.update_of_ne he]
    exact h.sessions t'

theorem Leads.close (h : F.Leads sys sys') (t : Nat) : F.Leads (sys.close t) (sys'.close t) where
  world := h.world
  owner := by
    unfold Sys.close
    rw [h.owner]
  sessions := h.update t .none

theorem Leads.keep (h : F.Leads sys sys') (t : Nat) {ses : Session F.service} {ses' : Session T}
    (ks : List E.Key) (w : E.World) (hses : F.Beside (some ses) (some ses')) :
    F.Leads (sys.keep t ses ks w) (sys'.keep t ses' ks w) where
  world := rfl
  owner := by
    unfold Sys.keep
    rw [h.owner]
  sessions := h.update t hses

/-- What is open is a request's session, at its beginning or behind the other. -/
theorem Leads.session (h : F.Leads sys sys') {t : Nat} {ses : Session F.service}
    (ht : sys.sessions t = some ses) :
    ∃ q, sys'.sessions t = some ⟨F.reads ses.op, q, ses.log, ses.trace⟩ ∧
      (Follows ses.prog q ∨ ses.trace = [] ∧ ses.log = [] ∧
        Starts (F.ok ses.op) ses.prog q) := by
  have hbeside := h.sessions t
  rw [ht] at hbeside
  generalize sys'.sessions t = o at hbeside ⊢
  cases hbeside with
  | begun op => exact ⟨_, rfl, Or.inr ⟨rfl, rfl, F.starts op⟩⟩
  | follows op log tr hf => exact ⟨_, rfl, Or.inl hf⟩

theorem Leads.no_session (h : F.Leads sys sys') {t : Nat} (ht : sys.sessions t = none) :
    sys'.sessions t = none := by
  have hbeside := h.sessions t
  rw [ht] at hbeside
  generalize sys'.sessions t = o at hbeside ⊢
  cases hbeside
  rfl

/-! ## 3. Runs -/

/-- A running statement, in the context of its session. -/
theorem stepExec_eq {S : Service E} {sys : Sys S} {t : Nat} {x : E.Input} {op : S.Op} {s : E.Stmt}
    {k : E.Res s → Prog E S.Out} {log : List E.Write} {tr : List E.Stmt}
    (ht : sys.sessions t = some ⟨op, .stmt s k, log, tr⟩) :
    sys.stepExec t x =
      if (E.locks s x (log.foldl E.apply sys.world)).all
        (fun key => (sys.owner key).all (· == t)) then
        (E.exec s x (log.foldl E.apply sys.world)).map fun out =>
          sys.keep t ⟨op, rest k out,
            log ++ (match out with | .ok p => p.2 | .error _ => []), tr ++ [s]⟩
            (E.locks s x (log.foldl E.apply sys.world)) (E.effect s x sys.world)
      else none := by
  unfold Sys.stepExec
  rw [ht]
  simp only
  split
  · cases E.exec s x (log.foldl E.apply sys.world) with
    | none => rfl
    | some out =>
      cases out with
      | error e => simp [rest]
      | ok p => rfl
  · rfl

/-- **A statement of the follower is one of the service.** -/
theorem Leads.exec (h : F.Leads sys sys') {t : Nat} {x : E.Input} (hl : F.Meets sys (.exec t x))
    (hs : sys.step (.exec t x) = some sys₁) :
    ∃ sys₁', sys'.step (.exec t x) = some sys₁' ∧ F.Leads sys₁ sys₁' := by
  obtain ⟨⟨op, p, log, tr⟩, s, k, r, c', ht, hp, -⟩ := Discipline.stepExec_cases hs
  obtain rfl : p = .stmt s k := hp
  have hstep : sys.stepExec t x = some sys₁ := hs
  rw [stepExec_eq ht] at hstep
  split at hstep
  · rename_i hfree
    obtain ⟨out, hexec, rfl⟩ := Option.map_eq_some_iff.mp hstep
    obtain ⟨q, ht', hq⟩ := h.session ht
    obtain ⟨k', rfl, hrest⟩ : ∃ k', q = .stmt s k' ∧ Follows (rest k out) (rest k' out) := by
      rcases hq with hf | ⟨htr, hlog, hstart⟩
      · exact hf.rest out
      · obtain rfl : log = [] := hlog
        exact hstart.rest (hl _ ht htr) hexec
    refine ⟨_, ?_, h.keep t _ _ (.follows op _ _ hrest)⟩
    show sys'.stepExec t x = _
    rw [stepExec_eq ht', h.world, h.owner, if_pos hfree, hexec]
    rfl
  · exact absurd hstep (by simp)

/-- A commit of the follower is one of the service. -/
theorem Leads.commit (h : F.Leads sys sys') {t : Nat}
    (hs : sys.step (.commit t) = some sys₁) :
    ∃ op a sys₁', sys₁.finished = (t, op, .ok a) :: sys.finished ∧
      sys'.step (.commit t) = some sys₁' ∧
      sys₁'.finished = (t, F.reads op, .ok a) :: sys'.finished ∧ F.Leads sys₁ sys₁' ∧
      ∃ ses ses', sys.sessions t = some ses ∧ ses.op = op ∧ sys'.sessions t = some ses' ∧
        ses'.op = F.reads op := by
  obtain ⟨⟨op, p, log, tr⟩, a, ht, hp, rfl⟩ := Discipline.commit_cases hs
  obtain rfl : p = .pure a := hp
  obtain ⟨q, ht', hq⟩ := h.session ht
  have hstart : Starts (F.ok op) (.pure a) q := hq.elim .follows fun h => h.2.2
  obtain rfl := hstart.of_pure
  refine ⟨op, a, { sys'.close t with
      world := log.foldl E.apply sys'.world
      finished := (t, F.reads op, .ok a) :: sys'.finished }, rfl, ?_, rfl, ?_, _, _, ht, rfl, ht',
    rfl⟩
  · simp only [Sys.step, ht']
  · exact ⟨congrArg (log.foldl E.apply) h.world, (h.close t).owner, (h.close t).sessions⟩

/-- **One step**: the service takes it too, and is cut off where the follower gives up. -/
theorem Leads.step (h : F.Leads sys sys') {l : Label F.service} (hl : F.Meets sys l)
    (hs : sys.step l = some sys₁) :
    ∃ l' sys₁', sys'.step l' = some sys₁' ∧ F.Leads sys₁ sys₁' := by
  cases l with
  | begin t op =>
    obtain ⟨hnone, rfl⟩ := Discipline.begin_cases hs
    refine ⟨.begin t (F.reads op), { sys' with
      sessions := Function.update sys'.sessions t
        (some ⟨F.reads op, T.body (F.reads op), [], []⟩) }, ?_, h.world, h.owner,
      h.update t (.begun op)⟩
    simp only [Sys.step, h.no_session hnone]
  | exec t x =>
    obtain ⟨sys₁', hs', h'⟩ := h.exec hl hs
    exact ⟨.exec t x, sys₁', hs', h'⟩
  | commit t =>
    obtain ⟨op, a, sys₁', -, hs', -, h', -⟩ := h.commit hs
    exact ⟨.commit t, sys₁', hs', h'⟩
  | rollback t =>
    obtain ⟨ses, e, ht, -, rfl⟩ := Discipline.rollback_cases hs
    obtain ⟨q, ht', -⟩ := h.session ht
    refine ⟨.crash t, sys'.close t, ?_, h.world, (h.close t).owner, (h.close t).sessions⟩
    simp only [Sys.step, ht']
  | crash t =>
    cases ht : sys.sessions t with
    | none => simp [Sys.step, ht] at hs
    | some ses =>
      obtain ⟨q, ht', -⟩ := h.session ht
      rw [Discipline.crash_cases hs]
      refine ⟨.crash t, sys'.close t, ?_, h.close t⟩
      simp only [Sys.step, ht']
  | env e =>
    rw [Discipline.env_cases hs]
    exact ⟨.env e, _, rfl, congrArg (E.env · e) h.world, h.owner, h.sessions⟩

/-- **A run of the follower has a run of the service beside it.** -/
theorem run {w : E.World} (hr : Sys.Reach F.Meets (Sys.init w) sys) :
    ∃ sys' : Sys T, Sys.Reach (fun _ _ => True) (Sys.init w) sys' ∧ F.Leads sys sys' := by
  induction hr with
  | refl => exact ⟨Sys.init w, .refl, .init w⟩
  | tail _ hl hs ih =>
    obtain ⟨sys', hr', h⟩ := ih
    obtain ⟨l', sys₁', hs', h'⟩ := h.step hl hs
    exact ⟨sys₁', hr'.tail trivial hs', h'⟩

end Follower

end Txn
