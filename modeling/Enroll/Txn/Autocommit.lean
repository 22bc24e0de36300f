/-
# Stores without transactions

When every statement commits by itself there is no log and there are no locks: a statement does all
it does at once.  What the sessions of such a store rely on and what they guarantee is then one
relation between worlds, an `Accord`: everybody keeps to it with every statement, and so everybody
finds the world as it allows (`Accord.sound`, `Accord.keeps_run`).

`Bound` follows one session: whatever the schedule, it can only end in a result of `P`.
-/
import Mathlib.Data.List.Basic
import Enroll.Txn.Trace

namespace Txn

variable {E : Engine} {S : Service E} {α : Type}

/-- The store buffers no writes and keeps no locks. -/
class Autocommit (E : Engine) : Prop where
  write : IsEmpty E.Write
  key : IsEmpty E.Key

/-! ## 1. Accords -/

/-- What every statement does to the world at most. -/
structure Accord (E : Engine) where
  inv : E.World → Prop
  keeps : E.World → E.World → Prop
  refl : ∀ w, inv w → keeps w w
  trans : ∀ w w' w'', keeps w w' → keeps w' w'' → keeps w w''
  inv_of_keeps : ∀ w w', keeps w w' → inv w'

namespace Accord

variable (A : Accord E)

/-- `wp` when everybody keeps to the accord. -/
def wp (p : Prog E α) (Q : Except E.Err α → Ctx E → Prop) (c : Ctx E) : Prop :=
  Txn.wp (fun c w => A.keeps c.world w) (fun c w => A.keeps c.world w) p Q c

/-- Every request keeps to the accord, and ends with `post`. -/
def discipline (post : S.Op → Except E.Err S.Out → Ctx E → Prop) : Discipline S where
  inv := A.inv
  rely _ c w := A.keeps c.world w
  calm _ c w := A.keeps c.world w
  guar _ c w := A.keeps c.world w
  post := post
  refl _ _ h := A.refl _ h
  trans _ _ _ _ h h' := A.trans _ _ _ h h'
  calm_trans _ _ _ _ h h' := A.trans _ _ _ h h'
  calm_of_rely _ _ _ h := h

variable {A} {post : S.Op → Except E.Err S.Out → Ctx E → Prop}

/-- An outcome that does not speak of the world stays what it is. -/
theorem wp_at' {P : Except E.Err α → Prop} {p : Prog E α} {c : Ctx E} {w : E.World}
    (h : A.wp p (fun r _ => P r) c) (hw : A.keeps c.world w) :
    A.wp p (fun r _ => P r) (c.at' w) := by
  cases p with
  | pure a => exact h
  | throw e => exact h
  | stmt s k => exact fun w' hw' => h w' (A.trans _ _ _ hw hw')

/-- Session `t`, if it is open, can only end in a result of `P`. -/
def Bound (A : Accord E) (P : Except E.Err S.Out → Prop) (sys : Sys S) (t : Nat) : Prop :=
  ∀ ses, sys.sessions t = some ses → A.wp ses.prog (fun r _ => P r) (sys.ctx t ses)

variable {P : Except E.Err S.Out → Prop}

/-- A bound session that is done has a result of `P`. -/
theorem Bound.done {sys : Sys S} {t : Nat} (h : Bound A P sys t) {ses : Session S} {a : S.Out}
    (ht : sys.sessions t = some ses) (hp : ses.prog = .pure a) : P (.ok a) := by
  have hwp := h ses ht
  rw [hp] at hwp
  exact hwp

section

variable [Autocommit E]

theorem view_eq (c : Ctx E) : c.view = c.world := by
  have : IsEmpty E.Write := Autocommit.write
  have hlog : c.log = [] := Subsingleton.elim _ _
  unfold Ctx.view
  rw [hlog]
  rfl

/-- The accord allows a statement. -/
def Allows (A : Accord E) (s : E.Stmt) : Prop :=
  ∀ x w out, A.inv w → E.exec s x w = some out → A.keeps w (E.effect s x w)

/-- What running a statement amounts to. -/
theorem run_cases {s : E.Stmt} {x : E.Input} {c c' : Ctx E} {r : Except E.Err (E.Res s)}
    (hr : c.run s x = some (r, c')) : c'.world = E.effect s x c.world ∧
      ((∃ v ws, E.exec s x c.world = some (.ok (v, ws)) ∧ r = .ok v) ∨
        ∃ e, E.exec s x c.world = some (.error e) ∧ r = .error e) := by
  unfold Ctx.run at hr
  rw [view_eq] at hr
  cases hexec : E.exec s x c.world with
  | none => rw [hexec] at hr; exact absurd hr (by simp)
  | some out =>
    rw [hexec] at hr
    cases out with
    | error e =>
      simp only [Option.some.injEq, Prod.mk.injEq] at hr
      obtain ⟨rfl, rfl⟩ := hr
      exact ⟨rfl, Or.inr ⟨e, rfl, rfl⟩⟩
    | ok p =>
      obtain ⟨v, ws⟩ := p
      simp only [Option.some.injEq, Prod.mk.injEq] at hr
      obtain ⟨rfl, rfl⟩ := hr
      exact ⟨rfl, Or.inl ⟨v, ws, rfl, rfl⟩⟩

/-- What a step does to the world. -/
theorem world_cases {sys sys' : Sys S} {l : Label S} (hs : sys.step l = some sys') :
    sys'.world = sys.world ∨
      (∃ t x ses s k out, l = .exec t x ∧ sys.sessions t = some ses ∧ ses.prog = .stmt s k ∧
        E.exec s x sys.world = some out ∧ sys'.world = E.effect s x sys.world) ∨
      ∃ e, l = .env e ∧ sys'.world = E.env sys.world e := by
  cases l with
  | begin t op =>
    obtain ⟨-, rfl⟩ := Discipline.begin_cases hs
    exact .inl rfl
  | exec t x =>
    obtain ⟨ses, s, k, r, c', ht, hp, -, hr, ses', -, -, -, -, rfl, -⟩ := Discipline.stepExec_cases hs
    obtain ⟨-, ⟨v, ws, hexec, -⟩ | ⟨e, hexec, -⟩⟩ := run_cases hr <;>
      exact .inr (.inl ⟨t, x, ses, s, k, _, rfl, ht, hp, hexec, rfl⟩)
  | commit t =>
    obtain ⟨ses, a, -, -, rfl⟩ := Discipline.commit_cases hs
    exact .inl (view_eq (sys.ctx t ses))
  | rollback t =>
    obtain ⟨ses, e, -, -, rfl⟩ := Discipline.rollback_cases hs
    exact .inl rfl
  | crash t =>
    rw [Discipline.crash_cases hs]
    exact .inl rfl
  | env e =>
    rw [Discipline.env_cases hs]
    exact .inr (.inr ⟨e, rfl, rfl⟩)

theorem Allows.run {s : E.Stmt} (hs : A.Allows s) {x : E.Input} {c c' : Ctx E}
    {r : Except E.Err (E.Res s)} (hi : A.inv c.world) (hr : c.run s x = some (r, c')) :
    A.keeps c.world c'.world := by
  obtain ⟨hw, ⟨v, ws, hexec, -⟩ | ⟨e, hexec, -⟩⟩ := run_cases hr
  · exact hw ▸ hs x c.world _ hi hexec
  · exact hw ▸ hs x c.world _ hi hexec

/-- The accord allows the statement to a session that has seen the world `w₀`. -/
def AllowsFrom (A : Accord E) (w₀ : E.World) (s : E.Stmt) : Prop :=
  ∀ x w out, A.keeps w₀ w → E.exec s x w = some out → A.keeps w (E.effect s x w)

omit [Autocommit E] in
theorem Allows.from {s : E.Stmt} (hs : A.Allows s) (w₀ : E.World) : A.AllowsFrom w₀ s :=
  fun x w out hw => hs x w out (A.inv_of_keeps _ _ hw)

/-- One statement, at the world `w` that the others leave. -/
theorem wp_lift_from {s : E.Stmt} {c : Ctx E} {Q : Except E.Err (E.Res s) → Ctx E → Prop}
    (hs : A.AllowsFrom c.world s)
    (hok : ∀ w x v ws c', A.keeps c.world w → E.exec s x w = some (.ok (v, ws)) →
      c'.world = E.effect s x w → A.keeps w c'.world → Q (.ok v) c')
    (herr : ∀ w x e c', A.keeps c.world w → E.exec s x w = some (.error e) → Q (.error e) c') :
    A.wp (.lift s) Q c := by
  refine Txn.wp_lift fun w hw x r c' hr => ?_
  obtain ⟨hw', ⟨v, ws, hexec, rfl⟩ | ⟨e, hexec, rfl⟩⟩ := run_cases hr
  · have hkeeps : A.keeps w c'.world := hw' ▸ hs x w _ hw hexec
    exact ⟨hkeeps, hok w x v ws c' hw hexec hw' hkeeps⟩
  · exact ⟨hw' ▸ hs x w _ hw hexec, herr w x e c' hw hexec⟩

theorem wp_lift {s : E.Stmt} {c : Ctx E} {Q : Except E.Err (E.Res s) → Ctx E → Prop}
    (hs : A.Allows s)
    (hok : ∀ w x v ws c', A.keeps c.world w → E.exec s x w = some (.ok (v, ws)) →
      c'.world = E.effect s x w → A.keeps w c'.world → Q (.ok v) c')
    (herr : ∀ w x e c', A.keeps c.world w → E.exec s x w = some (.error e) → Q (.error e) c') :
    A.wp (.lift s) Q c := wp_lift_from (hs.from _) hok herr

/-- **A program of allowed statements keeps to the accord.** -/
theorem wp_of_only {p : Prog E α} (h : Only A.Allows p) : ∀ c, A.wp p (fun _ _ => True) c := by
  induction p with
  | pure a => exact fun _ => trivial
  | throw e => exact fun _ => trivial
  | stmt s k ih =>
    intro c w hw x r c' hr
    refine ⟨h.1.run (c := c.at' w) (A.inv_of_keeps _ _ hw) hr, ?_⟩
    cases r with
    | ok v => exact ih v (h.2 v) c'
    | error e => trivial

/-- There is nothing to a context but the world and the trace. -/
theorem ctx_at' (sys sys' : Sys S) (t : Nat) (ses : Session S) :
    sys'.ctx t ses = (sys.ctx t ses).at' sys'.world := by
  have : IsEmpty E.Key := Autocommit.key
  have hheld : (fun k => sys'.owner k = some t) = fun k => sys.owner k = some t :=
    funext fun k => isEmptyElim k
  unfold Sys.ctx Ctx.at'
  rw [hheld]

/-- **Whoever keeps to the accord fits with everybody who does.** -/
theorem sound {C : Sys S → Label S → Prop} {J : Sys S → Prop}
    (hstart : ∀ sys t op, C sys (.begin t op) → J sys → (A.discipline post).Good sys →
      (A.discipline post).controlled op (S.body op) (Ctx.start sys.world))
    (henv : ∀ sys e, C sys (.env e) → A.inv sys.world → A.keeps sys.world (E.env sys.world e)) :
    (A.discipline post).Sound C J := by
  have hchange : ∀ sys l, (A.discipline post).Good sys → ∀ t ses w,
      sys.sessions t = some ses → (A.discipline post).Changes sys t ses l w →
        A.keeps sys.world w := by
    intro sys l hG t ses w _ hw
    rcases hw with ⟨-, hw⟩ | ⟨-, a, -, -, rfl⟩
    · exact hw
    · rw [view_eq]
      exact A.refl _ hG.inv
  constructor
  · exact hstart
  · intro sys l _ _ hG t ses w ht hw
    exact A.inv_of_keeps _ _ (hchange sys l hG t ses w ht hw)
  · intro sys l _ _ hG t ses w ht hw t' ses' _ _
    exact (A.discipline post).tolerates_of_rely (hchange sys l hG t ses w ht hw)
  · intro sys e hC _ hG
    exact A.inv_of_keeps _ _ (henv sys e hC hG.inv)
  · intro sys e hC _ hG t ses _
    exact (A.discipline post).tolerates_of_rely (henv sys e hC hG.inv)

/-! ## 2. The world along a run -/

theorem keeps_step {sys sys' : Sys S} {l : Label S} (hG : (A.discipline post).Good sys)
    (henv : ∀ e, l = .env e → A.keeps sys.world (E.env sys.world e))
    (hs : sys.step l = some sys') : A.keeps sys.world sys'.world := by
  have hsame : A.keeps sys.world sys.world := A.refl _ hG.inv
  cases l with
  | begin t op =>
    obtain ⟨-, rfl⟩ := Discipline.begin_cases hs
    exact hsame
  | exec t x =>
    obtain ⟨ses, s, k, r, c', ht, hp, -, hr, ses', -, -, -, -, -, hctx⟩ :=
      Discipline.stepExec_cases hs
    have hkeeps : A.keeps sys.world c'.world := (hG.exec ht hp hr).1
    rw [← hctx] at hkeeps
    exact hkeeps
  | commit t =>
    obtain ⟨ses, a, ht, hp, rfl⟩ := Discipline.commit_cases hs
    exact (view_eq (sys.ctx t ses)).symm ▸ hsame
  | rollback t =>
    obtain ⟨ses, e, -, -, rfl⟩ := Discipline.rollback_cases hs
    exact hsame
  | crash t =>
    rw [Discipline.crash_cases hs]
    exact hsame
  | env e =>
    rw [Discipline.env_cases hs]
    exact henv e rfl

/-- **A run keeps to the accord as a whole.** -/
theorem keeps_run {C : Sys S → Label S → Prop} {J : Sys S → Prop}
    (hD : (A.discipline post).Sound C J)
    (hJ : ∀ sys l sys', C sys l → J sys → (A.discipline post).Good sys → sys.step l = some sys' →
      J sys')
    (henv : ∀ sys e, C sys (.env e) → A.inv sys.world → A.keeps sys.world (E.env sys.world e))
    {sys₀ sys : Sys S} (hG₀ : (A.discipline post).Good sys₀) (hJ₀ : J sys₀)
    (hr : Sys.Reach C sys₀ sys) : A.keeps sys₀.world sys.world := by
  induction hr with
  | refl => exact A.refl _ hG₀.inv
  | tail hr' hC hs ih =>
    have hG := (Discipline.Reach.good hD hJ hr' hG₀ hJ₀).1
    exact A.trans _ _ _ ih (keeps_step hG (fun e he => henv _ e (he ▸ hC) hG.inv) hs)

/-! ## 3. Following one session -/

/-- **A step does not free a session**, unless it begins another one in its place. -/
theorem Bound.step {sys sys' : Sys S} {l : Label S} {t : Nat} (h : Bound A P sys t)
    (hi : A.inv sys.world) (hk : A.keeps sys.world sys'.world) (hl : ∀ op, l ≠ .begin t op)
    (hs : sys.step l = some sys') : Bound A P sys' t := by
  intro ses' ht'
  rcases Discipline.session_of_step hs ht' with ⟨op, rfl, -⟩ |
    ⟨x, ses, s, k, r, c', -, ht, hp, hr, -, -, hprog, hctx⟩ | ⟨-, ht⟩
  · exact absurd rfl (hl op)
  · have hwp := h ses ht
    rw [hp] at hwp
    obtain ⟨-, hrest⟩ := hwp sys.world (A.refl _ hi) x r c' hr
    rw [hctx, hprog]
    cases r with
    | ok v => exact hrest
    | error e => exact hrest
  · rw [ctx_at' sys sys' t ses']
    exact wp_at' (h ses' ht) hk

end

end Accord

end Txn
