/-
# One session through a run

`Discipline.Good` keeps every open session under control from the first state of a run.  A property
that holds only from some later point on, of the sessions that begin after it, needs less: session
`t` is followed alone (`Watched`), and the other sessions matter only as what they do to the world.
-/
import Enroll.Txn.Rely

namespace Txn

variable {E : Engine} {S : Service E} {D : Discipline S} {sys sys' : Sys S} {l : Label S} {t : Nat}

/-- A step that is not about session `t` moves the world under it and nothing else. -/
theorem ctx_of_ne (hs : sys.step l = some sys') (hl : l.session ≠ some t) (ses : Session S) :
    sys'.ctx t ses = (sys.ctx t ses).at' sys'.world := by
  cases l with
  | begin t' op =>
    obtain ⟨-, rfl⟩ := Discipline.begin_cases hs
    rfl
  | exec t' x =>
    have hne : t ≠ t' := fun he => hl (congrArg some he.symm)
    obtain ⟨ses₁, s, k, r, c', -, -, hfree, -, ses', -, -, -, -, rfl, -⟩ :=
      Discipline.stepExec_cases hs
    exact Discipline.ctx_keep_ne hne hfree
  | commit t' =>
    have hne : t ≠ t' := fun he => hl (congrArg some he.symm)
    obtain ⟨ses₁, a, -, -, rfl⟩ := Discipline.commit_cases hs
    have hctx : (sys.close t').ctx t ses = sys.ctx t ses := Discipline.ctx_close hne
    exact congrArg (fun c => c.at' (sys.ctx t' ses₁).view) hctx
  | rollback t' =>
    have hne : t ≠ t' := fun he => hl (congrArg some he.symm)
    obtain ⟨ses₁, e, -, -, rfl⟩ := Discipline.rollback_cases hs
    have hctx : (sys.close t').ctx t ses = sys.ctx t ses := Discipline.ctx_close hne
    exact hctx
  | crash t' =>
    have hne : t ≠ t' := fun he => hl (congrArg some he.symm)
    rw [Discipline.crash_cases hs]
    exact Discipline.ctx_close hne
  | env e =>
    rw [Discipline.env_cases hs]
    rfl

/-- Session `t`, if it is open, is under control. -/
def Watched (D : Discipline S) (t : Nat) (sys : Sys S) : Prop :=
  ∀ ses, sys.sessions t = some ses → D.controlled ses.op ses.prog (sys.ctx t ses)

theorem Watched.of_none (h : sys.sessions t = none) : Watched D t sys :=
  fun _ ht => absurd (h.symm.trans ht) (by simp)

/-- **A step keeps session `t` under control**, when it begins under control and the others do
nothing it does not tolerate. -/
theorem Watched.step (h : Watched D t sys) (hinv : D.inv sys.world)
    (howned : ∀ k, sys.owner k = some t → sys.sessions t ≠ none)
    (hstart : ∀ op, l = .begin t op → D.controlled op (S.body op) (Ctx.start sys.world))
    (hothers : ∀ ses, sys.sessions t = some ses → l.session ≠ some t →
      D.tolerates ses.op ses.prog (sys.ctx t ses) sys'.world)
    (hs : sys.step l = some sys') : Watched D t sys' := by
  intro ses' ht'
  rcases Discipline.session_of_step hs ht' with ⟨op, rfl, rfl⟩ |
    ⟨x, ses, s, k, r, c', -, ht, hp, hr, hop, -, hprog, hctx⟩ | ⟨hl, ht⟩
  · obtain ⟨hnone, rfl⟩ := Discipline.begin_cases hs
    have hheld : (fun k => sys.owner k = some t) = fun _ => False := by
      funext k
      exact propext ⟨fun ho => howned k ho hnone, False.elim⟩
    have hbegun := hstart op rfl
    unfold Ctx.start at hbegun
    rw [← hheld] at hbegun
    exact hbegun
  · have hc := h ses ht
    unfold Discipline.controlled at hc
    rw [hp] at hc
    obtain ⟨-, hk⟩ := hc _ (D.refl _ _ hinv) x r c' hr
    rw [hctx, hop, hprog]
    cases r with
    | ok v => exact hk
    | error e => exact hk
  · rw [ctx_of_ne hs hl]
    exact Discipline.controlled_rely D (h ses' ht) (hothers ses' ht hl)

/-- A watched session that is about to commit has its post-condition. -/
theorem Watched.post (h : Watched D t sys) (hinv : D.inv sys.world) {ses : Session S} {a : S.Out}
    (ht : sys.sessions t = some ses) (hp : ses.prog = .pure a) :
    D.post ses.op (.ok a) (sys.ctx t ses) := by
  have hc := h ses ht
  unfold Discipline.controlled at hc
  rw [hp] at hc
  exact hc _ (D.refl _ _ hinv)

/-- **Where an open session comes from**: it was open at the start of the run, with the same request,
or it has begun on the way. -/
theorem begun {C : Sys S → Label S → Prop} {sys₀ : Sys S} (hr : Sys.Reach C sys₀ sys)
    {ses : Session S} (ht : sys.sessions t = some ses) :
    (∃ ses₀, sys₀.sessions t = some ses₀ ∧ ses₀.op = ses.op) ∨
      ∃ sys₁, Sys.Reach C sys₀ sys₁ ∧ sys₁.sessions t = none ∧ Sys.Reach C sys₁ sys := by
  induction hr generalizing ses with
  | refl => exact Or.inl ⟨ses, ht, rfl⟩
  | @tail sys sys' l hr hC hs ih =>
    -- the session was open before the step, unless it begins with it
    have hbefore : sys.sessions t = none ∨
        ∃ ses₁, sys.sessions t = some ses₁ ∧ ses₁.op = ses.op := by
      rcases Discipline.session_of_step hs ht with ⟨op, rfl, -⟩ |
        ⟨x, ses₁, s, k, r, c', -, ht₁, -, -, hop, -⟩ | ⟨-, ht₁⟩
      · exact Or.inl (Discipline.begin_cases hs).1
      · exact Or.inr ⟨ses₁, ht₁, hop.symm⟩
      · exact Or.inr ⟨ses, ht₁, rfl⟩
    rcases hbefore with hnone | ⟨ses₁, ht₁, hop⟩
    · exact Or.inr ⟨sys, hr, hnone, Sys.Reach.refl.tail hC hs⟩
    · rcases ih ht₁ with ⟨ses₀, ht₀, hop₀⟩ | ⟨sys₁, hr₁, hnone, hr₁'⟩
      · exact Or.inl ⟨ses₀, ht₀, hop₀.trans hop⟩
      · exact Or.inr ⟨sys₁, hr₁, hnone, hr₁'.tail hC hs⟩

end Txn
