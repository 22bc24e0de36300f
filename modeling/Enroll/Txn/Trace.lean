/-
# The statements a program can ask for

`Only P p` says that every statement of the program `p`, on whatever results it gets, satisfies
`P`.  It is proved along the program, and then holds of every statement that any session running
the program has run (`Asks.run`).  `Alone f` says that the open sessions have different names under
`f`; it is kept by whoever begins sessions (`Alone.step`).
-/
import Enroll.Txn.Rely

namespace Txn

variable {E : Engine} {α β : Type}

/-! ## 1. Along a program -/

/-- Every statement that `p` can ask for satisfies `P`. -/
def Only (P : E.Stmt → Prop) : Prog E α → Prop
  | .pure _ => True
  | .throw _ => True
  | .stmt s k => P s ∧ ∀ r, Only P (k r)

namespace Only

variable {P : E.Stmt → Prop}

theorem pure {a : α} : Only P (Pure.pure a : Prog E α) := trivial

theorem throw {e : E.Err} : Only P (.throw e : Prog E α) := trivial

theorem lift {s : E.Stmt} (h : P s) : Only P (.lift s) := ⟨h, fun _ => trivial⟩

theorem bind {f : α → Prog E β} (hf : ∀ a, Only P (f a)) :
    ∀ {p : Prog E α}, Only P p → Only P (p >>= f) := by
  intro p
  induction p with
  | pure a => exact fun _ => hf a
  | throw e => exact fun _ => trivial
  | stmt s k ih => exact fun h => ⟨h.1, fun r => ih r (h.2 r)⟩

theorem throwIf {c : Prop} [Decidable c] {e : E.Err} : Only P (.throwIf c e) := by
  unfold Prog.throwIf
  split <;> trivial

theorem orThrow {o : Option α} {e : E.Err} : Only P (.orThrow o e) := by
  cases o <;> trivial

theorem mono {P' : E.Stmt → Prop} (hP : ∀ s, P s → P' s) :
    ∀ {p : Prog E α}, Only P p → Only P' p := by
  intro p
  induction p with
  | pure a => exact fun _ => trivial
  | throw e => exact fun _ => trivial
  | stmt s k ih => exact fun h => ⟨hP s h.1, fun r => ih r (h.2 r)⟩

/-- No restriction. -/
theorem of_forall (h : ∀ s, P s) : ∀ p : Prog E α, Only P p := by
  intro p
  induction p with
  | pure a => trivial
  | throw e => trivial
  | stmt s k ih => exact ⟨h s, ih⟩

end Only

/-! ## 2. Along a run -/

variable {S : Service E}

/-- Every session has run, and will run, statements of its request only. -/
def Asks (P : S.Op → E.Stmt → Prop) (sys : Sys S) : Prop :=
  ∀ t ses, sys.sessions t = some ses →
    Only (P ses.op) ses.prog ∧ ∀ s ∈ ses.trace, P ses.op s

namespace Asks

variable {P : S.Op → E.Stmt → Prop} {sys sys' : Sys S}

theorem step (hbody : ∀ op, Only (P op) (S.body op)) (h : Asks P sys) {l : Label S}
    (hs : sys.step l = some sys') : Asks P sys' := by
  intro t ses' ht'
  rcases Discipline.session_of_step hs ht' with ⟨op, -, rfl⟩ |
    ⟨x, ses, s, k, r, c', -, ht, hp, -, hop, htr, hprog, -⟩ | ⟨-, ht⟩
  · exact ⟨hbody op, fun _ hm => absurd hm List.not_mem_nil⟩
  · obtain ⟨honly, htrace⟩ := h t ses ht
    rw [hp] at honly
    rw [hop, htr, hprog]
    constructor
    · cases r with
      | ok v => exact honly.2 v
      | error e => trivial
    · intro s' hs'
      rcases List.mem_append.mp hs' with hs' | hs'
      · exact htrace s' hs'
      · rw [List.mem_singleton.mp hs']
        exact honly.1
  · exact h t ses' ht

/-- **What no request asks for, no session has asked for.** -/
theorem run {C : Sys S → Label S → Prop} (hbody : ∀ op, Only (P op) (S.body op)) {sys₀ : Sys S}
    (h₀ : Asks P sys₀) (h : Sys.Reach C sys₀ sys) : Asks P sys := by
  induction h with
  | refl => exact h₀
  | tail _ _ hs ih => exact ih.step hbody hs

end Asks

/-! ## 3. One session for each name -/

/-- Sessions with the same name under `f` are one session. -/
def Alone {κ : Type} (f : S.Op → Option κ) (sys : Sys S) : Prop :=
  ∀ t ses t' ses' k, sys.sessions t = some ses → sys.sessions t' = some ses' →
    f ses.op = some k → f ses'.op = some k → t = t'

/-- A session was there before the step, with the same request, or the step begins it. -/
theorem op_of_step {sys sys' : Sys S} {l : Label S} (hs : sys.step l = some sys') {t : Nat}
    {ses : Session S} (ht : sys'.sessions t = some ses) :
    (∃ ses₀, sys.sessions t = some ses₀ ∧ ses₀.op = ses.op) ∨ l = .begin t ses.op := by
  rcases Discipline.session_of_step hs ht with ⟨op, rfl, rfl⟩ |
    ⟨x, ses₀, s, k, r, c', -, ht₀, -, -, hop, -⟩ | ⟨-, ht₀⟩
  · exact Or.inr rfl
  · exact Or.inl ⟨ses₀, ht₀, hop.symm⟩
  · exact Or.inl ⟨ses, ht₀, rfl⟩

/-- The session that a step ends. -/
def Label.ends : Label S → Option Nat
  | begin _ _ => none
  | exec _ _ => none
  | commit t => some t
  | rollback t => some t
  | crash t => some t
  | env _ => none

theorem closed_of_step {sys sys' : Sys S} {l : Label S} {t : Nat} (hl : l.ends = some t)
    (hs : sys.step l = some sys') : sys'.sessions t = none := by
  cases l with
  | begin t' op => exact absurd hl (by simp [Label.ends])
  | exec t' x => exact absurd hl (by simp [Label.ends])
  | commit t' =>
    obtain rfl := Option.some.inj hl
    obtain ⟨ses, a, -, -, rfl⟩ := Discipline.commit_cases hs
    exact Function.update_self _ _ _
  | rollback t' =>
    obtain rfl := Option.some.inj hl
    obtain ⟨ses, e, -, -, rfl⟩ := Discipline.rollback_cases hs
    exact Function.update_self _ _ _
  | crash t' =>
    obtain rfl := Option.some.inj hl
    rw [Discipline.crash_cases hs]
    exact Function.update_self _ _ _
  | env e => exact absurd hl (by simp [Label.ends])

/-- A session that is open stays open, with the same request, unless the step ends it. -/
theorem stays_of_step {sys sys' : Sys S} {l : Label S} {t : Nat} (hs : sys.step l = some sys')
    {ses : Session S} (ht : sys.sessions t = some ses) (hl : l.ends ≠ some t) :
    ∃ ses', sys'.sessions t = some ses' ∧ ses'.op = ses.op := by
  by_cases hsession : l.session = some t
  · cases l with
    | begin t' op =>
      obtain rfl := Option.some.inj hsession
      obtain ⟨hnone, -⟩ := Discipline.begin_cases hs
      exact absurd (hnone.symm.trans ht) (by simp)
    | exec t' x =>
      obtain rfl := Option.some.inj hsession
      obtain ⟨ses₀, s, k, r, c', ht₀, -, -, -, ses', hop, -, -, -, rfl, -⟩ :=
        Discipline.stepExec_cases hs
      obtain rfl := Option.some.inj (ht.symm.trans ht₀)
      exact ⟨ses', Function.update_self _ _ _, hop⟩
    | commit t' => exact absurd hsession hl
    | rollback t' => exact absurd hsession hl
    | crash t' => exact absurd hsession hl
    | env e => exact absurd hsession (by simp [Label.session])
  · exact ⟨ses, (Discipline.sessions_of_ne hs hsession).trans ht, rfl⟩

/-- **A session begins only when none of its name is open, so there is never a second one.** -/
theorem Alone.step {κ : Type} {f : S.Op → Option κ} {sys sys' : Sys S} {l : Label S}
    (h : Alone f sys)
    (hbegin : ∀ t op k, l = .begin t op → f op = some k → ∀ t' ses', sys.sessions t' = some ses' →
      f ses'.op ≠ some k)
    (hs : sys.step l = some sys') : Alone f sys' := by
  intro t ses t' ses' k ht ht' hk hk'
  rcases op_of_step hs ht with ⟨ses₀, ht₀, hop⟩ | rfl
  · rcases op_of_step hs ht' with ⟨ses₀', ht₀', hop'⟩ | rfl
    · exact h t ses₀ t' ses₀' k ht₀ ht₀' (hop ▸ hk) (hop' ▸ hk')
    · exact absurd (hop ▸ hk) (hbegin t' ses'.op k rfl hk' t ses₀ ht₀)
  · rcases op_of_step hs ht' with ⟨ses₀', ht₀', hop'⟩ | he
    · exact absurd (hop' ▸ hk') (hbegin t ses.op k rfl hk t' ses₀' ht₀')
    · exact (Label.begin.inj he).1

/-! ## 4. The first statement -/

/-- A session that has run nothing is at the beginning of its request. -/
def Unstarted (sys : Sys S) : Prop :=
  ∀ t ses, sys.sessions t = some ses → ses.trace = [] → ses.prog = S.body ses.op

theorem Unstarted.step {sys sys' : Sys S} {l : Label S} (h : Unstarted sys)
    (hs : sys.step l = some sys') : Unstarted sys' := by
  intro t ses' ht' hnil
  rcases Discipline.session_of_step hs ht' with ⟨op, -, rfl⟩ |
    ⟨x, ses, s, k, r, c', -, -, -, -, -, htr, -⟩ | ⟨-, ht⟩
  · rfl
  · rw [htr] at hnil
    exact absurd hnil (by simp)
  · exact h t ses' ht hnil

/-- A session that has run something had done so before the step, or runs its first statement. -/
theorem started_of_step {sys sys' : Sys S} {l : Label S} (hs : sys.step l = some sys') {t : Nat}
    {ses' : Session S} (ht : sys'.sessions t = some ses') (hne : ses'.trace ≠ []) :
    ∃ ses, sys.sessions t = some ses ∧ ses.op = ses'.op ∧
      (ses.trace ≠ [] ∨ ses.trace = [] ∧ ∃ x, l = .exec t x) := by
  rcases Discipline.session_of_step hs ht with ⟨op, -, rfl⟩ |
    ⟨x, ses, s, k, r, c', hl, ht₀, -, -, hop, -⟩ | ⟨-, ht₀⟩
  · exact absurd rfl hne
  · by_cases hnil : ses.trace = []
    · exact ⟨ses, ht₀, hop.symm, Or.inr ⟨hnil, x, hl⟩⟩
    · exact ⟨ses, ht₀, hop.symm, Or.inl hnil⟩
  · exact ⟨ses', ht₀, rfl, Or.inl hne⟩

end Txn
