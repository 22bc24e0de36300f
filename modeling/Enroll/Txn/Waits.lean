/-
# Who waits for whom

A statement runs only when every lock it takes is free or its caller's own, so a session may have
to wait for another one, which may be waiting itself.  When the locks have an order and no session
waits for a lock below one that it owns, nobody waits in a circle (`WaitsFor.irrefl`), and since
only finitely many sessions are open, one of them does not wait at all (`exists_not_waiting`).

What a session owns when it asks for a lock is a fact about its program.  `Guarded A p c` says that
each statement of `p`, when it is reached, meets its assertion `A`; it is proved along the program
beside `wp`, and then it holds of every open session of a run (`Guards.step`).
-/
import Enroll.Txn.Trace
import Enroll.Txn.Watch
import Mathlib.Data.Set.Finite.Lattice
import Mathlib.Order.WellFounded

namespace Txn

variable {E : Engine} {α β : Type} {S : Service E}

/-! ## 1. Assertions along a program -/

/-- Every statement of `p` meets `A` when it is reached, whatever the others have done by `R`. -/
def Guarded (A : E.Stmt → Ctx E → Prop) (R : Ctx E → E.World → Prop) : Prog E α → Ctx E → Prop
  | .pure _, _ => True
  | .throw _, _ => True
  | .stmt s k, c => ∀ w, R c w → A s (c.at' w) ∧
      ∀ x v c', (c.at' w).run s x = some (.ok v, c') → Guarded A R (k v) c'

namespace Guarded

variable {A : E.Stmt → Ctx E → Prop} {R G : Ctx E → E.World → Prop} {c : Ctx E}

theorem lift {s : E.Stmt} (h : ∀ w, R c w → A s (c.at' w)) : Guarded A R (.lift s) c :=
  fun w hw => ⟨h w hw, fun _ _ _ _ => trivial⟩

theorem ite {p : Prop} [Decidable p] {a b : Prog E α} (ha : p → Guarded A R a c)
    (hb : ¬ p → Guarded A R b c) : Guarded A R (if p then a else b) c := by
  split
  · exact ha ‹_›
  · exact hb ‹_›

/-- A program whose statements meet `A` anywhere. -/
theorem of_only : ∀ {p : Prog E α} {c : Ctx E}, Only (fun s => ∀ c, A s c) p → Guarded A R p c := by
  intro p
  induction p with
  | pure a => exact fun _ => trivial
  | throw e => exact fun _ => trivial
  | stmt s k ih => exact fun h w _ => ⟨h.1 _, fun x v c' _ => ih v (h.2 v)⟩

/-- **Sequencing**: the second part is reached as the specification of the first part says. -/
theorem bind {f : α → Prog E β} : ∀ {p : Prog E α} {c : Ctx E}, Guarded A R p c →
    wp R G p (fun r c' => ∀ a, r = .ok a → Guarded A R (f a) c') c → Guarded A R (p >>= f) c := by
  intro p
  induction p with
  | pure a => exact fun _ h => h a rfl
  | throw e => exact fun _ _ => trivial
  | stmt s k ih =>
    intro c hg hw w hR
    obtain ⟨hA, hk⟩ := hg w hR
    refine ⟨hA, fun x v c' hr => ?_⟩
    exact ih v (hk x v c' hr) (hw w hR x (.ok v) c' hr).2

/-- **Loops over a list.**  `I t` is what holds when the elements of `t` are still to come. -/
theorem each {f : β → Prog E Unit} (I : List β → Ctx E → Prop)
    (step : ∀ x t c, I (x :: t) c → Guarded A R (f x) c ∧
      wp R G (f x) (fun r c' => ∀ a, r = .ok a → I t c') c) :
    ∀ {xs : List β} {c : Ctx E}, I xs c → Guarded A R (.each xs f) c := by
  intro xs
  induction xs with
  | nil => exact fun _ => trivial
  | cons x t ih =>
    intro c h
    obtain ⟨hx, hw⟩ := step x t c h
    exact bind (p := f x) hx (wp_mono (fun r c' hr a ha => ih (hr a ha)) hw)

/-- What the others do by `R` is covered. -/
theorem rely (htrans : ∀ c w w', R c w → R (c.at' w) w' → R c w') {p : Prog E α} {w : E.World}
    (h : Guarded A R p c) (hw : R c w) : Guarded A R p (c.at' w) := by
  cases p with
  | pure a => trivial
  | throw e => trivial
  | stmt s k => exact fun w' hw' => h w' (htrans c w w' hw hw')

end Guarded

/-! ## 2. Along a run -/

/-- Every open session is guarded. -/
def Guards (D : Discipline S) (A : E.Stmt → Ctx E → Prop) (sys : Sys S) : Prop :=
  ∀ t ses, sys.sessions t = some ses → Guarded A (D.rely ses.op) ses.prog (sys.ctx t ses)

section Run

variable {D : Discipline S} {A : E.Stmt → Ctx E → Prop} {sys sys' : Sys S} {l : Label S}

/-- **A step keeps the sessions guarded**, when requests begin guarded and the others do nothing
that an open session does not rely on. -/
theorem Guards.step (h : Guards D A sys) (hG : D.Good sys)
    (hstart : ∀ op, Guarded A (D.rely op) (S.body op) (Ctx.start sys.world))
    (hothers : ∀ t ses, sys.sessions t = some ses → l.session ≠ some t →
      D.rely ses.op (sys.ctx t ses) sys'.world)
    (hs : sys.step l = some sys') : Guards D A sys' := by
  intro t ses' ht'
  rcases Discipline.session_of_step hs ht' with ⟨op, rfl, rfl⟩ |
    ⟨x, ses, s, k, r, c', -, ht, hp, hr, hop, -, hprog, hctx⟩ | ⟨hl, ht⟩
  · obtain ⟨hnone, rfl⟩ := Discipline.begin_cases hs
    have hheld : (fun k => sys.owner k = some t) = fun _ => False := by
      funext k
      exact propext ⟨fun ho => hG.owned k t ho hnone, False.elim⟩
    have hbegun := hstart op
    unfold Ctx.start at hbegun
    rw [← hheld] at hbegun
    exact hbegun
  · have hg := h t ses ht
    rw [hp] at hg
    rw [hctx, hop, hprog]
    cases r with
    | ok v => exact (hg _ (D.refl _ _ hG.inv)).2 x v c' hr
    | error e => trivial
  · rw [ctx_of_ne hs hl]
    exact (h t ses' ht).rely (D.trans ses'.op) (hothers t ses' ht hl)

/-- The next statement of a guarded session meets its assertion. -/
theorem Guards.next (h : Guards D A sys) (hinv : D.inv sys.world) {t : Nat} {ses : Session S}
    {s : E.Stmt} {k : E.Res s → Prog E S.Out} (ht : sys.sessions t = some ses)
    (hp : ses.prog = .stmt s k) : A s (sys.ctx t ses) := by
  have hg := h t ses ht
  rw [hp] at hg
  exact (hg _ (D.refl _ _ hinv)).1

end Run

/-! ## 3. Who owns what -/

section Owners

variable {sys sys' : Sys S} {l : Label S} {k : E.Key} {t : Nat}

/-- **Where an owner comes from**: it owned the key before, or it took the key in this step. -/
theorem owner_of_step (hs : sys.step l = some sys') (ho : sys'.owner k = some t) :
    sys.owner k = some t ∨ ∃ x ses s kont, l = .exec t x ∧ sys.sessions t = some ses ∧
      ses.prog = .stmt s kont ∧ k ∈ E.locks s x (sys.ctx t ses).view := by
  have hclose : ∀ t', (sys.close t').owner k = some t → sys.owner k = some t := by
    intro t' h
    simp only [Sys.close] at h
    split at h
    · exact absurd h (by simp)
    · exact h
  cases l with
  | begin t' op =>
    obtain ⟨-, rfl⟩ := Discipline.begin_cases hs
    exact Or.inl ho
  | exec t' x =>
    obtain ⟨ses, s, kont, r, c', ht, hp, -, -, ses', -, -, -, -, rfl, -⟩ :=
      Discipline.stepExec_cases hs
    simp only [Sys.keep] at ho
    split at ho
    · rename_i hk
      obtain rfl := Option.some.inj ho
      exact Or.inr ⟨x, ses, s, kont, rfl, ht, hp, hk⟩
    · exact Or.inl ho
  | commit t' =>
    obtain ⟨ses, a, -, -, rfl⟩ := Discipline.commit_cases hs
    exact Or.inl (hclose t' ho)
  | rollback t' =>
    obtain ⟨ses, e, -, -, rfl⟩ := Discipline.rollback_cases hs
    exact Or.inl (hclose t' ho)
  | crash t' =>
    rw [Discipline.crash_cases hs] at ho
    exact Or.inl (hclose t' ho)
  | env e =>
    rw [Discipline.env_cases hs] at ho
    exact Or.inl ho

/-- **Locks are kept** as long as their owner is open. -/
theorem owner_stays (hs : sys.step l = some sys') (ho : sys.owner k = some t)
    (hopen : sys'.sessions t ≠ none) : sys'.owner k = some t := by
  have hself : ∀ o : Option (Session S), Function.update sys.sessions t o t = o :=
    fun o => Function.update_self t o sys.sessions
  have hclose : ∀ t', Function.update sys.sessions t' none t ≠ none →
      (sys.close t').owner k = some t := by
    intro t' h
    have hne : t ≠ t' := by
      rintro rfl
      exact h (hself none)
    simp only [Sys.close]
    rw [if_neg fun he => hne (Option.some.inj (ho.symm.trans he)), ho]
  cases l with
  | begin t' op =>
    obtain ⟨-, rfl⟩ := Discipline.begin_cases hs
    exact ho
  | exec t' x =>
    obtain ⟨ses, s, kont, r, c', -, -, hfree, -, ses', -, -, -, -, rfl, -⟩ :=
      Discipline.stepExec_cases hs
    simp only [Sys.keep]
    split
    · rename_i hk
      rcases hfree k hk with h | h
      · exact absurd (h.symm.trans ho) (by simp)
      · exact h.symm.trans ho
    · exact ho
  | commit t' =>
    obtain ⟨ses, a, -, -, rfl⟩ := Discipline.commit_cases hs
    exact hclose t' hopen
  | rollback t' =>
    obtain ⟨ses, e, -, -, rfl⟩ := Discipline.rollback_cases hs
    exact hclose t' hopen
  | crash t' =>
    obtain rfl := Discipline.crash_cases hs
    exact hclose t' hopen
  | env e =>
    rw [Discipline.env_cases hs]
    exact ho

/-- Finitely many sessions are open. -/
theorem finite_sessions {C : Sys S → Label S → Prop} {w : E.World}
    (h : Sys.Reach C (Sys.init w) sys) : {t | sys.sessions t ≠ none}.Finite := by
  induction h with
  | refl => simp [Sys.init]
  | @tail sys₁ sys₂ l _ _ hs ih =>
    refine (ih.union (Set.finite_singleton (l.session.getD 0))).subset fun t ht => ?_
    by_cases hl : l.session = some t
    · exact Or.inr (by simp [hl])
    · exact Or.inl fun hnone => ht ((Discipline.sessions_of_ne hs hl).trans hnone)

/-- Finitely many keys are owned. -/
theorem finite_owned {C : Sys S → Label S → Prop} {w : E.World}
    (h : Sys.Reach C (Sys.init w) sys) : {k | sys.owner k ≠ none}.Finite := by
  induction h with
  | refl => simp [Sys.init]
  | @tail sys₁ sys₂ l _ _ hs ih =>
    -- the keys taken in the step are those of its one statement
    have htaken : ∃ ks : List E.Key, ∀ k t, sys₂.owner k = some t →
        sys₁.owner k = some t ∨ k ∈ ks := by
      cases l with
      | exec t' x =>
        obtain ⟨ses, s, kont, r, c', -, -, -, -, ses', -, -, -, -, rfl, -⟩ :=
          Discipline.stepExec_cases hs
        refine ⟨E.locks s x (sys₁.ctx t' ses).view, fun k t ho => ?_⟩
        simp only [Sys.keep] at ho
        split at ho
        · exact Or.inr ‹_›
        · exact Or.inl ho
      | begin t' op => exact ⟨[], fun k t ho => .inl ((owner_of_step hs ho).resolve_right (by simp))⟩
      | commit t' => exact ⟨[], fun k t ho => .inl ((owner_of_step hs ho).resolve_right (by simp))⟩
      | rollback t' =>
        exact ⟨[], fun k t ho => .inl ((owner_of_step hs ho).resolve_right (by simp))⟩
      | crash t' => exact ⟨[], fun k t ho => .inl ((owner_of_step hs ho).resolve_right (by simp))⟩
      | env e => exact ⟨[], fun k t ho => .inl ((owner_of_step hs ho).resolve_right (by simp))⟩
    obtain ⟨ks, hks⟩ := htaken
    refine (ih.union ks.finite_toSet).subset fun k hk => ?_
    obtain ⟨t, ho⟩ := Option.ne_none_iff_exists'.mp hk
    rcases hks k t ho with h | h
    · exact Or.inl (by simp [h])
    · exact Or.inr h

end Owners

/-! ## 4. Waiting -/

/-- The next statement of session `t` takes the key `k`, which somebody else owns. -/
def Awaits (sys : Sys S) (t : Nat) (k : E.Key) : Prop :=
  ∃ ses s kont x, sys.sessions t = some ses ∧ ses.prog = .stmt s kont ∧
    k ∈ E.locks s x (sys.ctx t ses).view ∧ ∃ t', sys.owner k = some t' ∧ t' ≠ t

/-- Session `t` waits for a key of the kind `K` that session `t'` owns. -/
def WaitsFor (K : E.Key → Prop) (sys : Sys S) (t t' : Nat) : Prop :=
  ∃ k, K k ∧ Awaits sys t k ∧ sys.owner k = some t'

/-- Who waits for a key owns only keys below it. -/
def InOrder {ρ : Type} [LT ρ] (K : E.Key → Prop) (rank : E.Key → ρ) (sys : Sys S) : Prop :=
  ∀ t k, K k → Awaits sys t k → ∀ k', K k' → sys.owner k' = some t → rank k' < rank k

section Waiting

variable {ρ : Type} [Preorder ρ] {K : E.Key → Prop} {rank : E.Key → ρ} {sys : Sys S}

/-- Along a chain of waiting sessions the awaited keys go up. -/
theorem WaitsFor.ascends (h : InOrder K rank sys) {t t' : Nat}
    (hc : Relation.TransGen (WaitsFor K sys) t t') :
    ∃ k k', K k ∧ Awaits sys t k ∧ K k' ∧ sys.owner k' = some t' ∧ rank k ≤ rank k' := by
  induction hc with
  | single hw =>
    obtain ⟨k, hk, ha, ho⟩ := hw
    exact ⟨k, k, hk, ha, hk, ho, le_refl _⟩
  | tail _ hw ih =>
    obtain ⟨k, k₁, hk, ha, hk₁, ho₁, hle⟩ := ih
    obtain ⟨k₂, hk₂, ha₂, ho₂⟩ := hw
    exact ⟨k, k₂, hk, ha, hk₂, ho₂, hle.trans (h _ k₂ hk₂ ha₂ k₁ hk₁ ho₁).le⟩

/-- **Nobody waits in a circle.** -/
theorem WaitsFor.irrefl (h : InOrder K rank sys) (t : Nat) :
    ¬ Relation.TransGen (WaitsFor K sys) t t := by
  intro hc
  obtain ⟨k, k', hk, ha, hk', ho, hle⟩ := WaitsFor.ascends h hc
  exact absurd hle (h t k hk ha k' hk' ho).not_ge

/-- **Among finitely many sessions somebody does not wait**, when nobody waits in a circle. -/
theorem exists_not_waiting (hfin : {t | sys.sessions t ≠ none}.Finite)
    (howned : ∀ k t, sys.owner k = some t → sys.sessions t ≠ none)
    (hacyclic : ∀ t, ¬ Relation.TransGen (WaitsFor K sys) t t)
    (hopen : ∃ t, sys.sessions t ≠ none) :
    ∃ t, sys.sessions t ≠ none ∧ ∀ t', ¬ WaitsFor K sys t t' := by
  let Open := {t // sys.sessions t ≠ none}
  let ahead : Open → Open → Prop := fun a b => Relation.TransGen (WaitsFor K sys) b.1 a.1
  have : Finite Open := hfin
  have : IsTrans Open ahead := ⟨fun _ _ _ hab hbc => hbc.trans hab⟩
  have : Std.Irrefl ahead := ⟨fun a => hacyclic a.1⟩
  have hwf : WellFounded ahead := Finite.wellFounded_of_trans_of_irrefl ahead
  obtain ⟨t, ht⟩ := hopen
  obtain ⟨m, -, hmin⟩ := hwf.has_min Set.univ ⟨⟨t, ht⟩, trivial⟩
  refine ⟨m.1, m.2, fun t' hw => ?_⟩
  have hopen' : sys.sessions t' ≠ none := by
    obtain ⟨k, -, -, ho⟩ := hw
    exact howned k t' ho
  exact hmin ⟨t', hopen'⟩ trivial (.single hw)

end Waiting

/-! ## 5. Steps of its own -/

/-- Session `t` runs a statement, commits or rolls back. -/
inductive Label.Own (t : Nat) : Label S → Prop
  | exec (x : E.Input) : Own t (.exec t x)
  | commit : Own t (.commit t)
  | rollback : Own t (.rollback t)

/-- Session `t` can take its next step. -/
def CanStep (sys : Sys S) (t : Nat) : Prop := ∃ l, l.Own t ∧ (sys.step l).isSome = true

section CanStep

variable {sys : Sys S} {t : Nat} {ses : Session S}

theorem CanStep.of_pure {a : S.Out} (ht : sys.sessions t = some ses) (hp : ses.prog = .pure a) :
    CanStep sys t := by
  obtain ⟨op, prog, log, trace⟩ := ses
  obtain rfl : prog = .pure a := hp
  exact ⟨.commit t, .commit, by simp [Sys.step, ht]⟩

theorem CanStep.of_throw {e : E.Err} (ht : sys.sessions t = some ses) (hp : ses.prog = .throw e) :
    CanStep sys t := by
  obtain ⟨op, prog, log, trace⟩ := ses
  obtain rfl : prog = .throw e := hp
  exact ⟨.rollback t, .rollback, by simp [Sys.step, ht]⟩

/-- A statement runs when its keys are free or the session's own. -/
theorem CanStep.of_stmt {s : E.Stmt} {k : E.Res s → Prog E S.Out} {x : E.Input}
    (ht : sys.sessions t = some ses) (hp : ses.prog = .stmt s k)
    (hfree : ∀ key ∈ E.locks s x (sys.ctx t ses).view, ∀ t', sys.owner key = some t' → t' = t)
    (hx : (E.exec s x (sys.ctx t ses).view).isSome = true) : CanStep sys t := by
  refine ⟨.exec t x, .exec x, ?_⟩
  have hall : (E.locks s x (ses.log.foldl E.apply sys.world)).all
      (fun key => (sys.owner key).all (· == t)) = true := by
    refine List.all_eq_true.mpr fun key hkey => ?_
    cases ho : sys.owner key with
    | none => rfl
    | some t' => simpa using hfree key hkey t' ho
  have hview : E.exec s x (sys.ctx t ses).view = E.exec s x (ses.log.foldl E.apply sys.world) := rfl
  rw [hview] at hx
  simp only [Sys.step, Sys.stepExec, ht, hp, hall, if_true]
  cases hexec : E.exec s x (ses.log.foldl E.apply sys.world) with
  | none => simp [hexec] at hx
  | some result =>
    cases result with
    | error e => rfl
    | ok out => rfl

end CanStep

end Txn
