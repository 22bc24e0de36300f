/-
# Reasoning about one caller among many

A caller's program is verified once, against every schedule, by saying what the others may do
between two of its statements (the RELY), what its own statements may do at once to the world
(the GUARANTEE), and what is true when it is about to commit (the POST-condition).

* `wp` is the weakest precondition of a program under a rely: at every statement the world may
  first move by the rely, and then every input of the outside is possible.
* `Discipline` assigns a rely, a guarantee and a post-condition to each request of a service.
* `Sound` says that the assignment fits together: whatever one session does to the world is
  something the others rely on.
* `Reach.good` is the result: in every reachable state every open session still satisfies its
  `wp`, so in particular every session that is about to commit satisfies its post-condition in
  the world it commits to (`Good.post`).
* `withPost` says more at the end of a request; only the request itself is to be verified again.
-/
import Enroll.Txn.System

namespace Txn

variable {E : Engine} {α β : Type}

/-! ## 1. Weakest preconditions -/

/-- What must hold before `p` for `Q` to hold when it ends, when the world moves by `R` between
statements and each statement's immediate effect is to meet `G`. -/
def wp (R G : Ctx E → E.World → Prop) :
    Prog E α → (Except E.Err α → Ctx E → Prop) → Ctx E → Prop
  | .pure a, Q, c => Q (.ok a) c
  | .throw e, Q, c => Q (.error e) c
  | .stmt s k, Q, c => ∀ w, R c w → ∀ x r c', (c.at' w).run s x = some (r, c') →
      G (c.at' w) c'.world ∧
        match r with
        | .ok v => wp R G (k v) Q c'
        | .error e => Q (.error e) c'

section Rules

variable {R G : Ctx E → E.World → Prop} {Q Q' : Except E.Err α → Ctx E → Prop} {c : Ctx E}

/-- How a post-condition is passed through a sequence: an error skips the rest. -/
def andThen (R G : Ctx E → E.World → Prop) (f : α → Prog E β)
    (Q : Except E.Err β → Ctx E → Prop) : Except E.Err α → Ctx E → Prop
  | .ok a, c => wp R G (f a) Q c
  | .error e, c => Q (.error e) c

theorem wp_mono (hQ : ∀ r c, Q r c → Q' r c) :
    ∀ {p : Prog E α} {c : Ctx E}, wp R G p Q c → wp R G p Q' c := by
  intro p
  induction p with
  | pure a => exact fun h => hQ _ _ h
  | throw e => exact fun h => hQ _ _ h
  | stmt s k ih =>
    intro c h w hw x r c' hr
    obtain ⟨hG, h'⟩ := h w hw x r c' hr
    refine ⟨hG, ?_⟩
    cases r with
    | ok v => exact ih v h'
    | error e => exact hQ _ _ h'

/-- Two post-conditions that are each met are met together. -/
theorem wp_and : ∀ {p : Prog E α} {c : Ctx E}, wp R G p Q c → wp R G p Q' c →
    wp R G p (fun r c => Q r c ∧ Q' r c) c := by
  intro p
  induction p with
  | pure a => exact fun h h' => ⟨h, h'⟩
  | throw e => exact fun h h' => ⟨h, h'⟩
  | stmt s k ih =>
    intro c h h' w hw x r c' hr
    obtain ⟨hG, h₁⟩ := h w hw x r c' hr
    obtain ⟨-, h₂⟩ := h' w hw x r c' hr
    refine ⟨hG, ?_⟩
    cases r with
    | ok v => exact ih v h₁ h₂
    | error e => exact ⟨h₁, h₂⟩

/-- **Sequencing.** -/
theorem wp_bind {f : α → Prog E β} {Q : Except E.Err β → Ctx E → Prop} :
    ∀ {p : Prog E α} {c : Ctx E}, wp R G p (andThen R G f Q) c → wp R G (p >>= f) Q c := by
  intro p
  induction p with
  | pure a => exact fun h => h
  | throw e => exact fun h => h
  | stmt s k ih =>
    intro c h w hw x r c' hr
    obtain ⟨hG, h'⟩ := h w hw x r c' hr
    refine ⟨hG, ?_⟩
    cases r with
    | ok v => exact ih v h'
    | error e => exact h'

/-- One statement. -/
theorem wp_lift {s : E.Stmt} {Q : Except E.Err (E.Res s) → Ctx E → Prop}
    (h : ∀ w, R c w → ∀ x r c', (c.at' w).run s x = some (r, c') →
      G (c.at' w) c'.world ∧ Q r c') :
    wp R G (.lift s) Q c := by
  intro w hw x r c' hr
  obtain ⟨hG, h'⟩ := h w hw x r c' hr
  exact ⟨hG, by cases r <;> exact h'⟩

theorem wp_throwIf {p : Prop} [Decidable p] {e : E.Err} {Q : Except E.Err Unit → Ctx E → Prop}
    (he : p → Q (.error e) c) (hk : ¬ p → Q (.ok ()) c) :
    wp R G (.throwIf p e) Q c := by
  unfold Prog.throwIf
  split
  · exact he ‹_›
  · exact hk ‹_›

theorem wp_orThrow {o : Option α} {e : E.Err} (he : o = none → Q (.error e) c)
    (hk : ∀ a, o = some a → Q (.ok a) c) : wp R G (.orThrow o e) Q c := by
  cases o with
  | none => exact he rfl
  | some a => exact hk a rfl

theorem wp_ite {p : Prop} [Decidable p] {a b : Prog E α} {Q : Except E.Err α → Ctx E → Prop}
    (ha : p → wp R G a Q c) (hb : ¬ p → wp R G b Q c) : wp R G (if p then a else b) Q c := by
  split
  · exact ha ‹_›
  · exact hb ‹_›

/-- **Loops over a list.**  `I t` is what holds when the elements of `t` are still to come. -/
theorem wp_each {f : β → Prog E Unit} {Q : Except E.Err Unit → Ctx E → Prop}
    (I : List β → Ctx E → Prop)
    (step : ∀ x t c, I (x :: t) c →
      wp R G (f x) (fun r c' => match r with
        | .ok _ => I t c'
        | .error e => Q (.error e) c') c)
    (done : ∀ c, I [] c → Q (.ok ()) c) :
    ∀ {xs : List β} {c : Ctx E}, I xs c → wp R G (.each xs f) Q c := by
  intro xs
  induction xs with
  | nil => exact fun h => done _ h
  | cons x t ih =>
    intro c h
    refine wp_bind (p := f x) (wp_mono ?_ (step x t c h))
    intro r c' hr
    cases r with
    | ok u => exact ih hr
    | error e => exact hr

end Rules

/-! ## 2. Later points of one caller -/

section Forward

variable {R : Ctx E → E.World → Prop} {c c' c'' : Ctx E}

/-- A rely that composes, and that allows the less the more a caller holds and has done. -/
structure Monotone (R : Ctx E → E.World → Prop) : Prop where
  trans : ∀ c w w', R c w → R (c.at' w) w' → R c w'
  anti : ∀ c c' w, c.world = c'.world → c.log <+: c'.log → (∀ k, c.held k → c'.held k) →
    c.trace <+: c'.trace → R c' w → R c w

/-- `c'` is a later point of the caller at `c`. -/
structure Forward (R : Ctx E → E.World → Prop) (c c' : Ctx E) : Prop where
  log : c.log <+: c'.log
  held : ∀ k, c.held k → c'.held k
  trace : c.trace <+: c'.trace
  rely : R c c'.world

theorem Forward.trans (hR : Monotone R) (h : Forward R c c') (h' : Forward R c' c'') :
    Forward R c c'' where
  log := h.log.trans h'.log
  held := fun k hk => h'.held k (h.held k hk)
  trace := h.trace.trans h'.trace
  rely := hR.trans _ _ _ h.rely (hR.anti (c.at' c'.world) c' _ rfl h.log h.held h.trace h'.rely)

/-- Only the world has moved. -/
theorem Forward.of_rely {w : E.World} (h : R c w) : Forward R c (c.at' w) :=
  ⟨List.prefix_refl _, fun _ hk => hk, List.prefix_refl _, h⟩

end Forward

/-! ## 3. Disciplines -/

variable {S : Service E}

/-- What each request relies on, guarantees, and has achieved when it ends.  A request that has
failed and is not rolled back yet relies on less (`calm`). -/
structure Discipline (S : Service E) where
  inv : E.World → Prop
  rely : S.Op → Ctx E → E.World → Prop
  calm : S.Op → Ctx E → E.World → Prop
  guar : S.Op → Ctx E → E.World → Prop
  post : S.Op → Except E.Err S.Out → Ctx E → Prop
  refl : ∀ op c, inv c.world → rely op c c.world
  trans : ∀ op c w w', rely op c w → rely op (c.at' w) w' → rely op c w'
  calm_trans : ∀ op c w w', calm op c w → calm op (c.at' w) w' → calm op c w'
  calm_of_rely : ∀ op c w, rely op c w → calm op c w

namespace Discipline

variable (D : Discipline S)

/-- The post-condition holds now and after whatever the others still do. -/
def settled (op : S.Op) (r : Except E.Err S.Out) (c : Ctx E) : Prop :=
  match r with
  | .ok _ => ∀ w, D.rely op c w → D.post op r (c.at' w)
  | .error _ => ∀ w, D.calm op c w → D.post op r (c.at' w)

/-- The request `op` at `c` with program `p` left is under control. -/
def controlled (op : S.Op) (p : Prog E S.Out) (c : Ctx E) : Prop :=
  wp (D.rely op) (D.guar op) p (D.settled op) c

/-- What a request with program `p` left relies on. -/
def tolerates (op : S.Op) (p : Prog E S.Out) (c : Ctx E) (w : E.World) : Prop :=
  match p with
  | .throw _ => D.calm op c w
  | _ => D.rely op c w

theorem tolerates_of_rely {op : S.Op} {p : Prog E S.Out} {c : Ctx E} {w : E.World}
    (h : D.rely op c w) : D.tolerates op p c w := by
  cases p with
  | pure a => exact h
  | throw e => exact D.calm_of_rely op c w h
  | stmt s k => exact h

theorem controlled_rely {op : S.Op} {p : Prog E S.Out} {c : Ctx E} {w : E.World}
    (h : D.controlled op p c) (hw : D.tolerates op p c w) : D.controlled op p (c.at' w) := by
  cases p with
  | pure a => exact fun w' hw' => h w' (D.trans op c w w' hw hw')
  | throw e => exact fun w' hw' => h w' (D.calm_trans op c w w' hw hw')
  | stmt s k => exact fun w' hw' => h w' (D.trans op c w w' hw hw')

/-- Every open session of `sys` is under control. -/
structure Good (sys : Sys S) : Prop where
  inv : D.inv sys.world
  owned : ∀ k t, sys.owner k = some t → sys.sessions t ≠ none
  sessions : ∀ t ses, sys.sessions t = some ses →
    D.controlled ses.op ses.prog (sys.ctx t ses)

/-- The ways in which session `t` may change the world by the step `l`: the immediate effect of a
statement, or its commit. -/
def Changes (sys : Sys S) (t : Nat) (ses : Session S) (l : Label S) (w : E.World) : Prop :=
  (∃ x, l = .exec t x) ∧ D.guar ses.op (sys.ctx t ses) w ∨
    l = .commit t ∧
      ∃ a, ses.prog = .pure a ∧ D.post ses.op (.ok a) (sys.ctx t ses) ∧ w = (sys.ctx t ses).view

/-- The discipline fits together under the step condition `C` and the side invariant `J`. -/
structure Sound (C : Sys S → Label S → Prop) (J : Sys S → Prop) : Prop where
  start : ∀ sys t op, C sys (.begin t op) → J sys → D.Good sys →
    D.controlled op (S.body op) (Ctx.start sys.world)
  inv : ∀ sys l, C sys l → J sys → D.Good sys → ∀ t ses w, sys.sessions t = some ses →
    D.Changes sys t ses l w → D.inv w
  others : ∀ sys l, C sys l → J sys → D.Good sys → ∀ t ses w, sys.sessions t = some ses →
    D.Changes sys t ses l w → ∀ t' ses', t' ≠ t → sys.sessions t' = some ses' →
      D.tolerates ses'.op ses'.prog (sys.ctx t' ses') w
  env_inv : ∀ sys e, C sys (.env e) → J sys → D.Good sys → D.inv (E.env sys.world e)
  env_rely : ∀ sys e, C sys (.env e) → J sys → D.Good sys → ∀ t ses,
    sys.sessions t = some ses →
      D.tolerates ses.op ses.prog (sys.ctx t ses) (E.env sys.world e)

variable {D}

/-- A system nobody is connected to. -/
theorem good_init {w : E.World} (h : D.inv w) : D.Good (Sys.init w) :=
  ⟨h, by simp [Sys.init], by simp [Sys.init]⟩

/-- **A session about to commit has its post-condition in the world it commits to.** -/
theorem Good.post {sys : Sys S} (h : D.Good sys) {t : Nat} {ses : Session S} {a : S.Out}
    (ht : sys.sessions t = some ses) (hp : ses.prog = .pure a) :
    D.post ses.op (.ok a) (sys.ctx t ses) := by
  have hc := h.sessions t ses ht
  unfold controlled at hc
  rw [hp] at hc
  exact hc _ (D.refl _ _ h.inv)

/-- **A session that failed has its error post-condition.** -/
theorem Good.post_error {sys : Sys S} (h : D.Good sys) {t : Nat} {ses : Session S} {e : E.Err}
    (ht : sys.sessions t = some ses) (hp : ses.prog = .throw e) :
    D.post ses.op (.error e) (sys.ctx t ses) := by
  have hc := h.sessions t ses ht
  unfold controlled at hc
  rw [hp] at hc
  exact hc _ (D.calm_of_rely _ _ _ (D.refl _ _ h.inv))

/-! ## 4. What each step does to the sessions -/

/-- The session that runs a statement stays under control, and the world changes as it
guarantees. -/
theorem Good.exec {sys : Sys S} (h : D.Good sys) {t : Nat} {ses : Session S} {s : E.Stmt}
    {k : E.Res s → Prog E S.Out} {x : E.Input} {r : Except E.Err (E.Res s)} {c' : Ctx E}
    (ht : sys.sessions t = some ses) (hp : ses.prog = .stmt s k)
    (hr : (sys.ctx t ses).run s x = some (r, c')) :
    D.guar ses.op (sys.ctx t ses) c'.world ∧
      (∀ v, r = .ok v → D.controlled ses.op (k v) c') ∧
      (∀ e, r = .error e → D.settled ses.op (.error e) c') := by
  have hc := h.sessions t ses ht
  unfold controlled at hc
  rw [hp] at hc
  obtain ⟨hG, hk⟩ := hc _ (D.refl _ _ h.inv) x r c' hr
  refine ⟨hG, ?_, ?_⟩
  · rintro v rfl
    exact hk
  · rintro e rfl
    exact hk

/-- Two sessions own no key together, so taking free keys leaves the others' contexts alone. -/
theorem ctx_keep_ne {sys : Sys S} {t t' : Nat} {ses ses' : Session S} {ks : List E.Key}
    {w : E.World} (hne : t' ≠ t)
    (hfree : ∀ key ∈ ks, sys.owner key = none ∨ sys.owner key = some t) :
    (sys.keep t ses ks w).ctx t' ses' = (sys.ctx t' ses').at' w := by
  simp only [Sys.ctx, Sys.keep, Ctx.at', Ctx.mk.injEq, true_and, and_true]
  funext key
  refine propext ?_
  split
  · rename_i hk
    constructor
    · intro h
      exact absurd (Option.some.inj h).symm hne
    · intro h
      rcases hfree key hk with h' | h' <;> rw [h'] at h
      · exact absurd h (by simp)
      · exact absurd (Option.some.inj h).symm hne
  · exact Iff.rfl

theorem ctx_keep_self {sys : Sys S} {t : Nat} {ses ses' : Session S} {s : E.Stmt} {x : E.Input}
    {ws : List E.Write} (hlog : ses'.log = ses.log ++ ws)
    (htr : ses'.trace = ses.trace ++ [s]) :
    (sys.keep t ses' (E.locks s x (sys.ctx t ses).view) (E.effect s x sys.world)).ctx t ses'
      = (sys.ctx t ses).after s x ws := by
  simp only [Sys.ctx, Sys.keep, Ctx.after, Ctx.mk.injEq, hlog, htr, true_and, and_true]
  funext key
  refine propext ?_
  by_cases hk : key ∈ E.locks s x (sys.ctx t ses).view
  · exact ⟨fun _ => Or.inr hk, fun _ => if_pos hk⟩
  · exact ⟨fun h => Or.inl ((if_neg hk).symm.trans h),
      fun h => (if_neg hk).trans (h.resolve_right hk)⟩

theorem ctx_close {sys : Sys S} {t t' : Nat} {ses' : Session S} (hne : t' ≠ t) :
    (sys.close t).ctx t' ses' = sys.ctx t' ses' := by
  simp only [Sys.ctx, Sys.close, Ctx.mk.injEq, true_and, and_true]
  funext key
  refine propext ?_
  split
  · rename_i h
    rw [h]
    exact ⟨fun h' => absurd h' (by simp), fun h' => absurd (Option.some.inj h').symm hne⟩
  · exact Iff.rfl

/-- What a running statement amounts to. -/
theorem stepExec_cases {sys sys' : Sys S} {t : Nat} {x : E.Input}
    (h : sys.stepExec t x = some sys') :
    ∃ ses s k r c', sys.sessions t = some ses ∧ ses.prog = .stmt s k ∧
      (∀ key ∈ E.locks s x (sys.ctx t ses).view,
        sys.owner key = none ∨ sys.owner key = some t) ∧
      (sys.ctx t ses).run s x = some (r, c') ∧
      ∃ ses', ses'.op = ses.op ∧ ses'.log = c'.log ∧ ses'.trace = ses.trace ++ [s] ∧
        ses'.prog = (match r with | .ok v => k v | .error e => .throw e) ∧
        sys' = sys.keep t ses' (E.locks s x (sys.ctx t ses).view) (E.effect s x sys.world) ∧
        sys'.ctx t ses' = c' := by
  unfold Sys.stepExec at h
  cases ht : sys.sessions t with
  | none => simp [ht] at h
  | some ses =>
    simp only [ht] at h
    cases hp : ses.prog with
    | pure a => simp [hp] at h
    | throw e => simp [hp] at h
    | stmt s k =>
      simp only [hp] at h
      split at h
      · rename_i hfree
        have hfree' : ∀ key ∈ E.locks s x (sys.ctx t ses).view,
            sys.owner key = none ∨ sys.owner key = some t := by
          intro key hk
          have := List.all_eq_true.mp hfree key hk
          cases ho : sys.owner key with
          | none => exact Or.inl rfl
          | some t' => rw [ho] at this; exact Or.inr (by simpa using this)
        have hview : (sys.ctx t ses).view = ses.log.foldl E.apply sys.world := rfl
        cases hexec : E.exec s x (ses.log.foldl E.apply sys.world) with
        | none => simp [hexec] at h
        | some result =>
          cases result with
          | error e =>
            simp only [hexec] at h
            have hrun : (sys.ctx t ses).run s x = some (.error e, (sys.ctx t ses).after s x []) := by
              simp only [Ctx.run, hview, hexec]
            refine ⟨ses, s, k, .error e, _, rfl, hp, hfree', hrun,
              ⟨ses.op, .throw e, ses.log, ses.trace ++ [s]⟩, rfl, ?_, rfl, rfl,
              (Option.some.inj h).symm, ?_⟩
            · simp [Ctx.after, Sys.ctx]
            · rw [← Option.some.inj h]
              exact ctx_keep_self (List.append_nil _).symm rfl
          | ok out =>
            obtain ⟨r, ws⟩ := out
            simp only [hexec] at h
            have hrun : (sys.ctx t ses).run s x = some (.ok r, (sys.ctx t ses).after s x ws) := by
              simp only [Ctx.run, hview, hexec]
            refine ⟨ses, s, k, .ok r, _, rfl, hp, hfree', hrun,
              ⟨ses.op, k r, ses.log ++ ws, ses.trace ++ [s]⟩, rfl, rfl, rfl, rfl,
              (Option.some.inj h).symm, ?_⟩
            rw [← Option.some.inj h]
            exact ctx_keep_self rfl rfl
      · exact absurd h (by simp)

/-- What a commit amounts to. -/
theorem commit_cases {sys sys' : Sys S} {t : Nat} (h : sys.step (.commit t) = some sys') :
    ∃ ses a, sys.sessions t = some ses ∧ ses.prog = .pure a ∧
      sys' = { sys.close t with
        world := (sys.ctx t ses).view
        finished := (t, ses.op, .ok a) :: sys.finished } := by
  simp only [Sys.step] at h
  split at h
  · rename_i op a log tr ht
    exact ⟨_, a, ht, rfl, (Option.some.inj h).symm⟩
  · exact absurd h (by simp)

/-- What a rollback amounts to. -/
theorem rollback_cases {sys sys' : Sys S} {t : Nat} (h : sys.step (.rollback t) = some sys') :
    ∃ ses e, sys.sessions t = some ses ∧ ses.prog = .throw e ∧
      sys' = { sys.close t with finished := (t, ses.op, .error e) :: sys.finished } := by
  simp only [Sys.step] at h
  split at h
  · rename_i op e log tr ht
    exact ⟨_, e, ht, rfl, (Option.some.inj h).symm⟩
  · exact absurd h (by simp)

/-- What the beginning of a session amounts to. -/
theorem begin_cases {sys sys' : Sys S} {t : Nat} {op : S.Op}
    (h : sys.step (.begin t op) = some sys') :
    sys.sessions t = none ∧ sys' = { sys with
      sessions := Function.update sys.sessions t (some ⟨op, S.body op, [], []⟩) } := by
  simp only [Sys.step] at h
  split at h
  · exact absurd h (by simp)
  · exact ⟨‹_›, (Option.some.inj h).symm⟩

/-- What a crash amounts to. -/
theorem crash_cases {sys sys' : Sys S} {t : Nat} (h : sys.step (.crash t) = some sys') :
    sys' = sys.close t := by
  simp only [Sys.step] at h
  split at h
  · exact (Option.some.inj h).symm
  · exact absurd h (by simp)

theorem env_cases {sys sys' : Sys S} {e : E.Env} (h : sys.step (.env e) = some sys') :
    sys' = { sys with world := E.env sys.world e } := by
  simp only [Sys.step, Option.some.injEq] at h
  exact h.symm

/-- A step leaves the sessions alone that it is not about. -/
theorem sessions_of_ne {sys sys' : Sys S} {l : Label S} (h : sys.step l = some sys') {t' : Nat}
    (hne : l.session ≠ some t') : sys'.sessions t' = sys.sessions t' := by
  have hupd : ∀ (t : Nat) (o : Option (Session S)), some t ≠ some t' →
      Function.update sys.sessions t o t' = sys.sessions t' := by
    intro t o ht
    have hne' : t' ≠ t := fun he => ht (congrArg some he.symm)
    exact Function.update_of_ne hne' o sys.sessions
  cases l with
  | begin t op =>
    obtain ⟨-, rfl⟩ := begin_cases h
    exact hupd t _ hne
  | exec t x =>
    obtain ⟨ses, s, k, r, c', -, -, -, -, ses', -, -, -, -, rfl, -⟩ := stepExec_cases h
    exact hupd t _ hne
  | commit t =>
    obtain ⟨ses, a, -, -, rfl⟩ := commit_cases h
    exact hupd t _ hne
  | rollback t =>
    obtain ⟨ses, e, -, -, rfl⟩ := rollback_cases h
    exact hupd t _ hne
  | crash t =>
    rw [crash_cases h]
    exact hupd t _ hne
  | env e =>
    rw [env_cases h]

/-- **Where an open session comes from**: the step began it, ran its next statement, or left it
alone. -/
theorem session_of_step {sys sys' : Sys S} {l : Label S} (h : sys.step l = some sys') {t : Nat}
    {ses' : Session S} (ht : sys'.sessions t = some ses') :
    (∃ op, l = .begin t op ∧ ses' = ⟨op, S.body op, [], []⟩) ∨
    (∃ x ses s k r c', l = .exec t x ∧ sys.sessions t = some ses ∧ ses.prog = .stmt s k ∧
      (sys.ctx t ses).run s x = some (r, c') ∧ ses'.op = ses.op ∧
      ses'.trace = ses.trace ++ [s] ∧
      ses'.prog = (match r with | .ok v => k v | .error e => .throw e) ∧ sys'.ctx t ses' = c') ∨
    (l.session ≠ some t ∧ sys.sessions t = some ses') := by
  have hself : ∀ o : Option (Session S), Function.update sys.sessions t o t = o :=
    fun o => Function.update_self t o sys.sessions
  by_cases hl : l.session = some t
  · cases l with
    | begin t' op =>
      obtain rfl : t' = t := Option.some.inj hl
      obtain ⟨-, rfl⟩ := begin_cases h
      exact Or.inl ⟨op, rfl, (Option.some.inj ((hself _).symm.trans ht)).symm⟩
    | exec t' x =>
      obtain rfl : t' = t := Option.some.inj hl
      obtain ⟨ses, s, k, r, c', ht₀, hp, -, hr, ses'', hop, -, htr, hprog, rfl, hctx⟩ :=
        stepExec_cases h
      obtain rfl := Option.some.inj ((hself _).symm.trans ht)
      exact Or.inr (Or.inl ⟨x, ses, s, k, r, c', rfl, ht₀, hp, hr, hop, htr, hprog, hctx⟩)
    | commit t' =>
      obtain rfl : t' = t := Option.some.inj hl
      obtain ⟨ses, a, -, -, rfl⟩ := commit_cases h
      exact absurd ((hself none).symm.trans ht) (by simp)
    | rollback t' =>
      obtain rfl : t' = t := Option.some.inj hl
      obtain ⟨ses, e, -, -, rfl⟩ := rollback_cases h
      exact absurd ((hself none).symm.trans ht) (by simp)
    | crash t' =>
      obtain rfl : t' = t := Option.some.inj hl
      rw [crash_cases h] at ht
      exact absurd ((hself none).symm.trans ht) (by simp)
    | env e => exact absurd hl (by simp [Label.session])
  · exact Or.inr (Or.inr ⟨hl, (sessions_of_ne h hl).symm.trans ht⟩)

theorem run_sessions_of_ne {sys' : Sys S} {t' : Nat} :
    ∀ {ls : List (Label S)} {sys : Sys S}, sys.run ls = some sys' →
      (∀ l ∈ ls, l.session ≠ some t') → sys'.sessions t' = sys.sessions t' := by
  intro ls
  induction ls with
  | nil =>
    intro sys hr _
    exact congrArg (fun sys => sys.sessions t') (Option.some.inj hr).symm
  | cons l ls ih =>
    intro sys hr hne
    simp only [Sys.run] at hr
    cases hs : sys.step l with
    | none => rw [hs] at hr; exact absurd hr (by simp)
    | some sys₁ =>
      rw [hs] at hr
      exact (ih hr fun l' hl' => hne l' (List.mem_cons_of_mem l hl')).trans
        (sessions_of_ne hs (hne l List.mem_cons_self))

/-- A fixed schedule opens no session but those that it is about. -/
theorem run_no_session {sys sys' : Sys S} {ls : List (Label S)} (hr : sys.run ls = some sys')
    {n t : Nat} (hls : ls.all (fun l => l.session.all (· < n)) = true) (ht : n ≤ t)
    (hnone : sys.sessions t = none) : sys'.sessions t = none := by
  refine (run_sessions_of_ne hr fun l hl he => ?_).trans hnone
  have hlt := List.all_eq_true.mp hls l hl
  rw [he, Option.all_some, decide_eq_true_eq] at hlt
  omega

/-! ## 5. Control is kept by every step -/

section Keep

variable {C : Sys S → Label S → Prop} {J : Sys S → Prop} {sys : Sys S}

theorem Good.begin (hD : D.Sound C J) {t : Nat} {op : S.Op} (hC : C sys (.begin t op)) (hJ : J sys)
    (h : D.Good sys) (ht : sys.sessions t = none) :
    D.Good { sys with
      sessions := Function.update sys.sessions t (some ⟨op, S.body op, [], []⟩) } := by
  refine ⟨h.inv, fun key t' ho => ?_, fun t' ses' ht' => ?_⟩
  · by_cases he : t' = t
    · subst he; simp
    · simpa [he] using h.owned key t' ho
  · by_cases he : t' = t
    · subst he
      simp only [Function.update_self, Option.some.injEq] at ht'
      subst ht'
      have hnone : (fun key => sys.owner key = some t') = fun _ => False := by
        funext key
        exact propext ⟨fun ho => h.owned key t' ho ht, False.elim⟩
      have hctx := hD.start sys t' op hC hJ h
      unfold Ctx.start at hctx
      rw [← hnone] at hctx
      exact hctx
    · simp only [ne_eq, he, not_false_eq_true, Function.update_of_ne] at ht'
      exact h.sessions t' ses' ht'

theorem Good.stepExec (hD : D.Sound C J) {t : Nat} {x : E.Input} (hC : C sys (.exec t x))
    (hJ : J sys) (h : D.Good sys) {sys' : Sys S} (hs : sys.stepExec t x = some sys') :
    D.Good sys' := by
  obtain ⟨ses, s, k, r, c', ht, hp, hfree, hr, ses', hop, -, -, hprog, hsys, hctx⟩ :=
    stepExec_cases hs
  obtain ⟨hG, hok, herr⟩ := h.exec ht hp hr
  have hw : c'.world = sys'.world := by rw [← hctx]; rfl
  have hch : D.Changes sys t ses (.exec t x) sys'.world := Or.inl ⟨⟨x, rfl⟩, hw ▸ hG⟩
  have hsess : sys'.sessions = Function.update sys.sessions t (some ses') := by rw [hsys]; rfl
  refine ⟨hD.inv sys _ hC hJ h t ses _ ht hch, fun key t' ho => ?_, fun t' ses'' ht' => ?_⟩
  · rw [hsess]
    by_cases he : t' = t
    · subst he; simp
    · rw [Function.update_of_ne he]
      refine h.owned key t' ?_
      rw [hsys] at ho
      simp only [Sys.keep] at ho
      split at ho
      · exact absurd (Option.some.inj ho).symm he
      · exact ho
  · rw [hsess] at ht'
    by_cases he : t' = t
    · subst he
      rw [Function.update_self, Option.some.injEq] at ht'
      subst ht'
      rw [hctx, hop, hprog]
      cases r with
      | ok v => exact hok v rfl
      | error e => exact herr e rfl
    · rw [Function.update_of_ne he] at ht'
      have hrely := hD.others sys _ hC hJ h t ses _ ht hch t' ses'' he ht'
      have hctx' : sys'.ctx t' ses'' = (sys.ctx t' ses'').at' sys'.world := by
        rw [hsys]; exact ctx_keep_ne he hfree
      rw [hctx']
      exact controlled_rely D (h.sessions t' ses'' ht') hrely

theorem Good.close (h : D.Good sys) (t : Nat) : D.Good (sys.close t) := by
  refine ⟨h.inv, fun key t' ho => ?_, fun t' ses' ht' => ?_⟩
  · simp only [Sys.close] at ho ⊢
    split at ho
    · exact absurd ho (by simp)
    · rename_i hne
      have he : t' ≠ t := by
        rintro rfl
        exact hne ho
      rw [Function.update_of_ne he]
      exact h.owned key t' ho
  · by_cases he : t' = t
    · subst he; simp [Sys.close] at ht'
    · simp only [Sys.close, ne_eq, he, not_false_eq_true, Function.update_of_ne] at ht'
      rw [ctx_close he]
      exact h.sessions t' ses' ht'

/-- The world moves under sessions that all rely on such a move. -/
theorem Good.move (h : D.Good sys) {w : E.World} (hinv : D.inv w)
    (hrely : ∀ t ses, sys.sessions t = some ses →
      D.tolerates ses.op ses.prog (sys.ctx t ses) w) :
    D.Good { sys with world := w } :=
  ⟨hinv, h.owned, fun t ses ht => controlled_rely D (h.sessions t ses ht) (hrely t ses ht)⟩

theorem Good.commit (hD : D.Sound C J) {t : Nat} (hC : C sys (.commit t)) (hJ : J sys)
    (h : D.Good sys) {ses : Session S} {a : S.Out} (ht : sys.sessions t = some ses)
    (hp : ses.prog = .pure a) :
    D.Good { sys.close t with world := (sys.ctx t ses).view } := by
  have hch : D.Changes sys t ses (.commit t) (sys.ctx t ses).view :=
    Or.inr ⟨rfl, a, hp, h.post ht hp, rfl⟩
  refine (h.close t).move (hD.inv sys _ hC hJ h t ses _ ht hch) fun t' ses' ht' => ?_
  have he : t' ≠ t := by
    rintro rfl
    simp [Sys.close] at ht'
  rw [ctx_close he]
  refine hD.others sys _ hC hJ h t ses _ ht hch t' ses' he ?_
  simpa [Sys.close, he] using ht'

/-- The list of answers is a record: no session reads it. -/
theorem Good.record (h : D.Good sys) (l : List (Nat × S.Op × Except E.Err S.Out)) :
    D.Good { sys with finished := l } := ⟨h.inv, h.owned, h.sessions⟩

/-- **Every step keeps every session under control.** -/
theorem Good.step (hD : D.Sound C J) (hJ : J sys) (h : D.Good sys) {l : Label S} (hC : C sys l)
    {sys' : Sys S} (hs : sys.step l = some sys') : D.Good sys' := by
  cases l with
  | begin t op =>
    obtain ⟨ht, rfl⟩ := begin_cases hs
    exact h.begin hD hC hJ ht
  | exec t x => exact h.stepExec hD hC hJ hs
  | commit t =>
    obtain ⟨ses, a, ht, hp, rfl⟩ := commit_cases hs
    exact (h.commit hD hC hJ ht hp).record _
  | rollback t =>
    obtain ⟨ses, e, -, -, rfl⟩ := rollback_cases hs
    exact (h.close t).record _
  | crash t =>
    rw [crash_cases hs]
    exact h.close t
  | env e =>
    rw [env_cases hs]
    exact h.move (hD.env_inv sys e hC hJ h) (hD.env_rely sys e hC hJ h)

end Keep

/-- **The run rule.**  A side invariant that every controlled step keeps holds, with control, in
every reachable state. -/
theorem Reach.good {C : Sys S → Label S → Prop} {J : Sys S → Prop} (hD : D.Sound C J)
    (hJ : ∀ sys l sys', C sys l → J sys → D.Good sys → sys.step l = some sys' → J sys')
    {sys₀ sys : Sys S} (h : Sys.Reach C sys₀ sys) (h₀ : D.Good sys₀) (hJ₀ : J sys₀) :
    D.Good sys ∧ J sys := by
  induction h with
  | refl => exact ⟨h₀, hJ₀⟩
  | tail _ hc hs ih => exact ⟨ih.1.step hD ih.2 hc hs, hJ _ _ _ hc ih.2 ih.1 hs⟩

/-! ## 6. More to say at the end -/

variable (D) in
/-- The discipline with a stronger post-condition. -/
def withPost (P : S.Op → Except E.Err S.Out → Ctx E → Prop) : Discipline S :=
  { D with post := fun op r c => D.post op r c ∧ P op r c }

section WithPost

variable {P : S.Op → Except E.Err S.Out → Ctx E → Prop}

theorem controlled_of_withPost {op : S.Op} {p : Prog E S.Out} {c : Ctx E}
    (h : (D.withPost P).controlled op p c) : D.controlled op p c := by
  refine wp_mono ?_ h
  intro r c' hr
  cases r with
  | ok a => exact fun w hw => (hr w hw).1
  | error e => exact fun w hw => (hr w hw).1

theorem Good.of_withPost {sys : Sys S} (h : (D.withPost P).Good sys) : D.Good sys :=
  ⟨h.inv, h.owned, fun t ses ht => controlled_of_withPost (h.sessions t ses ht)⟩

theorem Changes.of_withPost {sys : Sys S} {t : Nat} {ses : Session S} {l : Label S} {w : E.World}
    (h : (D.withPost P).Changes sys t ses l w) : D.Changes sys t ses l w := by
  rcases h with h | ⟨hl, a, hp, ho, hw⟩
  · exact Or.inl h
  · exact Or.inr ⟨hl, a, hp, ho.1, hw⟩

/-- **Only the beginning of a request is to be verified again.** -/
theorem Sound.withPost {C : Sys S → Label S → Prop} {J : Sys S → Prop} (hD : D.Sound C J)
    (hstart : ∀ op w, (D.withPost P).controlled op (S.body op) (Ctx.start w)) :
    (D.withPost P).Sound C J where
  start sys _ op _ _ _ := hstart op sys.world
  inv sys l hC hJ hG t ses w ht hw := hD.inv sys l hC hJ hG.of_withPost t ses w ht hw.of_withPost
  others sys l hC hJ hG t ses w ht hw t' ses' hne ht' :=
    hD.others sys l hC hJ hG.of_withPost t ses w ht hw.of_withPost t' ses' hne ht'
  env_inv sys e hC hJ hG := hD.env_inv sys e hC hJ hG.of_withPost
  env_rely sys e hC hJ hG t ses ht := hD.env_rely sys e hC hJ hG.of_withPost t ses ht

end WithPost

end Discipline

end Txn
