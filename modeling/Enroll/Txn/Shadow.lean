/-
# The shadow of a system

Two systems of one service over stores that are not the same, in which some requests cannot tell the
difference.  The SHADOW serves only those; the others, and whatever else the first store goes
through, do not exist for it.

What is to be shown of a program is `Blind`, that it goes on in the same way on both stores, or
`Mute`, that what it does the shadow does not see.  Then a run of the system has a shadow in which
the requests that both serve stand at the same place and have got the same answers
(`Shadows.step`).
-/
import Enroll.Txn.Autocommit

namespace Txn

variable {E : Engine} {S : Service E} {α : Type}

/-! ## 1. Programs -/

/-- How the store and the shadow's store are related, by way of what `G` remembers. -/
structure Shadow (S : Service E) where
  G : Type
  rel : G → E.World → E.World → Prop
  /-- what is true of the store later on -/
  later : E.World → E.World → Prop
  /-- the requests that the shadow serves -/
  serves : S.Op → Bool
  /-- the statements that find no difference -/
  safe : G → E.Stmt → E.Input → Prop
  later_refl : ∀ w, later w w
  later_trans : ∀ w w' w'', later w w' → later w' w'' → later w w''
  later_effect : ∀ s x w out, E.exec s x w = some out → later w (E.effect s x w)

namespace Shadow

variable (D : Shadow S)

/-- What is left of a program after a statement. -/
def next {s : E.Stmt} (k : E.Res s → Prog E α) :
    Except E.Err (E.Res s × List E.Write) → Prog E α
  | .error e => .throw e
  | .ok (r, _) => k r

/-- From `w₀` on the program goes on in the same way on both stores. -/
def Blind : Prog E α → E.World → Prop
  | .pure _, _ => True
  | .throw _, _ => True
  | .stmt s k, w₀ => ∀ g x w v out, D.later w₀ w → D.rel g w v → D.safe g s x →
      E.exec s x w = some out →
        (∃ out', E.exec s x v = some out' ∧ next k out' = next k out) ∧
        D.rel g (E.effect s x w) (E.effect s x v) ∧
        match out with
        | .error _ => True
        | .ok (r, _) => Blind (k r) (E.effect s x w)

/-- From `w₀` on the shadow sees nothing of what the program does. -/
def Mute : Prog E α → E.World → Prop
  | .pure _, _ => True
  | .throw _, _ => True
  | .stmt s k, w₀ => ∀ g x w v out, D.later w₀ w → D.rel g w v → E.exec s x w = some out →
      D.rel g (E.effect s x w) v ∧
      match out with
      | .error _ => True
      | .ok (r, _) => Mute (k r) (E.effect s x w)

variable {D}

theorem Blind.later {p : Prog E α} {w w' : E.World} (h : D.Blind p w) (hw : D.later w w') :
    D.Blind p w' := by
  cases p with
  | pure a => trivial
  | throw e => trivial
  | stmt s k => exact fun g x w₁ v out hw₁ => h g x w₁ v out (D.later_trans _ _ _ hw hw₁)

theorem Mute.later {p : Prog E α} {w w' : E.World} (h : D.Mute p w) (hw : D.later w w') :
    D.Mute p w' := by
  cases p with
  | pure a => trivial
  | throw e => trivial
  | stmt s k => exact fun g x w₁ v out hw₁ => h g x w₁ v out (D.later_trans _ _ _ hw hw₁)

/-- A statement that both stores answer alike. -/
theorem Blind.same {s : E.Stmt} {k : E.Res s → Prog E α} {w₀ : E.World}
    (hsame : ∀ g x w v, D.later w₀ w → D.rel g w v → D.safe g s x →
      E.exec s x v = E.exec s x w ∧ D.rel g (E.effect s x w) (E.effect s x v))
    (hrest : ∀ r w, D.later w₀ w → D.Blind (k r) w) : D.Blind (.stmt s k) w₀ := by
  intro g x w v out hw hrel hsafe hexec
  obtain ⟨he, hrel'⟩ := hsame g x w v hw hrel hsafe
  refine ⟨⟨out, he.trans hexec, rfl⟩, hrel', ?_⟩
  cases out with
  | error e => trivial
  | ok p => exact hrest p.1 _ (D.later_trans _ _ _ hw (D.later_effect s x w _ hexec))

/-- A statement that leaves the shadow's store as it is. -/
theorem Mute.silent {s : E.Stmt} {k : E.Res s → Prog E α} {w₀ : E.World}
    (hsilent : ∀ g x w v, D.later w₀ w → D.rel g w v → D.rel g (E.effect s x w) v)
    (hrest : ∀ r w, D.later w₀ w → D.Mute (k r) w) : D.Mute (.stmt s k) w₀ := by
  intro g x w v out hw hrel hexec
  refine ⟨hsilent g x w v hw hrel, ?_⟩
  cases out with
  | error e => trivial
  | ok p => exact hrest p.1 _ (D.later_trans _ _ _ hw (D.later_effect s x w _ hexec))

theorem Blind.bind {β : Type} {p : Prog E α} {f : α → Prog E β} {w : E.World} (h : D.Blind p w)
    (hf : ∀ a w', D.later w w' → D.Blind (f a) w') : D.Blind (p.bind f) w := by
  induction p generalizing w with
  | pure a => exact hf a w (D.later_refl w)
  | throw e => trivial
  | stmt s k ih =>
    intro g x w₁ v out hw hrel hsafe hexec
    obtain ⟨⟨out', hexec', hnext⟩, hrel', hrest⟩ := h g x w₁ v out hw hrel hsafe hexec
    have hlater := D.later_trans _ _ _ hw (D.later_effect s x w₁ out hexec)
    refine ⟨⟨out', hexec', ?_⟩, hrel', ?_⟩
    · have hcomm (o : Except E.Err (E.Res s × List E.Write)) :
          next (fun r => (k r).bind f) o = (next k o).bind f := by
        cases o <;> rfl
      exact (hcomm out').trans ((congrArg (Prog.bind · f) hnext).trans (hcomm out).symm)
    · cases out with
      | error e => trivial
      | ok p =>
        exact ih p.1 hrest fun a w' hw' => hf a w' (D.later_trans _ _ _ hlater hw')

theorem Mute.bind {β : Type} {p : Prog E α} {f : α → Prog E β} {w : E.World} (h : D.Mute p w)
    (hf : ∀ a w', D.later w w' → D.Mute (f a) w') : D.Mute (p.bind f) w := by
  induction p generalizing w with
  | pure a => exact hf a w (D.later_refl w)
  | throw e => trivial
  | stmt s k ih =>
    intro g x w₁ v out hw hrel hexec
    obtain ⟨hrel', hrest⟩ := h g x w₁ v out hw hrel hexec
    have hlater := D.later_trans _ _ _ hw (D.later_effect s x w₁ out hexec)
    refine ⟨hrel', ?_⟩
    cases out with
    | error e => trivial
    | ok p =>
      exact ih p.1 hrest fun a w' hw' => hf a w' (D.later_trans _ _ _ hlater hw')

end Shadow

/-! ## 2. Systems -/

/-- The statement that the step runs is safe, if a request runs it that the shadow serves. -/
def Shadow.Safe (D : Shadow S) (g : D.G) (sys : Sys S) (l : Label S) : Prop :=
  ∀ t x ses s k, l = .exec t x → sys.sessions t = some ses → D.serves ses.op = true →
    ses.prog = .stmt s k → D.safe g s x

/-- `shadow` is what is left of `sys`. -/
structure Shadows (D : Shadow S) (g : D.G) (sys shadow : Sys S) : Prop where
  world : D.rel g sys.world shadow.world
  sessions : ∀ t, shadow.sessions t = (sys.sessions t).filter fun ses => D.serves ses.op
  finished : shadow.finished = sys.finished.filter fun e => D.serves e.2.1
  blind : ∀ t ses, sys.sessions t = some ses → D.serves ses.op = true →
    D.Blind ses.prog sys.world
  mute : ∀ t ses, sys.sessions t = some ses → D.serves ses.op = false → D.Mute ses.prog sys.world

namespace Shadows

variable {D : Shadow S} {g : D.G} {sys sys' shadow : Sys S}

theorem init {w v : E.World} (h : D.rel g w v) : Shadows D g (Sys.init w) (Sys.init v) where
  world := h
  sessions _ := rfl
  finished := rfl
  blind t ses ht := absurd ht (by simp [Sys.init])
  mute t ses ht := absurd ht (by simp [Sys.init])

/-- The stores move on. -/
theorem env (h : Shadows D g sys shadow) {g' : D.G} {w v : E.World} (hw : D.later sys.world w)
    (hrel : D.rel g' w v) :
    Shadows D g' { sys with world := w } { shadow with world := v } where
  world := hrel
  sessions := h.sessions
  finished := h.finished
  blind t ses ht hserves := (h.blind t ses ht hserves).later hw
  mute t ses ht hserves := (h.mute t ses ht hserves).later hw

/-- The shadow's session of a request that it serves. -/
theorem session (h : Shadows D g sys shadow) {t : Nat} {ses : Session S}
    (ht : sys.sessions t = some ses) (hserves : D.serves ses.op = true) :
    shadow.sessions t = some ses := by
  rw [h.sessions, ht]
  exact Option.filter_some_pos hserves

theorem no_session (h : Shadows D g sys shadow) {t : Nat} {ses : Session S}
    (ht : sys.sessions t = some ses) (hserves : D.serves ses.op = false) :
    shadow.sessions t = none := by
  rw [h.sessions, ht]
  exact Option.filter_some_neg (by simp [hserves])

end Shadows

/-! ## 3. Steps -/

section Steps

variable {D : Shadow S} {g : D.G} {sys sys' shadow : Sys S}

/-- Session `t` is gone, with an answer or without. -/
def Sys.finish (sys : Sys S) (t : Nat) (op : S.Op) (r : Option (Except E.Err S.Out)) : Sys S :=
  { sys.close t with finished := (r.map fun r => (t, op, r)).toList ++ sys.finished }

/-- The session that ends is one of the shadow's, or it is none of its business. -/
theorem Shadows.finish (h : Shadows D g sys shadow) {t : Nat} {ses : Session S}
    (ht : sys.sessions t = some ses) (r : Option (Except E.Err S.Out)) :
    Shadows D g (sys.finish t ses.op r)
      (if D.serves ses.op then shadow.finish t ses.op r else shadow) := by
  have hopen {t' : Nat} {ses' : Session S} (ht' : (sys.finish t ses.op r).sessions t' = some ses') :
      sys.sessions t' = some ses' := by
    have ht' : Function.update sys.sessions t none t' = some ses' := ht'
    by_cases he : t' = t
    · subst he
      simp at ht'
    · rwa [Function.update_of_ne he] at ht'
  constructor
  · split <;> exact h.world
  · intro t'
    show _ = (Function.update sys.sessions t none t').filter _
    split
    · show Function.update shadow.sessions t none t' = _
      by_cases he : t' = t
      · subst he
        simp
      · rw [Function.update_of_ne he, Function.update_of_ne he]
        exact h.sessions t'
    · rename_i hserves
      by_cases he : t' = t
      · subst he
        rw [h.no_session ht (by simpa using hserves)]
        simp
      · rw [Function.update_of_ne he]
        exact h.sessions t'
  · show _ = List.filter _ ((r.map fun r => (t, ses.op, r)).toList ++ sys.finished)
    rw [List.filter_append, ← h.finished]
    cases r with
    | none => split <;> rfl
    | some r => split <;> simp_all [Sys.finish]
  · exact fun t' ses' ht' => h.blind t' ses' (hopen ht')
  · exact fun t' ses' ht' => h.mute t' ses' (hopen ht')

/-- A session goes on. -/
theorem Shadows.goes_on (h : Shadows D g sys shadow) (t : Nat) (ses : Session S) {w v : E.World}
    (hw : D.later sys.world w) (hrel : D.rel g w v)
    (hblind : D.serves ses.op = true → D.Blind ses.prog w)
    (hmute : D.serves ses.op = false → D.Mute ses.prog w) :
    Shadows D g
      { sys with world := w, sessions := Function.update sys.sessions t (some ses) }
      { shadow with
        world := v
        sessions := Function.update shadow.sessions t
          (if D.serves ses.op then some ses else none) } := by
  have hcases {t' : Nat} {ses' : Session S}
      (ht' : Function.update sys.sessions t (some ses) t' = some ses') :
      ses' = ses ∨ sys.sessions t' = some ses' := by
    by_cases he : t' = t
    · subst he
      rw [Function.update_self] at ht'
      exact .inl (Option.some.inj ht').symm
    · rw [Function.update_of_ne he] at ht'
      exact .inr ht'
  constructor
  · exact hrel
  · intro t'
    show Function.update shadow.sessions t _ t' =
      (Function.update sys.sessions t (some ses) t').filter _
    by_cases he : t' = t
    · subst he
      rw [Function.update_self, Function.update_self, Option.filter_some]
    · rw [Function.update_of_ne he, Function.update_of_ne he]
      exact h.sessions t'
  · exact h.finished
  · intro t' ses' ht' hserves
    rcases hcases ht' with rfl | ht'
    · exact hblind hserves
    · exact (h.blind t' ses' ht' hserves).later hw
  · intro t' ses' ht' hserves
    rcases hcases ht' with rfl | ht'
    · exact hmute hserves
    · exact (h.mute t' ses' ht' hserves).later hw

/-- What the shadow does when the session `t` of a request that it does not serve changes. -/
theorem Shadows.idle (h : Shadows D g sys shadow) {t : Nat}
    (ht : ∀ ses, sys.sessions t = some ses → D.serves ses.op = false) :
    { shadow with sessions := Function.update shadow.sessions t none } = shadow := by
  have hnone : shadow.sessions t = none := by
    rw [h.sessions]
    cases hses : sys.sessions t with
    | none => rfl
    | some ses => exact Option.filter_some_neg (by simp [ht ses hses])
  obtain ⟨w, sessions, owner, finished⟩ := shadow
  rw [← hnone, Function.update_eq_self]

/-- A session begins: in the shadow too, if it serves the request. -/
theorem Shadows.begins (hblind : ∀ op w, D.serves op = true → D.Blind (S.body op) w)
    (hmute : ∀ op w, D.serves op = false → D.Mute (S.body op) w) (h : Shadows D g sys shadow)
    {t : Nat} {op : S.Op} (hs : sys.step (.begin t op) = some sys') :
    sys'.world = sys.world ∧ (Shadows D g sys' shadow ∨ D.serves op = true ∧
      ∃ shadow', shadow.step (.begin t op) = some shadow' ∧ Shadows D g sys' shadow') := by
  obtain ⟨hnone, rfl⟩ := Discipline.begin_cases hs
  refine ⟨rfl, ?_⟩
  have hgo := h.goes_on t ⟨op, S.body op, [], []⟩ (D.later_refl _) h.world
    (hblind op _) (hmute op _)
  cases hserves : D.serves op with
  | true =>
    rw [if_pos hserves] at hgo
    have hfree : shadow.sessions t = none := by
      rw [h.sessions, hnone]
      rfl
    refine .inr ⟨rfl, _, ?_, hgo⟩
    simp only [Sys.step, hfree]
  | false =>
    rw [if_neg (by simp [hserves])] at hgo
    have hidle := h.idle (t := t) fun ses ht => absurd (hnone.symm.trans ht) (by simp)
    exact .inl (hidle ▸ hgo)

/-- A session ends, and one of the shadow's does so there by the same step. -/
theorem Shadows.ends (h : Shadows D g sys shadow) {t : Nat} {ses : Session S}
    (ht : sys.sessions t = some ses) (r : Option (Except E.Err S.Out)) {l : Label S}
    (hstep : shadow.sessions t = some ses → shadow.step l = some (shadow.finish t ses.op r)) :
    Shadows D g (sys.finish t ses.op r) shadow ∨
      ∃ shadow', shadow.step l = some shadow' ∧ Shadows D g (sys.finish t ses.op r) shadow' := by
  have hend := h.finish ht r
  cases hserves : D.serves ses.op with
  | true =>
    rw [if_pos hserves] at hend
    exact .inr ⟨_, hstep (h.session ht hserves), hend⟩
  | false =>
    rw [if_neg (by simp [hserves])] at hend
    exact .inl hend

variable [Autocommit E]

/-- A statement of a store without transactions. -/
theorem stepExec_autocommit {t : Nat} {x : E.Input} {ses : Session S} {s : E.Stmt}
    {k : E.Res s → Prog E S.Out} (ht : sys.sessions t = some ses) (hp : ses.prog = .stmt s k) :
    sys.stepExec t x = (E.exec s x sys.world).map fun out =>
      { sys with
        world := E.effect s x sys.world
        sessions := Function.update sys.sessions t
          (some ⟨ses.op, Shadow.next k out, [], ses.trace ++ [s]⟩) } := by
  have : IsEmpty E.Write := Autocommit.write
  have : IsEmpty E.Key := Autocommit.key
  have hlocks : ∀ w, E.locks s x w = [] := fun w => Subsingleton.elim _ _
  have hlog : ∀ log : List E.Write, log = [] := fun log => Subsingleton.elim _ _
  obtain ⟨op, prog, log, tr⟩ := ses
  obtain rfl := hlog log
  obtain rfl : prog = .stmt s k := hp
  unfold Sys.stepExec
  rw [ht]
  simp only [hlocks, List.all_nil, if_true, List.foldl_nil]
  cases hexec : E.exec s x sys.world with
  | none => rfl
  | some out =>
    cases out with
    | error e => simp [Sys.keep, Shadow.next]
    | ok p => simp [Sys.keep, Shadow.next, hlog p.2]

/-- A statement: of a request that the shadow serves, with the same result, or of another. -/
theorem Shadows.exec (h : Shadows D g sys shadow) {t : Nat} {x : E.Input}
    (hsafe : D.Safe g sys (.exec t x)) (hs : sys.stepExec t x = some sys') :
    D.later sys.world sys'.world ∧ (Shadows D g sys' shadow ∨
      ∃ shadow', shadow.stepExec t x = some shadow' ∧ Shadows D g sys' shadow') := by
  obtain ⟨ses, s, k, r, c', ht, hp, -⟩ := Discipline.stepExec_cases hs
  rw [stepExec_autocommit ht hp] at hs
  obtain ⟨out, hexec, rfl⟩ := Option.map_eq_some_iff.mp hs
  have hlater := D.later_effect s x sys.world out hexec
  refine ⟨hlater, ?_⟩
  cases hserves : D.serves ses.op with
  | true =>
    have hprog := h.blind t ses ht hserves
    rw [hp] at hprog
    obtain ⟨⟨out', hexec', hnext⟩, hrel, hrest⟩ := hprog g x _ _ out (D.later_refl _) h.world
      (hsafe t x ses s k rfl ht hserves hp) hexec
    have hgo := h.goes_on t ⟨ses.op, Shadow.next k out, [], ses.trace ++ [s]⟩
      hlater hrel (fun _ => by cases out <;> exact hrest) fun hno =>
        absurd (hserves.symm.trans hno) (by simp)
    rw [if_pos hserves] at hgo
    refine .inr ⟨_, ?_, hgo⟩
    rw [stepExec_autocommit (h.session ht hserves) hp, hexec', Option.map_some, hnext]
  | false =>
    have hprog := h.mute t ses ht hserves
    rw [hp] at hprog
    obtain ⟨hrel, hrest⟩ := hprog g x _ _ out (D.later_refl _) h.world hexec
    have hgo := h.goes_on t ⟨ses.op, Shadow.next k out, [], ses.trace ++ [s]⟩
      hlater hrel (fun hyes => absurd (hserves.symm.trans hyes) (by simp)) fun _ => by
        cases out <;> exact hrest
    rw [if_neg (by simp [hserves])] at hgo
    have hidle := h.idle (t := t) fun ses' ht' => by
      obtain rfl := Option.some.inj (ht.symm.trans ht')
      exact hserves
    exact .inl (hidle ▸ hgo)

/-- **One step**: the shadow takes it too, or it stays where it is. -/
theorem Shadows.step (hblind : ∀ op w, D.serves op = true → D.Blind (S.body op) w)
    (hmute : ∀ op w, D.serves op = false → D.Mute (S.body op) w) (h : Shadows D g sys shadow)
    {l : Label S} (hl : ∀ e, l ≠ .env e) (hsafe : D.Safe g sys l) (hs : sys.step l = some sys') :
    D.later sys.world sys'.world ∧
      (Shadows D g sys' shadow ∨ (∀ t op, l = .begin t op → D.serves op = true) ∧
        ∃ shadow', shadow.step l = some shadow' ∧ Shadows D g sys' shadow') := by
  cases l with
  | begin t op =>
    obtain ⟨hworld, hgo⟩ := h.begins hblind hmute hs
    refine ⟨hworld ▸ D.later_refl _, hgo.imp_right fun ⟨hserves, hshadow⟩ => ⟨?_, hshadow⟩⟩
    rintro t' op' ⟨⟩
    exact hserves
  | exec t x =>
    obtain ⟨hlater, hgo⟩ := h.exec hsafe hs
    exact ⟨hlater, hgo.imp_right fun hshadow => ⟨fun t op hl => absurd hl (by simp), hshadow⟩⟩
  | commit t =>
    obtain ⟨ses, a, ht, hp, rfl⟩ := Discipline.commit_cases hs
    have hview : (sys.ctx t ses).view = sys.world := Accord.view_eq _
    rw [hview]
    have hend := h.ends ht (some (.ok a)) (l := .commit t) fun hshadow => by
      have hview' : ses.log.foldl E.apply shadow.world = shadow.world :=
        Accord.view_eq (shadow.ctx t ses)
      obtain ⟨op, prog, log, tr⟩ := ses
      obtain rfl : prog = .pure a := hp
      simp only [Sys.step, hshadow, hview']
      rfl
    exact ⟨D.later_refl _,
      hend.imp_right fun hshadow => ⟨fun t op hl => absurd hl (by simp), hshadow⟩⟩
  | rollback t =>
    obtain ⟨ses, e, ht, hp, rfl⟩ := Discipline.rollback_cases hs
    have hend := h.ends ht (some (.error e)) (l := .rollback t) fun hshadow => by
      obtain ⟨op, prog, log, tr⟩ := ses
      obtain rfl : prog = .throw e := hp
      simp only [Sys.step, hshadow]
      rfl
    exact ⟨D.later_refl _,
      hend.imp_right fun hshadow => ⟨fun t op hl => absurd hl (by simp), hshadow⟩⟩
  | crash t =>
    cases ht : sys.sessions t with
    | none => simp [Sys.step, ht] at hs
    | some ses =>
      rw [Discipline.crash_cases hs]
      have hend := h.ends ht none (l := .crash t) fun hshadow => by
        simp only [Sys.step, hshadow]
        rfl
      exact ⟨D.later_refl _,
        hend.imp_right fun hshadow => ⟨fun t op hl => absurd hl (by simp), hshadow⟩⟩
  | env e => exact absurd rfl (hl e)

end Steps

end Txn
