/-
# A killed session stays dead

A family of refresh tokens is killed in two ways: `refresh` detects that a revoked token was
replayed and revokes the family, or `logout` revokes the token it is given.  Both mark the rows that
are there at that instant.  A refresh that has already accepted its token is still to insert a
successor in the family, and that row escapes (`Campus.thief_survives`); and a logout leaves every
other unrevoked token of the family alone.

`killed_stays_dead` is what holds: when no such call is under way and, at a logout, no other token
of the family is alive (`CleanKill`), no refresh that begins later with a token of the family
succeeds.  From the kill on everybody keeps to the accord `quarantine`: the family is dead, and it
gets no rows.
-/
import Enroll.TokenRotation

namespace Enroll.Auth

open Txn (Ctx Prog Session Label Accord Discipline Only wp_bind)

variable {deps : Deps} {f : Family}

/-! ## 1. The accord after a kill -/

/-- `refresh` does not accept the row, now or later. -/
def RefreshToken.Dead (now : Time) (r : RefreshToken) : Prop :=
  r.revoked = true ∨ r.expiresAt < now

theorem RefreshToken.Dead.later {now now' : Time} {r r' : RefreshToken} (h : r.Dead now)
    (hn : now ≤ now') (ht : Touched r r') : r'.Dead now' := by
  rcases h with h | h
  · exact Or.inl (ht.revoked h)
  · exact Or.inr (ht.expiresAt ▸ Nat.lt_of_lt_of_le h hn)

/-- The family is known, and all its tokens are dead. -/
structure DeadFamily (f : Family) (w : World) : Prop where
  valid : w.Valid
  known : ∃ r ∈ w.refreshTokens, r.family = f
  dead : ∀ r ∈ w.refreshTokens, r.family = f → r.Dead w.now

/-- No row of the family is new. -/
def Closed (f : Family) (w w' : World) : Prop :=
  ∀ r' ∈ w'.refreshTokens, r'.family = f → ∃ r ∈ w.refreshTokens, Touched r r'

theorem Closed.trans {w w' w'' : World} (h : Closed f w w') (h' : Closed f w' w'') :
    Closed f w w'' := by
  intro r'' hr'' hf
  obtain ⟨r', hr', ht'⟩ := h' r'' hr'' hf
  obtain ⟨r, hr, ht⟩ := h r' hr' (ht'.family.symm.trans hf)
  exact ⟨r, hr, ht.trans ht'⟩

/-- The family is dead and gets no rows. -/
def quarantine (f : Family) : Accord tokenStore where
  inv := DeadFamily f
  keeps w w' := DeadFamily f w' ∧ Kept w w' ∧ Closed f w w'
  refl w h := ⟨h, Kept.refl w, fun r hr _ => ⟨r, hr, Touched.refl r⟩⟩
  trans _ _ _ h h' := ⟨h'.1, h.2.1.trans h'.2.1, h.2.2.trans h'.2.2⟩
  inv_of_keeps _ _ h := h.1

/-- The statement inserts a token of the family. -/
def Stmt.CreatesIn (f : Family) : Stmt → Prop
  | now => False
  | userFindUnique _ => False
  | refreshTokenFindUnique _ => False
  | refreshTokenCreate d => d.family = f
  | refreshTokenUpdate _ _ => False
  | refreshTokenUpdateMany _ _ => False

/-- Every statement but an insertion keeps the family closed. -/
theorem effect_closed {s : Stmt} (hs : ¬ s.CreatesIn f) (x : TokenId) (w : World) :
    Closed f w (s.effect x w) := by
  intro r' hr' hf
  obtain ⟨-, ⟨g, hg, hrows⟩ | ⟨d, rfl, -, hrows⟩⟩ := effect_cases s x w
  · obtain ⟨r, hr, rfl⟩ := List.mem_map.mp (hrows ▸ hr')
    exact ⟨r, hr, hg r⟩
  · rcases List.mem_append.mp (hrows ▸ hr') with hr | hr
    · exact ⟨r', hr, Touched.refl r'⟩
    · rw [List.mem_singleton.mp hr] at hf
      exact absurd hf hs

theorem quarantine_keeps {w w' : World} (h : DeadFamily f w) (hv : w'.Valid) (hk : Kept w w')
    (hc : Closed f w w') : (quarantine f).keeps w w' := by
  refine ⟨⟨hv, ?_, ?_⟩, hk, hc⟩
  · obtain ⟨r, hr, hf⟩ := h.known
    obtain ⟨r', hr', ht⟩ := hk.rows r hr
    exact ⟨r', hr', ht.family.trans hf⟩
  · intro r' hr' hf
    obtain ⟨r, hr, ht⟩ := hc r' hr' hf
    exact (h.dead r hr (ht.family.symm.trans hf)).later hk.now ht

theorem quarantine_allows {s : Stmt} (hs : ¬ s.CreatesIn f) : (quarantine f).Allows s := by
  intro x w out hi hexec
  have hexec' : s.exec x w = some out := hexec
  exact quarantine_keeps hi (effect_valid hi.valid (hexec' ▸ rfl)) (effect_kept s x w)
    (effect_closed hs x w)

/-- **A program that inserts no token of the family keeps to the accord.** -/
theorem wp_of_creates_none {α : Type} {p : Call α}
    (h : Only (E := tokenStore) (fun s : Stmt => ¬ s.CreatesIn f) p) (c : Ctx tokenStore) :
    (quarantine f).wp p (fun _ _ => True) c :=
  Accord.wp_of_only (h.mono fun _ hs => quarantine_allows hs) c

/-! ## 2. What each call inserts -/

section Programs

variable {jti : Nat} {bytes : RawToken}

theorem generateTokenPair_creates {userId : UserId} {roles : List Role} {family : Family}
    (hf : family ≠ f) : Only (E := tokenStore) (fun s : Stmt => ¬ s.CreatesIn f)
      (generateTokenPair deps userId roles family jti bytes) := by
  refine .bind (fun now => .bind (fun _ => .pure) (.lift ?_)) (.lift ?_)
  · exact hf
  · exact fun h => h

theorem reuseDetected_creates (stored : StoredToken) :
    Only (E := tokenStore) (fun s : Stmt => ¬ s.CreatesIn f) (reuseDetected stored) := by
  refine .bind (fun _ => .throw) (.bind (fun _ => .bind (fun _ => .pure) (.lift ?_)) (.lift ?_))
  · exact fun h => h
  · exact fun h => h

theorem rotate_creates {stored : StoredToken} (hf : stored.row.family ≠ f) :
    Only (E := tokenStore) (fun s : Stmt => ¬ s.CreatesIn f) (rotate deps stored jti bytes) := by
  refine .bind (fun now => .bind (fun _ => .bind (fun pair => .bind (fun replacement => .bind
    (fun now => .bind (fun _ => .pure) (.lift ?_)) (.lift ?_)) (.lift ?_))
    (generateTokenPair_creates hf)) .throwIf) (.lift ?_) <;> exact fun h => h

theorem spend_creates {found : Option StoredToken}
    (hf : ∀ stored, found = some stored → stored.row.family ≠ f) :
    Only (E := tokenStore) (fun s : Stmt => ¬ s.CreatesIn f) (spend deps found jti bytes) := by
  cases found with
  | none => trivial
  | some stored =>
    have hif : Only (E := tokenStore) (fun s : Stmt => ¬ s.CreatesIn f)
        (if stored.row.revoked = true then reuseDetected stored
          else rotate deps stored jti bytes) := by
      split
      · exact reuseDetected_creates stored
      · exact rotate_creates (hf stored rfl)
    exact hif

theorem login_creates {dto : LoginDto} {family : Family} (hf : family ≠ f) :
    Only (E := tokenStore) (fun s : Stmt => ¬ s.CreatesIn f)
      (login deps dto family jti bytes) := by
  refine .bind (fun user => .bind (fun user => generateTokenPair_creates hf) .orThrow) (.lift ?_)
  exact fun h => h

theorem logout_creates (raw : RawToken) :
    Only (E := tokenStore) (fun s : Stmt => ¬ s.CreatesIn f) (logout deps raw) := by
  refine .bind (fun now => .bind (fun _ => .pure) (.lift ?_)) (.lift ?_)
  · exact fun h => h
  · exact fun h => h

end Programs

/-! ## 3. Calls after a kill -/

section Calls

variable {raw : RawToken} {jti : Nat} {bytes : RawToken} {c : Ctx tokenStore}

theorem quarantine_spend_fails {found : Option StoredToken}
    (hdead : ∀ stored, found = some stored → stored.row.Dead c.world.now) :
    (quarantine f).wp (spend deps found jti bytes) (fun r _ => Fails r) c :=
  spend_fails (fun _ _ hk => hk.2.1) (quarantine_allows fun h => h)
    (fun _ _ => quarantine_allows fun h => h) hdead

/-- A refresh keeps to the accord: a token of the family it finds dead, and any other token gets a
successor elsewhere. -/
theorem refresh_quarantine :
    (quarantine f).wp (refresh deps raw jti bytes) (fun _ _ => True) c := by
  refine wp_bind (wp_findUnique (quarantine_allows fun h => h) fun c₁ h₁ => ?_)
  by_cases hf : ∃ stored, c₁.world.stored? (hashToken deps raw) = some stored ∧
      stored.row.family = f
  · obtain ⟨stored, hst, hf⟩ := hf
    refine Txn.wp_mono (fun _ _ _ => trivial) (quarantine_spend_fails fun stored' hst' => ?_)
    obtain rfl := Option.some.inj (hst.symm.trans hst')
    exact h₁.1.dead _ (stored?_cases hst).1 hf
  · exact wp_of_creates_none (spend_creates fun stored hst hf' => hf ⟨stored, hst, hf'⟩) c₁

/-- A refresh with a token of the family fails. -/
theorem refresh_fails
    (hf : ∃ r ∈ c.world.refreshTokens, r.tokenHash = hashToken deps raw ∧ r.family = f) :
    (quarantine f).wp (refresh deps raw jti bytes) (fun r _ => Fails r) c := by
  refine wp_bind (wp_findUnique (quarantine_allows fun h => h) fun c₁ h₁ => ?_)
  refine quarantine_spend_fails fun stored hst => ?_
  obtain ⟨r, hr, hh, hf⟩ := hf
  obtain ⟨r', hr', ht⟩ := h₁.2.1.rows r hr
  obtain ⟨hmem, hh'⟩ := stored?_cases hst
  have he := Keyed.eq_of_key_eq h₁.1.valid.token_hash hmem hr'
    (hh'.trans (hh.symm.trans ht.tokenHash.symm))
  rw [he]
  exact h₁.1.dead r' hr' (ht.family.trans hf)

theorem body_quarantine {op : Op}
    (hop : ∀ dto family jti bytes, op = .login dto family jti bytes → family ≠ f) :
    (quarantine f).wp (op.body deps) (fun _ _ => True) c := by
  cases op with
  | login dto family jti bytes =>
    exact wp_of_creates_none (.bind (fun _ => .pure) (login_creates (hop dto family jti bytes rfl))) c
  | refresh raw jti bytes =>
    refine wp_bind (Txn.wp_mono (fun r _ _ => ?_) refresh_quarantine)
    cases r <;> trivial
  | logout raw => exact wp_of_creates_none (.bind (fun _ => .pure) (logout_creates raw)) c

end Calls

/-- Everybody keeps to the quarantine. -/
abbrev quarantined (deps : Deps) (f : Family) : Discipline (authService deps) :=
  (quarantine f).discipline fun _ _ _ => True

/-- `uuidv4` does not return a family that is in the table. -/
def FreshFamilies (sys : Sys deps) (l : Label (authService deps)) : Prop :=
  ∀ t dto family jti bytes, l = .begin t (.login dto family jti bytes) →
    ∀ r ∈ sys.world.refreshTokens, r.family ≠ family

theorem controlled_of_wp {op : Op} {p : Call Out} {c : Ctx tokenStore}
    (h : (quarantine f).wp p (fun _ _ => True) c) : (quarantined deps f).controlled op p c := by
  refine Txn.wp_mono (fun r _ _ => ?_) h
  cases r with
  | ok a => exact fun _ _ => trivial
  | error e => exact fun _ _ => trivial

theorem quarantine_env {w : World} (h : DeadFamily f w) (ms : Time) :
    (quarantine f).keeps w (tokenStore.env w ms) := by
  refine quarantine_keeps h ⟨h.valid.token_id, h.valid.token_hash⟩ (Kept.tick w ms) ?_
  exact fun r hr _ => ⟨r, hr, Touched.refl r⟩

theorem quarantined_sound {C : Sys deps → Label (authService deps) → Prop}
    (hC : ∀ sys l, C sys l → FreshFamilies sys l) {J : Sys deps → Prop} :
    (quarantined deps f).Sound C J := by
  refine Accord.sound (fun sys t op hc _ hG => ?_) fun sys ms _ hi => quarantine_env hi ms
  refine controlled_of_wp (body_quarantine ?_)
  rintro dto family jti bytes rfl rfl
  obtain ⟨r, hr, hf⟩ := hG.inv.known
  exact hC _ _ hc t dto _ jti bytes rfl r hr hf

/-! ## 4. Between the lookup and the clock -/

/-- The rest of a refresh that has looked its token up. -/
def resume (deps : Deps) (found : Option StoredToken) (jti : Nat) (bytes : RawToken) : Call Out := do
  let pair ← spend deps found jti bytes
  pure (.tokens pair)

/-- After its lookup a refresh fails, or reads the clock. -/
theorem resume_stmt {found : Option StoredToken} {jti : Nat} {bytes : RawToken}
    {s : Stmt} {k : s.Res → Call Out} (h : resume deps found jti bytes = .stmt s k) : s = .now := by
  cases found with
  | none => exact absurd h (by rintro ⟨⟩)
  | some stored =>
    have hif : resume deps (some stored) jti bytes
        = (if stored.row.revoked = true then reuseDetected stored
            else rotate deps stored jti bytes) >>= fun pair => pure (.tokens pair) := rfl
    rw [hif] at h
    split at h
    · exact (Prog.stmt.inj h).1.symm
    · exact (Prog.stmt.inj h).1.symm

/-- What is known of a refresh that has looked its token up and has not read the clock. -/
def AtClock (sys : Sys deps) : Prop :=
  ∀ t ses raw jti bytes, sys.sessions t = some ses → ses.op = .refresh raw jti bytes →
    ses.trace ≠ [] → Stmt.now ∉ ses.trace → ∃ found, ses.prog = resume deps found jti bytes ∧
      ∀ stored, found = some stored → stored.row.tokenHash = hashToken deps raw ∧
        ∃ r ∈ sys.world.refreshTokens, Touched stored.row r

theorem AtClock.step {sys sys' : Sys deps} {l : Label (authService deps)} (h : AtClock sys)
    (hu : Txn.Unstarted sys) (hk : Kept sys.world sys'.world) (hs : sys.step l = some sys') :
    AtClock sys' := by
  intro t ses' raw jti bytes ht' hop hne hnow
  rcases Discipline.session_of_step hs ht' with ⟨op, -, rfl⟩ |
    ⟨x, ses, s, k, r, c', -, ht, hp, hr, hop', htr, hprog, hctx⟩ | ⟨-, ht⟩
  · exact absurd rfl hne
  · rw [hop'] at hop
    rw [htr, List.mem_append, List.mem_singleton] at hnow
    by_cases hnil : ses.trace = []
    · -- the lookup itself
      have hbody : ses.prog = Op.body deps (.refresh raw jti bytes) := hop ▸ hu t ses ht hnil
      obtain ⟨rfl, hk⟩ := Prog.stmt.inj (hp.symm.trans hbody)
      obtain rfl := eq_of_heq hk
      obtain ⟨hw, ⟨v, ws, hexec, rfl⟩ | ⟨e, hexec, -⟩⟩ := Accord.run_cases hr
      · obtain ⟨rfl, -⟩ := Prod.mk.inj (Except.ok.inj (Option.some.inj hexec))
        have hw' : sys'.world = sys.world := (congrArg Ctx.world hctx).trans hw
        refine ⟨_, hprog, fun stored hst => ?_⟩
        obtain ⟨hmem, hh⟩ := stored?_cases hst
        exact ⟨hh, stored.row, hw' ▸ hmem, Touched.refl _⟩
      · exact absurd (Option.some.inj hexec) (by simp)
    · -- the clock, which was still to be read
      obtain ⟨found, hfound, -⟩ := h t ses raw jti bytes ht hop hnil fun hm => hnow (Or.inl hm)
      exact absurd (resume_stmt (hfound.symm.trans hp)).symm fun hn => hnow (Or.inr hn)
  · obtain ⟨found, hfound, hrow⟩ := h t ses' raw jti bytes ht hop hne hnow
    refine ⟨found, hfound, fun stored hst => ?_⟩
    obtain ⟨hh, r, hr, htouch⟩ := hrow stored hst
    obtain ⟨r', hr', htouch'⟩ := hk.rows r hr
    exact ⟨hh, r', hr', htouch.trans htouch'⟩

/-- What holds in every reachable state. -/
structure Settled (sys : Sys deps) : Prop where
  valid : sys.world.Valid
  unstarted : Txn.Unstarted sys
  atClock : AtClock sys

theorem settled_run {C : Sys deps → Label (authService deps) → Prop} {w : World} (hv : w.Valid)
    {sys : Sys deps} (hr : Txn.Sys.Reach C (Txn.Sys.init w) sys) : Settled sys := by
  have hgood : (spending deps).Good (Txn.Sys.init w) := Discipline.good_init hv
  have hnone : ∀ t ses, (Txn.Sys.init w : Sys deps).sessions t = some ses → False := by
    rintro t ses ⟨⟩
  obtain ⟨hG, hu, hc⟩ := Discipline.Reach.good spending_sound
    (J := fun sys => Txn.Unstarted sys ∧ AtClock sys)
    (fun sys l sys' _ hJ hG hs => ⟨hJ.1.step hs, hJ.2.step hJ.1
      (Accord.keeps_step hG (fun e _ => spending_env sys e hG.inv) hs).2 hs⟩) hr hgood
    ⟨fun t ses ht => absurd ht (hnone t ses), fun t ses _ _ _ ht => absurd ht (hnone t ses)⟩
  exact ⟨hG.inv, hu, hc⟩

/-! ## 5. Kills -/

/-- The step kills the family: `refresh` was given a revoked token of it and revokes the family, or
`logout` revokes an unrevoked token of it. -/
inductive Kill (f : Family) (sys : Sys deps) : Label (authService deps) → Prop
  | reuse (t : Nat) (x : TokenId) (ses : Session (authService deps)) (raw : RawToken) (jti : Nat)
      (bytes : RawToken) (r : RefreshToken) (now : Time) (k : Nat → Call Out)
      (ht : sys.sessions t = some ses) (hop : ses.op = .refresh raw jti bytes)
      (hr : r ∈ sys.world.refreshTokens) (hh : r.tokenHash = hashToken deps raw)
      (hf : r.family = f) (hrev : r.revoked = true)
      (hp : ses.prog = .stmt (.refreshTokenUpdateMany { family := some f } now) k) :
      Kill f sys (.exec t x)
  | logout (t : Nat) (x : TokenId) (ses : Session (authService deps)) (raw : RawToken)
      (r : RefreshToken) (now : Time) (k : Nat → Call Out)
      (ht : sys.sessions t = some ses) (hop : ses.op = .logout raw)
      (hr : r ∈ sys.world.refreshTokens) (hh : r.tokenHash = hashToken deps raw)
      (hf : r.family = f) (hrev : r.revoked = false)
      (hp : ses.prog
        = .stmt (.refreshTokenUpdateMany { tokenHash := some (hashToken deps raw) } now) k) :
      Kill f sys (.exec t x)

/-- The call is still to insert a token of the family.  A refresh has then looked up a token of the
family, and has found it unexpired or can still do so. -/
structure Renewing (f : Family) (w : World) (ses : Session (authService deps)) : Prop where
  pending : ¬ Only (E := tokenStore) (fun s : Stmt => ¬ s.CreatesIn f) ses.prog
  looked : ∀ raw jti bytes, ses.op = .refresh raw jti bytes → ses.trace ≠ [] ∧
    (Stmt.now ∈ ses.trace ∨
      ∀ r ∈ w.refreshTokens, r.tokenHash = hashToken deps raw → w.now ≤ r.expiresAt)

/-- **The condition at the kill.**  No call is about to renew the family, and a logout leaves no
other token of it alive. -/
structure CleanKill (f : Family) (sys : Sys deps) (l : Label (authService deps)) : Prop where
  renewing : ∀ t ses, sys.sessions t = some ses → ¬ Renewing f sys.world ses
  others : ∀ t x ses raw, l = .exec t x → sys.sessions t = some ses → ses.op = .logout raw →
    ∀ r ∈ sys.world.refreshTokens, r.family = f → r.tokenHash ≠ hashToken deps raw →
      r.Dead sys.world.now

/-- A row that the `where` names is revoked afterwards. -/
theorem revoked_revoke {q : RefreshTokenWhere} {t : Time} {r : RefreshToken}
    (h : q.tokenHash.all (· == r.tokenHash) = true) (hf : q.family.all (· == r.family) = true) :
    (q.revoke t r).revoked = true := by
  unfold RefreshTokenWhere.revoke RefreshTokenWhere.matches
  rw [h, hf]
  cases hrev : r.revoked with
  | false => rfl
  | true => exact hrev

section

variable {sys sys' : Sys deps} {l : Label (authService deps)}

/-- What a kill does to the table. -/
theorem Kill.revokes (h : Kill f sys l) (hs : sys.step l = some sys') :
    ∃ q t, sys'.world = { sys.world with
        refreshTokens := sys.world.refreshTokens.map (RefreshTokenWhere.revoke q t) } ∧
      (∃ r ∈ sys.world.refreshTokens, r.family = f) ∧
      ∀ r ∈ sys.world.refreshTokens, r.family = f → (q.revoke t r).revoked = true ∨
        ∃ t' x ses raw, l = .exec t' x ∧ sys.sessions t' = some ses ∧ ses.op = .logout raw ∧
          r.tokenHash ≠ hashToken deps raw := by
  cases h with
  | reuse t x ses raw jti bytes r now k ht hop hr hh hf hrev hp =>
    refine ⟨{ family := some f }, now, ?_, ⟨r, hr, hf⟩, fun r' _ hf' => Or.inl ?_⟩
    · obtain ⟨ses₀, s, k', r', c', ht₀, hp₀, -, hrun, ses', -, -, -, -, -, hctx⟩ :=
        Discipline.stepExec_cases hs
      obtain rfl := Option.some.inj (ht.symm.trans ht₀)
      obtain ⟨rfl, -⟩ := Prog.stmt.inj (hp.symm.trans hp₀)
      exact (congrArg Ctx.world hctx).trans (Accord.run_cases hrun).1
    · exact revoked_revoke rfl (by simp [hf'])
  | logout t x ses raw r now k ht hop hr hh hf hrev hp =>
    refine ⟨{ tokenHash := some (hashToken deps raw) }, now, ?_, ⟨r, hr, hf⟩, fun r' _ _ => ?_⟩
    · obtain ⟨ses₀, s, k', r', c', ht₀, hp₀, -, hrun, ses', -, -, -, -, -, hctx⟩ :=
        Discipline.stepExec_cases hs
      obtain rfl := Option.some.inj (ht.symm.trans ht₀)
      obtain ⟨rfl, -⟩ := Prog.stmt.inj (hp.symm.trans hp₀)
      exact (congrArg Ctx.world hctx).trans (Accord.run_cases hrun).1
    · by_cases he : r'.tokenHash = hashToken deps raw
      · exact Or.inl (revoked_revoke (by simp [he]) rfl)
      · exact Or.inr ⟨t, x, ses, raw, rfl, ht, hop, he⟩

/-- **After a clean kill the family is dead**, and it has got no rows. -/
theorem Kill.keeps (h : Kill f sys l) (hc : CleanKill f sys l) (hv : sys.world.Valid)
    (hs : sys.step l = some sys') : (quarantine f).keeps sys.world sys'.world := by
  obtain ⟨q, t, hw, ⟨r, hr, hf⟩, hrev⟩ := h.revokes hs
  have hmem : ∀ r' ∈ sys'.world.refreshTokens, ∃ r ∈ sys.world.refreshTokens, q.revoke t r = r' := by
    intro r' hr'
    rw [hw] at hr'
    exact List.mem_map.mp hr'
  have hto : ∀ r ∈ sys.world.refreshTokens, q.revoke t r ∈ sys'.world.refreshTokens := by
    intro r hr
    rw [hw]
    exact List.mem_map_of_mem hr
  have hnow : sys'.world.now = sys.world.now := by rw [hw]
  refine ⟨⟨?_, ?_, ?_⟩, ⟨Nat.le_of_eq hnow.symm, ?_⟩, ?_⟩
  · rw [hw]
    exact effect_valid (s := .refreshTokenUpdateMany q t) (x := 0) hv rfl
  · exact ⟨_, hto r hr, (touched_revoke q t r).family.trans hf⟩
  · intro r' hr' hf'
    obtain ⟨r, hr, rfl⟩ := hmem r' hr'
    have hf := (touched_revoke q t r).family.symm.trans hf'
    rcases hrev r hr hf with hrev | ⟨t', x, ses, raw, rfl, ht, hop, hne⟩
    · exact Or.inl hrev
    · exact (hc.others t' x ses raw rfl ht hop r hr hf hne).later (Nat.le_of_eq hnow.symm)
        (touched_revoke q t r)
  · exact fun r hr => ⟨_, hto r hr, touched_revoke q t r⟩
  · intro r' hr' _
    obtain ⟨r, hr, rfl⟩ := hmem r' hr'
    exact ⟨r, hr, touched_revoke q t r⟩

/-- A call that is not about to renew the family keeps to the quarantine. -/
theorem wp_of_not_renewing (hset : Settled sys) {t : Nat} {ses : Session (authService deps)}
    (ht : sys.sessions t = some ses) (hno : ¬ Renewing f sys.world ses) :
    (quarantine f).wp ses.prog (fun _ _ => True) (sys.ctx t ses) := by
  by_cases hp : Only (E := tokenStore) (fun s : Stmt => ¬ s.CreatesIn f) ses.prog
  · exact wp_of_creates_none hp _
  · -- so it is a refresh that has not looked up yet, or whose token has expired
    have hlook : ∃ raw jti bytes, ses.op = .refresh raw jti bytes ∧
        ¬ (ses.trace ≠ [] ∧ (Stmt.now ∈ ses.trace ∨
          ∀ r ∈ sys.world.refreshTokens, r.tokenHash = hashToken deps raw →
            sys.world.now ≤ r.expiresAt)) := by
      by_contra hall
      refine hno ⟨hp, fun raw jti bytes hop => ?_⟩
      by_contra hfalse
      exact hall ⟨raw, jti, bytes, hop, hfalse⟩
    obtain ⟨raw, jti, bytes, hop, hlook⟩ := hlook
    by_cases hnil : ses.trace = []
    · rw [hset.unstarted t ses ht hnil, hop]
      have hother : ∀ dto family jti' bytes',
          Op.refresh raw jti bytes = .login dto family jti' bytes' → family ≠ f := by
        rintro _ _ _ _ ⟨⟩
      exact body_quarantine hother
    · have hclock : Stmt.now ∉ ses.trace := fun hm => hlook ⟨hnil, Or.inl hm⟩
      obtain ⟨found, hfound, hrow⟩ := hset.atClock t ses raw jti bytes ht hop hnil hclock
      rw [hfound]
      refine wp_bind (Txn.wp_mono (fun r _ hr => ?_) (quarantine_spend_fails fun stored hst => ?_))
      · obtain ⟨e, rfl⟩ := hr
        trivial
      · obtain ⟨hh, r, hr, ht⟩ := hrow stored hst
        refine Or.inr ?_
        by_contra hfresh
        refine hlook ⟨hnil, Or.inr fun r' hr' hh' => ?_⟩
        rw [Keyed.eq_of_key_eq hset.valid.token_hash hr' hr
          (hh'.trans (hh.symm.trans ht.tokenHash.symm)), ht.expiresAt]
        exact Nat.not_lt.mp hfresh

/-- The killer itself inserts nothing afterwards. -/
theorem Kill.killer (h : Kill f sys l) (hc : CleanKill f sys l) (hset : Settled sys) {t : Nat}
    {x : TokenId} (hl : l = .exec t x) {ses : Session (authService deps)}
    (ht : sys.sessions t = some ses) :
    Only (E := tokenStore) (fun s : Stmt => ¬ s.CreatesIn f) ses.prog := by
  by_contra hp
  refine hc.renewing t ses ht ⟨hp, fun raw jti bytes hop => ?_⟩
  cases h with
  | reuse t' x' ses' raw' jti' bytes' r now k ht' hop' hr hh hf hrev hp' =>
    obtain ⟨rfl, -⟩ := Label.exec.inj hl
    obtain rfl := Option.some.inj (ht.symm.trans ht')
    have hnil : ses.trace ≠ [] := by
      intro hnil
      have hbody : ses.prog = Op.body deps (.refresh raw' jti' bytes') :=
        hop' ▸ hset.unstarted t' ses ht hnil
      exact absurd (Prog.stmt.inj (hp'.symm.trans hbody)).1 (by simp)
    refine ⟨hnil, Or.inl ?_⟩
    by_contra hclock
    obtain ⟨found, hfound, -⟩ := hset.atClock t' ses raw' jti' bytes' ht hop' hnil hclock
    exact absurd (resume_stmt (hfound.symm.trans hp')) (by simp)
  | logout t' x' ses' raw' r now k ht' hop' hr hh hf hrev hp' =>
    obtain ⟨rfl, -⟩ := Label.exec.inj hl
    obtain rfl := Option.some.inj (ht.symm.trans ht')
    exact absurd (hop.symm.trans hop') (by simp)

/-- **From a clean kill on everybody keeps to the quarantine.** -/
theorem Kill.good (h : Kill f sys l) (hc : CleanKill f sys l) (hset : Settled sys)
    (hs : sys.step l = some sys') : (quarantined deps f).Good sys' := by
  have hk := h.keeps hc hset.valid hs
  refine ⟨hk.1, fun key => key.elim, fun t ses' ht' => controlled_of_wp ?_⟩
  rcases Discipline.session_of_step hs ht' with ⟨op, rfl, -⟩ |
    ⟨x, ses, s, k, r, c', rfl, ht, hp, hr, -, -, hprog, hctx⟩ | ⟨-, ht⟩
  · cases h
  · have honly := h.killer hc hset rfl ht
    rw [hp] at honly
    rw [hprog]
    cases r with
    | ok v => exact wp_of_creates_none (honly.2 v) _
    | error e => trivial
  · rw [Accord.ctx_at' sys sys' t ses']
    exact Accord.wp_at' (P := fun _ => True)
      (wp_of_not_renewing hset ht (hc.renewing t ses' ht)) hk

end

/-! ## 6. What stays dead -/

/-- No refresh that begins from here on with a token of the family succeeds: until another call
begins in its place, session `t` is not answered with a new pair. -/
def StaysDead (f : Family) (sys₁ : Sys deps) : Prop :=
  ∀ (sys₂ sys₃ sys₄ : Sys deps) (t : Nat) (raw : RawToken) (jti : Nat) (bytes : RawToken),
    Txn.Sys.Reach FreshFamilies sys₁ sys₂ →
    sys₂.step (.begin t (.refresh raw jti bytes)) = some sys₃ →
    Txn.Sys.Reach (fun sys l => FreshFamilies sys l ∧ ∀ op, l ≠ .begin t op) sys₃ sys₄ →
    (∃ r ∈ sys₄.world.refreshTokens, r.tokenHash = hashToken deps raw ∧ r.family = f) →
      sys₄.step (.commit t) = none

/-- **A cleanly killed family stays dead.** -/
theorem killed_stays_dead (deps : Deps) {w : World} (hv : w.Valid) {sys₀ sys₁ : Sys deps}
    (hr₀ : Txn.Sys.Reach FreshFamilies (Txn.Sys.init w) sys₀) {f : Family}
    {l : Label (authService deps)} (hkill : Kill f sys₀ l) (hclean : CleanKill f sys₀ l)
    (hs : sys₀.step l = some sys₁) : StaysDead f sys₁ := by
  intro sys₂ sys₃ sys₄ t raw jti bytes hr₂ hbegin hr₄ hf
  have hG₁ := hkill.good hclean (settled_run hv hr₀) hs
  have hG₂ := (Discipline.Reach.good (J := fun _ => True) (quarantined_sound fun _ _ h => h)
    (fun _ _ _ _ _ _ _ => trivial) hr₂ hG₁ trivial).1
  have hfresh : FreshFamilies sys₂ (.begin t (.refresh raw jti bytes)) := by
    rintro t' dto family jti' bytes' ⟨⟩
  have hG₃ := hG₂.step (J := fun _ => True) (quarantined_sound fun _ _ h => h) trivial hfresh hbegin
  -- the token was there when the call began
  have hkeeps := Accord.keeps_run (J := fun _ => True)
    (quarantined_sound (fun _ _ h => h.1)) (fun _ _ _ _ _ _ _ => trivial)
    (fun _ ms _ hi => quarantine_env hi ms) hG₃ trivial hr₄
  have hf₃ : ∃ r ∈ sys₃.world.refreshTokens, r.tokenHash = hashToken deps raw ∧ r.family = f := by
    obtain ⟨r', hr', hh, hf⟩ := hf
    obtain ⟨r, hr, ht⟩ := hkeeps.2.2 r' hr' hf
    exact ⟨r, hr, ht.tokenHash.symm.trans hh, ht.family.symm.trans hf⟩
  -- so the call is bound to fail from its beginning
  have hbound₃ : Accord.Bound (quarantine f) Fails sys₃ t := by
    obtain ⟨-, rfl⟩ := Discipline.begin_cases hbegin
    have hself : ∀ o : Option (Session (authService deps)),
        Function.update sys₂.sessions t o t = o := fun o => Function.update_self t o sys₂.sessions
    intro ses ht
    obtain rfl := Option.some.inj ((hself _).symm.trans ht)
    refine wp_bind (Txn.wp_mono (fun r _ hr => ?_) (refresh_fails hf₃))
    obtain ⟨e, rfl⟩ := hr
    exact ⟨e, rfl⟩
  have hbound₄ := (Discipline.Reach.good
    (J := fun sys => Accord.Bound (quarantine f) Fails sys t)
    (quarantined_sound fun _ _ h => h.1)
    (fun sys l sys' hC hJ hG hs => hJ.step hG.inv
      (Accord.keeps_step hG (fun ms _ => quarantine_env hG.inv ms) hs) hC.2 hs) hr₄ hG₃ hbound₃).2
  cases hcommit : sys₄.step (.commit t) with
  | none => rfl
  | some sys₅ =>
    obtain ⟨ses, a, ht, hp, -⟩ := Discipline.commit_cases hcommit
    obtain ⟨e, he⟩ := hbound₄.done ht hp
    exact absurd he (by simp)

namespace Campus

/-- The token 1 is spent for the token 2. -/
def spendFirst : List (Label (authService stubs)) :=
  .begin 0 (.refresh 1 0 2) :: execs 0 7 10 ++ [.commit 0]

/-- The token 1 comes back, and the family is about to be revoked. -/
def theft : List (Label (authService stubs)) :=
  .begin 0 (.refresh 1 2 4) :: execs 0 2 0

/-- A refresh of the token 2 has looked it up by then. -/
def race : List (Label (authService stubs)) :=
  spendFirst ++ [.begin 1 (.refresh 2 1 3), .exec 1 11] ++ theft

/-- Its owner is answered with the token 3, which it then refreshes. -/
def escape : List (Label (authService stubs)) :=
  .rollback 0 :: execs 1 6 11 ++ [.commit 1]

/-- Nobody logs in. -/
def noLogin : Label (authService stubs) → Bool
  | .begin _ (.login _ _ _ _) => false
  | _ => true

/-- Then no family is drawn. -/
theorem fresh_of_run {ls : List (Label (authService stubs))} {sys sys' : Sys stubs}
    (hls : ls.all noLogin = true) (hrun : sys.run ls = some sys') :
    Txn.Sys.Reach FreshFamilies sys sys' := by
  refine .of_run .refl (fun l hl sys t dto family jti bytes he => ?_) hrun
  have hno := List.all_eq_true.mp hls l hl
  rw [he] at hno
  exact absurd hno (by simp [noLogin])

set_option maxRecDepth 4000 in
theorem race_runs : (Txn.Sys.run (Txn.Sys.init world) race).isSome = true := by decide

def atTheft : Sys stubs := (Txn.Sys.run (Txn.Sys.init world) race).get race_runs

/-- The replay of the token 1 kills the family 5. -/
theorem atTheft_kill : Kill 5 atTheft (.exec 0 0) :=
  .reuse 0 0 _ 1 2 4 _ 10 _ rfl rfl (List.mem_cons_self) rfl rfl rfl rfl

set_option maxRecDepth 4000 in
theorem theft_runs : (atTheft.step (.exec 0 0)).isSome = true := by decide

def afterTheft : Sys stubs := (atTheft.step (.exec 0 0)).get theft_runs

set_option maxRecDepth 4000 in
theorem escape_runs : (Txn.Sys.run afterTheft escape).isSome = true := by decide

def escaped : Sys stubs := (Txn.Sys.run afterTheft escape).get escape_runs

set_option maxRecDepth 4000 in
theorem escaped_begins : (escaped.step (.begin 2 (.refresh 3 3 5))).isSome = true := by decide

def returning : Sys stubs := (escaped.step (.begin 2 (.refresh 3 3 5))).get escaped_begins

set_option maxRecDepth 4000 in
theorem returning_runs : (Txn.Sys.run returning (execs 2 7 12)).isSome = true := by decide

def returned : Sys stubs := (Txn.Sys.run returning (execs 2 7 12)).get returning_runs

set_option maxRecDepth 4000 in
/-- **A session survives the theft response.**  The refresh that was under way inserts its successor
after the family was revoked. -/
theorem thief_survives :
    ¬ ∀ (deps : Deps) (w : World), w.Valid → ∀ (sys₀ sys₁ : Sys deps) (f : Family)
        (l : Label (authService deps)), Txn.Sys.Reach FreshFamilies (Txn.Sys.init w) sys₀ →
      Kill f sys₀ l → sys₀.step l = some sys₁ → StaysDead f sys₁ := by
  intro h
  have hdead := h stubs world world_valid atTheft afterTheft 5 _
    (fresh_of_run rfl (Option.some_get race_runs).symm) atTheft_kill
    (Option.some_get theft_runs).symm
  have hreturn := hdead escaped returning returned 2 3 3 5
    (fresh_of_run rfl (Option.some_get escape_runs).symm) (Option.some_get escaped_begins).symm
    (.of_run .refl ?_ (Option.some_get returning_runs).symm) (by decide)
  · exact absurd hreturn (by decide)
  · intro l hl sys
    rw [List.eq_of_mem_replicate hl]
    exact ⟨fun t dto family jti bytes he => absurd he (by simp), fun op => by simp⟩

/-- The same theft with nobody else there. -/
def calm : List (Label (authService stubs)) := spendFirst ++ theft

set_option maxRecDepth 4000 in
theorem calm_runs : (Txn.Sys.run (Txn.Sys.init world) calm).isSome = true := by decide

def atCalm : Sys stubs := (Txn.Sys.run (Txn.Sys.init world) calm).get calm_runs

theorem atCalm_kill : Kill 5 atCalm (.exec 0 0) :=
  .reuse 0 0 _ 1 2 4 _ 10 _ rfl rfl (List.mem_cons_self) rfl rfl rfl rfl

/-- The replaying call is the only one, and it has nothing to insert. -/
theorem atCalm_clean : CleanKill 5 atCalm (.exec 0 0) := by
  have hzero : ∀ l ∈ calm, l.session = some 0 := by decide
  have honly : ∀ t ses, atCalm.sessions t = some ses → t = 0 := by
    intro t ses ht
    by_contra hne
    have hnone : atCalm.sessions t = none := Discipline.run_sessions_of_ne
      (Option.some_get calm_runs).symm fun l hl he =>
        hne (Option.some.inj (he.symm.trans (hzero l hl)))
    exact absurd (hnone.symm.trans ht) (by simp)
  constructor
  · intro t ses ht h
    obtain rfl := honly t ses ht
    have hses : ∃ k, (atCalm.sessions 0).map Session.prog
        = some (.stmt (.refreshTokenUpdateMany { family := some 5 } 10) k) ∧
          ∀ v, k v = .throw (unauthorized "Token reuse detected") := ⟨_, rfl, fun _ => rfl⟩
    obtain ⟨k, hk, hthrow⟩ := hses
    rw [ht] at hk
    refine h.pending ?_
    rw [Option.some.inj hk]
    exact ⟨fun h => h, fun v => hthrow v ▸ trivial⟩
  · intro t x ses raw he ht hop
    obtain rfl := honly t ses ht
    have hses : (atCalm.sessions 0).map Session.op = some (.refresh 1 2 4) := rfl
    rw [ht] at hses
    exact absurd (hop.symm.trans (Option.some.inj hses)) (by simp)

set_option maxRecDepth 4000 in
theorem calm_kill_runs : (atCalm.step (.exec 0 0)).isSome = true := by decide

def killed : Sys stubs := (atCalm.step (.exec 0 0)).get calm_kill_runs

set_option maxRecDepth 4000 in
theorem killed_stays_dead_calm :
    atCalm.world.refreshTokens.map RefreshToken.revoked = [true, false] ∧
      killed.world.refreshTokens.map RefreshToken.revoked = [true, true] ∧ StaysDead 5 killed :=
  ⟨by decide, by decide, killed_stays_dead stubs world_valid
    (fresh_of_run rfl (Option.some_get calm_runs).symm) atCalm_kill atCalm_clean
    (Option.some_get calm_kill_runs).symm⟩

end Campus

end Enroll.Auth
