/-
# A refresh token is spent at most once

`refresh` looks a token up, checks it, issues a new pair and only then revokes the token, and the
revoking update does not ask whether the token is still unrevoked.  Two calls that look a token up
before either has revoked it both succeed (`Campus.token_spent_twice`).

`refresh_spends_once` is what holds: in every run in which no call finds a token live while another
call that presents it is under way, each stored token is spent at most once.  Two calls past their
lookup of one token are then never both able to succeed (`Exclusive.pair`), and once one has
succeeded the token is revoked, so no later lookup finds it live.
-/
import Enroll.AuthService

namespace Enroll.Auth

open Txn (Ctx Prog Session Label Accord Discipline wp_bind)

variable {deps : Deps}

/-! ## 1. What a statement does to the table -/

/-- A row before and after a statement: it keeps its fixed columns, and it is not unrevoked. -/
structure Touched (r r' : RefreshToken) : Prop where
  fixed : r'.fixed = r.fixed
  revoked : r.revoked = true → r'.revoked = true

theorem Touched.refl (r : RefreshToken) : Touched r r := ⟨rfl, fun h => h⟩

theorem Touched.trans {r r' r'' : RefreshToken} (h : Touched r r') (h' : Touched r' r'') :
    Touched r r'' := ⟨h'.fixed.trans h.fixed, fun hr => h'.revoked (h.revoked hr)⟩

theorem Touched.id {r r' : RefreshToken} (h : Touched r r') : r'.id = r.id :=
  (congrArg RefreshToken.id h.fixed : r'.fixed.id = r.fixed.id)

theorem Touched.tokenHash {r r' : RefreshToken} (h : Touched r r') : r'.tokenHash = r.tokenHash :=
  (congrArg RefreshToken.tokenHash h.fixed : r'.fixed.tokenHash = r.fixed.tokenHash)

theorem Touched.family {r r' : RefreshToken} (h : Touched r r') : r'.family = r.family :=
  (congrArg RefreshToken.family h.fixed : r'.fixed.family = r.fixed.family)

theorem Touched.expiresAt {r r' : RefreshToken} (h : Touched r r') : r'.expiresAt = r.expiresAt :=
  (congrArg RefreshToken.expiresAt h.fixed : r'.fixed.expiresAt = r.fixed.expiresAt)

theorem Touched.createdAt {r r' : RefreshToken} (h : Touched r r') : r'.createdAt = r.createdAt :=
  (congrArg RefreshToken.createdAt h.fixed : r'.fixed.createdAt = r.fixed.createdAt)

theorem touched_revoke (q : RefreshTokenWhere) (t : Time) (r : RefreshToken) :
    Touched r (q.revoke t r) := by
  unfold RefreshTokenWhere.revoke
  split
  · exact ⟨rfl, fun _ => rfl⟩
  · exact Touched.refl r

theorem map_touched {α : Type} {g : RefreshToken → α} {f : RefreshToken → RefreshToken}
    (h : ∀ r, g (f r) = g r) (l : List RefreshToken) : (l.map f).map g = l.map g := by
  rw [List.map_map]
  exact List.map_congr_left fun r _ => h r

/-- **A statement touches the rows of the table, or appends one.** -/
theorem effect_cases (s : Stmt) (x : TokenId) (w : World) :
    (s.effect x w).now = w.now ∧
    ((∃ f : RefreshToken → RefreshToken, (∀ r, Touched r (f r)) ∧
      (s.effect x w).refreshTokens = w.refreshTokens.map f) ∨
    ∃ d, s = .refreshTokenCreate d ∧ w.refuses d = none ∧
      (s.effect x w).refreshTokens = w.refreshTokens ++ [d.row x w.now]) := by
  have hsame : ∃ f : RefreshToken → RefreshToken, (∀ r, Touched r (f r)) ∧
      w.refreshTokens = w.refreshTokens.map f :=
    ⟨fun r => r, Touched.refl, (List.map_id' _).symm⟩
  cases s with
  | now => exact ⟨rfl, Or.inl hsame⟩
  | userFindUnique email => exact ⟨rfl, Or.inl hsame⟩
  | refreshTokenFindUnique h => exact ⟨rfl, Or.inl hsame⟩
  | refreshTokenCreate d =>
    cases hd : w.refuses d with
    | some e =>
      have heff : Stmt.effect (.refreshTokenCreate d) x w = w := by simp only [Stmt.effect, hd]
      rw [heff]
      exact ⟨rfl, Or.inl hsame⟩
    | none =>
      have heff : Stmt.effect (.refreshTokenCreate d) x w
          = { w with refreshTokens := w.refreshTokens ++ [d.row x w.now] } := by
        simp only [Stmt.effect, hd]
      rw [heff]
      exact ⟨rfl, Or.inr ⟨d, rfl, hd, rfl⟩⟩
  | refreshTokenUpdate id d =>
    refine ⟨rfl, Or.inl ⟨_, fun r => ?_, rfl⟩⟩
    by_cases hr : r.id = id
    · rw [if_pos hr]
      exact ⟨rfl, fun _ => rfl⟩
    · rw [if_neg hr]
      exact Touched.refl r
  | refreshTokenUpdateMany q t => exact ⟨rfl, Or.inl ⟨q.revoke t, touched_revoke q t, rfl⟩⟩

/-- Time goes on, and no row is lost or unrevoked. -/
structure Kept (w w' : World) : Prop where
  now : w.now ≤ w'.now
  rows : ∀ r ∈ w.refreshTokens, ∃ r' ∈ w'.refreshTokens, Touched r r'

theorem Kept.refl (w : World) : Kept w w := ⟨Nat.le_refl _, fun r hr => ⟨r, hr, Touched.refl r⟩⟩

theorem Kept.trans {w w' w'' : World} (h : Kept w w') (h' : Kept w' w'') : Kept w w'' where
  now := Nat.le_trans h.now h'.now
  rows r hr := by
    obtain ⟨r', hr', ht⟩ := h.rows r hr
    obtain ⟨r'', hr'', ht'⟩ := h'.rows r' hr'
    exact ⟨r'', hr'', ht.trans ht'⟩

theorem effect_kept (s : Stmt) (x : TokenId) (w : World) : Kept w (s.effect x w) := by
  obtain ⟨hnow, ⟨f, hf, hrows⟩ | ⟨d, -, -, hrows⟩⟩ := effect_cases s x w
  · refine ⟨Nat.le_of_eq hnow.symm, fun r hr => ⟨f r, ?_, hf r⟩⟩
    exact hrows ▸ List.mem_map_of_mem hr
  · refine ⟨Nat.le_of_eq hnow.symm, fun r hr => ⟨r, ?_, Touched.refl r⟩⟩
    exact hrows ▸ List.mem_append_left _ hr

theorem token?_mem {w : World} {h : TokenHash} {r : RefreshToken} (hr : w.token? h = some r) :
    r ∈ w.refreshTokens ∧ r.tokenHash = h := Keyed.lookup_some hr

theorem World.Valid.token? {w : World} (hv : w.Valid) {r : RefreshToken}
    (hr : r ∈ w.refreshTokens) : w.token? r.tokenHash = some r :=
  Keyed.lookup_of_mem hv.token_hash hr

/-- What a `create` inserts has a new hash. -/
theorem refuses_none {w : World} {d : RefreshTokenCreate} (h : w.refuses d = none) :
    w.token? d.tokenHash = none := by
  unfold World.refuses at h
  by_contra hno
  rw [if_pos (Option.isSome_iff_ne_none.mpr hno)] at h
  exact absurd h (by simp)

theorem World.Valid.of_map {w w' : World} {f : RefreshToken → RefreshToken} (hv : w.Valid)
    (hf : ∀ r, Touched r (f r)) (hrows : w'.refreshTokens = w.refreshTokens.map f) : w'.Valid where
  token_id := by
    rw [hrows, map_touched fun r => (hf r).id]
    exact hv.token_id
  token_hash := by
    rw [hrows, map_touched fun r => (hf r).tokenHash]
    exact hv.token_hash

theorem World.Valid.of_append {w w' : World} {r : RefreshToken} (hv : w.Valid)
    (hid : w.hasToken r.id = false) (hhash : w.token? r.tokenHash = none)
    (hrows : w'.refreshTokens = w.refreshTokens ++ [r]) : w'.Valid where
  token_id := by
    rw [hrows, List.map_append, List.nodup_append]
    refine ⟨hv.token_id, List.nodup_singleton _, ?_⟩
    rintro id hmem _ hmem' rfl
    obtain ⟨q, hq, rfl⟩ := List.mem_map.mp hmem
    have hne := List.any_eq_false.mp hid q hq
    simp [List.mem_singleton.mp hmem'] at hne
  token_hash := by
    rw [hrows, List.map_append, List.nodup_append]
    refine ⟨hv.token_hash, List.nodup_singleton _, ?_⟩
    rintro h hmem _ hmem' rfl
    obtain ⟨q, hq, rfl⟩ := List.mem_map.mp hmem
    have hlook := hv.token? hq
    rw [List.mem_singleton.mp hmem', hhash] at hlook
    exact absurd hlook (by simp)

theorem effect_valid {s : Stmt} {x : TokenId} {w : World} (hv : w.Valid)
    (hs : (s.exec x w).isSome) : (s.effect x w).Valid := by
  obtain ⟨-, ⟨f, hf, hrows⟩ | ⟨d, rfl, hd, hrows⟩⟩ := effect_cases s x w
  · exact hv.of_map hf hrows
  · refine hv.of_append ?_ (refuses_none hd) hrows
    cases hx : w.hasToken x with
    | false => exact hx
    | true =>
      simp only [Stmt.exec, hx, if_true, Option.isSome_none] at hs
      exact absurd hs (by simp)

/-! ## 2. One rule for each statement -/

section Rules

variable {A : Accord tokenStore} {c : Ctx tokenStore}

theorem wp_now {Q : Except Failure Time → Ctx tokenStore → Prop} (hs : A.Allows Stmt.now)
    (h : ∀ c', A.keeps c.world c'.world → Q (.ok c'.world.now) c') : A.wp Call.now Q c := by
  refine Accord.wp_lift hs (fun w x v ws c' hw hexec hw' _ => ?_) fun w x e c' _ hexec => ?_
  · obtain ⟨rfl, -⟩ := Prod.mk.inj (Except.ok.inj (Option.some.inj hexec))
    have he : c'.world = w := hw'
    subst he
    exact h c' hw
  · exact absurd (Option.some.inj hexec) (by simp)

theorem wp_findUnique {h : TokenHash} {Q : Except Failure (Option StoredToken) → _ → Prop}
    (hs : A.Allows (Stmt.refreshTokenFindUnique h))
    (hok : ∀ c', A.keeps c.world c'.world → Q (.ok (c'.world.stored? h)) c') :
    A.wp (Call.refreshTokenFindUnique h) Q c := by
  refine Accord.wp_lift hs (fun w x v ws c' hw hexec hw' _ => ?_) fun w x e c' _ hexec => ?_
  · obtain ⟨rfl, -⟩ := Prod.mk.inj (Except.ok.inj (Option.some.inj hexec))
    have he : c'.world = w := hw'
    subst he
    exact hok c' hw
  · exact absurd (Option.some.inj hexec) (by simp)

theorem wp_create {d : RefreshTokenCreate} {Q : Except Failure Unit → Ctx tokenStore → Prop}
    (hs : A.Allows (Stmt.refreshTokenCreate d))
    (hok : ∀ c', A.keeps c.world c'.world → Q (.ok ()) c') (herr : ∀ c' e, Q (.error e) c') :
    A.wp (Call.refreshTokenCreate d) Q c :=
  Accord.wp_lift hs (fun _ _ _ _ c' hw _ _ hk => hok c' (A.trans _ _ _ hw hk))
    fun _ _ e c' _ _ => herr c' e

theorem wp_update {id : TokenId} {d : RefreshTokenData}
    {Q : Except Failure Unit → Ctx tokenStore → Prop}
    (hs : A.Allows (Stmt.refreshTokenUpdate id d))
    (hok : ∀ w c', A.keeps c.world w →
      c'.world.refreshTokens = Keyed.update RefreshToken.id id d.patch w.refreshTokens →
        Q (.ok ()) c')
    (herr : ∀ c' e, Q (.error e) c') : A.wp (Call.refreshTokenUpdate id d) Q c :=
  Accord.wp_lift hs
    (fun w _ _ _ c' hw _ hw' _ => hok w c' hw (congrArg World.refreshTokens hw'))
    fun _ _ e c' _ _ => herr c' e

theorem wp_updateMany {q : RefreshTokenWhere} {t : Time} {Q : Except Failure Nat → _ → Prop}
    (hs : A.Allows (Stmt.refreshTokenUpdateMany q t))
    (hok : ∀ c' n, A.keeps c.world c'.world → Q (.ok n) c') :
    A.wp (Call.refreshTokenUpdateMany q t) Q c := by
  refine Accord.wp_lift hs (fun w x v ws c' hw _ _ hk => ?_) fun w x e c' _ hexec => ?_
  · exact hok c' v (A.trans _ _ _ hw hk)
  · exact absurd (Option.some.inj hexec) (by simp)

theorem wp_generateTokenPair {userId : UserId} {roles : List Role} {family : Family} {jti : Nat}
    {bytes : RawToken} {Q : Except Failure TokenPair → Ctx tokenStore → Prop}
    (hnow : A.Allows Stmt.now)
    (hs : ∀ t, A.Allows (Stmt.refreshTokenCreate ⟨userId, hashToken deps bytes, family, t⟩))
    (hok : ∀ c' p, A.keeps c.world c'.world → Q (.ok p) c') (herr : ∀ c' e, Q (.error e) c') :
    A.wp (generateTokenPair deps userId roles family jti bytes) Q c := by
  refine wp_bind (wp_now hnow fun c₁ h₁ => ?_)
  exact wp_bind (wp_create (hs _) (fun c₂ h₂ => hok c₂ _ (A.trans _ _ _ h₁ h₂)) herr)

end Rules

/-! ## 3. The accord -/

/-- Rows stay, and stay revoked. -/
def keptAccord : Accord tokenStore where
  inv := World.Valid
  keeps w w' := w'.Valid ∧ Kept w w'
  refl w h := ⟨h, Kept.refl w⟩
  trans _ _ _ h h' := ⟨h'.1, h.2.trans h'.2⟩
  inv_of_keeps _ _ h := h.1

theorem kept_allows (s : Stmt) : keptAccord.Allows s := by
  intro x w out hv hexec
  refine ⟨effect_valid hv ?_, effect_kept s x w⟩
  have hexec' : s.exec x w = some out := hexec
  rw [hexec']
  rfl

theorem Kept.tick (w : World) (ms : Time) : Kept w { w with now := w.now + ms } :=
  ⟨Nat.le_add_right _ _, fun r hr => ⟨r, hr, Touched.refl r⟩⟩

/-- The token of hash `h` is revoked. -/
def Spent (h : TokenHash) (w : World) : Prop :=
  ∃ r ∈ w.refreshTokens, r.tokenHash = h ∧ r.revoked = true

theorem Spent.kept {h : TokenHash} {w w' : World} (hs : Spent h w) (hk : Kept w w') :
    Spent h w' := by
  obtain ⟨r, hr, hh, hrev⟩ := hs
  obtain ⟨r', hr', ht⟩ := hk.rows r hr
  exact ⟨r', hr', ht.tokenHash.trans hh, ht.revoked hrev⟩

/-- `refresh` would accept the token of hash `h` now. -/
def Live (h : TokenHash) (w : World) : Prop :=
  ∃ r ∈ w.refreshTokens, r.tokenHash = h ∧ r.revoked = false ∧ w.now ≤ r.expiresAt

theorem Spent.not_live {h : TokenHash} {w : World} (hv : w.Valid) (hs : Spent h w) : ¬ Live h w := by
  rintro ⟨r, hr, hh, hrev, -⟩
  obtain ⟨r', hr', hh', hrev'⟩ := hs
  rw [Keyed.eq_of_key_eq hv.token_hash hr hr' (hh.trans hh'.symm), hrev'] at hrev
  exact absurd hrev (by simp)

/-- `P` holds when the call succeeds. -/
def OnOk {α : Type} (P : Ctx tokenStore → Prop) : Except Failure α → Ctx tokenStore → Prop
  | .ok _, c => P c
  | .error _, _ => True

/-- The call fails. -/
def Fails {α : Type} (r : Except Failure α) : Prop := ∃ e, r = .error e

/-- **A rotation that succeeds has revoked the token.** -/
theorem rotate_spec {stored : StoredToken} {jti : Nat} {bytes : RawToken} {c : Ctx tokenStore}
    (hrow : ∃ r ∈ c.world.refreshTokens, Touched stored.row r) :
    keptAccord.wp (rotate deps stored jti bytes)
      (OnOk fun c' => Spent stored.row.tokenHash c'.world) c := by
  refine wp_bind (wp_now (kept_allows _) fun c₁ h₁ => ?_)
  refine wp_bind (Txn.wp_throwIf (fun _ => trivial) fun _ => ?_)
  refine wp_bind (wp_generateTokenPair (kept_allows _) (fun _ => kept_allows _) (fun c₂ p h₂ => ?_)
    fun _ _ => trivial)
  refine wp_bind (wp_findUnique (kept_allows _) fun c₃ h₃ => ?_)
  refine wp_bind (wp_now (kept_allows _) fun c₄ h₄ => ?_)
  refine wp_bind (wp_update (kept_allows _) (fun w c₅ h₅ hrows => ?_) fun _ _ => trivial)
  have hkept : Kept c.world w := (((h₁.2.trans h₂.2).trans h₃.2).trans h₄.2).trans h₅.2
  obtain ⟨r, hr, ht⟩ := hrow
  obtain ⟨r', hr', ht'⟩ := hkept.rows r hr
  refine ⟨_, hrows ▸ Keyed.mem_update.mpr ⟨r', hr', rfl⟩, ?_⟩
  rw [if_pos ((ht.trans ht').id)]
  exact ⟨(ht.trans ht').tokenHash, rfl⟩

/-- A replayed token fails. -/
theorem wp_reuseDetected {A : Accord tokenStore} {stored : StoredToken} {c : Ctx tokenStore}
    {Q : Except Failure TokenPair → Ctx tokenStore → Prop} (hnow : A.Allows Stmt.now)
    (hs : ∀ q t, A.Allows (Stmt.refreshTokenUpdateMany q t)) (h : ∀ c' e, Q (.error e) c') :
    A.wp (reuseDetected stored) Q c :=
  wp_bind (wp_bind (wp_now hnow fun _ _ => wp_bind (wp_updateMany (hs _ _) fun c' _ _ => h c' _)))

theorem stored?_cases {w : World} {h : TokenHash} {stored : StoredToken}
    (hs : w.stored? h = some stored) :
    stored.row ∈ w.refreshTokens ∧ stored.row.tokenHash = h := by
  obtain ⟨r, hr, rfl⟩ := Option.map_eq_some_iff.mp hs
  exact token?_mem hr

/-- **A refresh that succeeds has revoked the token it was given.** -/
theorem refresh_spec {raw : RawToken} {jti : Nat} {bytes : RawToken} {c : Ctx tokenStore} :
    keptAccord.wp (refresh deps raw jti bytes)
      (OnOk fun c' => Spent (hashToken deps raw) c'.world) c := by
  refine wp_bind (wp_findUnique (kept_allows _) fun c₁ h₁ => ?_)
  refine wp_bind (Txn.wp_orThrow (fun _ => trivial) fun stored hstored => ?_)
  obtain ⟨hr, hh⟩ := stored?_cases hstored
  rw [← hh]
  refine Txn.wp_ite (fun _ => ?_) fun _ => ?_
  · exact wp_reuseDetected (kept_allows _) (fun _ _ => kept_allows _) fun _ _ => trivial
  · exact rotate_spec ⟨stored.row, hr, Touched.refl _⟩

/-- A token that is revoked, or has expired by now, is refused. -/
theorem spend_fails {A : Accord tokenStore} {found : Option StoredToken} {jti : Nat}
    {bytes : RawToken} {c : Ctx tokenStore} (hA : ∀ w w', A.keeps w w' → Kept w w')
    (hnow : A.Allows Stmt.now) (hs : ∀ q t, A.Allows (Stmt.refreshTokenUpdateMany q t))
    (hdead : ∀ stored, found = some stored →
      stored.row.revoked = true ∨ stored.row.expiresAt < c.world.now) :
    A.wp (spend deps found jti bytes) (fun r _ => Fails r) c := by
  refine wp_bind (Txn.wp_orThrow (fun _ => ⟨_, rfl⟩) fun stored hstored => ?_)
  refine Txn.wp_ite (fun _ => ?_) fun hrev => ?_
  · exact wp_reuseDetected hnow hs fun _ _ => ⟨_, rfl⟩
  · -- it is unrevoked, so it has expired, and the clock is read later still
    have hexp := (hdead stored hstored).resolve_left hrev
    refine wp_bind (wp_now hnow fun c₁ h₁ => ?_)
    refine wp_bind (Txn.wp_throwIf (fun _ => ⟨_, rfl⟩) fun hno => absurd ?_ hno)
    exact Nat.lt_of_lt_of_le hexp (hA _ _ h₁).now

/-- What is looked up of a token that is not live. -/
theorem stored?_dead {h : TokenHash} {w : World} (hdead : ¬ Live h w) {stored : StoredToken}
    (hs : w.stored? h = some stored) :
    stored.row.revoked = true ∨ stored.row.expiresAt < w.now := by
  obtain ⟨hr, hh⟩ := stored?_cases hs
  by_contra hno
  rw [not_or] at hno
  exact hdead ⟨stored.row, hr, hh, Bool.eq_false_iff.mpr hno.1, Nat.not_lt.mp hno.2⟩

/-! ## 4. Single flight -/

/-- The call is a refresh with the token of hash `h`. -/
def Op.presents (deps : Deps) (h : TokenHash) : Op → Bool
  | login _ _ _ _ => false
  | refresh raw _ _ => hashToken deps raw == h
  | logout _ => false

/-- The calls that have been answered, the last one first. -/
def answers (sys : Sys deps) : List (Nat × Op × Except Failure Out) := sys.finished

/-- An answered call that spent the token of hash `h`: a refresh that returned a new pair. -/
def spends (deps : Deps) (h : TokenHash) (e : Nat × Op × Except Failure Out) : Bool :=
  e.2.1.presents deps h && e.2.2.isOk

/-- **The step condition.**  When a refresh finds its token live, no other refresh of that token is
under way: past its lookup, and not failed. -/
def SingleFlight (sys : Sys deps) (l : Label (authService deps)) : Prop :=
  ∀ t x ses h, l = .exec t x → sys.sessions t = some ses → ses.op.presents deps h = true →
    ses.trace = [] → Live h sys.world →
      ∀ t' ses', t' ≠ t → sys.sessions t' = some ses' → ses'.op.presents deps h = true →
        ses'.trace ≠ [] → ∃ e, ses'.prog = .throw e

theorem exists_of_presents {op : Op} {h : TokenHash} (hp : op.presents deps h = true) :
    ∃ raw jti bytes, op = .refresh raw jti bytes ∧ hashToken deps raw = h := by
  cases op with
  | login dto family jti bytes => exact absurd hp (by simp [Op.presents])
  | refresh raw jti bytes => exact ⟨raw, jti, bytes, rfl, by simpa [Op.presents] using hp⟩
  | logout raw => exact absurd hp (by simp [Op.presents])

/-- What a call has done when it ends. -/
def spendPost (deps : Deps) (op : Op) : Except Failure Out → Ctx tokenStore → Prop :=
  OnOk fun c => ∀ h, op.presents deps h = true → Spent h c.world

/-- The discipline of the service. -/
abbrev spending (deps : Deps) : Discipline (authService deps) :=
  keptAccord.discipline (spendPost deps)

theorem spending_start (op : Op) (c : Ctx tokenStore) :
    (spending deps).controlled op (op.body deps) c := by
  have hspec : keptAccord.wp (op.body deps) (spendPost deps op) c := by
    have hfree : keptAccord.wp (op.body deps) (fun _ _ => True) c :=
      Accord.wp_of_only (Txn.Only.of_forall kept_allows _) c
    cases op with
    | login dto family jti bytes =>
      refine Txn.wp_mono (fun r c' _ => ?_) hfree
      cases r with
      | ok a => exact fun h hp => absurd hp (by simp [Op.presents])
      | error e => trivial
    | refresh raw jti bytes =>
      refine wp_bind (Txn.wp_mono (fun r c' hr => ?_) refresh_spec)
      cases r with
      | ok a =>
        intro h hp
        obtain ⟨raw', _, _, he, rfl⟩ := exists_of_presents hp
        obtain ⟨rfl, -⟩ := Op.refresh.inj he
        exact hr
      | error e => trivial
    | logout raw =>
      refine Txn.wp_mono (fun r c' _ => ?_) hfree
      cases r with
      | ok a => exact fun h hp => absurd hp (by simp [Op.presents])
      | error e => trivial
  refine Txn.wp_mono (fun r c' hr => ?_) hspec
  cases r with
  | ok a => exact fun w hw h hp => (hr h hp).kept hw.2
  | error e => exact fun _ _ => trivial

theorem spending_env (sys : Sys deps) (ms : Time) (hv : sys.world.Valid) :
    keptAccord.keeps sys.world (tokenStore.env sys.world ms) :=
  ⟨⟨hv.token_id, hv.token_hash⟩, Kept.tick _ ms⟩

theorem spending_sound {C : Sys deps → Label (authService deps) → Prop} {J : Sys deps → Prop} :
    (spending deps).Sound C J :=
  Accord.sound (fun sys _ op _ _ _ => spending_start op (Ctx.start sys.world))
    fun sys ms _ hv => spending_env sys ms hv

/-- A lookup of a token that is not live: the call fails. -/
theorem lookup_dead {sys sys' : Sys deps} {t : Nat} {x : TokenId} {ses : Session (authService deps)}
    {h : TokenHash} (hu : Txn.Unstarted sys) (ht : sys.sessions t = some ses)
    (hp : ses.op.presents deps h = true) (hnil : ses.trace = []) (hdead : ¬ Live h sys.world)
    (hs : sys.step (.exec t x) = some sys') : Accord.Bound keptAccord Fails sys' t := by
  intro ses' ht'
  rcases Discipline.session_of_step hs ht' with ⟨op, hl, -⟩ |
    ⟨x', ses₀, s, k, r, c', -, ht₀, hprog, hr, -, -, hprog', hctx⟩ | ⟨hne, -⟩
  · exact absurd hl (by simp)
  · obtain rfl := Option.some.inj (ht.symm.trans ht₀)
    obtain ⟨raw, jti, bytes, hop, rfl⟩ := exists_of_presents hp
    have hbody : ses.prog = Op.body deps (.refresh raw jti bytes) := hop ▸ hu t ses ht hnil
    obtain ⟨rfl, hk⟩ := Prog.stmt.inj (hprog.symm.trans hbody)
    obtain rfl := eq_of_heq hk
    obtain ⟨hw, ⟨v, ws, hexec, rfl⟩ | ⟨e, hexec, -⟩⟩ := Accord.run_cases hr
    · obtain ⟨rfl, -⟩ := Prod.mk.inj (Except.ok.inj (Option.some.inj hexec))
      rw [hctx, hprog']
      have hw' : c'.world = sys.world := hw
      refine wp_bind (Txn.wp_mono (fun r c'' hr' => ?_) (spend_fails (fun _ _ hk => hk.2)
        (kept_allows _) (fun _ _ => kept_allows _) fun stored hst => ?_))
      · obtain ⟨e, rfl⟩ := hr'
        exact ⟨e, rfl⟩
      · exact hw' ▸ stored?_dead hdead hst
    · exact absurd (Option.some.inj hexec) (by simp)
  · exact absurd rfl hne

/-! ## 5. Only one call can succeed -/

/-- Of the calls that have looked a token up at most one can succeed, and none after one has. -/
structure Exclusive (sys : Sys deps) : Prop where
  unstarted : Txn.Unstarted sys
  once : ∀ h, (answers sys).countP (spends deps h) ≤ 1
  spent : ∀ h, ∀ e ∈ answers sys, spends deps h e = true → Spent h sys.world
  pair : ∀ h t ses t' ses', t ≠ t' → sys.sessions t = some ses → sys.sessions t' = some ses' →
    ses.op.presents deps h = true → ses'.op.presents deps h = true → ses.trace ≠ [] →
      ses'.trace ≠ [] → Accord.Bound keptAccord Fails sys t ∨ Accord.Bound keptAccord Fails sys t'
  after : ∀ h, ∀ e ∈ answers sys, spends deps h e = true → ∀ t ses, sys.sessions t = some ses →
    ses.op.presents deps h = true → ses.trace ≠ [] → Accord.Bound keptAccord Fails sys t

/-- What a step adds to the answers. -/
theorem finished_of_step {sys sys' : Sys deps} {l : Label (authService deps)}
    (hs : sys.step l = some sys') :
    (∃ t ses a, l = .commit t ∧ sys.sessions t = some ses ∧ ses.prog = .pure a ∧
      answers sys' = (t, ses.op, .ok a) :: answers sys) ∨
    (∃ e, (∀ h, spends deps h e = false) ∧ answers sys' = e :: answers sys) ∨
      answers sys' = answers sys := by
  cases l with
  | begin t op =>
    obtain ⟨-, rfl⟩ := Discipline.begin_cases hs
    exact Or.inr (Or.inr rfl)
  | exec t x =>
    obtain ⟨ses, s, k, r, c', -, -, -, -, ses', -, -, -, -, rfl, -⟩ := Discipline.stepExec_cases hs
    exact Or.inr (Or.inr rfl)
  | commit t =>
    obtain ⟨ses, a, ht, hp, rfl⟩ := Discipline.commit_cases hs
    exact Or.inl ⟨t, ses, a, rfl, ht, hp, rfl⟩
  | rollback t =>
    obtain ⟨ses, e, -, -, rfl⟩ := Discipline.rollback_cases hs
    exact Or.inr (Or.inl ⟨_, fun h => by simp [spends, Except.isOk, Except.toBool], rfl⟩)
  | crash t =>
    rw [Discipline.crash_cases hs]
    exact Or.inr (Or.inr rfl)
  | env e =>
    rw [Discipline.env_cases hs]
    exact Or.inr (Or.inr rfl)

section Step

variable {sys sys' : Sys deps} {l : Label (authService deps)} {h : TokenHash}

theorem bound_of_throw {t : Nat} {ses : Session (authService deps)} {e : Failure}
    (ht : sys.sessions t = some ses) (hp : ses.prog = .throw e) :
    Accord.Bound keptAccord Fails sys t := by
  intro ses' ht'
  obtain rfl := Option.some.inj (ht.symm.trans ht')
  rw [hp]
  exact ⟨e, rfl⟩

/-- A session that is bound to fail stays so. -/
theorem bound_step (hG : (spending deps).Good sys) (hs : sys.step l = some sys') {t : Nat}
    {ses : Session (authService deps)} (ht : sys.sessions t = some ses)
    (hb : Accord.Bound keptAccord Fails sys t) : Accord.Bound keptAccord Fails sys' t := by
  refine hb.step hG.inv (Accord.keeps_step hG (fun e _ => spending_env sys e hG.inv) hs) ?_ hs
  rintro op rfl
  exact absurd (ht.symm.trans (Discipline.begin_cases hs).1) (by simp)

/-- A session past its lookup was so before, or it looks the token up now; it then finds it live,
or is bound to fail. -/
theorem looked_of_step (hu : Txn.Unstarted sys) (hs : sys.step l = some sys') {t : Nat}
    {ses' : Session (authService deps)} (ht' : sys'.sessions t = some ses')
    (hp : ses'.op.presents deps h = true) (hne : ses'.trace ≠ []) :
    ∃ ses, sys.sessions t = some ses ∧ ses.op.presents deps h = true ∧
      (ses.trace ≠ [] ∨
        ses.trace = [] ∧ (∃ x, l = .exec t x) ∧
          (Live h sys.world ∨ Accord.Bound keptAccord Fails sys' t)) := by
  obtain ⟨ses, ht, hop, hne | ⟨hnil, x, rfl⟩⟩ := Txn.started_of_step hs ht' hne
  · exact ⟨ses, ht, hop ▸ hp, Or.inl hne⟩
  · refine ⟨ses, ht, hop ▸ hp, Or.inr ⟨hnil, ⟨x, rfl⟩, ?_⟩⟩
    by_cases hlive : Live h sys.world
    · exact Or.inl hlive
    · exact Or.inr (lookup_dead hu ht (hop ▸ hp) hnil hlive hs)

theorem Exclusive.pair_step (hJ : Exclusive sys) (hC : SingleFlight sys l)
    (hG : (spending deps).Good sys) (hs : sys.step l = some sys') {t t' : Nat}
    {ses ses' : Session (authService deps)} (hne : t ≠ t') (ht : sys'.sessions t = some ses)
    (ht' : sys'.sessions t' = some ses') (hp : ses.op.presents deps h = true)
    (hp' : ses'.op.presents deps h = true) (htr : ses.trace ≠ []) (htr' : ses'.trace ≠ []) :
    Accord.Bound keptAccord Fails sys' t ∨ Accord.Bound keptAccord Fails sys' t' := by
  obtain ⟨a, ha, hpa, hold | ⟨hnil, ⟨x, rfl⟩, hnew⟩⟩ := looked_of_step hJ.unstarted hs ht hp htr
  · obtain ⟨b, hb, hpb, hold' | ⟨hnil', ⟨x', rfl⟩, hnew'⟩⟩ :=
      looked_of_step hJ.unstarted hs ht' hp' htr'
    · exact (hJ.pair h t a t' b hne ha hb hpa hpb hold hold').imp (bound_step hG hs ha)
        (bound_step hG hs hb)
    · rcases hnew' with hlive | hdead
      · obtain ⟨e, he⟩ := hC t' x' b h rfl hb hpb hnil' hlive t a hne ha hpa hold
        exact Or.inl (bound_step hG hs ha (bound_of_throw ha he))
      · exact Or.inr hdead
  · rcases hnew with hlive | hdead
    · obtain ⟨b, hb, hpb, hold' | ⟨-, ⟨x', hx'⟩, -⟩⟩ :=
        looked_of_step hJ.unstarted hs ht' hp' htr'
      · obtain ⟨e, he⟩ := hC t x a h rfl ha hpa hnil hlive t' b hne.symm hb hpb hold'
        exact Or.inr (bound_step hG hs hb (bound_of_throw hb he))
      · exact absurd (Label.exec.inj hx').1 hne
    · exact Or.inl hdead

/-- A session that is done has run something. -/
theorem started_of_done (hu : Txn.Unstarted sys) {t : Nat} {ses : Session (authService deps)}
    {a : Out} (ht : sys.sessions t = some ses) (hp : ses.prog = .pure a) : ses.trace ≠ [] := by
  intro hnil
  have hbody := hu t ses ht hnil
  rw [hp] at hbody
  cases hop : ses.op with
  | login dto family jti bytes => rw [hop] at hbody; exact absurd hbody (by rintro ⟨⟩)
  | refresh raw jti bytes => rw [hop] at hbody; exact absurd hbody (by rintro ⟨⟩)
  | logout raw => rw [hop] at hbody; exact absurd hbody (by rintro ⟨⟩)

theorem not_fails_done {t : Nat} {ses : Session (authService deps)} {a : Out}
    (ht : sys.sessions t = some ses) (hp : ses.prog = .pure a) :
    ¬ Accord.Bound keptAccord Fails sys t := by
  intro hb
  obtain ⟨e, he⟩ := hb.done ht hp
  exact absurd he (by simp)

/-- A step does not let a second call succeed. -/
theorem Exclusive.once_step (hJ : Exclusive sys) (hs : sys.step l = some sys') :
    (answers sys').countP (spends deps h) ≤ 1 := by
  rcases finished_of_step hs with ⟨t, ses, a, rfl, ht, hp, hfin⟩ | ⟨e, he, hfin⟩ | hfin
  · rw [hfin, List.countP_cons]
    split
    · rename_i hspend
      have hpres : ses.op.presents deps h = true := (Bool.and_eq_true_iff.mp hspend).1
      have hzero : (answers sys).countP (spends deps h) = 0 := by
        refine List.countP_eq_zero.mpr fun e he hse => not_fails_done ht hp ?_
        exact hJ.after h e he hse t ses ht hpres (started_of_done hJ.unstarted ht hp)
      omega
    · exact hJ.once h
  · rw [hfin, List.countP_cons, he h]
    exact hJ.once h
  · rw [hfin]
    exact hJ.once h

theorem Exclusive.spent_step (hJ : Exclusive sys) (hG : (spending deps).Good sys)
    (hs : sys.step l = some sys') {e : Nat × Op × Except Failure Out} (he : e ∈ answers sys')
    (hse : spends deps h e = true) : Spent h sys'.world := by
  have hk := Accord.keeps_step hG (fun e _ => spending_env sys e hG.inv) hs
  rcases finished_of_step hs with ⟨t, ses, a, rfl, ht, hp, hfin⟩ | ⟨e', he', hfin⟩ | hfin
  · rcases List.mem_cons.mp (hfin ▸ he) with rfl | he
    · have hpost : spendPost deps ses.op (.ok a) (sys.ctx t ses) := hG.post ht hp
      exact (hpost h (Bool.and_eq_true_iff.mp hse).1).kept hk.2
    · exact (hJ.spent h e he hse).kept hk.2
  · rcases List.mem_cons.mp (hfin ▸ he) with rfl | he
    · rw [he'] at hse
      exact absurd hse (by simp)
    · exact (hJ.spent h e he hse).kept hk.2
  · exact (hJ.spent h e (hfin ▸ he) hse).kept hk.2

theorem Exclusive.after_step (hJ : Exclusive sys) (hG : (spending deps).Good sys)
    (hs : sys.step l = some sys') {e : Nat × Op × Except Failure Out} (he : e ∈ answers sys')
    (hse : spends deps h e = true) {t : Nat} {ses' : Session (authService deps)}
    (ht' : sys'.sessions t = some ses') (hp : ses'.op.presents deps h = true)
    (htr : ses'.trace ≠ []) : Accord.Bound keptAccord Fails sys' t := by
  obtain ⟨ses, ht, hps, hlook⟩ := looked_of_step hJ.unstarted hs ht' hp htr
  -- once the token is spent nobody finds it live
  have hold : e ∈ answers sys → Accord.Bound keptAccord Fails sys' t := by
    intro he
    rcases hlook with hold | ⟨-, -, hlive | hdead⟩
    · exact bound_step hG hs ht (hJ.after h e he hse t ses ht hps hold)
    · exact absurd hlive ((hJ.spent h e he hse).not_live hG.inv)
    · exact hdead
  rcases finished_of_step hs with ⟨t₀, ses₀, a, rfl, ht₀, hp₀, hfin⟩ | ⟨e', he', hfin⟩ | hfin
  · rcases List.mem_cons.mp (hfin ▸ he) with rfl | he
    · have hne : t₀ ≠ t := by
        rintro rfl
        obtain ⟨_, _, -, -, rfl⟩ := Discipline.commit_cases hs
        exact absurd ht' (by simp [Txn.Sys.close])
      rcases hlook with hold | ⟨-, ⟨x, hx⟩, -⟩
      · have hpres : ses₀.op.presents deps h = true := (Bool.and_eq_true_iff.mp hse).1
        rcases hJ.pair h t₀ ses₀ t ses hne ht₀ ht hpres hps
          (started_of_done hJ.unstarted ht₀ hp₀) hold with hb | hb
        · exact absurd hb (not_fails_done ht₀ hp₀)
        · exact bound_step hG hs ht hb
      · exact absurd hx (by simp)
    · exact hold he
  · rcases List.mem_cons.mp (hfin ▸ he) with rfl | he
    · rw [he'] at hse
      exact absurd hse (by simp)
    · exact hold he
  · exact hold (hfin ▸ he)

/-- **Every step keeps the calls exclusive.** -/
theorem Exclusive.step (hJ : Exclusive sys) (hC : SingleFlight sys l)
    (hG : (spending deps).Good sys) (hs : sys.step l = some sys') : Exclusive sys' where
  unstarted := hJ.unstarted.step hs
  once _ := hJ.once_step hs
  spent _ _ he hse := hJ.spent_step hG hs he hse
  pair _ _ _ _ _ hne ht ht' hp hp' htr htr' := hJ.pair_step hC hG hs hne ht ht' hp hp' htr htr'
  after _ _ he hse _ _ ht hp htr := hJ.after_step hG hs he hse ht hp htr

end Step

theorem exclusive_init (w : World) : Exclusive (Txn.Sys.init w : Sys deps) := by
  have hnone : ∀ t ses, (Txn.Sys.init w : Sys deps).sessions t = some ses → False := by
    rintro t ses ⟨⟩
  constructor
  · exact fun t ses ht => absurd ht (hnone t ses)
  · exact fun h => Nat.zero_le 1
  · exact fun h e he => absurd he List.not_mem_nil
  · exact fun h t ses _ _ _ ht => absurd ht (hnone t ses)
  · exact fun h e he => absurd he List.not_mem_nil

/-- **Each stored token is spent at most once**, in every run in single flight. -/
theorem refresh_spends_once (deps : Deps) {w : World} (hv : w.Valid) {sys : Sys deps}
    (hr : Txn.Sys.Reach SingleFlight (Txn.Sys.init w) sys) (h : TokenHash) :
    (answers sys).countP (spends deps h) ≤ 1 := by
  have hgood : (spending deps).Good (Txn.Sys.init w) := Discipline.good_init hv
  exact (Discipline.Reach.good spending_sound (fun sys l sys' hC hJ hG hs => hJ.step hC hG hs) hr
    hgood (exclusive_init w)).2.once h

namespace Campus

/-- Stand-ins for the code outside. -/
def stubs : Deps := ⟨fun raw => raw + 1000, fun a b => a == b, fun _ _ _ => "jwt", 604800000⟩

/-- User 1 is logged in with the raw token 1. -/
def world : World where
  users := [⟨1, "ada@campus", "hash", [.STUDENT]⟩]
  refreshTokens := [⟨0, 1, 1001, 5, 0, 500, none, none⟩]
  now := 10

theorem world_valid : world.Valid := ⟨by decide, by decide⟩

/-- The next `n` statements of session `t`; a uuid it draws is `x`. -/
def execs (t n : Nat) (x : TokenId) : List (Label (authService stubs)) :=
  List.replicate n (.exec t x)

/-- Two calls look the token up, and then both go on. -/
def twins : List (Label (authService stubs)) :=
  [.begin 0 (.refresh 1 0 2), .begin 1 (.refresh 1 1 3), .exec 0 10, .exec 1 11] ++
    execs 0 6 10 ++ execs 1 6 11 ++ [.commit 0, .commit 1]

set_option maxRecDepth 4000 in
theorem twins_run : (Txn.Sys.run (Txn.Sys.init world) twins).isSome = true := by decide

def afterTwins : Sys stubs := (Txn.Sys.run (Txn.Sys.init world) twins).get twins_run

set_option maxRecDepth 4000 in
/-- **Two calls spend one token.** -/
theorem token_spent_twice :
    ¬ ∀ (deps : Deps) (w : World), w.Valid → ∀ sys : Sys deps,
      Txn.Sys.Reach (fun _ _ => True) (Txn.Sys.init w) sys → ∀ h,
        (answers sys).countP (spends deps h) ≤ 1 := by
  intro h
  have honce := h stubs world world_valid afterTwins
    (.of_run .refl (fun _ _ _ => trivial) (Option.some_get twins_run).symm) 1001
  have htwo : (answers afterTwins).countP (spends stubs 1001) = 2 := by decide
  omega

/-- The token is spent, and then replayed. -/
def replay : List (Label (authService stubs)) :=
  .begin 0 (.refresh 1 0 2) :: execs 0 7 10 ++
    (.commit 0 :: .begin 0 (.refresh 1 1 3) :: execs 0 3 11 ++ [.rollback 0])

set_option maxRecDepth 4000 in
theorem replay_runs : (Txn.Sys.run (Txn.Sys.init world) replay).isSome = true := by decide

def afterReplay : Sys stubs := (Txn.Sys.run (Txn.Sys.init world) replay).get replay_runs

theorem replay_session : ∀ l ∈ replay, l.session = some 0 := by
  intro l hl
  simp only [replay, execs, List.cons_append, List.mem_cons, List.mem_append,
    List.mem_replicate, List.not_mem_nil, or_false] at hl
  rcases hl with rfl | ⟨-, rfl⟩ | rfl | rfl | ⟨-, rfl⟩ | rfl <;> rfl

/-- One session alone is in single flight. -/
theorem replay_singleFlight : Txn.Sys.Reach SingleFlight (Txn.Sys.init world) afterReplay := by
  have hreach : Txn.Sys.Reach (fun _ l => l.session = some 0) (Txn.Sys.init world) afterReplay :=
    .of_run .refl (fun l hl _ => replay_session l hl) (Option.some_get replay_runs).symm
  refine (hreach.mono_inv (J := fun sys => ∀ t, t ≠ 0 → sys.sessions t = none) ?_ ?_ ?_).1
  · intro sys l sys' hl hJ hs t ht
    rw [Discipline.sessions_of_ne hs (fun he => ht (Option.some.inj (hl.symm.trans he)).symm)]
    exact hJ t ht
  · intro sys l hl hJ t x ses h he _ _ _ _ t' ses' hne ht'
    have ht : t = 0 := by
      rw [he] at hl
      exact Option.some.inj hl
    exact absurd ((hJ t' (ht ▸ hne)).symm.trans ht') (by simp)
  · exact fun _ _ => rfl

set_option maxRecDepth 4000 in
theorem refresh_spends_once_replay :
    (answers afterReplay).map (fun e => e.2.2.isOk) = [false, true] ∧
      (answers afterReplay).countP (spends stubs 1001) ≤ 1 :=
  ⟨by decide, refresh_spends_once stubs world_valid replay_singleFlight 1001⟩

end Campus

end Enroll.Auth
