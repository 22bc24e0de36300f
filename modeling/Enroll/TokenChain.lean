/-
# The tokens of a family form a chain

Here every call runs to its end before the next one begins.  A rotation then appends the successor,
finds it and links the old token to it in one go, and what is stored of each family is a chain
(`FamilyChain`): every token but the last is revoked and points to the next one, and only the last
can be alive.

The purge deletes by expiry and not by position.  It cuts no link, because all tokens live equally
long: the tokens expire in the order of their creation, so of each family it deletes a front part
(`filter_suffix`), and no token that stays points to one that goes.
-/
import Mathlib.Data.List.Chain
import Enroll.TokenRotation
import Enroll.Txn.Solo

namespace Enroll.Auth

open Txn (Prog)

/-! ## 1. Calls one after another -/

def REFRESH_TOKEN_RETENTION_DAYS : Nat := 7

/-- `daysAgo(REFRESH_TOKEN_RETENTION_DAYS)` at the time `now`.  No token expired before the epoch. -/
def tokenCutoff (now : Time) : Time := now - REFRESH_TOKEN_RETENTION_DAYS * 24 * 60 * 60 * 1000

/-- `RetentionWorker.purgeRefreshTokens`: how many rows it deletes, and what it leaves. -/
def World.purgeRefreshTokens (w : World) : Nat × World :=
  let cutoff := tokenCutoff w.now
  (w.refreshTokens.countP (fun r => r.expiresAt < cutoff),
    { w with refreshTokens := w.refreshTokens.filter (fun r => !decide (r.expiresAt < cutoff)) })

/-- What happens at one instant. -/
inductive Event where
  /-- `id` is the uuid of the row that the call creates, if it creates one. -/
  | call (op : Op) (id : TokenId)
  | purgeRefreshTokens
  | tick (ms : Time)
  deriving DecidableEq, Repr

/-- No stored token is of the family that a login draws. -/
def Event.fresh (w : World) : Event → Bool
  | call (.login _ family _ _) _ => w.refreshTokens.all (fun r => r.family != family)
  | _ => true

variable (deps : Deps)

/-- A call from its begin to its end; `x` is the uuid of the row that it creates. -/
def Op.run (op : Op) (x : TokenId) (w : World) : Option (Except Failure Out × World) :=
  (op.body deps).solo x w

/-- The world after the event; `none` if the event draws the uuid of a stored row. -/
def Event.next (w : World) : Event → Option World
  | call op id => (op.run deps id w).map Prod.snd
  | purgeRefreshTokens => some w.purgeRefreshTokens.2
  | tick ms => some { w with now := w.now + ms }

/-- A run of events whose logins draw fresh families. -/
def World.after (w : World) : List Event → Option World
  | [] => some w
  | e :: es => if e.fresh w then (e.next deps w).bind (fun w' => w'.after es) else none

/-! ## 2. The chain -/

/-- The stored tokens of the family, in creation order. -/
def World.tokensOf (w : World) (f : Family) : List RefreshToken :=
  w.refreshTokens.filter (fun r => r.family == f)

/-- `r'` is the token that `r` was rotated into. -/
structure Replaces (r r' : RefreshToken) : Prop where
  revoked : r.revoked = true
  link : r.replacedById = some r'.id

structure FamilyChain (w : World) (f : Family) : Prop where
  /-- The list is in creation order. -/
  ordered : (w.tokensOf f).Pairwise (fun r r' => r.createdAt ≤ r'.createdAt)
  /-- Every token but the last is revoked, and its `replacedById` is the id of the next. -/
  chain : (w.tokensOf f).IsChain Replaces
  /-- The last token was not replaced. -/
  last : ∀ r ∈ (w.tokensOf f).getLast?, r.replacedById = none
  /-- No `replacedById` points to a purged row. -/
  stored : ∀ r ∈ w.tokensOf f, ∀ id, r.replacedById = some id → ∃ r' ∈ w.tokensOf f, r'.id = id
  /-- Only the last token can be unrevoked. -/
  alive : ∀ r ∈ w.tokensOf f, r.revoked = false → (w.tokensOf f).getLast? = some r

/-- Ids are distinct, tokens were created in order and expire `refreshExpiryMs` later, and those of
a family are linked. -/
structure Linked (w : World) : Prop where
  valid : w.Valid
  past : ∀ r ∈ w.refreshTokens, r.createdAt ≤ w.now ∧ r.expiresAt = r.createdAt + deps.refreshExpiryMs
  ordered : w.refreshTokens.Pairwise (fun r r' => r.createdAt ≤ r'.createdAt)
  chain : ∀ f, (w.tokensOf f).IsChain Replaces

/-- The last token of a family was not replaced. -/
structure Chained (w : World) : Prop extends Linked deps w where
  last : ∀ f, ∀ r ∈ (w.tokensOf f).getLast?, r.replacedById = none

variable {deps}

/-! ## 3. Lists in which everybody but the last has a successor -/

section Lists

variable {α : Type} {R : α → α → Prop} {l : List α} {a : α}

theorem isChain_next (h : l.IsChain R) (ha : a ∈ l) : l.getLast? = some a ∨ ∃ b ∈ l, R a b := by
  induction l with
  | nil => simp at ha
  | cons c l ih =>
    cases l with
    | nil => exact Or.inl (congrArg some (List.mem_singleton.mp ha).symm)
    | cons d l =>
      obtain ⟨hcd, hl⟩ := List.isChain_cons_cons.mp h
      rcases List.mem_cons.mp ha with rfl | ha
      · exact Or.inr ⟨d, by simp, hcd⟩
      · rcases ih hl ha with hlast | ⟨b, hb, hab⟩
        · exact Or.inl (by rwa [List.getLast?_cons_cons])
        · exact Or.inr ⟨b, List.mem_cons_of_mem _ hb, hab⟩

/-- A property that later elements inherit holds of a back part. -/
theorem filter_suffix {p : α → Bool} (h : l.Pairwise (fun a b => p a = true → p b = true)) :
    l.filter p <:+ l := by
  induction l with
  | nil => exact List.suffix_rfl
  | cons c l ih =>
    obtain ⟨hc, hl⟩ := List.pairwise_cons.mp h
    by_cases hp : p c = true
    · have hall : (c :: l).filter p = c :: l :=
        List.filter_eq_self.mpr (List.forall_mem_cons.mpr ⟨hp, fun b hb => hc b hb hp⟩)
      exact ⟨[], by rw [List.nil_append, hall]⟩
    · rw [List.filter_cons_of_neg hp]
      exact (ih hl).trans (List.suffix_cons c l)

theorem getLast?_suffix {l' : List α} (h : l' <:+ l) (ha : l'.getLast? = some a) :
    l.getLast? = some a := by
  obtain ⟨s, rfl⟩ := h
  simp [List.getLast?_append, ha]

end Lists

theorem Linked.alive {w : World} {f : Family} {r : RefreshToken} (h : Linked deps w)
    (hr : r ∈ w.tokensOf f) (halive : r.revoked = false) : (w.tokensOf f).getLast? = some r := by
  rcases isChain_next (h.chain f) hr with hlast | ⟨r', -, hnext⟩
  · exact hlast
  · exact absurd (hnext.revoked.symm.trans halive) (by simp)

theorem Chained.familyChain {w : World} (h : Chained deps w) (f : Family) : FamilyChain w f where
  ordered := h.ordered.filter _
  chain := h.chain f
  last := h.last f
  stored r hr id hid := by
    rcases isChain_next (h.chain f) hr with hlast | ⟨r', hr', hnext⟩
    · rw [h.last f r hlast] at hid
      exact absurd hid (by simp)
    · exact ⟨r', hr', Option.some.inj (hnext.link.symm.trans hid)⟩
  alive r hr halive := h.alive hr halive

/-! ## 4. What a call does -/

section Calls

variable {w w' : World} {x : TokenId}

/-- The table after `revokeFamily` or `logout`. -/
def World.revoke (w : World) (q : RefreshTokenWhere) : World :=
  { w with refreshTokens := w.refreshTokens.map (q.revoke w.now) }

/-- The table after `generateTokenPair`. -/
def World.append (w : World) (r : RefreshToken) : World :=
  { w with refreshTokens := w.refreshTokens ++ [r] }

/-- The table after a rotation of `r` into `r'`. -/
def World.replace (w : World) (r r' : RefreshToken) : World :=
  let data : RefreshTokenData := ⟨w.now, some r'.id⟩
  { w with refreshTokens :=
      Keyed.update RefreshToken.id r.id data.patch (w.refreshTokens ++ [r']) }

/-- The row that `generateTokenPair` creates. -/
def newToken (deps : Deps) (w : World) (userId : UserId) (family : Family) (bytes : RawToken)
    (x : TokenId) : RefreshToken :=
  RefreshTokenCreate.row ⟨userId, hashToken deps bytes, family, w.now + deps.refreshExpiryMs⟩ x w.now

/-- What a call may do to the table. -/
inductive Wrote (deps : Deps) (x : TokenId) (w : World) : Op → World → Prop
  /-- It failed at a check, or at a constraint. -/
  | nothing (op : Op) : Wrote deps x w op w
  /-- A login. -/
  | created {dto : LoginDto} {family : Family} {jti : Nat} {bytes : RawToken} (userId : UserId) :
      w.hasToken x = false → w.token? (hashToken deps bytes) = none →
      Wrote deps x w (.login dto family jti bytes) (w.append (newToken deps w userId family bytes x))
  /-- A rotation. -/
  | rotated {raw bytes : RawToken} {jti : Nat} {r : RefreshToken} (userId : UserId) :
      r ∈ w.refreshTokens → r.revoked = false →
      w.hasToken x = false → w.token? (hashToken deps bytes) = none →
      Wrote deps x w (.refresh raw jti bytes)
        (w.replace r (newToken deps w userId r.family bytes x))
  /-- A logout, or a replay. -/
  | revoked (op : Op) (q : RefreshTokenWhere) : Wrote deps x w op (w.revoke q)

theorem solo_stmt {s : Stmt} {a : s.Res} (h : s.exec x w = some (.ok (a, []))) :
    (Prog.lift (E := tokenStore) s).solo x w = some (.ok a, s.effect x w) := by
  have hexec : tokenStore.exec s x w = some (.ok (a, [])) := h
  exact Prog.solo_lift_ok hexec

/-- A `create` that is accepted draws a new uuid, and a new hash. -/
theorem create_exec {d : RefreshTokenCreate} {a : Unit} {ws : List Empty}
    (h : Stmt.exec (.refreshTokenCreate d) x w = some (.ok (a, ws))) :
    w.hasToken x = false ∧ w.refuses d = none := by
  unfold Stmt.exec at h
  cases hx : w.hasToken x with
  | true => simp [hx] at h
  | false =>
    cases hd : w.refuses d with
    | some e => simp [hx, hd] at h
    | none => exact ⟨rfl, rfl⟩

theorem create_solo {d : RefreshTokenCreate} {r : Except Failure Unit}
    (h : (Call.refreshTokenCreate d).solo x w = some (r, w')) :
    (∃ e, r = .error e ∧ w' = w) ∨
      (w.hasToken x = false ∧ w.refuses d = none ∧ r = .ok () ∧ w' = w.append (d.row x w.now)) := by
  obtain ⟨e, hexec, rfl, rfl⟩ | ⟨a, ws, hexec, rfl, rfl⟩ := Prog.solo_lift_inv h
  · refine Or.inl ⟨e, rfl, ?_⟩
    cases hd : w.refuses d with
    | some e' => simp only [Stmt.effect, hd]
    | none =>
      exfalso
      by_cases hx : w.hasToken x = true <;> simp [Stmt.exec, hx, hd] at hexec
  · obtain ⟨hx, hd⟩ := create_exec hexec
    refine Or.inr ⟨hx, hd, rfl, ?_⟩
    have hws : ws.foldl tokenStore.apply w = w := by
      cases ws with
      | nil => rfl
      | cons e _ => exact e.elim
    rw [hws]
    simp only [Stmt.effect, hd]
    rfl

theorem generateTokenPair_solo {userId : UserId} {roles : List Role} {family : Family} {jti : Nat}
    {bytes : RawToken} {r : Except Failure TokenPair}
    (h : (generateTokenPair deps userId roles family jti bytes).solo x w = some (r, w')) :
    (∃ e, r = .error e ∧ w' = w) ∨
      (w.hasToken x = false ∧ w.token? (hashToken deps bytes) = none ∧
        w' = w.append (newToken deps w userId family bytes x) ∧
        ∃ accessToken, r = .ok ⟨accessToken, bytes⟩) := by
  have h' : (do
      Call.refreshTokenCreate ⟨userId, hashToken deps bytes, family, w.now + deps.refreshExpiryMs⟩
      pure ⟨deps.signAsync userId roles jti, bytes⟩ : Call TokenPair).solo x w = some (r, w') := h
  obtain ⟨e, hc, rfl⟩ | ⟨u, w₁, hc, hp⟩ := Prog.solo_bind_inv h'
  · obtain ⟨e', -, rfl⟩ | ⟨-, -, hno, -⟩ := create_solo hc
    · exact Or.inl ⟨e, rfl, rfl⟩
    · exact absurd hno (by simp)
  · obtain ⟨rfl, rfl⟩ := Prod.mk.inj (Option.some.inj hp)
    obtain ⟨e', hno, -⟩ | ⟨hx, hd, -, rfl⟩ := create_solo hc
    · exact absurd hno (by simp)
    · exact Or.inr ⟨hx, refuses_none hd, rfl, _, rfl⟩

theorem login_solo {dto : LoginDto} {family : Family} {jti : Nat} {bytes : RawToken}
    {r : Except Failure TokenPair} (h : (login deps dto family jti bytes).solo x w = some (r, w')) :
    w' = w ∨ ∃ userId, w.hasToken x = false ∧ w.token? (hashToken deps bytes) = none ∧
      w' = w.append (newToken deps w userId family bytes x) := by
  -- the lookup does nothing to the table
  have hrun : ∃ found : Option Account, (do
      let user ← Prog.orThrow found (unauthorized "Invalid credentials")
      generateTokenPair deps user.id user.roles family jti bytes : Call TokenPair).solo x w
        = some (r, w') := ⟨_, h⟩
  obtain ⟨found, hrun⟩ := hrun
  obtain ⟨e, hthrow, -⟩ | ⟨account, w₁, hthrow, hgen⟩ := Prog.solo_bind_inv hrun
  · exact Or.inl (Prog.solo_orThrow_inv hthrow).1
  · obtain rfl : w₁ = w := (Prog.solo_orThrow_inv hthrow).1
    obtain ⟨e, -, rfl⟩ | ⟨hx, hnew, rfl, -⟩ := generateTokenPair_solo hgen
    · exact Or.inl rfl
    · exact Or.inr ⟨account.id, hx, hnew, rfl⟩

/-- The token just appended is what its hash looks up. -/
theorem token?_append {r : RefreshToken} (hr : w.token? r.tokenHash = none) :
    (w.append r).token? r.tokenHash = some r := by
  have hself : Keyed.lookup RefreshToken.tokenHash r.tokenHash [r] = some r := by
    simp [Keyed.lookup]
  calc (w.append r).token? r.tokenHash
      = (w.token? r.tokenHash).or (Keyed.lookup RefreshToken.tokenHash r.tokenHash [r]) :=
        Keyed.lookup_append ..
    _ = some r := by rw [hr, hself, Option.none_or]

/-- What `rotate` does to the table, whatever it answers. -/
theorem rotate_solo {stored : StoredToken} {jti : Nat} {bytes : RawToken}
    {r : Except Failure TokenPair} (hmem : stored.row ∈ w.refreshTokens)
    (h : (rotate deps stored jti bytes).solo x w = some (r, w')) :
    w' = w ∨ (w.hasToken x = false ∧ w.token? (hashToken deps bytes) = none ∧
      w' = w.replace stored.row
        (newToken deps w stored.user.id stored.row.family bytes x)) := by
  have hrun : (do
      Prog.throwIf (stored.row.expiresAt < w.now) (unauthorized "Refresh token expired")
      let newPair ← generateTokenPair deps stored.user.id stored.user.roles stored.row.family jti bytes
      let replacement ← Call.refreshTokenFindUnique (hashToken deps newPair.refreshToken)
      let now ← Call.now
      Call.refreshTokenUpdate stored.row.id ⟨now, replacement.map (fun r => r.row.id)⟩
      pure newPair : Call TokenPair).solo x w = some (r, w') := h
  obtain ⟨e, hthrow, -⟩ | ⟨u, w₁, hthrow, hrest⟩ := Prog.solo_bind_inv hrun
  · exact Or.inl (Prog.solo_throwIf_inv hthrow).1
  obtain rfl : w₁ = w := (Prog.solo_throwIf_inv hthrow).1
  obtain ⟨e, hgen, -⟩ | ⟨pair, w₂, hgen, hrest⟩ := Prog.solo_bind_inv hrest
  · obtain ⟨e', -, rfl⟩ | ⟨-, -, -, _, hno⟩ := generateTokenPair_solo hgen
    · exact Or.inl rfl
    · exact absurd hno (by simp)
  obtain ⟨e', hno, -⟩ | ⟨hx, hnew, rfl, accessToken, hpair⟩ := generateTokenPair_solo hgen
  · exact absurd hno (by simp)
  obtain rfl := Except.ok.inj hpair
  refine Or.inr ⟨hx, hnew, ?_⟩
  -- the pair is out: the lookup finds its row, and the update links to it
  let new := newToken deps w₁ stored.user.id stored.row.family bytes x
  have hfound : ((w₁.append new).stored? (hashToken deps bytes)).map (fun s => s.row.id)
      = some new.id := by
    have hlook : (w₁.append new).token? (hashToken deps bytes) = some new := token?_append hnew
    simp [World.stored?, hlook]
  have hlink : (do
      Call.refreshTokenUpdate stored.row.id
        ⟨w₁.now, ((w₁.append new).stored? (hashToken deps bytes)).map (fun s => s.row.id)⟩
      pure ⟨accessToken, bytes⟩ : Call TokenPair).solo x (w₁.append new) = some (r, w') := hrest
  rw [hfound] at hlink
  have hthere : (w₁.append new).hasToken stored.row.id = true :=
    List.any_eq_true.mpr ⟨stored.row, List.mem_append_left _ hmem, beq_self_eq_true _⟩
  have hupdate : (Call.refreshTokenUpdate stored.row.id ⟨w₁.now, some new.id⟩).solo x
      (w₁.append new) = some (.ok (), w₁.replace stored.row new) := by
    have hexec : Stmt.exec (.refreshTokenUpdate stored.row.id ⟨w₁.now, some new.id⟩) x
        (w₁.append new) = some (.ok ((), [])) := by
      simp only [Stmt.exec, hthere, if_true]
    exact solo_stmt hexec
  rw [Prog.solo_bind_ok hupdate] at hlink
  exact (Prod.mk.inj (Option.some.inj hlink)).2.symm

theorem reuseDetected_solo (stored : StoredToken) : (reuseDetected stored).solo x w
    = some (.error (unauthorized "Token reuse detected"),
        w.revoke { family := some stored.row.family }) := rfl

/-- **What a call does to the table.** -/
theorem body_solo {op : Op} {r : Except Failure Out}
    (h : op.run deps x w = some (r, w')) : Wrote deps x w op w' := by
  cases op with
  | login dto family jti bytes =>
    have hrun : ∃ r, (login deps dto family jti bytes).solo x w = some (r, w') := by
      obtain ⟨e, hl, -⟩ | ⟨pair, w₁, hl, hp⟩ := Prog.solo_bind_inv h
      · exact ⟨_, hl⟩
      · obtain ⟨-, rfl⟩ := Prod.mk.inj (Option.some.inj hp)
        exact ⟨_, hl⟩
    obtain ⟨r, hrun⟩ := hrun
    obtain rfl | ⟨userId, hx, hnew, rfl⟩ := login_solo hrun
    · exact .nothing _
    · exact .created userId hx hnew
  | refresh raw jti bytes =>
    have hrun : ∃ r, (spend deps (w.stored? (hashToken deps raw)) jti bytes).solo x w
        = some (r, w') := by
      obtain ⟨e, hl, -⟩ | ⟨pair, w₁, hl, hp⟩ := Prog.solo_bind_inv h
      · exact ⟨_, hl⟩
      · obtain ⟨-, rfl⟩ := Prod.mk.inj (Option.some.inj hp)
        exact ⟨_, hl⟩
    obtain ⟨r, hrun⟩ := hrun
    cases hlook : w.token? (hashToken deps raw) with
    | none =>
      have hnone : w.stored? (hashToken deps raw) = none := by simp [World.stored?, hlook]
      rw [hnone] at hrun
      obtain ⟨-, rfl⟩ := Prod.mk.inj (Option.some.inj hrun)
      exact .nothing _
    | some q =>
      obtain ⟨stored, hstored, rfl⟩ : ∃ stored, w.stored? (hashToken deps raw) = some stored ∧
          stored.row = q :=
        ⟨⟨q, (w.user? q.userId).getD default⟩, by simp [World.stored?, hlook], rfl⟩
      rw [hstored] at hrun
      unfold spend at hrun
      rw [Prog.solo_bind_ok (a := stored) rfl] at hrun
      cases hrev : stored.row.revoked with
      | true =>
        rw [if_pos hrev] at hrun
        obtain ⟨-, rfl⟩ := Prod.mk.inj (Option.some.inj hrun)
        exact .revoked _ { family := some stored.row.family }
      | false =>
        rw [if_neg (by simp [hrev])] at hrun
        have hmem := (token?_mem hlook).1
        obtain rfl | ⟨hx, hnew, rfl⟩ := rotate_solo hmem hrun
        · exact .nothing _
        · exact .rotated stored.user.id hmem hrev hx hnew
  | logout raw =>
    obtain ⟨-, rfl⟩ := Prod.mk.inj (Option.some.inj h)
    exact .revoked _ { tokenHash := some (hashToken deps raw) }

/-- A replay is detected. -/
theorem refresh_revoked {raw bytes : RawToken} {jti : Nat} {q : RefreshToken}
    (hq : w.token? (hashToken deps raw) = some q) (hrev : q.revoked = true) :
    (refresh deps raw jti bytes).solo x w = some (.error (unauthorized "Token reuse detected"),
      w.revoke { family := some q.family }) := by
  let stored : StoredToken := ⟨q, (w.user? q.userId).getD default⟩
  have hstored : w.stored? (hashToken deps raw) = some stored := by
    simp only [World.stored?, hq, Option.map_some, stored]
  have hspend : spend deps (some stored) jti bytes
      = reuseDetected stored := if_pos hrev
  have hrun : (refresh deps raw jti bytes).solo x w
      = (spend deps (w.stored? (hashToken deps raw)) jti bytes).solo x w := rfl
  rw [hrun, hstored, hspend, reuseDetected_solo]

end Calls

/-! ## 5. Every event keeps the chains -/

section Events

variable {w w' : World}

theorem tokensOf_map {f : RefreshToken → RefreshToken} (hf : ∀ r, Touched r (f r))
    (hrows : w'.refreshTokens = w.refreshTokens.map f) (g : Family) :
    w'.tokensOf g = (w.tokensOf g).map f := by
  unfold World.tokensOf
  rw [hrows, List.filter_map]
  congr 1
  exact List.filter_congr fun r _ => by rw [Function.comp, (hf r).family]

theorem tokensOf_append {r : RefreshToken} (g : Family) :
    (w.append r).tokensOf g = w.tokensOf g ++ if r.family = g then [r] else [] := by
  unfold World.tokensOf World.append
  rw [List.filter_append]
  congr 1
  by_cases hg : r.family = g <;> simp [hg]

/-- A statement that keeps the links of the tokens that were revoked before it. -/
theorem Linked.map {f : RefreshToken → RefreshToken} (h : Linked deps w)
    (hf : ∀ r, Touched r (f r))
    (hlink : ∀ r ∈ w.refreshTokens, r.revoked = true → (f r).replacedById = r.replacedById)
    (hrows : w'.refreshTokens = w.refreshTokens.map f) (hnow : w'.now = w.now) :
    Linked deps w' where
  valid := h.valid.of_map hf hrows
  past := by
    intro r' hr'
    rw [hrows] at hr'
    obtain ⟨r, hr, rfl⟩ := List.mem_map.mp hr'
    rw [hnow, (hf r).createdAt, (hf r).expiresAt]
    exact h.past r hr
  ordered := by
    rw [hrows, List.pairwise_map]
    refine h.ordered.imp fun {r r'} hle => ?_
    rw [(hf r).createdAt, (hf r').createdAt]
    exact hle
  chain g := by
    rw [tokensOf_map hf hrows, List.isChain_map]
    refine (h.chain g).imp_of_mem_imp fun r r' hr _ hnext => ⟨(hf r).revoked hnext.revoked, ?_⟩
    rw [hlink r (List.mem_of_mem_filter hr) hnext.revoked, (hf r').id]
    exact hnext.link

theorem Chained.map {f : RefreshToken → RefreshToken} (h : Chained deps w)
    (hf : ∀ r, Touched r (f r)) (hlink : ∀ r, (f r).replacedById = r.replacedById)
    (hrows : w'.refreshTokens = w.refreshTokens.map f) (hnow : w'.now = w.now) :
    Chained deps w' where
  toLinked := h.toLinked.map hf (fun r _ _ => hlink r) hrows hnow
  last g r hr := by
    rw [tokensOf_map hf hrows, List.getLast?_map] at hr
    obtain ⟨q, hq, rfl⟩ := Option.map_eq_some_iff.mp hr
    rw [hlink]
    exact h.last g q hq

/-- A new token, which the last one of its family was replaced by. -/
theorem Linked.append {r : RefreshToken} (h : Linked deps w) (hid : w.hasToken r.id = false)
    (hhash : w.token? r.tokenHash = none) (hcreated : r.createdAt = w.now)
    (hexpires : r.expiresAt = w.now + deps.refreshExpiryMs)
    (hnext : ∀ q ∈ (w.tokensOf r.family).getLast?, Replaces q r) : Linked deps (w.append r) where
  valid := h.valid.of_append hid hhash rfl
  past := by
    intro q hq
    rcases List.mem_append.mp hq with hq | hq
    · exact h.past q hq
    · obtain rfl := List.mem_singleton.mp hq
      exact ⟨Nat.le_of_eq hcreated, by rw [hcreated, hexpires]⟩
  ordered := by
    refine List.pairwise_append.mpr ⟨h.ordered, List.pairwise_singleton .., ?_⟩
    intro q hq q' hq'
    rw [List.mem_singleton.mp hq', hcreated]
    exact (h.past q hq).1
  chain g := by
    rw [tokensOf_append]
    split
    · rename_i hg
      subst hg
      refine List.isChain_append.mpr ⟨h.chain _, List.isChain_singleton r, ?_⟩
      intro q hq q' hq'
      obtain rfl := Option.some.inj hq'
      exact hnext q hq
    · rw [List.append_nil]
      exact h.chain g

theorem last_append {r : RefreshToken} (hnone : r.replacedById = none)
    (hlast : ∀ g ≠ r.family, ∀ q ∈ (w.tokensOf g).getLast?, q.replacedById = none) (g : Family) :
    ∀ q ∈ ((w.append r).tokensOf g).getLast?, q.replacedById = none := by
  intro q hq
  rw [tokensOf_append] at hq
  split at hq
  · rw [List.getLast?_append, List.getLast?_singleton, Option.some_or] at hq
    obtain rfl := Option.some.inj hq
    exact hnone
  · rename_i hg
    rw [List.append_nil] at hq
    exact hlast g (Ne.symm hg) q hq

theorem Chained.revoke (h : Chained deps w) (q : RefreshTokenWhere) : Chained deps (w.revoke q) := by
  refine h.map (touched_revoke q w.now) (fun r => ?_) rfl rfl
  unfold RefreshTokenWhere.revoke
  split <;> rfl

theorem Chained.login {userId : UserId} {family : Family} {bytes : RawToken} {x : TokenId}
    (h : Chained deps w) (hfresh : w.tokensOf family = []) (hx : w.hasToken x = false)
    (hnew : w.token? (hashToken deps bytes) = none) :
    Chained deps (w.append (newToken deps w userId family bytes x)) where
  toLinked := by
    refine h.toLinked.append hx hnew rfl rfl fun q hq => ?_
    have hnil : w.tokensOf (newToken deps w userId family bytes x).family = [] := hfresh
    rw [hnil] at hq
    exact absurd hq (by simp)
  last := last_append rfl fun g _ => h.last g

/-- The update of a rotation. -/
theorem replace_eq {r r' : RefreshToken} (hne : r'.id ≠ r.id) :
    ∃ f : RefreshToken → RefreshToken, (∀ q, Touched q (f q)) ∧ (∀ q, q.id ≠ r.id → f q = q) ∧
      Replaces (f r) r' ∧
      w.replace r r' = { w with refreshTokens := w.refreshTokens.map f }.append r' := by
  let data : RefreshTokenData := ⟨w.now, some r'.id⟩
  let f : RefreshToken → RefreshToken := fun q => if q.id = r.id then data.patch q else q
  have hself : ∀ q, q.id = r.id → f q = data.patch q := fun q hq => if_pos hq
  have hrest : ∀ q, q.id ≠ r.id → f q = q := fun q hq => if_neg hq
  have hrows : Keyed.update RefreshToken.id r.id data.patch (w.refreshTokens ++ [r'])
      = w.refreshTokens.map f ++ [r'] := by
    have hnew : Keyed.update RefreshToken.id r.id data.patch [r'] = [r'] :=
      Keyed.update_of_forall_ne data.patch (by simpa using hne)
    rw [Keyed.update_append, hnew]
    rfl
  refine ⟨f, fun q => ?_, hrest, ?_, congrArg (fun l => { w with refreshTokens := l }) hrows⟩
  · by_cases hq : q.id = r.id
    · rw [hself q hq]
      exact ⟨rfl, fun _ => rfl⟩
    · rw [hrest q hq]
      exact Touched.refl q
  · rw [hself r rfl]
    exact ⟨rfl, rfl⟩

/-- The rotated token was alive, so it was the last of its family. -/
theorem Chained.rotate {r : RefreshToken} {userId : UserId} {bytes : RawToken} {x : TokenId}
    (h : Chained deps w) (hr : r ∈ w.refreshTokens) (halive : r.revoked = false)
    (hx : w.hasToken x = false) (hnew : w.token? (hashToken deps bytes) = none) :
    Chained deps (w.replace r (newToken deps w userId r.family bytes x)) := by
  let new := newToken deps w userId r.family bytes x
  have hne : new.id ≠ r.id := by
    intro hid
    have hother := List.any_eq_false.mp hx r hr
    exact absurd (beq_iff_eq.mpr hid.symm) hother
  obtain ⟨f, hf, hrest, hnext, heq⟩ := replace_eq (w := w) hne
  rw [heq]
  -- the table after the update alone: the last token of the family points to nobody yet
  let w₁ : World := { w with refreshTokens := w.refreshTokens.map f }
  have hlinked : Linked deps w₁ := by
    refine h.toLinked.map hf (fun q hq hrev => ?_) rfl rfl
    have hother : q.id ≠ r.id := by
      intro hid
      have hsame : q = r := List.inj_on_of_nodup_map h.valid.token_id hq hr hid
      exact absurd (hsame ▸ hrev) (by simp [halive])
    rw [hrest q hother]
  have hlast : (w.tokensOf r.family).getLast? = some r :=
    h.alive (List.mem_filter.mpr ⟨hr, beq_self_eq_true _⟩) halive
  have htokens : ∀ g, w₁.tokensOf g = (w.tokensOf g).map f := tokensOf_map hf rfl
  -- its row has a new hash and a new id still
  have hid : w₁.hasToken x = false := by
    refine List.any_eq_false.mpr fun q' hq' => ?_
    obtain ⟨q, hq, rfl⟩ := List.mem_map.mp hq'
    rw [(hf q).id]
    exact List.any_eq_false.mp hx q hq
  have hhash : w₁.token? (hashToken deps bytes) = none := by
    refine Keyed.lookup_none.mpr fun q' hq' => ?_
    obtain ⟨q, hq, rfl⟩ := List.mem_map.mp hq'
    rw [(hf q).tokenHash]
    exact Keyed.lookup_none.mp hnew q hq
  constructor
  · refine hlinked.append hid hhash rfl rfl fun q hq => ?_
    have hq' : (w₁.tokensOf r.family).getLast? = some q := hq
    rw [htokens, List.getLast?_map, hlast] at hq'
    obtain rfl := Option.some.inj hq'
    exact hnext
  · refine last_append rfl fun g hg q' hq' => ?_
    rw [htokens, List.getLast?_map] at hq'
    obtain ⟨q, hq, rfl⟩ := Option.map_eq_some_iff.mp hq'
    have hmem : q ∈ w.tokensOf g := List.mem_of_getLast? hq
    have hother : q.id ≠ r.id := by
      intro hid
      have hsame : q = r := List.inj_on_of_nodup_map h.valid.token_id
        (List.mem_of_mem_filter hmem) hr hid
      have hfamily : q.family = g := beq_iff_eq.mp (List.mem_filter.mp hmem).2
      have hown : q.family = r.family := by rw [hsame]
      exact hg (hfamily.symm.trans hown)
    rw [hrest q hother]
    exact h.last g q hq

/-- **The purge deletes a front part of each family.** -/
theorem purge_suffix (h : Linked deps w) (g : Family) :
    w.purgeRefreshTokens.2.tokensOf g <:+ w.tokensOf g := by
  have hcomm : w.purgeRefreshTokens.2.tokensOf g
      = (w.tokensOf g).filter (fun r => !decide (r.expiresAt < tokenCutoff w.now)) :=
    List.filter_comm ..
  rw [hcomm]
  refine filter_suffix ((h.ordered.filter _).imp_of_mem fun {r r'} hr hr' hle hkept => ?_)
  have hcreated : r.createdAt ≤ r'.createdAt := hle
  have hexpires := (h.past r (List.mem_of_mem_filter hr)).2
  have hexpires' := (h.past r' (List.mem_of_mem_filter hr')).2
  have hlater : r.expiresAt ≤ r'.expiresAt := by
    rw [hexpires, hexpires']
    exact Nat.add_le_add_right hcreated _
  simp only [Bool.not_eq_true', decide_eq_false_iff_not, Nat.not_lt] at hkept ⊢
  exact Nat.le_trans hkept hlater

theorem Chained.purge (h : Chained deps w) : Chained deps w.purgeRefreshTokens.2 where
  valid := ⟨h.valid.token_id.sublist (List.filter_sublist.map _),
    h.valid.token_hash.sublist (List.filter_sublist.map _)⟩
  past r hr := h.past r (List.mem_of_mem_filter hr)
  ordered := h.ordered.filter _
  chain g := (h.chain g).suffix (purge_suffix h.toLinked g)
  last g r hr := h.last g r (getLast?_suffix (purge_suffix h.toLinked g) hr)

theorem Chained.tick (h : Chained deps w) (ms : Time) :
    Chained deps { w with now := w.now + ms } where
  valid := ⟨h.valid.token_id, h.valid.token_hash⟩
  past r hr := ⟨Nat.le_trans (h.past r hr).1 (Nat.le_add_right _ _), (h.past r hr).2⟩
  ordered := h.ordered
  chain := h.chain
  last := h.last

/-- **One event.** -/
theorem Chained.next {e : Event} (h : Chained deps w) (hfresh : e.fresh w = true)
    (hs : e.next deps w = some w') : Chained deps w' := by
  cases e with
  | call op x =>
    obtain ⟨⟨r, v⟩, hrun, rfl⟩ := Option.map_eq_some_iff.mp hs
    cases body_solo hrun with
    | nothing => exact h
    | created userId hx hnew =>
      refine h.login (List.filter_eq_nil_iff.mpr fun q hq => ?_) hx hnew
      simpa using List.all_eq_true.mp hfresh q hq
    | rotated userId hr halive hx hnew => exact h.rotate hr halive hx hnew
    | revoked op q => exact h.revoke q
  | purgeRefreshTokens =>
    obtain rfl := Option.some.inj hs
    exact h.purge
  | tick ms =>
    obtain rfl := Option.some.inj hs
    exact h.tick ms

/-- **A run.** -/
theorem Chained.after {es : List Event} (h : Chained deps w) (hr : w.after deps es = some w') :
    Chained deps w' := by
  induction es generalizing w with
  | nil =>
    obtain rfl := Option.some.inj hr
    exact h
  | cons e es ih =>
    unfold World.after at hr
    split at hr
    · rename_i hfresh
      obtain ⟨w₁, hs, hr⟩ := Option.bind_eq_some_iff.mp hr
      exact ih (h.next hfresh hs) hr
    · exact absurd hr (by simp)

theorem chained_start (hw : w.refreshTokens = []) : Chained deps w where
  valid := ⟨by simp [hw], by simp [hw]⟩
  past r hr := absurd hr (by simp [hw])
  ordered := by simp [hw]
  chain f := by simp [World.tokensOf, hw]
  last f r hr := absurd hr (by simp [World.tokensOf, hw])

end Events

/-! ## 6. The chain of a family -/

section Results

variable {w w' : World}

theorem tokensOf_revoke (q : RefreshTokenWhere) (g : Family) :
    (w.revoke q).tokensOf g = (w.tokensOf g).map (q.revoke w.now) :=
  tokensOf_map (touched_revoke q w.now) rfl g

/-- `revokeFamily` revokes the tokens of the family, all of them. -/
theorem revoked_family (f : Family) :
    ∀ r ∈ (w.revoke { family := some f }).tokensOf f, r.revoked = true := by
  intro r' hr'
  rw [tokensOf_revoke] at hr'
  obtain ⟨r, hr, rfl⟩ := List.mem_map.mp hr'
  have hf : f = r.family := (beq_iff_eq.mp (List.mem_filter.mp hr).2).symm
  cases hrev : r.revoked with
  | true => exact (touched_revoke _ _ r).revoked hrev
  | false =>
    have hmatch : RefreshTokenWhere.matches { family := some f } r = true := by
      simp [RefreshTokenWhere.matches, hf, hrev]
    unfold RefreshTokenWhere.revoke
    rw [if_pos hmatch]
    rfl

/-- It leaves the other families alone. -/
theorem revoked_others {f g : Family} (hg : g ≠ f) :
    (w.revoke { family := some f }).tokensOf g = w.tokensOf g := by
  rw [tokensOf_revoke]
  refine (List.map_congr_left fun r hr => ?_).trans (List.map_id _)
  have hne : f ≠ r.family := fun hf => hg ((beq_iff_eq.mp (List.mem_filter.mp hr).2).symm.trans hf.symm)
  simp [RefreshTokenWhere.revoke, RefreshTokenWhere.matches, hne]

/-- What a replay of the token `q` leaves: its family is there, and revoked. -/
structure FamilyRevoked (w w' : World) (q : RefreshToken) : Prop where
  kept : (w'.tokensOf q.family).map RefreshToken.id = (w.tokensOf q.family).map RefreshToken.id
  revoked : ∀ r ∈ w'.tokensOf q.family, r.revoked = true
  others : ∀ g ≠ q.family, w'.tokensOf g = w.tokensOf g

/-- **In every state that calls one after another reach from an empty table, the tokens of each
family form a chain, and a refresh with a revoked token revokes its family and no other.** -/
theorem token_family_chain {es : List Event} (hw : w.refreshTokens = [])
    (hr : w.after deps es = some w') :
    (∀ f, FamilyChain w' f) ∧
    ∀ raw jti bytes x q, w'.token? (hashToken deps raw) = some q → q.revoked = true →
      ∃ w'', (Op.refresh raw jti bytes).run deps x w'
          = some (.error (unauthorized "Token reuse detected"), w'') ∧ FamilyRevoked w' w'' q := by
  refine ⟨((chained_start hw).after hr).familyChain, fun raw jti bytes x q hq hrev => ?_⟩
  refine ⟨w'.revoke { family := some q.family },
    Prog.solo_bind_error (refresh_revoked hq hrev), ?_, revoked_family _, fun g => revoked_others⟩
  rw [tokensOf_revoke]
  exact map_touched (fun r => (touched_revoke _ _ r).id) _

end Results

namespace Campus

/-- Nobody has logged in. -/
def enrolled : World where
  users := [⟨1, "ada@campus", "hash", [.STUDENT]⟩]
  refreshTokens := []
  now := 10

/-- Ada logs in twice and refreshes her first session three times.  When the purge runs, two tokens
of that family are left; then she logs out. -/
def term : List Event :=
  [.call (.login ⟨"ada@campus", "hash"⟩ 5 0 1) 100, .call (.login ⟨"ada@campus", "hash"⟩ 6 0 2) 101,
    .call (.refresh 1 0 3) 102, .tick 600000000, .call (.refresh 3 0 4) 103, .tick 500000000,
    .call (.refresh 4 0 7) 104, .tick 110000000, .purgeRefreshTokens, .call (.logout 7) 105]

set_option maxRecDepth 4000 in
theorem term_runs : (enrolled.after stubs term).isSome = true := by decide

def afterTerm : World := (enrolled.after stubs term).get term_runs

set_option maxRecDepth 4000 in
theorem token_family_chain_term :
    (afterTerm.tokensOf 5).map (fun r => (r.id, r.revoked, r.replacedById))
        = [(103, true, some 104), (104, true, none)] ∧
      (∀ f, FamilyChain afterTerm f) ∧
      ∃ w, (Op.refresh 4 0 8).run stubs 106 afterTerm
          = some (.error (unauthorized "Token reuse detected"), w) ∧
        FamilyRevoked afterTerm w ⟨103, 1, 1004, 5, 600000010, 1204800010, some 1100000010, some 104⟩ :=
  have hchain := token_family_chain (w := enrolled) rfl
    (Option.some_get term_runs).symm
  ⟨by decide, hchain.1, hchain.2 4 0 8 106 _ (by decide) rfl⟩

end Campus

end Enroll.Auth
