/-
# One family of refresh tokens among others

The calls of one user's session, against those of everybody else.  Whoever does not know a token of
the family never touches one: a refresh finds out at its lookup, a logout goes by the hash, a login
starts a family of its own.  So the refreshes of the family, one at a time and with a token that is
not revoked, can count on the table: each succeeds and leaves its successor unrevoked, or fails
because the token has expired or the database refuses, and for no other reason (`refresh_ours`).

`FamilyRun` is what that comes to in a run of the service, with any number of foreign calls in
between.
-/
import Enroll.DeadFamilies

namespace Enroll.Auth

open Txn (Ctx Prog Session Label Accord Discipline Only wp_bind)

variable {deps : Deps} {f : Family} {K : TokenHash → Prop}

/-! ## 1. A family among others -/

/-- A token of the family that is not revoked. -/
def Unspent (f : Family) (h : TokenHash) (w : World) : Prop :=
  ∃ r ∈ w.refreshTokens, r.tokenHash = h ∧ r.family = f ∧ r.revoked = false

theorem Unspent.not_spent {h : TokenHash} {w : World} (hu : Unspent f h w) (hv : w.Valid) :
    ¬ Spent h w := by
  rintro ⟨r', hr', hh', hrev'⟩
  obtain ⟨r, hr, hh, -, hrev⟩ := hu
  rw [Keyed.eq_of_key_eq hv.token_hash hr hr' (hh.trans hh'.symm), hrev'] at hrev
  exact absurd hrev (by simp)

/-- The tokens of the family have hashes of `K`. -/
structure Guarded (f : Family) (K : TokenHash → Prop) (w : World) : Prop where
  valid : w.Valid
  hashes : ∀ r ∈ w.refreshTokens, r.family = f → K r.tokenHash

/-- What everybody may do. -/
structure Onward (f : Family) (K : TokenHash → Prop) (w w' : World) : Prop where
  kept : Kept w w'
  guarded : Guarded f K w'

theorem Onward.refl {w : World} (h : Guarded f K w) : Onward f K w w := ⟨.refl w, h⟩

theorem Onward.trans {w w' w'' : World} (h : Onward f K w w') (h' : Onward f K w' w'') :
    Onward f K w w'' := ⟨h.kept.trans h'.kept, h'.guarded⟩

/-- The tokens of the family stay as they are. -/
def Spares (f : Family) (w w' : World) : Prop := ∀ h, Unspent f h w → Unspent f h w'

/-- The statement gives the family no token but of `K`. -/
def Stmt.Within (f : Family) (K : TokenHash → Prop) : Stmt → Prop
  | refreshTokenCreate d => d.family = f → K d.tokenHash
  | now => True
  | userFindUnique _ => True
  | refreshTokenFindUnique _ => True
  | refreshTokenUpdate _ _ => True
  | refreshTokenUpdateMany _ _ => True

/-- The statement revokes no token of the family. -/
def Stmt.SparesIn (f : Family) (w : World) : Stmt → Prop
  | refreshTokenUpdate id _ => ∃ r ∈ w.refreshTokens, r.id = id ∧ r.family ≠ f
  | refreshTokenUpdateMany q _ => ∀ r ∈ w.refreshTokens, r.family = f → q.matches r = false
  | now => True
  | userFindUnique _ => True
  | refreshTokenFindUnique _ => True
  | refreshTokenCreate _ => True

theorem effect_onward {s : Stmt} {x : TokenId} {w : World} (hg : Guarded f K w)
    (hs : s.Within f K) (hx : (s.exec x w).isSome) : Onward f K w (s.effect x w) := by
  refine ⟨effect_kept s x w, effect_valid hg.valid hx, fun r hr hf => ?_⟩
  obtain ⟨-, ⟨g, hg', hrows⟩ | ⟨d, rfl, -, hrows⟩⟩ := effect_cases s x w
  · obtain ⟨r₀, hr₀, rfl⟩ := List.mem_map.mp (hrows ▸ hr)
    rw [(hg' r₀).tokenHash]
    exact hg.hashes r₀ hr₀ ((hg' r₀).family.symm.trans hf)
  · rcases List.mem_append.mp (hrows ▸ hr) with hr | hr
    · exact hg.hashes r hr hf
    · rw [List.mem_singleton.mp hr] at hf ⊢
      exact hs hf

theorem effect_spares {s : Stmt} {x : TokenId} {w : World} (hv : w.Valid) (hs : s.SparesIn f w) :
    Spares f w (s.effect x w) := by
  rintro h ⟨r, hr, hh, hf, hrev⟩
  suffices hmem : r ∈ (s.effect x w).refreshTokens from ⟨r, hmem, hh, hf, hrev⟩
  cases s with
  | refreshTokenCreate d =>
    obtain ⟨-, ⟨g, hg, hrows⟩ | ⟨d', hd, -, hrows⟩⟩ := effect_cases (.refreshTokenCreate d) x w
    · cases hd : w.refuses d <;> simp [Stmt.effect, hd, hr]
    · exact hrows ▸ List.mem_append_left _ hr
  | refreshTokenUpdate id d =>
    obtain ⟨r', hr', hid, hf'⟩ := hs
    have hne : r.id ≠ id := by
      intro he
      rw [Keyed.eq_of_key_eq hv.token_id hr hr' (he.trans hid.symm)] at hf
      exact hf' hf
    exact Keyed.mem_update.mpr ⟨r, hr, (if_neg hne).symm⟩
  | refreshTokenUpdateMany q t =>
    refine List.mem_map.mpr ⟨r, hr, ?_⟩
    unfold RefreshTokenWhere.revoke
    rw [hs r hr hf]
    rfl
  | now => exact hr
  | userFindUnique email => exact hr
  | refreshTokenFindUnique h => exact hr

/-! ## 2. Calls of the family and calls of others -/

/-- A refresh with a token of `K`. -/
def Op.Ours (deps : Deps) (K : TokenHash → Prop) : Op → Prop
  | refresh raw _ _ => K (hashToken deps raw)
  | login _ _ _ _ => False
  | logout _ => False

/-- A call of somebody who has no token of `K`.  `uuidv4` names a new family for a login. -/
def Op.Foreign (deps : Deps) (f : Family) (K : TokenHash → Prop) : Op → Prop
  | refresh raw _ _ => ¬ K (hashToken deps raw)
  | login _ family _ _ => family ≠ f
  | logout raw => ¬ K (hashToken deps raw)

theorem Op.Foreign.not_ours {op : Op} (h : op.Foreign deps f K) : ¬ op.Ours deps K := by
  cases op with
  | refresh raw jti bytes => exact h
  | login dto family jti bytes => exact id
  | logout raw => exact id

/-- Why a refresh may fail all the same: the token has expired, or the database refuses. -/
def Excused (h : TokenHash) (w : World) (e : Failure) : Prop :=
  (e = unauthorized "Refresh token expired" ∧
    ∃ r ∈ w.refreshTokens, r.tokenHash = h ∧ r.expiresAt < w.now) ∨ ∃ d, e = .db d

theorem Excused.kept {h : TokenHash} {w w' : World} {e : Failure} (he : Excused h w e)
    (hk : Kept w w') : Excused h w' e := by
  refine he.imp_left ?_
  rintro ⟨rfl, r, hr, hh, hexp⟩
  obtain ⟨r', hr', ht⟩ := hk.rows r hr
  exact ⟨rfl, r', hr', ht.tokenHash.trans hh, ht.expiresAt ▸ Nat.lt_of_lt_of_le hexp hk.now⟩

/-- A refresh of a token of the family has handed it on, or has an excuse. -/
def Renewed (deps : Deps) (f : Family) (raw bytes : RawToken) (r : Except Failure TokenPair)
    (w : World) : Prop :=
  match r with
  | .ok pair => pair.refreshToken = bytes ∧ Unspent f (hashToken deps bytes) w ∧
      Spent (hashToken deps raw) w
  | .error e => Excused (hashToken deps raw) w e

/-- What a refresh of the family has done when it ends. -/
def familyPost (deps : Deps) (f : Family) (K : TokenHash → Prop) (op : Op)
    (r : Except Failure Out) (c : Ctx tokenStore) : Prop :=
  ∀ raw jti bytes, op = .refresh raw jti bytes → K (hashToken deps raw) →
    ∃ r', Renewed deps f raw bytes r' c.world ∧ r = r'.map .tokens

variable (deps f K) in
/-- Everybody may do what `Onward` says.  A refresh of the family relies on more, and the others owe
it: they spare the family. -/
def family : Discipline (authService deps) where
  inv := Guarded f K
  rely op c w := Onward f K c.world w ∧ (op.Ours deps K → Spares f c.world w)
  calm _ c w := Onward f K c.world w
  guar op c w := Onward f K c.world w ∧ (¬ op.Ours deps K → Spares f c.world w)
  post := familyPost deps f K
  refl _ _ h := ⟨.refl h, fun _ _ hu => hu⟩
  trans _ _ _ _ h h' := ⟨h.1.trans h'.1, fun ho x hu => h'.2 ho x (h.2 ho x hu)⟩
  calm_trans _ _ _ _ h h' := h.trans h'
  calm_of_rely _ _ _ h := h.1

/-! ### Calls of others -/

/-- A statement of somebody who has seen the world `w₀`, and leaves the family alone. -/
def Aside (f : Family) (K : TokenHash → Prop) (w₀ : World) (s : Stmt) : Prop :=
  ¬ s.CreatesIn f ∧ ∀ w, Onward f K w₀ w → s.SparesIn f w

theorem Stmt.Within.of_not_creates {s : Stmt} (h : ¬ s.CreatesIn f) : s.Within f K := by
  cases s with
  | refreshTokenCreate d => exact fun hf => absurd hf h
  | _ => trivial

/-- **Programs of such statements spare the family.** -/
theorem wp_aside {α : Type} {op : Op} {w₀ : World} {p : Call α} (h : Only (Aside f K w₀) p) :
    ∀ c : Ctx tokenStore, Onward f K w₀ c.world →
      Txn.wp ((family deps f K).rely op) ((family deps f K).guar op) p (fun _ _ => True) c := by
  induction p with
  | pure a => exact fun _ _ => trivial
  | throw e => exact fun _ _ => trivial
  | stmt s k ih =>
    intro c hc w hw x r c' hr
    have hw₀ : Onward f K w₀ w := hc.trans hw.1
    obtain ⟨hw', hexec⟩ := Accord.run_cases hr
    have hsome : (Stmt.exec s x w).isSome := by
      rcases hexec with ⟨v, ws, hexec, -⟩ | ⟨e, hexec, -⟩ <;>
        exact Option.isSome_iff_exists.mpr ⟨_, hexec⟩
    have honward : Onward f K w c'.world :=
      hw' ▸ effect_onward hw₀.guarded (.of_not_creates h.1.1) hsome
    refine ⟨⟨honward, fun _ => hw' ▸ effect_spares hw₀.guarded.valid (h.1.2 w hw₀)⟩, ?_⟩
    cases r with
    | ok v => exact ih v (h.2 v) c' (hw₀.trans honward)
    | error e => trivial

section Programs

variable {w₀ : World} {jti : Nat} {bytes : RawToken}

theorem generateTokenPair_aside {userId : UserId} {roles : List Role} {g : Family} (hg : g ≠ f) :
    Only (Aside f K w₀) (generateTokenPair deps userId roles g jti bytes) := by
  refine .bind (fun now => .bind (fun _ => .pure) (.lift ⟨hg, fun _ _ => trivial⟩)) (.lift ?_)
  exact ⟨id, fun _ _ => trivial⟩

theorem rotate_aside {stored : StoredToken} (hmem : stored.row ∈ w₀.refreshTokens)
    (hf : stored.row.family ≠ f) : Only (Aside f K w₀) (rotate deps stored jti bytes) := by
  have hupdate : ∀ d, Aside f K w₀ (.refreshTokenUpdate stored.row.id d) := by
    refine fun d => ⟨id, fun w hw => ?_⟩
    obtain ⟨r, hr, ht⟩ := hw.kept.rows stored.row hmem
    exact ⟨r, hr, ht.id, ht.family ▸ hf⟩
  refine .bind (fun now => .bind (fun _ => .bind (fun pair => .bind (fun replacement => .bind
    (fun now => .bind (fun _ => .pure) (.lift (hupdate _))) (.lift ?_)) (.lift ?_))
    (generateTokenPair_aside hf)) .throwIf) (.lift ?_) <;> exact ⟨id, fun _ _ => trivial⟩

theorem reuseDetected_aside {stored : StoredToken} (hf : stored.row.family ≠ f) :
    Only (Aside f K w₀) (reuseDetected stored) := by
  refine .bind (fun _ => .throw) (.bind (fun _ => .bind (fun _ => .pure)
    (.lift ⟨id, fun w _ r _ hr => ?_⟩)) (.lift ⟨id, fun _ _ => trivial⟩))
  have hne : (stored.row.family == r.family) = false := beq_eq_false_iff_ne.mpr fun he => hf (he ▸ hr)
  simp [RefreshTokenWhere.matches, hne]

theorem spend_aside {found : Option StoredToken}
    (hf : ∀ stored, found = some stored → stored.row ∈ w₀.refreshTokens ∧ stored.row.family ≠ f) :
    Only (Aside f K w₀) (spend deps found jti bytes) := by
  cases found with
  | none => trivial
  | some stored =>
    obtain ⟨hmem, hne⟩ := hf stored rfl
    have hif : Only (Aside f K w₀) (if stored.row.revoked = true then reuseDetected stored
        else rotate deps stored jti bytes) := by
      split
      · exact reuseDetected_aside hne
      · exact rotate_aside hmem hne
    exact hif

theorem login_aside {dto : LoginDto} {g : Family} (hg : g ≠ f) :
    Only (Aside f K w₀) (login deps dto g jti bytes) := by
  refine .bind (fun user => .bind (fun user => generateTokenPair_aside hg) .orThrow) (.lift ?_)
  exact ⟨id, fun _ _ => trivial⟩

theorem logout_aside {raw : RawToken} (hraw : ¬ K (hashToken deps raw)) :
    Only (Aside f K w₀) (logout deps raw) := by
  refine .bind (fun now => .bind (fun _ => .pure) (.lift ⟨id, fun w hw r hr hf => ?_⟩))
    (.lift ⟨id, fun _ _ => trivial⟩)
  have hne : (hashToken deps raw == r.tokenHash) = false :=
    beq_eq_false_iff_ne.mpr fun he => hraw (he ▸ hw.guarded.hashes r hr hf)
  simp [RefreshTokenWhere.matches, hne]

end Programs

/-- **A call of somebody else leaves the family alone**, whenever it comes. -/
theorem foreign_start {op : Op} (hop : op.Foreign deps f K) {c : Ctx tokenStore}
    (hg : Guarded f K c.world) : (family deps f K).controlled op (op.body deps) c := by
  have hpost : ∀ r c, (family deps f K).settled op r c := by
    intro r c
    have hpost' : ∀ c, familyPost deps f K op r c :=
      fun c raw jti bytes he hraw => absurd (show op.Ours deps K from he ▸ hraw) hop.not_ours
    cases r with
    | ok a => exact fun w _ => hpost' _
    | error e => exact fun w _ => hpost' _
  refine Txn.wp_mono (Q := fun _ _ => True) (fun r c _ => hpost r c) ?_
  cases op with
  | login dto g jti bytes =>
    exact wp_aside (.bind (fun _ => .pure) (login_aside hop)) c (.refl hg)
  | refresh raw jti bytes =>
    -- what is foreign to the family shows at the lookup
    intro w hw x r c' hr
    obtain ⟨hw', hexec⟩ := Accord.run_cases hr
    have hsame : c'.world = w := hw'
    subst hsame
    refine ⟨⟨.refl hw.1.guarded, fun _ _ hu => hu⟩, ?_⟩
    rcases hexec with ⟨v, ws, hexec, rfl⟩ | ⟨e, hexec, rfl⟩
    · obtain ⟨rfl, -⟩ := Prod.mk.inj (Except.ok.inj (Option.some.inj hexec))
      refine wp_aside (.bind (fun _ => .pure) (spend_aside fun stored hstored => ?_)) c'
        (.refl hw.1.guarded)
      obtain ⟨hmem, hh⟩ := stored?_cases hstored
      exact ⟨hmem, fun hf => hop (hh ▸ hw.1.guarded.hashes _ hmem hf)⟩
    · trivial
  | logout raw => exact wp_aside (.bind (fun _ => .pure) (logout_aside hop)) c (.refl hg)

/-! ### Refreshes of the family -/

section Ours

variable {op : Op} {c : Ctx tokenStore}

/-- One statement of a refresh of the family, at the world `w` that the others leave. -/
theorem wp_ours {s : Stmt} {Q : Except Failure s.Res → Ctx tokenStore → Prop}
    (hop : op.Ours deps K) (hs : s.Within f K)
    (hok : ∀ w x v ws c', Onward f K c.world w → Spares f c.world w →
      s.exec x w = some (.ok (v, ws)) → c'.world = s.effect x w → Onward f K w c'.world →
        Q (.ok v) c')
    (herr : ∀ w x e c', Onward f K c.world w → s.exec x w = some (.error e) →
      c'.world = s.effect x w → Onward f K w c'.world → Q (.error e) c') :
    Txn.wp ((family deps f K).rely op) ((family deps f K).guar op)
      (Prog.lift (E := tokenStore) s) Q c := by
  refine Txn.wp_lift fun w hw x r c' hr => ?_
  obtain ⟨hw', hexec⟩ := Accord.run_cases hr
  have hsome : (Stmt.exec s x w).isSome := by
    rcases hexec with ⟨v, ws, hexec, -⟩ | ⟨e, hexec, -⟩ <;>
      exact Option.isSome_iff_exists.mpr ⟨_, hexec⟩
  have honward : Onward f K w c'.world := hw' ▸ effect_onward hw.1.guarded hs hsome
  refine ⟨⟨honward, fun ho => absurd hop ho⟩, ?_⟩
  rcases hexec with ⟨v, ws, hexec, rfl⟩ | ⟨e, hexec, rfl⟩
  · exact hok w x v ws c' hw.1 (hw.2 hop) hexec hw' honward
  · exact herr w x e c' hw.1 hexec hw' honward

theorem ours_now {Q : Except Failure Time → Ctx tokenStore → Prop} (hop : op.Ours deps K)
    (h : ∀ c', Onward f K c.world c'.world → Spares f c.world c'.world →
      Q (.ok c'.world.now) c') :
    Txn.wp ((family deps f K).rely op) ((family deps f K).guar op) Call.now Q c := by
  refine wp_ours hop trivial (fun w x v ws c' hw hsp hexec hw' _ => ?_)
    fun w x e c' _ hexec => absurd (Option.some.inj hexec) (by simp)
  obtain ⟨rfl, -⟩ := Prod.mk.inj (Except.ok.inj (Option.some.inj hexec))
  obtain rfl : c'.world = w := hw'
  exact h c' hw hsp

theorem ours_findUnique {h : TokenHash}
    {Q : Except Failure (Option StoredToken) → Ctx tokenStore → Prop} (hop : op.Ours deps K)
    (hok : ∀ c', Onward f K c.world c'.world → Spares f c.world c'.world →
      Q (.ok (c'.world.stored? h)) c') :
    Txn.wp ((family deps f K).rely op) ((family deps f K).guar op)
      (Call.refreshTokenFindUnique h) Q c := by
  refine wp_ours hop trivial (fun w x v ws c' hw hsp hexec hw' _ => ?_)
    fun w x e c' _ hexec => absurd (Option.some.inj hexec) (by simp)
  obtain ⟨rfl, -⟩ := Prod.mk.inj (Except.ok.inj (Option.some.inj hexec))
  obtain rfl : c'.world = w := hw'
  exact hok c' hw hsp

/-- The successor of the token `q` is stored. -/
theorem ours_create {d : RefreshTokenCreate} {q : RefreshToken}
    {Q : Except Failure Unit → Ctx tokenStore → Prop} (hop : op.Ours deps K)
    (hd : d.family = f) (hK : K d.tokenHash) (hq : ∃ r ∈ c.world.refreshTokens, Touched q r)
    (hok : ∀ c', Kept c.world c'.world → Unspent f d.tokenHash c'.world →
      q.tokenHash ≠ d.tokenHash → Q (.ok ()) c')
    (herr : ∀ c' e, Q (.error (.db e)) c') :
    Txn.wp ((family deps f K).rely op) ((family deps f K).guar op)
      (Call.refreshTokenCreate d) Q c := by
  refine wp_ours hop (fun _ => hK) (fun w x v ws c' hw _ hexec hw' hon => ?_)
    fun w x e c' _ hexec _ _ => ?_
  · have hnone : w.refuses d = none := by
      cases hr : w.refuses d with
      | none => rfl
      | some e => cases hid : w.hasToken x <;> simp [Stmt.exec, hr, hid] at hexec
    have hrows : c'.world.refreshTokens = w.refreshTokens ++ [d.row x w.now] := by
      rw [hw']
      simp only [Stmt.effect, hnone]
    refine hok c' (hw.kept.trans hon.kept) ⟨d.row x w.now, ?_, rfl, hd, rfl⟩ fun he => ?_
    · exact hrows ▸ List.mem_append_right _ (List.mem_singleton_self _)
    · obtain ⟨r, hr, ht⟩ := hq
      obtain ⟨r', hr', ht'⟩ := hw.kept.rows r hr
      have hfound := hw.guarded.valid.token? hr'
      rw [ht'.tokenHash, ht.tokenHash, he, refuses_none hnone] at hfound
      exact absurd hfound (by simp)
  · cases hr : w.refuses d with
    | none => cases hid : w.hasToken x <;> simp [Stmt.exec, hr, hid] at hexec
    | some e' =>
      cases hid : w.hasToken x with
      | true => simp [Stmt.exec, hid] at hexec
      | false =>
        have hexec' : e = .db e' := by simpa [Stmt.exec, hr, hid] using hexec.symm
        exact hexec' ▸ herr c' e'

/-- The token `q` is revoked, and no other one is. -/
theorem ours_update {d : RefreshTokenData} {q : RefreshToken} {h : TokenHash}
    {Q : Except Failure Unit → Ctx tokenStore → Prop} (hop : op.Ours deps K)
    (hq : ∃ r ∈ c.world.refreshTokens, Touched q r) (hu : Unspent f h c.world)
    (hne : q.tokenHash ≠ h)
    (hok : ∀ c', Unspent f h c'.world → Spent q.tokenHash c'.world → Q (.ok ()) c')
    (herr : ∀ c' e, Q (.error (.db e)) c') :
    Txn.wp ((family deps f K).rely op) ((family deps f K).guar op)
      (Call.refreshTokenUpdate q.id d) Q c := by
  refine wp_ours hop trivial (fun w x v ws c' hw hsp hexec hw' _ => ?_)
    fun w x e c' _ hexec _ _ => ?_
  · have hrows : c'.world.refreshTokens = Keyed.update RefreshToken.id q.id d.patch
        w.refreshTokens := congrArg World.refreshTokens hw'
    obtain ⟨r, hr, ht⟩ := hq
    obtain ⟨r', hr', ht'⟩ := hw.kept.rows r hr
    have ht'' := ht.trans ht'
    obtain ⟨b, hb, hh, hf, hrev⟩ := hsp h hu
    have hid : b.id ≠ q.id := by
      intro he
      rw [Keyed.eq_of_key_eq hw.guarded.valid.token_id hb hr' (he.trans ht''.id.symm)] at hh
      exact hne (ht''.tokenHash.symm.trans hh)
    refine hok c' ⟨b, ?_, hh, hf, hrev⟩ ⟨d.patch r', ?_, ht''.tokenHash, rfl⟩
    · exact hrows ▸ Keyed.mem_update.mpr ⟨b, hb, (if_neg hid).symm⟩
    · exact hrows ▸ Keyed.mem_update.mpr ⟨r', hr', (if_pos ht''.id).symm⟩
  · cases hid : w.hasToken q.id with
    | true => simp [Stmt.exec, hid] at hexec
    | false =>
      have hexec' : e = .db .recordNotFound := by simpa [Stmt.exec, hid] using hexec.symm
      exact hexec' ▸ herr c' _

/-- **A rotation in the family.** -/
theorem rotate_ours {stored : StoredToken} {raw bytes : RawToken} {jti : Nat}
    (hop : op.Ours deps K) (hrow : ∃ r ∈ c.world.refreshTokens, Touched stored.row r)
    (hh : stored.row.tokenHash = hashToken deps raw) (hf : stored.row.family = f)
    (hbytes : K (hashToken deps bytes)) :
    Txn.wp ((family deps f K).rely op) ((family deps f K).guar op) (rotate deps stored jti bytes)
      (fun r c' => Renewed deps f raw bytes r c'.world) c := by
  have later {w w' : World} (hk : Kept w w') (h : ∃ r ∈ w.refreshTokens, Touched stored.row r) :
      ∃ r ∈ w'.refreshTokens, Touched stored.row r := by
    obtain ⟨r, hr, ht⟩ := h
    obtain ⟨r', hr', ht'⟩ := hk.rows r hr
    exact ⟨r', hr', ht.trans ht'⟩
  refine wp_bind (ours_now hop fun c₁ h₁ _ => ?_)
  have hrow₁ := later h₁.kept hrow
  refine wp_bind (Txn.wp_throwIf (fun hexp => ?_) fun _ => ?_)
  · obtain ⟨r, hr, ht⟩ := hrow₁
    exact .inl ⟨rfl, r, hr, ht.tokenHash.trans hh, ht.expiresAt ▸ hexp⟩
  refine wp_bind (wp_bind (ours_now hop fun c₂ h₂ _ => ?_))
  refine wp_bind (ours_create hop hf hbytes (later h₂.kept hrow₁) (fun c₃ h₃ hu₃ hne => ?_)
    fun c' e => .inr ⟨e, rfl⟩)
  have hrow₃ := later h₃ (later h₂.kept hrow₁)
  refine wp_bind (ours_findUnique hop fun c₄ h₄ hsp₄ => ?_)
  refine wp_bind (ours_now hop fun c₅ h₅ hsp₅ => ?_)
  refine wp_bind (ours_update hop (later h₅.kept (later h₄.kept hrow₃)) (hsp₅ _ (hsp₄ _ hu₃)) hne
    (fun c₆ hu₆ hs₆ => ?_) fun c' e => .inr ⟨e, rfl⟩)
  exact ⟨rfl, hu₆, hh ▸ hs₆⟩

/-- **A refresh of the family**, whose token is not revoked when it begins. -/
theorem refresh_ours {raw bytes : RawToken} {jti : Nat} (hop : op.Ours deps K)
    (hu : Unspent f (hashToken deps raw) c.world)
    (hbytes : K (hashToken deps bytes)) :
    Txn.wp ((family deps f K).rely op) ((family deps f K).guar op) (refresh deps raw jti bytes)
      (fun r c' => Renewed deps f raw bytes r c'.world) c := by
  refine wp_bind (ours_findUnique hop fun c₁ h₁ hsp₁ => ?_)
  obtain ⟨r, hr, hh, hf, hrev⟩ := hsp₁ _ hu
  have hfound : c₁.world.token? (hashToken deps raw) = some r :=
    hh ▸ h₁.guarded.valid.token? hr
  refine wp_bind (Txn.wp_orThrow (fun hnone => ?_) fun stored hstored => ?_)
  · simp [World.stored?, hfound] at hnone
  have hrow : stored.row = r := by
    rw [World.stored?, hfound] at hstored
    exact congrArg StoredToken.row (Option.some.inj hstored).symm
  subst hrow
  refine Txn.wp_ite (fun hrev' => ?_) fun _ => ?_
  · exact absurd (hrev.symm.trans hrev') (by simp)
  · exact rotate_ours hop ⟨_, hr, .refl _⟩ hh hf hbytes

theorem ours_start {raw bytes : RawToken} {jti : Nat} (hraw : K (hashToken deps raw))
    (hu : Unspent f (hashToken deps raw) c.world) (hbytes : K (hashToken deps bytes)) :
    (family deps f K).controlled (.refresh raw jti bytes) (Op.body deps (.refresh raw jti bytes))
      c := by
  refine wp_bind (Txn.wp_mono (fun r c' hr => ?_) (refresh_ours hraw hu hbytes))
  cases r with
  | ok pair =>
    obtain ⟨hpair, hu', hs'⟩ := hr
    rintro w hw raw' jti' bytes' he -
    obtain ⟨rfl, -, rfl⟩ := Op.refresh.inj he
    exact ⟨.ok pair, ⟨hpair, hw.2 hraw _ hu', hs'.kept hw.1.kept⟩, rfl⟩
  | error e =>
    rintro w hw raw' jti' bytes' he -
    obtain ⟨rfl, -, rfl⟩ := Op.refresh.inj he
    exact ⟨.error e, Excused.kept hr hw.kept, rfl⟩

end Ours

/-! ## 3. The API along a run -/

variable {sys sys' : Sys deps} {l : Label (authService deps)}

/-- No two refreshes of the family are under way. -/
def OneAtATime (K : TokenHash → Prop) (sys : Sys deps) : Prop :=
  ∀ t t' ses ses', sys.sessions t = some ses → sys.sessions t' = some ses' →
    ses.op.Ours deps K → ses'.op.Ours deps K → t = t'

/-- Whoever begins a call does not know the family's tokens, or refreshes one that is not revoked
while no other one is refreshed. -/
def Polite (f : Family) (K : TokenHash → Prop) (sys : Sys deps) (l : Label (authService deps)) :
    Prop :=
  ∀ t op, l = .begin t op → op.Foreign deps f K ∨ ∃ raw jti bytes, op = .refresh raw jti bytes ∧
    K (hashToken deps raw) ∧ K (hashToken deps bytes) ∧ Unspent f (hashToken deps raw) sys.world ∧
      ∀ t ses, sys.sessions t = some ses → ¬ ses.op.Ours deps K

theorem Onward.tick {w : World} (h : Guarded f K w) (ms : Time) :
    Onward f K w { w with now := w.now + ms } :=
  ⟨.tick w ms, ⟨h.valid.token_id, h.valid.token_hash⟩, h.hashes⟩

theorem family_sound :
    (family deps f K).Sound (Polite f K : Sys deps → Label (authService deps) → Prop)
      (OneAtATime K) where
  start sys t op hC _ hG := by
    obtain hop | ⟨raw, jti, bytes, rfl, hraw, hbytes, hu, -⟩ := hC t op rfl
    · exact foreign_start hop hG.inv
    · exact ours_start hraw hu hbytes
  inv sys l _ _ hG t ses w ht hw := by
    rcases hw with ⟨-, hw⟩ | ⟨-, a, -, -, rfl⟩
    · exact hw.1.guarded
    · exact (Accord.view_eq (sys.ctx t ses)).symm ▸ hG.inv
  others sys l _ hJ hG t ses w ht hw t' ses' hne ht' := by
    refine Discipline.tolerates_of_rely _ ?_
    rcases hw with ⟨-, hw⟩ | ⟨-, a, -, -, rfl⟩
    · exact ⟨hw.1, fun ho' => hw.2 fun ho => hne (hJ t' t ses' ses ht' ht ho' ho)⟩
    · have hview : (sys.ctx t ses).view = sys.world := Accord.view_eq _
      exact hview.symm ▸ ⟨.refl hG.inv, fun _ _ hu => hu⟩
  env_inv sys ms _ _ hG := (Onward.tick hG.inv ms).guarded
  env_rely sys ms _ _ hG t ses _ :=
    Discipline.tolerates_of_rely _ ⟨.tick hG.inv ms, fun _ _ hu => hu⟩

theorem OneAtATime.step (hJ : OneAtATime K sys) (hC : Polite f K sys l)
    (hs : sys.step l = some sys') : OneAtATime K sys' := by
  -- who is under way after the step was so before, or has just begun
  have hbefore : ∀ t ses', sys'.sessions t = some ses' → ses'.op.Ours deps K →
      (∃ ses, sys.sessions t = some ses ∧ ses.op.Ours deps K) ∨
        ((∃ op, l = .begin t op) ∧ ∀ t ses, sys.sessions t = some ses → ¬ ses.op.Ours deps K) := by
    intro t ses' ht' ho
    rcases Discipline.session_of_step hs ht' with ⟨op, rfl, rfl⟩ |
      ⟨x, ses, s, k, r, c', -, ht, -, -, hop, -⟩ | ⟨-, ht⟩
    · obtain hop | ⟨raw, jti, bytes, -, -, -, -, hfree⟩ := hC t op rfl
      · exact absurd ho hop.not_ours
      · exact .inr ⟨⟨op, rfl⟩, hfree⟩
    · exact .inl ⟨ses, ht, hop ▸ ho⟩
    · exact .inl ⟨ses', ht, ho⟩
  intro t t' ses ses' ht ht' ho ho'
  obtain ⟨s₁, h₁, ho₁⟩ | ⟨⟨op, rfl⟩, hfree⟩ := hbefore t ses ht ho
  · obtain ⟨s₂, h₂, ho₂⟩ | ⟨-, hfree⟩ := hbefore t' ses' ht' ho'
    · exact hJ t t' s₁ s₂ h₁ h₂ ho₁ ho₂
    · exact absurd ho₁ (hfree t s₁ h₁)
  · obtain ⟨s₂, h₂, ho₂⟩ | ⟨⟨op', he⟩, -⟩ := hbefore t' ses' ht' ho'
    · exact absurd ho₂ (hfree t' s₂ h₂)
    · exact (Label.begin.inj he).1

/-- How the refreshes of the family were answered. -/
def WellAnswered (K : TokenHash → Prop) (sys : Sys deps) : Prop :=
  ∀ e ∈ answers sys, ∀ raw jti bytes, e.2.1 = .refresh raw jti bytes → K (hashToken deps raw) →
    (∃ a, e.2.2 = .ok (.tokens ⟨a, bytes⟩)) ∨
      ∃ err, e.2.2 = .error err ∧ Excused (hashToken deps raw) sys.world err

/-- A step, when nobody refreshes the family, spares it. -/
theorem onward_step (hG : (family deps f K).Good sys) (hs : sys.step l = some sys') :
    Onward f K sys.world sys'.world ∧
      ((∀ t ses, sys.sessions t = some ses → ¬ ses.op.Ours deps K) →
        Spares f sys.world sys'.world) := by
  cases l with
  | exec t x =>
    obtain ⟨ses, s, k, r, c', ht, hp, -, hr, ses', -, -, -, -, -, hctx⟩ :=
      Discipline.stepExec_cases hs
    have hguar := (hG.exec ht hp hr).1
    rw [← hctx] at hguar
    exact ⟨hguar.1, fun hfree => hguar.2 (hfree t ses ht)⟩
  | env ms =>
    rw [Discipline.env_cases hs]
    exact ⟨.tick hG.inv ms, fun _ _ hu => hu⟩
  | _ =>
    rcases Accord.world_cases hs with hw | ⟨t, x, ses, s, k, out, he, -⟩ | ⟨e, he, -⟩
    · rw [hw]
      exact ⟨.refl hG.inv, fun _ _ hu => hu⟩
    · exact absurd he (by simp)
    · exact absurd he (by simp)

theorem WellAnswered.step (h : WellAnswered K sys) (hG : (family deps f K).Good sys)
    (hs : sys.step l = some sys') : WellAnswered K sys' := by
  have hkept := (onward_step hG hs).1.kept
  have hold : ∀ e ∈ answers sys, ∀ raw jti bytes, e.2.1 = .refresh raw jti bytes →
      K (hashToken deps raw) → (∃ a, e.2.2 = .ok (.tokens ⟨a, bytes⟩)) ∨
        ∃ err, e.2.2 = .error err ∧ Excused (hashToken deps raw) sys'.world err := by
    intro e he raw jti bytes hop hraw
    refine (h e he raw jti bytes hop hraw).imp_right ?_
    rintro ⟨err, herr, hex⟩
    exact ⟨err, herr, hex.kept hkept⟩
  cases l with
  | commit t =>
    obtain ⟨ses, a, ht, hp, rfl⟩ := Discipline.commit_cases hs
    intro e he
    rcases List.mem_cons.mp he with rfl | he
    · intro raw jti bytes hop hraw
      obtain ⟨r', hr', hmap⟩ := hG.post ht hp raw jti bytes hop hraw
      cases r' with
      | ok pair =>
        obtain ⟨a', bytes'⟩ := pair
        obtain rfl : bytes' = bytes := hr'.1
        exact .inl ⟨a', hmap⟩
      | error err => exact absurd hmap (by simp [Except.map])
    · exact hold e he
  | rollback t =>
    obtain ⟨ses, err, ht, hp, rfl⟩ := Discipline.rollback_cases hs
    intro e he
    rcases List.mem_cons.mp he with rfl | he
    · intro raw jti bytes hop hraw
      obtain ⟨r', hr', hmap⟩ := hG.post_error ht hp raw jti bytes hop hraw
      cases r' with
      | ok pair => exact absurd hmap (by simp [Except.map])
      | error err' =>
        obtain rfl := Except.error.inj hmap
        exact .inr ⟨err, rfl, hr'⟩
    · exact hold e he
  | begin t op =>
    obtain ⟨-, rfl⟩ := Discipline.begin_cases hs
    exact hold
  | exec t x =>
    obtain ⟨ses, s, k, r, c', -, -, -, -, ses', -, -, -, -, rfl, -⟩ := Discipline.stepExec_cases hs
    exact hold
  | crash t =>
    rw [Discipline.crash_cases hs] at hold ⊢
    exact hold
  | env e =>
    rw [Discipline.env_cases hs] at hold ⊢
    exact hold

/-- What holds of the API in every run in which everybody is polite. -/
structure FamilyRun (f : Family) (K : TokenHash → Prop) (sys : Sys deps) : Prop where
  good : (family deps f K).Good sys
  one : OneAtATime K sys
  answered : WellAnswered K sys

theorem FamilyRun.init {w : World} (hg : Guarded f K w) :
    FamilyRun f K (Txn.Sys.init w : Sys deps) where
  good := Discipline.good_init hg
  one _ _ _ _ ht := absurd ht (by simp [Txn.Sys.init])
  answered _ he := absurd he List.not_mem_nil

theorem FamilyRun.step (h : FamilyRun f K sys) (hC : Polite f K sys l)
    (hs : sys.step l = some sys') : FamilyRun f K sys' where
  good := h.good.step family_sound h.one hC hs
  one := h.one.step hC hs
  answered := h.answered.step h.good hs

end Enroll.Auth
