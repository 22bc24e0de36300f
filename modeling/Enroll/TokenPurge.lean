/-
# The nightly purge of the token table

`purgeRefreshTokens` deletes the rows that expired a week ago while logins, refreshes and logouts go
on.  A request that never deals with a deleted row cannot tell: of every run there is one without
purges in which every request stands at the same place and has got the same answer, and whose table
has the same rows and the purged ones besides (`purge_is_invisible`).

A request that does deal with one can tell.  The token of a deleted row is unknown and no longer
revoked, so whoever replays it is refused but not found out: `Campus.replay_goes_unnoticed` has a run
in which the session lives on, as it would not without the purge.
-/
import Enroll.Machine
import Enroll.TokenChain
import Enroll.Txn.Shadow

namespace Enroll.Auth

open Txn (Label Prog Shadow Shadows Discipline)

variable {deps : Deps}

/-! ## 1. A table without some of its rows -/

/-- The columns of the row that never change are those of a row of `gone`. -/
def RefreshToken.within (gone : List RefreshToken) (r : RefreshToken) : Bool :=
  gone.contains r.fixed

/-- The table without the rows of `gone`. -/
def World.without (gone : List RefreshToken) (w : World) : World :=
  { w with refreshTokens := w.refreshTokens.filter fun r => !r.within gone }

/-- The statement deals with no row of `gone`, and draws no key of one. -/
def Stmt.Misses (gone : List RefreshToken) : Stmt → TokenId → Prop
  | refreshTokenFindUnique h, _ => ∀ r ∈ gone, r.tokenHash ≠ h
  | refreshTokenCreate d, x => ∀ r ∈ gone, r.id ≠ x ∧ r.tokenHash ≠ d.tokenHash
  | refreshTokenUpdate id _, _ => ∀ r ∈ gone, r.id ≠ id
  | now, _ => True
  | userFindUnique _, _ => True
  | refreshTokenUpdateMany _ _, _ => True

section Without

variable {gone : List RefreshToken} {w : World}

theorem within_iff {r : RefreshToken} : r.within gone = true ↔ r.fixed ∈ gone := by
  unfold RefreshToken.within
  exact List.contains_iff_mem

/-- A row that is missed is there. -/
theorem not_within {α : Type} (key : RefreshToken → α) (hkey : ∀ r, key r.fixed = key r)
    {r : RefreshToken} (h : ∀ q ∈ gone, key q ≠ key r) : r.within gone = false :=
  Bool.eq_false_iff.mpr fun hr => h _ (within_iff.mp hr) (hkey r)

theorem within_touched {r r' : RefreshToken} (h : Touched r r') : r'.within gone = r.within gone := by
  unfold RefreshToken.within
  rw [h.fixed]

/-- What is missed is found as before. -/
theorem lookup_without {α : Type} [DecidableEq α] {key : RefreshToken → α}
    (hkey : ∀ r, key r.fixed = key r) {k : α} (h : ∀ q ∈ gone, key q ≠ k) :
    Keyed.lookup key k (w.without gone).refreshTokens = Keyed.lookup key k w.refreshTokens := by
  show List.find? _ (List.filter _ _) = List.find? _ _
  rw [List.find?_filter]
  congr 1
  funext r
  by_cases hk : key r = k
  · simp [not_within key hkey (hk ▸ h), hk]
  · simp [hk]

theorem without_nil (w : World) : w.without [] = w := by
  have hall : w.refreshTokens.filter (fun r => !r.within []) = w.refreshTokens :=
    List.filter_eq_self.mpr fun _ _ => rfl
  show World.mk w.users _ w.now = w
  rw [hall]

theorem token?_without {h : TokenHash} (hm : ∀ r ∈ gone, r.tokenHash ≠ h) :
    (w.without gone).token? h = w.token? h := lookup_without (fun _ => rfl) hm

theorem hasToken_without {id : TokenId} (hm : ∀ r ∈ gone, r.id ≠ id) :
    (w.without gone).hasToken id = w.hasToken id := by
  show List.any (List.filter _ _) _ = List.any _ _
  rw [List.any_filter]
  congr 1
  funext r
  by_cases hr : r.id = id
  · simp [not_within RefreshToken.id (fun _ => rfl) (hr ▸ hm), hr]
  · simp [hr]

/-- The rows that stay are touched alike. -/
theorem map_without (gone : List RefreshToken) (w : World) {f : RefreshToken → RefreshToken}
    (hf : ∀ r, Touched r (f r)) :
    ({ w with refreshTokens := w.refreshTokens.map f } : World).without gone =
      { w with refreshTokens := (w.without gone).refreshTokens.map f } := by
  have hwithin : (fun r : RefreshToken => !r.within gone) ∘ f = fun r => !r.within gone :=
    funext fun r => by simp only [Function.comp, within_touched (hf r)]
  simp only [World.without, List.filter_map, hwithin]

theorem refuses_without {d : RefreshTokenCreate} (hm : ∀ r ∈ gone, r.tokenHash ≠ d.tokenHash) :
    (w.without gone).refuses d = w.refuses d := by
  unfold World.refuses
  rw [token?_without hm]
  rfl

/-- Whoever misses the rows does the same without them. -/
theorem effect_without {s : Stmt} {x : TokenId} (hm : s.Misses gone x) :
    s.effect x (w.without gone) = (s.effect x w).without gone := by
  cases s with
  | refreshTokenCreate d =>
    have hrefuses := refuses_without (w := w) fun r hr => (hm r hr).2
    simp only [Stmt.effect, hrefuses]
    cases w.refuses d with
    | some e => rfl
    | none =>
      have hnew : (d.row x w.now).within gone = false :=
        not_within RefreshToken.id (fun _ => rfl) fun r hr => (hm r hr).1
      simp [World.without, List.filter_append, hnew]
  | refreshTokenUpdate id d =>
    refine (map_without gone w fun r => ?_).symm
    split
    · exact ⟨rfl, fun _ => rfl⟩
    · exact .refl r
  | refreshTokenUpdateMany q t => exact (map_without gone w (touched_revoke q t)).symm
  | now => rfl
  | userFindUnique email => rfl
  | refreshTokenFindUnique h => rfl

end Without

/-! ## 2. Requests that miss the purged rows -/

/-- The table with the purged rows, as the shadow of the table without them. -/
def unpurged (deps : Deps) : Shadow (authService deps) where
  G := List RefreshToken
  rel gone w v := w = v.without gone
  later _ _ := True
  serves _ := true
  safe gone s x := s.Misses gone x
  later_refl _ := trivial
  later_trans _ _ _ _ _ := trivial
  later_effect _ _ _ _ _ := trivial

section Blind

variable {α : Type} {w : World}

/-- A statement that does not count rows. -/
theorem blind_stmt {s : Stmt} {k : s.Res → Call α}
    (hs : ∀ gone x v, s.Misses gone x → s.exec x v = s.exec x (v.without gone))
    (hk : ∀ r w, (unpurged deps).Blind (k r) w) : (unpurged deps).Blind (.stmt s k) w := by
  refine Shadow.Blind.same ?_ fun r w _ => hk r w
  rintro gone x w v - rfl hm
  exact ⟨hs gone x v hm, effect_without hm⟩

/-- How many rows an update has met is not asked. -/
theorem blind_updateMany {q : RefreshTokenWhere} {t : Time} {p : Call α}
    (hp : ∀ w, (unpurged deps).Blind p w) :
    (unpurged deps).Blind (Call.refreshTokenUpdateMany q t >>= fun _ => p) w := by
  rintro gone x w v out - rfl - hexec
  obtain rfl := Option.some.inj hexec
  have hm : (Stmt.refreshTokenUpdateMany q t).Misses gone x := trivial
  exact ⟨⟨_, rfl, rfl⟩, effect_without hm, hp _⟩

theorem blind_now {k : Time → Call α} (hk : ∀ now w, (unpurged deps).Blind (k now) w) :
    (unpurged deps).Blind (Call.now >>= k) w :=
  blind_stmt (fun _ _ _ _ => rfl) hk

theorem blind_findUnique {h : TokenHash} {k : Option StoredToken → Call α}
    (hk : ∀ found w, (unpurged deps).Blind (k found) w) :
    (unpurged deps).Blind (Call.refreshTokenFindUnique h >>= k) w := by
  refine blind_stmt (fun gone x v hm => ?_) hk
  show some _ = some _
  rw [World.stored?, World.stored?, token?_without hm]
  rfl

theorem blind_create {d : RefreshTokenCreate} {k : Unit → Call α}
    (hk : ∀ w, (unpurged deps).Blind (k ()) w) :
    (unpurged deps).Blind (Call.refreshTokenCreate d >>= k) w := by
  refine blind_stmt (fun gone x v hm => ?_) fun _ => hk
  simp only [Stmt.exec, refuses_without fun r hr => (hm r hr).2,
    hasToken_without fun r hr => (hm r hr).1]

theorem blind_update {id : TokenId} {d : RefreshTokenData} {k : Unit → Call α}
    (hk : ∀ w, (unpurged deps).Blind (k ()) w) :
    (unpurged deps).Blind (Call.refreshTokenUpdate id d >>= k) w := by
  refine blind_stmt (fun gone x v hm => ?_) fun _ => hk
  simp only [Stmt.exec, hasToken_without hm]

theorem blind_generateTokenPair {userId : UserId} {roles : List Role} {family : Family} {jti : Nat}
    {bytes : RawToken} :
    (unpurged deps).Blind (generateTokenPair deps userId roles family jti bytes) w :=
  blind_now fun _ _ => blind_create fun _ => trivial

theorem blind_reuseDetected (stored : StoredToken) :
    (unpurged deps).Blind (reuseDetected stored) w :=
  Shadow.Blind.bind (blind_now fun _ _ => blind_updateMany fun _ => trivial) fun _ _ _ => trivial

theorem blind_rotate {stored : StoredToken} {jti : Nat} {bytes : RawToken} :
    (unpurged deps).Blind (rotate deps stored jti bytes) w := by
  refine blind_now fun now w => Shadow.Blind.bind ?_ fun _ w _ => ?_
  · unfold Prog.throwIf
    split <;> trivial
  refine Shadow.Blind.bind blind_generateTokenPair fun pair w _ => ?_
  exact blind_findUnique fun replacement w => blind_now fun now w => blind_update fun w => trivial

theorem blind_refresh {raw : RawToken} {jti : Nat} {bytes : RawToken} :
    (unpurged deps).Blind (refresh deps raw jti bytes) w := by
  refine blind_findUnique fun found w => ?_
  cases found with
  | none => trivial
  | some stored =>
    show (unpurged deps).Blind (if stored.row.revoked then reuseDetected stored
      else rotate deps stored jti bytes) w
    split
    · exact blind_reuseDetected stored
    · exact blind_rotate

theorem blind_login {dto : LoginDto} {family : Family} {jti : Nat} {bytes : RawToken} :
    (unpurged deps).Blind (login deps dto family jti bytes) w := by
  refine blind_stmt (fun _ _ _ _ => rfl) fun user w => ?_
  show (unpurged deps).Blind ((Prog.orThrow _ _).bind _) w
  refine Shadow.Blind.bind ?_ fun user w _ => blind_generateTokenPair
  unfold Prog.orThrow
  split <;> trivial

theorem blind_logout {raw : RawToken} : (unpurged deps).Blind (logout deps raw) w :=
  blind_now fun _ _ => blind_updateMany fun _ => trivial

/-- **A request cannot tell whether the rows that it misses are there.** -/
theorem blind_body (op : Op) (w : World) : (unpurged deps).Blind (op.body deps) w := by
  cases op with
  | login dto family jti bytes => exact blind_login.bind fun _ _ _ => trivial
  | refresh raw jti bytes => exact blind_refresh.bind fun _ _ _ => trivial
  | logout raw => exact blind_logout.bind fun _ _ _ => trivial

end Blind

/-! ## 3. Nights -/

/-- The service, and what the purges have deleted so far. -/
structure Purging (deps : Deps) where
  sys : Sys deps
  gone : List RefreshToken

namespace Purging

inductive Event (deps : Deps) where
  | api (l : Label (authService deps))
  | purgeRefreshTokens

def init (w : World) : Purging deps := ⟨Txn.Sys.init w, []⟩

/-- The rows that a purge deletes, as they were created. -/
def expired (w : World) : List RefreshToken :=
  (w.refreshTokens.filter fun r => r.expiresAt < tokenCutoff w.now).map RefreshToken.fixed

def step (p : Purging deps) : Event deps → Option (Purging deps)
  | .api l => (p.sys.step l).map fun sys' => { p with sys := sys' }
  | .purgeRefreshTokens =>
    some ⟨{ p.sys with world := (World.purgeRefreshTokens p.sys.world).2 },
      p.gone ++ expired p.sys.world⟩

/-- No statement deals with a purged row. -/
def Unaware (p : Purging deps) : Event deps → Prop
  | .api l => ∀ t x ses s k, l = .exec t x → p.sys.sessions t = some ses → ses.prog = .stmt s k →
      Stmt.Misses p.gone s x
  | .purgeRefreshTokens => True

variable {p p' : Purging deps} {w : World}

theorem expired_within {v : World} {gone : List RefreshToken} {r : RefreshToken}
    (hr : r ∈ v.refreshTokens) :
    r.within (gone ++ expired (v.without gone)) =
      (r.within gone || decide (r.expiresAt < tokenCutoff v.now)) := by
  rw [Bool.eq_iff_iff, Bool.or_eq_true, within_iff, within_iff, List.mem_append, decide_eq_true_iff]
  refine or_congr_right' fun hno => ⟨fun h => ?_, fun h => ?_⟩
  · obtain ⟨q, hq, hqr⟩ := List.mem_map.mp h
    have hexp : q.fixed.expiresAt < tokenCutoff v.now := of_decide_eq_true (List.mem_filter.mp hq).2
    rw [hqr] at hexp
    exact hexp
  · have hkept : (!r.within gone) = true := by
      rw [Bool.not_eq_true', Bool.eq_false_iff, ne_eq, within_iff]
      exact hno
    exact List.mem_map_of_mem
      (List.mem_filter.mpr ⟨List.mem_filter.mpr ⟨hr, hkept⟩, decide_eq_true h⟩)

/-- A purge takes from the table what it adds to the rows that are gone. -/
theorem purge_without (gone : List RefreshToken) (v : World) :
    (v.without gone).purgeRefreshTokens.2 = v.without (gone ++ expired (v.without gone)) := by
  have hrows : (v.without gone).purgeRefreshTokens.2.refreshTokens =
      (v.without (gone ++ expired (v.without gone))).refreshTokens := by
    show List.filter _ (List.filter _ _) = List.filter _ _
    rw [List.filter_filter]
    refine List.filter_congr fun r hr => ?_
    rw [expired_within hr, Bool.not_or, Bool.and_comm]
    rfl
  exact congrArg (fun rows => World.mk v.users rows v.now) hrows

/-- What holds between the service and the one without purges. -/
structure Alike (p : Purging deps) (full : Sys deps) : Prop where
  shadows : Shadows (unpurged deps) p.gone p.sys full
  past : ∀ r ∈ p.gone, r.expiresAt < tokenCutoff p.sys.world.now

theorem cutoff_mono {t t' : Time} (h : t ≤ t') : tokenCutoff t ≤ tokenCutoff t' :=
  Nat.sub_le_sub_right h _

theorem now_le {sys sys' : Sys deps} {l : Label (authService deps)} (hs : sys.step l = some sys') :
    sys.world.now ≤ sys'.world.now := by
  rcases Txn.Accord.world_cases hs with
    hw | ⟨t, x, ses, s, k, out, -, -, -, -, hw⟩ | ⟨ms, -, hw⟩
  · exact Nat.le_of_eq (congrArg World.now hw.symm)
  · rw [hw]
    exact (effect_kept s x _).now
  · rw [hw]
    exact (Kept.tick _ ms).now

theorem alike_step {full : Sys deps} (h : Alike p full) {e : Event deps} (hC : Unaware p e)
    (hs : p.step e = some p') :
    Alike p' full ∨ ∃ l full', full.step l = some full' ∧ Alike p' full' := by
  cases e with
  | purgeRefreshTokens =>
    obtain rfl := Option.some.inj hs
    refine .inl ⟨h.shadows.env trivial ?_, fun r hr => ?_⟩
    · show (World.purgeRefreshTokens p.sys.world).2 = World.without _ full.world
      rw [show p.sys.world = World.without p.gone full.world from h.shadows.world, purge_without]
    · rcases List.mem_append.mp hr with hr | hr
      · exact h.past r hr
      · obtain ⟨q, hq, rfl⟩ := List.mem_map.mp hr
        exact of_decide_eq_true (List.mem_filter.mp hq).2
  | api l =>
    obtain ⟨sys', hstep, rfl⟩ := Option.map_eq_some_iff.mp hs
    have hpast : ∀ r ∈ p.gone, r.expiresAt < tokenCutoff sys'.world.now := fun r hr =>
      Nat.lt_of_lt_of_le (h.past r hr) (cutoff_mono (now_le hstep))
    by_cases henv : ∃ ms, l = .env ms
    · obtain ⟨ms, rfl⟩ := henv
      rw [Discipline.env_cases hstep] at hpast ⊢
      refine .inr ⟨.env ms, _, rfl, h.shadows.env trivial ?_, hpast⟩
      show ({ p.sys.world with now := _ } : World) = World.without _ { full.world with now := _ }
      rw [show p.sys.world = World.without p.gone full.world from h.shadows.world]
      rfl
    · have hsafe : (unpurged deps).Safe p.gone p.sys l :=
        fun t x ses s k hl ht _ hp => hC t x ses s k hl ht hp
      have hstep' := (Shadows.step (fun op w _ => blind_body op w)
        (fun op w hno => absurd hno (by simp [unpurged])) h.shadows
        (fun ms he => henv ⟨ms, he⟩) hsafe hstep).2
      rcases hstep' with h' | ⟨-, full', hfull, h'⟩
      · exact .inl ⟨h', hpast⟩
      · exact .inr ⟨l, full', hfull, h', hpast⟩

/-- **A purge is invisible to whoever does not deal with the rows that it has deleted.** -/
theorem purge_is_invisible (hr : Machine.Reach step Unaware (init w : Purging deps) p) :
    ∃ full : Sys deps, Txn.Sys.Reach (fun _ _ => True) (Txn.Sys.init w) full ∧
      full.sessions = p.sys.sessions ∧ full.finished = p.sys.finished ∧
      p.sys.world = World.without p.gone full.world ∧
      ∀ r ∈ World.refreshTokens full.world, tokenCutoff (World.now full.world) ≤ r.expiresAt →
        r ∈ World.refreshTokens p.sys.world := by
  have hrun : ∃ full : Sys deps,
      Txn.Sys.Reach (fun _ _ => True) (Txn.Sys.init w) full ∧ Alike p full := by
    induction hr with
    | refl => exact ⟨_, .refl, .init (without_nil w).symm, fun r hr => absurd hr List.not_mem_nil⟩
    | tail _ hC hs ih =>
      obtain ⟨full, hreach, h⟩ := ih
      rcases alike_step h hC hs with h' | ⟨l, full', hfull, h'⟩
      · exact ⟨full, hreach, h'⟩
      · exact ⟨full', hreach.tail trivial hfull, h'⟩
  obtain ⟨full, hreach, h⟩ := hrun
  have hworld : p.sys.world = World.without p.gone full.world := h.shadows.world
  refine ⟨full, hreach, funext fun t => ?_, ?_, hworld, fun r hr hlive => ?_⟩
  · rw [h.shadows.sessions t]
    cases p.sys.sessions t <;> rfl
  · rw [h.shadows.finished]
    exact List.filter_eq_self.mpr fun _ _ => rfl
  · rw [hworld]
    refine List.mem_filter.mpr ⟨hr, ?_⟩
    rw [Bool.not_eq_true', Bool.eq_false_iff]
    intro hgone
    have hpast := h.past _ (within_iff.mp hgone)
    rw [hworld] at hpast
    exact absurd hpast (Nat.not_lt.mpr hlive)

namespace Campus

open Auth.Campus (stubs world)

instance (gone : List RefreshToken) (s : Stmt) (x : TokenId) : Decidable (s.Misses gone x) :=
  match s with
  | .refreshTokenFindUnique h => inferInstanceAs (Decidable (∀ r ∈ gone, r.tokenHash ≠ h))
  | .refreshTokenCreate d =>
    inferInstanceAs (Decidable (∀ r ∈ gone, r.id ≠ x ∧ r.tokenHash ≠ d.tokenHash))
  | .refreshTokenUpdate id _ => inferInstanceAs (Decidable (∀ r ∈ gone, r.id ≠ id))
  | .now => isTrue trivial
  | .userFindUnique _ => isTrue trivial
  | .refreshTokenUpdateMany _ _ => isTrue trivial

/-- A check of `Unaware`. -/
def unaware (p : Purging stubs) : Event stubs → Bool
  | .api (.exec t x) =>
    match (p.sys.sessions t).map Txn.Session.prog with
    | some (.stmt s _) => decide (Stmt.Misses p.gone s x)
    | _ => true
  | _ => true

theorem unaware_of_check (p : Purging stubs) (e : Event stubs) (h : unaware p e = true) :
    Unaware p e := by
  cases e with
  | purgeRefreshTokens => trivial
  | api l =>
    rintro t x ses s k rfl ht hp
    simp only [unaware, ht, Option.map_some, hp, decide_eq_true_eq] at h
    exact h

/-- Session `t` serves `op`, in `n` statements; `id` is the uuid of the row that it creates. -/
def serve (t : Nat) (op : Op) (n : Nat) (id : TokenId) : List (Event stubs) :=
  .api (.begin t op) :: List.replicate n (.api (.exec t id))

/-- User 1 refreshes, and again six days later. -/
def week : List (Event stubs) :=
  serve 0 (.refresh 1 0 2) 7 10 ++ [.api (.commit 0), .api (.env 604799000)] ++
    serve 1 (.refresh 2 0 3) 7 11 ++ [.api (.commit 1), .api (.env 2000)]

/-- The first token is purged, and the third one spent. -/
def purged : List (Event stubs) :=
  week ++ .purgeRefreshTokens :: serve 2 (.refresh 3 0 4) 7 12 ++ [.api (.commit 2)]

set_option maxRecDepth 8000 in
theorem purged_runs : (Machine.runIf step unaware (init world) purged).isSome = true := by decide

def afterPurged : Purging stubs := (Machine.runIf step unaware (init world) purged).get purged_runs

set_option maxRecDepth 8000 in
theorem purge_is_invisible_purged :
    afterPurged.gone = [⟨0, 1, 1001, 5, 0, 500, none, none⟩] ∧
      ∃ full : Sys stubs, Txn.Sys.Reach (fun _ _ => True) (Txn.Sys.init world) full ∧
        full.sessions = afterPurged.sys.sessions ∧ full.finished = afterPurged.sys.finished ∧
        afterPurged.sys.world = World.without afterPurged.gone full.world ∧
        ∀ r ∈ World.refreshTokens full.world, tokenCutoff (World.now full.world) ≤ r.expiresAt →
          r ∈ World.refreshTokens afterPurged.sys.world :=
  ⟨by decide, purge_is_invisible
    (.of_runIf unaware_of_check .refl (Option.some_get purged_runs).symm)⟩

/-- Somebody replays the first token, and the API answers in `n` statements: the hashes of the
tokens that are still good. -/
def replayed (purges : List (Event stubs)) (n : Nat) : Option (List TokenHash) :=
  (Machine.runIf step (fun _ _ => true) (init world)
    (week ++ purges ++ serve 2 (.refresh 1 0 4) n 12 ++ [.api (.rollback 2)])).map fun p =>
      ((World.refreshTokens p.sys.world).filter fun r => !r.revoked).map RefreshToken.tokenHash

set_option maxRecDepth 8000 in
/-- **After the purge a replay goes unnoticed**: the session lives on. -/
theorem replay_goes_unnoticed :
    replayed [] 3 = some [] ∧ replayed [.purgeRefreshTokens] 1 = some [1003] := by
  constructor <;> decide

end Campus

end Purging

end Enroll.Auth
