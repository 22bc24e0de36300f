/-
# Logging in, refreshing and logging out

`AuthService.login`, `refresh` and `logout` as programs over the `RefreshToken` table.  They run
outside any transaction: every statement is committed at once, and other calls come in between.

Hashing, password comparison and signing are functions of code outside the service (`Deps`).  What
`uuidv4` and `randomBytes` return to a call is an argument of the call.
-/
import Enroll.Schema
import Enroll.Txn.Autocommit

namespace Enroll.Auth

open Txn (Engine Prog Service)

abbrev TokenId := Nat
abbrev RawToken := Nat
abbrev TokenHash := Nat
abbrev Family := Nat

/-! ## 1. The tables -/

/-- The columns of `User` that the service reads. -/
structure Account where
  id : UserId
  email : String
  passwordHash : String
  roles : List Role
  deriving DecidableEq, Repr, Inhabited

structure RefreshToken where
  id : TokenId
  userId : UserId
  tokenHash : TokenHash
  family : Family
  createdAt : Time
  expiresAt : Time
  revokedAt : Option Time
  replacedById : Option TokenId
  deriving DecidableEq, Repr

/-- The columns that never change. -/
def RefreshToken.fixed (r : RefreshToken) : RefreshToken :=
  { r with revokedAt := none, replacedById := none }

def RefreshToken.revoked (r : RefreshToken) : Bool := r.revokedAt.isSome

structure World where
  users : List Account
  refreshTokens : List RefreshToken
  now : Time

namespace World

variable (w : World)

def token? (h : TokenHash) : Option RefreshToken :=
  Keyed.lookup RefreshToken.tokenHash h w.refreshTokens

def hasToken (id : TokenId) : Bool := w.refreshTokens.any (fun r => r.id == id)

def user? (id : UserId) : Option Account := Keyed.lookup Account.id id w.users

/-- `RefreshToken_pkey` and `RefreshToken_tokenHash_key`. -/
structure Valid (w : World) : Prop where
  token_id : (w.refreshTokens.map RefreshToken.id).Nodup
  token_hash : (w.refreshTokens.map RefreshToken.tokenHash).Nodup

end World

/-! ## 2. Statements -/

/-- A token with `include: { user }`. -/
structure StoredToken where
  row : RefreshToken
  user : Account
  deriving DecidableEq, Repr

/-- `refreshToken.findUnique` by hash. -/
def World.stored? (w : World) (h : TokenHash) : Option StoredToken :=
  (w.token? h).map (fun r => ⟨r, (w.user? r.userId).getD default⟩)

/-- `data` of `refreshToken.create`. -/
structure RefreshTokenCreate where
  userId : UserId
  tokenHash : TokenHash
  family : Family
  expiresAt : Time
  deriving DecidableEq, Repr

def RefreshTokenCreate.row (d : RefreshTokenCreate) (id : TokenId) (now : Time) : RefreshToken :=
  ⟨id, d.userId, d.tokenHash, d.family, now, d.expiresAt, none, none⟩

/-- The constraint that a `create` violates. -/
def World.refuses (w : World) (d : RefreshTokenCreate) : Option DbError :=
  if (w.token? d.tokenHash).isSome then some .uniqueViolation
  else if (w.user? d.userId).isNone then some .foreignKeyViolation
  else none

/-- `data` of `refreshToken.update`. -/
structure RefreshTokenData where
  revokedAt : Time
  replacedById : Option TokenId
  deriving DecidableEq, Repr

def RefreshTokenData.patch (d : RefreshTokenData) (r : RefreshToken) : RefreshToken :=
  { r with revokedAt := some d.revokedAt, replacedById := d.replacedById }

/-- `where` of `refreshToken.updateMany`; `revokedAt: null` is a part of both uses. -/
structure RefreshTokenWhere where
  tokenHash : Option TokenHash := none
  family : Option Family := none
  deriving DecidableEq, Repr

def RefreshTokenWhere.matches (q : RefreshTokenWhere) (r : RefreshToken) : Bool :=
  q.tokenHash.all (· == r.tokenHash) && q.family.all (· == r.family) && !r.revoked

/-- The row after `updateMany`, whose `data` is `{ revokedAt }`. -/
def RefreshTokenWhere.revoke (q : RefreshTokenWhere) (revokedAt : Time) (r : RefreshToken) :
    RefreshToken :=
  if q.matches r then { r with revokedAt := some revokedAt } else r

inductive Stmt where
  | now
  | userFindUnique (email : String)
  | refreshTokenFindUnique (tokenHash : TokenHash)
  | refreshTokenCreate (data : RefreshTokenCreate)
  | refreshTokenUpdate (id : TokenId) (data : RefreshTokenData)
  | refreshTokenUpdateMany (rows : RefreshTokenWhere) (revokedAt : Time)
  deriving DecidableEq, Repr

namespace Stmt

def Res : Stmt → Type
  | now => Time
  | userFindUnique _ => Option Account
  | refreshTokenFindUnique _ => Option StoredToken
  | refreshTokenCreate _ => Unit
  | refreshTokenUpdate _ _ => Unit
  | refreshTokenUpdateMany _ _ => Nat

/-- What a statement returns; `x` is the uuid that a `create` draws. -/
def exec (s : Stmt) (x : TokenId) (w : World) : Option (Except Failure (s.Res × List Empty)) :=
  match s with
  | now => some (.ok (w.now, []))
  | userFindUnique email => some (.ok (w.users.find? (fun u => u.email == email), []))
  | refreshTokenFindUnique h => some (.ok (w.stored? h, []))
  | refreshTokenCreate d =>
    if w.hasToken x then none
    else
      match w.refuses d with
      | some e => some (.error (.db e))
      | none => some (.ok ((), []))
  | refreshTokenUpdate id _ =>
    if w.hasToken id then some (.ok ((), [])) else some (.error (.db .recordNotFound))
  | refreshTokenUpdateMany q _ => some (.ok (w.refreshTokens.countP q.matches, []))

/-- What a statement does. -/
def effect (s : Stmt) (x : TokenId) (w : World) : World :=
  match s with
  | now => w
  | userFindUnique _ => w
  | refreshTokenFindUnique _ => w
  | refreshTokenCreate d =>
    match w.refuses d with
    | some _ => w
    | none => { w with refreshTokens := w.refreshTokens ++ [d.row x w.now] }
  | refreshTokenUpdate id d =>
    { w with refreshTokens := Keyed.update RefreshToken.id id d.patch w.refreshTokens }
  | refreshTokenUpdateMany q t =>
    { w with refreshTokens := w.refreshTokens.map (q.revoke t) }

end Stmt

/-- The database of the service, one statement at a time.  From outside, time passes. -/
abbrev tokenStore : Engine where
  World := World
  Write := Empty
  Key := Empty
  Stmt := Stmt
  Res := Stmt.Res
  Input := TokenId
  Env := Time
  Err := Failure
  decKey := inferInstance
  apply w _ := w
  env w ms := { w with now := w.now + ms }
  exec := Stmt.exec
  locks _ _ _ := []
  effect := Stmt.effect

instance : Txn.Autocommit tokenStore :=
  ⟨inferInstanceAs (IsEmpty Empty), inferInstanceAs (IsEmpty Empty)⟩

/-- A program of the service. -/
abbrev Call (α : Type) : Type := Prog tokenStore α

namespace Call

def now : Call Time := Prog.lift (E := tokenStore) Stmt.now

def userFindUnique (email : String) : Call (Option Account) :=
  Prog.lift (E := tokenStore) (.userFindUnique email)

def refreshTokenFindUnique (h : TokenHash) : Call (Option StoredToken) :=
  Prog.lift (E := tokenStore) (.refreshTokenFindUnique h)

def refreshTokenCreate (d : RefreshTokenCreate) : Call Unit :=
  Prog.lift (E := tokenStore) (.refreshTokenCreate d)

def refreshTokenUpdate (id : TokenId) (d : RefreshTokenData) : Call Unit :=
  Prog.lift (E := tokenStore) (.refreshTokenUpdate id d)

def refreshTokenUpdateMany (q : RefreshTokenWhere) (revokedAt : Time) : Call Nat :=
  Prog.lift (E := tokenStore) (.refreshTokenUpdateMany q revokedAt)

end Call

/-! ## 3. The service -/

/-- Code outside the service. -/
structure Deps where
  /-- `createHash('sha256').update(raw).digest('hex')` -/
  sha256 : RawToken → TokenHash
  /-- `bcrypt.compare` -/
  compare : String → String → Bool
  /-- `jwt.signAsync({ sub, roles, jti })` -/
  signAsync : UserId → List Role → Nat → String
  /-- `JWT_REFRESH_EXPIRY` -/
  refreshExpiryMs : Nat

structure TokenPair where
  accessToken : String
  refreshToken : RawToken
  deriving DecidableEq, Repr

structure LoginDto where
  email : String
  password : String
  deriving DecidableEq, Repr

/-- A real hash of a value nobody can supply. -/
def DUMMY_PASSWORD_HASH : String := "$2b$10$N9qo8uLOickgx2ZMRZoMyeIjZAgcfl7p92ldGxad68LJZdL17lhWy"

/-- `new UnauthorizedException(message)`. -/
def unauthorized (message : String) : Failure := .http ⟨.unauthorized, none, message⟩

section

variable (deps : Deps)

def hashToken (raw : RawToken) : TokenHash := deps.sha256 raw

/-- `jti` and `bytes` are what `uuidv4` and `randomBytes` return. -/
def generateTokenPair (userId : UserId) (roles : List Role) (family : Family) (jti : Nat)
    (bytes : RawToken) : Call TokenPair := do
  let accessToken := deps.signAsync userId roles jti
  let tokenHash := hashToken deps bytes
  let now ← Call.now
  Call.refreshTokenCreate ⟨userId, tokenHash, family, now + deps.refreshExpiryMs⟩
  pure ⟨accessToken, bytes⟩

def revokeFamily (family : Family) : Call Unit := do
  let now ← Call.now
  let _ ← Call.refreshTokenUpdateMany { family := some family } now
  pure ()

def login (dto : LoginDto) (family : Family) (jti : Nat) (bytes : RawToken) : Call TokenPair := do
  let user ← Call.userFindUnique dto.email
  let passwordValid := deps.compare dto.password
    ((user.map Account.passwordHash).getD DUMMY_PASSWORD_HASH)
  let user ← Prog.orThrow (if passwordValid then user else none) (unauthorized "Invalid credentials")
  generateTokenPair deps user.id user.roles family jti bytes

/-- `refresh` from the clock check on, with an unrevoked token. -/
def rotate (stored : StoredToken) (jti : Nat) (bytes : RawToken) : Call TokenPair := do
  let now ← Call.now
  Prog.throwIf (stored.row.expiresAt < now) (unauthorized "Refresh token expired")
  let newPair ← generateTokenPair deps stored.user.id stored.user.roles stored.row.family jti bytes
  let newTokenHash := hashToken deps newPair.refreshToken
  let replacement ← Call.refreshTokenFindUnique newTokenHash
  let now ← Call.now
  Call.refreshTokenUpdate stored.row.id ⟨now, replacement.map (fun r => r.row.id)⟩
  pure newPair

/-- `refresh` with a revoked token: somebody replayed it. -/
def reuseDetected (stored : StoredToken) : Call TokenPair := do
  revokeFamily stored.row.family
  Prog.throw (unauthorized "Token reuse detected")

/-- `refresh` after its lookup. -/
def spend (found : Option StoredToken) (jti : Nat) (bytes : RawToken) : Call TokenPair := do
  let stored ← Prog.orThrow found (unauthorized "Invalid refresh token")
  if stored.row.revoked then reuseDetected stored else rotate deps stored jti bytes

def refresh (rawRefreshToken : RawToken) (jti : Nat) (bytes : RawToken) : Call TokenPair := do
  let tokenHash := hashToken deps rawRefreshToken
  let found ← Call.refreshTokenFindUnique tokenHash
  spend deps found jti bytes

def logout (rawRefreshToken : RawToken) : Call Unit := do
  let tokenHash := hashToken deps rawRefreshToken
  let now ← Call.now
  let _ ← Call.refreshTokenUpdateMany { tokenHash := some tokenHash } now
  pure ()

end

/-- A call, with what the random sources return to it. -/
inductive Op where
  | login (dto : LoginDto) (family : Family) (jti : Nat) (bytes : RawToken)
  | refresh (rawRefreshToken : RawToken) (jti : Nat) (bytes : RawToken)
  | logout (rawRefreshToken : RawToken)
  deriving DecidableEq, Repr

inductive Out where
  | tokens (pair : TokenPair)
  | done
  deriving DecidableEq, Repr

def Op.body (deps : Deps) : Op → Call Out
  | login dto family jti bytes => do
    let pair ← Auth.login deps dto family jti bytes
    pure (.tokens pair)
  | refresh raw jti bytes => do
    let pair ← Auth.refresh deps raw jti bytes
    pure (.tokens pair)
  | logout raw => do
    Auth.logout deps raw
    pure .done

/-- The service. -/
abbrev authService (deps : Deps) : Service tokenStore := ⟨Op, Out, Op.body deps⟩

abbrev Sys (deps : Deps) := Txn.Sys (authService deps)

end Enroll.Auth
