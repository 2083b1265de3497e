import UsbVault.Lib.Bytes
import UsbVault.Lib.Calls
import UsbVault.Lib.Expiring

/-!
# Sessions

`internal/auth/jwt.go`, `token_epoch.go` and `account.go`: logins, token
refreshes, logouts, account deletions and validations, running side by side
over the `users` table and Redis. Each call is a machine whose steps are its
statements; a step reads the stores and issues one `Command`.

Identifiers (UUIDs and `randomString`) are numbers drawn in order, so none
is drawn twice. A signature verifies when the server made it. Times are in
nanoseconds. The production wiring, with a pool and a Redis client, is the
one modelled; the write-only keys `security_events:` and `theft_event:` are
left out.
-/

namespace UsbVault.Auth

open Wire Expiring

/-! ## Times -/

def millisecond : Nat := 10 ^ 6
def second : Nat := 10 ^ 9

def accessTokenTTL : Nat := 15 * 60 * second
def refreshTokenTTL : Nat := 30 * 24 * 60 * 60 * second
def revokedTokenTTL : Nat := 30 * 24 * 60 * 60 * second
def epochRedisTTL : Nat := refreshTokenTTL

/-- `jwt.NewNumericDate`: whole seconds. -/
def numericDate (t : Nat) : Nat := t / second * second

/-- The milliseconds go-redis gives a key for a duration. -/
def redisTTL (d : Nat) : Nat := max 1 (d / millisecond)

/-! ## Tokens -/

abbrev UserID := Nat
abbrev JTI := Nat
abbrev FamilyID := Nat

inductive TokenType where
  | access
  | refresh
  deriving DecidableEq, Repr

structure Claims where
  userID : UserID
  deviceID : Bytes
  type : TokenType
  jti : JTI
  familyID : FamilyID
  deviceFingerprint : Bytes
  tokenEpoch : Int
  expiresAt : Nat
  deriving DecidableEq, Repr

/-- The value of a `revoked:` key: "1", "account_deleted" or
"theft:<family>". -/
inductive Reason where
  | one
  | accountDeleted
  | theft (familyID : FamilyID)
  deriving DecidableEq, Repr

/-! ## The stores -/

structure UserRow where
  tokenEpoch : Int
  deleted : Bool
  deriving DecidableEq, Repr

/-- The clock; the `users` table; the Redis keys `user_epoch:`, `revoked:`
and `user_tokens:`; the identifiers drawn and the tokens signed so far.

The rest is history: each rotation with the token it issued; each token the
refresh script let through, with the call; each epoch written to the mirror;
the families whose tokens a reuse detection has enumerated, and those whose
revocation is under way. -/
structure Store where
  now : Nat
  users : UserID → Option UserRow
  mirror : Keys UserID Int
  revoked : Keys JTI Reason
  userTokens : UserID → List JTI
  drawn : Nat
  signed : List Claims
  rotations : List (Claims × Claims)
  claimed : List (Claims × Nat)
  mirrored : List (UserID × Int)
  enumerated : List FamilyID
  revoking : List FamilyID

def Store.empty : Store := ⟨0, fun _ => none, .empty, .empty, fun _ => [], 0, [], [], [], [], [], []⟩

/-- What a step does to the stores. -/
inductive Command where
  | nothing
  /-- `SET user_epoch:<id>` -/
  | setMirror (userID : UserID) (epoch : Int)
  /-- `SET revoked:<jti>` -/
  | setRevoked (jti : JTI) (reason : Reason) (ttl : Nat)
  /-- the refresh script's `SET ... 'EX' ttl` and `SREM` -/
  | consume (token : Claims) (call : Nat) (ttl : Nat)
  /-- `SADD user_tokens:<id>` -/
  | addTokens (userID : UserID) (jtis : List JTI)
  /-- `DEL user_tokens:<id>` -/
  | deleteTokens (userID : UserID)
  /-- `UPDATE users SET token_epoch = token_epoch + 1` -/
  | bumpEpoch (userID : UserID)
  /-- the account deletion's transaction -/
  | softDelete (userID : UserID)
  /-- two signatures, by a login or for a refresh token -/
  | issue (presented : Option Claims) (access refresh : Claims)
  /-- history: a reuse detection enumerates the user's tokens -/
  | enumerate (familyID : FamilyID)
  /-- history: its last revocation is written -/
  | endRevocation (familyID : FamilyID)
  deriving DecidableEq, Repr

namespace Store

/-- Redis's clock. -/
def clock (s : Store) : Nat := s.now / millisecond

/-- `token_epoch` is a BIGINT. -/
def maxEpoch : Int := 2 ^ 63 - 1

def updateUser (s : Store) (userID : UserID) (f : UserRow → UserRow) : Store :=
  { s with users := Function.update s.users userID ((s.users userID).map f) }

def apply (s : Store) : Command → Store
  | .nothing => s
  | .setMirror userID epoch =>
    { s with
      mirror := s.mirror.set s.clock (redisTTL epochRedisTTL) userID epoch
      mirrored := s.mirrored ++ [(userID, epoch)] }
  | .setRevoked jti reason ttl =>
    { s with revoked := s.revoked.set s.clock (redisTTL ttl) jti reason }
  | .consume token call ttl =>
    { s with
      revoked := s.revoked.set s.clock (ttl * 1000) token.jti .one
      userTokens := Function.update s.userTokens token.userID
        ((s.userTokens token.userID).filter (· ≠ token.jti))
      claimed := s.claimed ++ [(token, call)] }
  | .addTokens userID jtis =>
    { s with userTokens := Function.update s.userTokens userID (s.userTokens userID ++ jtis) }
  | .deleteTokens userID => { s with userTokens := Function.update s.userTokens userID [] }
  | .bumpEpoch userID =>
    s.updateUser userID fun row => { row with tokenEpoch := row.tokenEpoch + 1 }
  | .softDelete userID =>
    s.updateUser userID fun row => ⟨row.tokenEpoch + 1, true⟩
  | .issue presented access refresh =>
    { s with
      drawn := s.drawn + 3
      signed := s.signed ++ [access, refresh]
      rotations := s.rotations ++
        presented.toList.flatMap fun token => [(token, access), (token, refresh)] }
  | .enumerate familyID =>
    { s with
      enumerated := s.enumerated ++ [familyID]
      revoking := familyID :: s.revoking }
  | .endRevocation familyID => { s with revoking := s.revoking.erase familyID }

/-! ## Pure parts -/

/-- `ValidateToken`: a signature of ours, not expired. -/
def validateToken (s : Store) (token : Claims) : Bool :=
  decide (token ∈ s.signed) && decide (s.now < token.expiresAt)

/-- `GenerateTokenPairWithEpoch`: an empty family id asks for a new one. -/
def generateTokenPairWithEpoch (s : Store) (userID : UserID)
    (deviceID deviceFingerprint : Bytes) (familyID : Option FamilyID) (epoch : Int) :
    Claims × Claims :=
  let jti := s.drawn
  let familyID := familyID.getD (s.drawn + 1)
  let refreshJTI := s.drawn + 2
  (⟨userID, deviceID, .access, jti, familyID, deviceFingerprint, epoch,
      numericDate (s.now + accessTokenTTL)⟩,
    ⟨userID, deviceID, .refresh, refreshJTI, familyID, deviceFingerprint, epoch,
      numericDate (s.now + refreshTokenTTL)⟩)

/-- `currentEpochFromRedis`: a missing key and an error read 0. -/
def currentEpochFromRedis (s : Store) (userID : UserID) (ok : Bool) : Int :=
  if ok then (s.mirror.get s.clock userID).getD 0 else 0

end Store

/-! ## Login -/

/-- The token issue of a login: `LoadUserTokenEpoch`,
`GenerateTokenPairWithEpoch` and `RegisterIssuedTokens`. -/
inductive LoginPc where
  /-- `SELECT token_epoch FROM users` -/
  | load
  | fillMirror (epoch : Int)
  | generate (epoch : Int)
  /-- `SADD` of both identifiers -/
  | register (access refresh : Claims)
  | returned (access refresh : Claims)
  | failed
  deriving DecidableEq, Repr

def execLogin (s : Store) (userID : UserID) (deviceID : Bytes) :
    LoginPc → Bool → Command × LoginPc
  | .load, ok =>
    match if ok then s.users userID else none with
    | some row => (.nothing, .fillMirror row.tokenEpoch)
    | none => (.nothing, .failed)
  | .fillMirror epoch, ok =>
    (if ok then .setMirror userID epoch else .nothing, .generate epoch)
  | .generate epoch, ok =>
    if ok then
      let pair := s.generateTokenPairWithEpoch userID deviceID [] none epoch
      (.issue none pair.1 pair.2, .register pair.1 pair.2)
    else (.nothing, .failed)
  | .register access refresh, ok =>
    (if ok then .addTokens userID [access.jti, refresh.jti] else .nothing,
      .returned access refresh)
  | .returned access refresh, _ => (.nothing, .returned access refresh)
  | .failed, _ => (.nothing, .failed)

/-! ## Refresh -/

inductive RefreshError where
  | invalidToken
  /-- "not a refresh token" -/
  | notRefreshToken
  /-- "token refresh failed: ..." -/
  | refreshFailed
  | accountDeleted
  | tokenEpochStale
  /-- "refresh token expired" -/
  | expired
  /-- "token already used - possible theft detected" -/
  | alreadyUsed
  /-- "token revoked - possible theft detected" -/
  | theftDetected
  /-- a signature, or the validation of a token just issued, failed -/
  | generateFailed
  deriving DecidableEq, Repr

/-- The two errors of a reuse detection. -/
def RefreshError.isReuse : RefreshError → Bool
  | .alreadyUsed | .theftDetected => true
  | _ => false

/-- `RefreshAccessToken`, and `revokeTokenFamily` as its last two. -/
inductive RefreshPc where
  | validate
  /-- `SELECT token_epoch, deleted_at FROM users` -/
  | loadUser
  /-- `setEpochMirror` before `ErrTokenEpochStale` -/
  | refuseStale (dbEpoch : Int)
  /-- `time.Until(expiresAt)` -/
  | untilExpiry (currentEpoch : Int)
  /-- `atomicRevokeScript.Run` -/
  | script (currentEpoch : Int) (remainingTTL : Nat)
  | generate (currentEpoch : Int)
  | addAccess (access refresh : Claims)
  | addRefresh (access refresh : Claims)
  | succeeded (access refresh : Claims)
  /-- `SMEMBERS user_tokens:<id>` -/
  | members (err : RefreshError)
  /-- these are still to be revoked -/
  | revoking (err : RefreshError) (jtis : List JTI)
  | failed (err : RefreshError)
  deriving DecidableEq, Repr

/-- What a reason found in the script is answered with. -/
def reuseError : Reason → RefreshError
  | .theft _ => .theftDetected
  | .one | .accountDeleted => .alreadyUsed

def execRefresh (s : Store) (call : Nat) (token : Claims) :
    RefreshPc → Bool → Command × RefreshPc
  | .validate, _ =>
    if s.validateToken token = false then (.nothing, .failed .invalidToken)
    else if token.type ≠ .refresh then (.nothing, .failed .notRefreshToken)
    else (.nothing, .loadUser)
  | .loadUser, ok =>
    match if ok then s.users token.userID else none with
    | none => (.nothing, .failed .refreshFailed)
    | some row =>
      if row.deleted then (.nothing, .failed .accountDeleted)
      else if token.tokenEpoch < row.tokenEpoch then (.nothing, .refuseStale row.tokenEpoch)
      else (.nothing, .untilExpiry row.tokenEpoch)
  | .refuseStale dbEpoch, ok =>
    (if ok then .setMirror token.userID dbEpoch else .nothing, .failed .tokenEpochStale)
  | .untilExpiry currentEpoch, _ =>
    if token.expiresAt ≤ s.now then (.nothing, .failed .expired)
    else (.nothing, .script currentEpoch (token.expiresAt - s.now))
  | .script currentEpoch remainingTTL, ok =>
    if ok = false then (.nothing, .failed .refreshFailed)
    else
      match s.revoked.get s.clock token.jti with
      | some existing => (.nothing, .members (reuseError existing))
      | none =>
        -- `SET ... 'EX' 0` is an error, and the script stops there
        if remainingTTL / second = 0 then (.nothing, .failed .refreshFailed)
        else (.consume token call (remainingTTL / second), .generate currentEpoch)
  | .generate currentEpoch, ok =>
    if ok then
      let pair := s.generateTokenPairWithEpoch token.userID token.deviceID
        token.deviceFingerprint (some token.familyID) currentEpoch
      (.issue (some token) pair.1 pair.2, .addAccess pair.1 pair.2)
    else (.nothing, .failed .generateFailed)
  | .addAccess access refresh, ok =>
    (if ok then .addTokens token.userID [access.jti] else .nothing, .addRefresh access refresh)
  | .addRefresh access refresh, ok =>
    (if ok then .addTokens token.userID [refresh.jti] else .nothing, .succeeded access refresh)
  | .succeeded access refresh, _ => (.nothing, .succeeded access refresh)
  | .members err, ok =>
    if ok then (.enumerate token.familyID, .revoking err (s.userTokens token.userID))
    else (.nothing, .failed err)
  | .revoking err (jti :: jtis), ok =>
    (if ok then .setRevoked jti (.theft token.familyID) revokedTokenTTL else .nothing,
      .revoking err jtis)
  | .revoking err [], _ => (.endRevocation token.familyID, .failed err)
  | .failed err, _ => (.nothing, .failed err)

/-! ## Logout and account deletion -/

/-- The revocations both make: the tokens of the request, then the user's
set. -/
inductive SweepPc where
  | present (tokens : List Claims)
  | revokeOne (jti : JTI) (remainingTTL : Nat) (tokens : List Claims)
  /-- `SMEMBERS user_tokens:<id>` -/
  | members
  | revoking (jtis : List JTI)
  | deleteSet
  | swept
  deriving DecidableEq, Repr

def execSweep (s : Store) (userID : UserID) (reason : Reason) :
    SweepPc → Bool → Command × SweepPc
  | .present (token :: tokens), _ =>
    if s.validateToken token then
      (.nothing, .revokeOne token.jti (token.expiresAt - s.now) tokens)
    else (.nothing, .present tokens)
  | .present [], _ => (.nothing, .members)
  | .revokeOne jti remainingTTL tokens, ok =>
    (if ok then .setRevoked jti reason remainingTTL else .nothing, .present tokens)
  | .members, ok =>
    if ok then (.nothing, .revoking (s.userTokens userID)) else (.nothing, .swept)
  | .revoking (jti :: jtis), ok =>
    (if ok then .setRevoked jti reason revokedTokenTTL else .nothing, .revoking jtis)
  | .revoking [], _ => (.nothing, .deleteSet)
  | .deleteSet, ok => (if ok then .deleteTokens userID else .nothing, .swept)
  | .swept, _ => (.nothing, .swept)

/-- `HandleLogout`, with `BumpUserTokenEpoch` at its end. -/
inductive LogoutPc where
  | sweep (pc : SweepPc)
  /-- `UPDATE users SET token_epoch = token_epoch + 1 ... RETURNING token_epoch` -/
  | bump
  | fillMirror (newEpoch : Int)
  /-- with the new epoch, unless the update failed -/
  | done (newEpoch : Option Int)
  deriving DecidableEq, Repr

/-- The epoch an update of the user's row returns; it fails without a row,
and past the column's range. -/
def Store.bumpedEpoch (s : Store) (userID : UserID) (ok : Bool) : Option Int :=
  match if ok then s.users userID else none with
  | some row => if row.tokenEpoch < Store.maxEpoch then some (row.tokenEpoch + 1) else none
  | none => none

def execLogout (s : Store) (userID : UserID) : LogoutPc → Bool → Command × LogoutPc
  | .sweep .swept, _ => (.nothing, .bump)
  | .sweep pc, ok =>
    let r := execSweep s userID .one pc ok
    (r.1, .sweep r.2)
  | .bump, ok =>
    match s.bumpedEpoch userID ok with
    | some newEpoch => (.bumpEpoch userID, .fillMirror newEpoch)
    | none => (.nothing, .done none)
  | .fillMirror newEpoch, ok =>
    (if ok then .setMirror userID newEpoch else .nothing, .done (some newEpoch))
  | .done newEpoch, _ => (.nothing, .done newEpoch)

/-- `HandleDeleteAccount` -/
inductive DeletionPc where
  | transaction
  | fillMirror (newEpoch : Int)
  | sweep (newEpoch : Int) (pc : SweepPc)
  | failed
  deriving DecidableEq, Repr

def execDeletion (s : Store) (userID : UserID) (tokens : List Claims) :
    DeletionPc → Bool → Command × DeletionPc
  | .transaction, ok =>
    match s.bumpedEpoch userID ok with
    | some newEpoch => (.softDelete userID, .fillMirror newEpoch)
    | none => (.nothing, .failed)
  | .fillMirror newEpoch, ok =>
    (if ok then .setMirror userID newEpoch else .nothing, .sweep newEpoch (.present tokens))
  | .sweep newEpoch pc, ok =>
    let r := execSweep s userID .accountDeleted pc ok
    (r.1, .sweep newEpoch r.2)
  | .failed, _ => (.nothing, .failed)

/-! ## Validation -/

/-- `ValidateTokenWithRevocation`, and the type check of `AuthMiddleware`. -/
inductive ValidationPc where
  | parse
  /-- `GET revoked:<jti>` -/
  | checkRevoked
  /-- `checkTokenEpochRedis` -/
  | checkEpoch
  | accepted
  | rejected
  deriving DecidableEq, Repr

def execValidation (s : Store) (token : Claims) : ValidationPc → Bool → Command × ValidationPc
  | .parse, _ => (.nothing, if s.validateToken token then .checkRevoked else .rejected)
  | .checkRevoked, ok =>
    (.nothing,
      if ok && (s.revoked.get s.clock token.jti).isSome then .rejected else .checkEpoch)
  | .checkEpoch, ok =>
    (.nothing,
      if token.tokenEpoch < s.currentEpochFromRedis token.userID ok then .rejected
      else if token.type ≠ .access then .rejected
      else .accepted)
  | .accepted, _ => (.nothing, .accepted)
  | .rejected, _ => (.nothing, .rejected)

/-! ## The service -/

/-- A call: its request and where it is. -/
inductive Call where
  | login (userID : UserID) (deviceID : Bytes) (pc : LoginPc)
  | refresh (token : Claims) (pc : RefreshPc)
  | logout (userID : UserID) (pc : LogoutPc)
  | deleteAccount (userID : UserID) (tokens : List Claims) (pc : DeletionPc)
  | validate (token : Claims) (pc : ValidationPc)
  deriving DecidableEq, Repr

/-- What a client asks for, with the tokens its request carries. -/
inductive Request where
  | login (userID : UserID) (deviceID : Bytes)
  | refresh (token : Claims)
  | logout (userID : UserID) (tokens : List Claims)
  | deleteAccount (userID : UserID) (tokens : List Claims)
  | validate (token : Claims)
  deriving DecidableEq, Repr

def Request.call : Request → Call
  | .login userID deviceID => .login userID deviceID .load
  | .refresh token => .refresh token .validate
  | .logout userID tokens => .logout userID (.sweep (.present tokens))
  | .deleteAccount userID tokens => .deleteAccount userID tokens .transaction
  | .validate token => .validate token .parse

/-- What the world does: time passes; a request arrives; a user registers;
Redis loses its keys. -/
inductive Event where
  | tick (nanoseconds : Nat)
  | request (request : Request)
  | register (userID : UserID)
  | cacheLoss
  deriving DecidableEq, Repr

def world (s : Store) : Event → Store × Option Call
  | .tick nanoseconds => ({ s with now := s.now + nanoseconds }, none)
  | .request request => (s, some request.call)
  | .register userID =>
    (match s.users userID with
      | some _ => s
      | none => { s with users := Function.update s.users userID (some ⟨0, false⟩) }, none)
  | .cacheLoss => ({ s with mirror := .empty, revoked := .empty, userTokens := fun _ => [] }, none)

/-- The next statement of a call, and where the call is after it. -/
def Call.exec (s : Store) (k : Nat) : Call → Bool → Command × Call
  | .login userID deviceID pc, ok =>
    let r := execLogin s userID deviceID pc ok
    (r.1, .login userID deviceID r.2)
  | .refresh token pc, ok =>
    let r := execRefresh s k token pc ok
    (r.1, .refresh token r.2)
  | .logout userID pc, ok =>
    let r := execLogout s userID pc ok
    (r.1, .logout userID r.2)
  | .deleteAccount userID tokens pc, ok =>
    let r := execDeletion s userID tokens pc ok
    (r.1, .deleteAccount userID tokens r.2)
  | .validate token pc, ok =>
    let r := execValidation s token pc ok
    (r.1, .validate token r.2)

abbrev Sessions := Calls.State Store Call

/-- The outcome of a statement: it is executed and answered, or it fails. -/
abbrev Action := Calls.Action Event Bool

def service : Calls.Service Store Call Event Bool where
  world := world
  exec k s call ok := (s.apply (call.exec s k ok).1, (call.exec s k ok).2)

def start : Sessions := ⟨.empty, []⟩

end UsbVault.Auth
