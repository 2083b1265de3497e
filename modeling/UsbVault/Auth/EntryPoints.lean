import UsbVault.Srp.Server

/-!
# Entry points

A token is presented to the HTTP middleware (`internal/middleware/auth.go`)
or to the WebSocket handshake (`internal/sync/websocket.go`), which lies
behind the middleware too. The middleware asks `ValidateTokenWithRevocation`,
the handshake `ValidateToken` alone (`internal/auth/jwt.go`). The handshake
accepts a token that the middleware would not take just when the token is
revoked, superseded, or bound to another device
(`upgrade_authenticated_iff`).

The JWT library is a parameter: it parses a token, verifies its signature with
a key and checks its dates. Redis is what its GETs answer.
-/

namespace UsbVault.Auth.EntryPoints

open Srp

/-! ## Tokens -/

structure Claims where
  userID : String
  deviceID : String
  type : String
  jti : String
  deviceFingerprint : String
  tokenEpoch : Int
  deriving DecidableEq, Repr

/-- A parsed token: its signing method is Ed25519, and its header's `kid`. -/
structure Token where
  ed25519 : Bool
  kid : Option String
  claims : Claims
  deriving DecidableEq, Repr

/-- What a GET answers. -/
inductive Reply where
  | failed
  | nil
  | value (text : String)
  deriving DecidableEq, Repr

abbrev Redis := String → Reply

section

variable {K : Type}

/-- The library, at the instant of the request. -/
structure Library (K : Type) where
  parse : String → Option Token
  verify : K → String → Bool
  current : Token → Bool

/-- The local key, and the keys of the rotation service where there is one. -/
structure SigningKeys (K : Type) where
  jwtPublicKey : K
  getVerificationKey : Option (String → Option K)

variable (library : Library K) (keys : SigningKeys K)

/-- The key function of `ValidateToken`. -/
def SigningKeys.keyFor (token : Token) : Option K :=
  if !token.ed25519 then none
  else
    match token.kid, keys.getVerificationKey with
    | some kid, some getVerificationKey => getVerificationKey kid
    | _, _ => some keys.jwtPublicKey

def validateToken (tokenString : String) : Except String Claims :=
  match library.parse tokenString with
  | none => .error "token is malformed"
  | some token =>
    match keys.keyFor token with
    | none => .error "token is unverifiable"
    | some key =>
      if !library.verify key tokenString then .error "token signature is invalid"
      else if !library.current token then .error "token has invalid claims"
      else if token.claims.type ≠ "access" ∧ token.claims.type ≠ "refresh" then
        .error "invalid token type"
      else .ok token.claims

/-! ## Revocation -/

def digits (cs : List Char) : Option Int :=
  if cs ≠ [] ∧ cs.all Char.isDigit then
    some (cs.foldl (fun n c => 10 * n + (c.toNat - '0'.toNat : Nat)) 0)
  else none

/-- `strconv.ParseInt(text, 10, 64)` -/
def parseInt (text : String) : Option Int :=
  let n :=
    match text.toList with
    | '-' :: cs => (digits cs).map (-·)
    | '+' :: cs => digits cs
    | cs => digits cs
  n.filter fun n => -2 ^ 63 ≤ n ∧ n < 2 ^ 63

/-- An error, a missing key and a malformed value read 0. -/
def currentEpochFromRedis (redis : Redis) (userID : String) : Int :=
  match redis ("user_epoch:" ++ userID) with
  | .failed => 0
  | .nil => 0
  | .value text => (parseInt text).getD 0

/-- The token is found revoked; an error is taken for none. -/
def Revoked (redis : Redis) (claims : Claims) : Prop :=
  ∃ text, redis ("revoked:" ++ claims.jti) = .value text ∧ text ≠ ""

instance (redis : Redis) (claims : Claims) : Decidable (Revoked redis claims) :=
  match h : redis ("revoked:" ++ claims.jti) with
  | .failed => isFalse (by simp [Revoked, h])
  | .nil => isFalse (by simp [Revoked, h])
  | .value text => decidable_of_iff (text ≠ "") (by simp [Revoked, h])

/-- `checkTokenEpochRedis` -/
def Superseded (redis : Redis) (claims : Claims) : Prop :=
  claims.tokenEpoch < currentEpochFromRedis redis claims.userID

instance (redis : Redis) (claims : Claims) : Decidable (Superseded redis claims) :=
  inferInstanceAs (Decidable (_ < _))

variable (redis : Option Redis)

/-- Without a Redis client nothing is looked up. -/
def validateTokenWithRevocation (tokenString : String) : Except String Claims :=
  match validateToken library keys tokenString with
  | .error err => .error err
  | .ok claims =>
    match redis with
    | none => .ok claims
    | some redis =>
      if Revoked redis claims then .error "token revoked"
      else if Superseded redis claims then
        .error "token revoked: superseded by newer token epoch"
      else .ok claims

/-! ## Requests -/

/-- The headers that are read, each with its first value or empty; the query's
`token`; the connection is TLS. -/
structure Request where
  authorization : String
  secWebSocketProtocol : String
  deviceFingerprint : String
  forwardedProto : String
  queryToken : String
  tls : Bool
  deriving DecidableEq, Repr

/-- `strings.SplitN(header, " ", 2)`, where it gives two parts. -/
def splitSpace (header : String) : Option (String × String) :=
  match header.toList.dropWhile (· ≠ ' ') with
  | _ :: rest => some (.ofList (header.toList.takeWhile (· ≠ ' ')), .ofList rest)
  | [] => none

/-- The middleware's token: the scheme is compared exactly. -/
def Request.bearer (r : Request) : String :=
  match splitSpace r.authorization with
  | some (scheme, token) => if scheme = "Bearer" then token else ""
  | none => ""

/-- The HTTP request that carries the token, with the other headers. -/
def Request.withToken (r : Request) (token : String) : Request :=
  { r with authorization := "Bearer " ++ token }

/-- A device-bound token, and another fingerprint or none. -/
def Request.OtherDevice (r : Request) (claims : Claims) : Prop :=
  claims.deviceFingerprint ≠ "" ∧
    (r.deviceFingerprint = "" ∨ claims.deviceFingerprint ≠ r.deviceFingerprint)

instance (r : Request) (claims : Claims) : Decidable (r.OtherDevice claims) :=
  inferInstanceAs (Decidable (_ ∧ (_ ∨ _)))

/-- `AuthMiddleware`: the identity that the request goes on with, if any; or
the request is refused. -/
def authMiddleware (r : Request) : Except HttpError (Option Claims) :=
  if r.bearer = "" then .ok none
  else
    match validateTokenWithRevocation library keys redis r.bearer with
    | .error _ => .ok none
    | .ok claims =>
      if claims.type ≠ "access" then .ok none
      else if r.OtherDevice claims then .error ⟨"unauthorized", 401⟩
      else .ok (some claims)

/-- `RequireAuth` behind the middleware. -/
def Authenticates (r : Request) (claims : Claims) : Prop :=
  authMiddleware library keys redis r = .ok (some claims)

/-! ## The handshake -/

/-- `unicode.IsSpace` -/
def isSpace (c : Char) : Bool :=
  (9 ≤ c.toNat && c.toNat ≤ 13) || c.toNat ∈ [0x20, 0x85, 0xA0, 0x1680, 0x2028, 0x2029, 0x202F,
    0x205F, 0x3000] || (0x2000 ≤ c.toNat && c.toNat ≤ 0x200A)

def trimSpace (cs : List Char) : List Char :=
  ((cs.dropWhile isSpace).reverse.dropWhile isSpace).reverse

/-- `bearer-<token>` among the subprotocols. -/
def subprotocolToken (protocols : String) : Option String :=
  (protocols.toList.splitOn ',').findSome? fun p =>
    let p := trimSpace p
    if "bearer-".toList.isPrefixOf p then some (.ofList (p.drop 7)) else none

/-- `strings.EqualFold(scheme, "Bearer")`; none of its letters has a fold
outside ASCII. -/
def equalFoldBearer (scheme : String) : Bool :=
  scheme.toList.map Char.toLower = "bearer".toList

/-- The token of `extractWSToken`, empty if there is none. -/
def extractWSToken (r : Request) : String :=
  match subprotocolToken r.secWebSocketProtocol with
  | some token => token
  | none =>
    if r.queryToken ≠ "" then r.queryToken
    else
      match splitSpace r.authorization with
      | some (scheme, token) => if equalFoldBearer scheme then token else ""
      | none => ""

/-- The environment, the user's connections; and whether the library accepts
the upgrade and the pool takes the connection. -/
structure Server where
  isProduction : Bool
  userConnectionCount : String → Nat
  accept : Bool

def maxConnectionsPerUser : Nat := 5

variable (server : Server)

/-- `X-Forwarded-Proto` stands in for TLS. -/
def Server.Secure (r : Request) : Prop :=
  server.isProduction → r.tls = false → r.forwardedProto = "https"

instance (r : Request) : Decidable (server.Secure r) := inferInstanceAs (Decidable (_ → _ → _))

/-- `WSHandler.ServeHTTP`, up to the upgrade. -/
def serveHTTP (r : Request) : Except HttpError Claims :=
  if extractWSToken r = "" then .error ⟨"unauthorized: JWT required", 401⟩
  else
    match validateToken library keys (extractWSToken r) with
    | .error _ => .error ⟨"unauthorized: invalid token", 401⟩
    | .ok claims =>
      if claims.type ≠ "access" then .error ⟨"unauthorized: access token required", 401⟩
      else if ¬server.Secure r then .error ⟨"secure connection required", 403⟩
      else if server.userConnectionCount claims.userID ≥ maxConnectionsPerUser then
        .error ⟨"too many connections", 429⟩
      -- the library's own answer
      else if !server.accept then .error ⟨"Upgrade Required", 426⟩
      else .ok claims

/-- The route `/ws`, behind the middleware. -/
def upgrade (r : Request) : Except HttpError Claims :=
  match authMiddleware library keys redis r with
  | .error err => .error err
  | .ok _ => serveHTTP library keys server r

/-! ## Agreement -/

variable {library keys redis server} {r : Request} {token : String} {claims : Claims}

/-- The middleware refuses the handshake for a device-bound token of its own
header. -/
def Request.Blocked (library : Library K) (keys : SigningKeys K) (redis : Option Redis)
    (r : Request) : Prop :=
  r.bearer ≠ "" ∧ ∃ claims, validateTokenWithRevocation library keys redis r.bearer = .ok claims
    ∧ claims.type = "access" ∧ r.OtherDevice claims

/-- The rules that the handshake does not ask: the token is neither revoked
nor superseded, and bound to no other device. -/
def Honoured (redis : Option Redis) (r : Request) (claims : Claims) : Prop :=
  (∀ client ∈ redis, ¬Revoked client claims ∧ ¬Superseded client claims)
    ∧ ¬r.OtherDevice claims

theorem dropWhile_bearer :
    ("Bearer " ++ token).toList.dropWhile (· ≠ ' ') = ' ' :: token.toList := by
  rw [String.toList_append]
  rfl

theorem takeWhile_bearer :
    ("Bearer " ++ token).toList.takeWhile (· ≠ ' ') = "Bearer".toList := by
  rw [String.toList_append]
  rfl

@[simp] theorem bearer_withToken : (r.withToken token).bearer = token := by
  have hsplit : splitSpace ("Bearer " ++ token) = some ("Bearer", token) := by
    unfold splitSpace
    rw [dropWhile_bearer, takeWhile_bearer]
    simp
  rw [Request.bearer, Request.withToken, hsplit]
  simp

theorem authMiddleware_error {err : HttpError} :
    authMiddleware library keys redis r = .error err → r.Blocked library keys redis := by
  unfold authMiddleware
  intro h
  split at h
  · cases h
  · next hbearer =>
      split at h
      · cases h
      · next claims hclaims =>
          split_ifs at h with htype hother
          exact ⟨hbearer, claims, hclaims, not_not.mp htype, hother⟩

theorem authMiddleware_ok {identity : Option Claims}
    (h : authMiddleware library keys redis r = .ok identity) : ¬r.Blocked library keys redis := by
  rintro ⟨hbearer, claims, hclaims, htype, hother⟩
  rw [authMiddleware, if_neg hbearer, hclaims] at h
  simp [htype, hother] at h

/-- The handshake goes through: the middleware lets it pass, the connection is
secure, and the user may have one more. -/
def Connects (library : Library K) (keys : SigningKeys K) (redis : Option Redis)
    (server : Server) (r : Request) (claims : Claims) : Prop :=
  ¬r.Blocked library keys redis ∧ server.Secure r
    ∧ server.userConnectionCount claims.userID < maxConnectionsPerUser ∧ server.accept = true

theorem serveHTTP_ok :
    serveHTTP library keys server r = .ok claims ↔
      extractWSToken r ≠ "" ∧ validateToken library keys (extractWSToken r) = .ok claims
        ∧ claims.type = "access" ∧ server.Secure r
        ∧ server.userConnectionCount claims.userID < maxConnectionsPerUser
        ∧ server.accept = true := by
  unfold serveHTTP
  by_cases hempty : extractWSToken r = ""
  · simp [hempty]
  rw [if_neg hempty]
  cases hvalid : validateToken library keys (extractWSToken r) with
  | error err => simp
  | ok found =>
    dsimp only
    by_cases htype : found.type = "access"
    swap
    · rw [if_pos htype]
      refine iff_of_false nofun ?_
      rintro ⟨-, heq, htype', -⟩
      cases heq
      exact htype htype'
    rw [if_neg (not_not.mpr htype)]
    by_cases hsecure : server.Secure r
    swap
    · rw [if_pos hsecure]
      exact iff_of_false nofun fun h => hsecure h.2.2.2.1
    rw [if_neg (not_not.mpr hsecure)]
    by_cases hcount : server.userConnectionCount found.userID < maxConnectionsPerUser
    swap
    · rw [if_pos (Nat.le_of_not_lt hcount)]
      refine iff_of_false nofun ?_
      rintro ⟨-, heq, -, -, hcount', -⟩
      cases heq
      exact hcount hcount'
    rw [if_neg (Nat.not_le.mpr hcount)]
    by_cases haccept : server.accept = true
    swap
    · rw [if_pos (by simpa using haccept)]
      exact iff_of_false nofun fun h => haccept h.2.2.2.2.2
    rw [if_neg (by simpa using haccept)]
    constructor
    · rintro ⟨⟩
      exact ⟨hempty, rfl, htype, hsecure, hcount, haccept⟩
    · rintro ⟨-, heq, -⟩
      rw [Except.ok.inj heq]

theorem upgrade_ok :
    upgrade library keys redis server r = .ok claims ↔
      (extractWSToken r ≠ "" ∧ validateToken library keys (extractWSToken r) = .ok claims
        ∧ claims.type = "access") ∧ Connects library keys redis server r claims := by
  unfold upgrade Connects
  cases hmiddleware : authMiddleware library keys redis r with
  | error err =>
    have hblocked := authMiddleware_error hmiddleware
    simp [hblocked]
  | ok identity =>
    have hpasses := authMiddleware_ok hmiddleware
    dsimp only
    rw [serveHTTP_ok]
    simp only [hpasses, not_false_eq_true, true_and, and_assoc]

/-- **The middleware's rules**, for an access token that is valid otherwise. -/
theorem authenticates_iff (hempty : token ≠ "")
    (hvalid : validateToken library keys token = .ok claims) (htype : claims.type = "access") :
    Authenticates library keys redis (r.withToken token) claims ↔ Honoured redis r claims := by
  have hdevice : (r.withToken token).OtherDevice claims ↔ r.OtherDevice claims := Iff.rfl
  unfold Authenticates authMiddleware validateTokenWithRevocation Honoured
  rw [bearer_withToken, if_neg hempty, hvalid]
  cases redis with
  | none => by_cases hother : r.OtherDevice claims <;> simp [htype, hdevice, hother]
  | some redis =>
    by_cases hrevoked : Revoked redis claims
    · simp [hrevoked]
    by_cases hsuperseded : Superseded redis claims
    · simp [hrevoked, hsuperseded]
    by_cases hother : r.OtherDevice claims <;>
      simp [hrevoked, hsuperseded, htype, hdevice, hother]

/-- **One policy on both entry points** just when every access token that is
valid otherwise, and with which the handshake goes through, is neither
revoked nor superseded nor bound to another device. -/
theorem upgrade_authenticated_iff (library : Library K) (keys : SigningKeys K)
    (redis : Option Redis) (server : Server) (r : Request) :
    (∀ claims, upgrade library keys redis server r = .ok claims →
        Authenticates library keys redis (r.withToken (extractWSToken r)) claims) ↔
      ∀ claims, extractWSToken r ≠ "" →
        validateToken library keys (extractWSToken r) = .ok claims → claims.type = "access" →
          Connects library keys redis server r claims → Honoured redis r claims := by
  constructor
  · intro h claims hempty hvalid htype hconnects
    rw [← authenticates_iff hempty hvalid htype]
    exact h claims (upgrade_ok.mpr ⟨⟨hempty, hvalid, htype⟩, hconnects⟩)
  · intro h claims hok
    obtain ⟨⟨hempty, hvalid, htype⟩, hconnects⟩ := upgrade_ok.mp hok
    rw [authenticates_iff hempty hvalid htype]
    exact h claims hempty hvalid htype hconnects

end

/-- An access token of user `u`. -/
def sampleClaims : Claims := ⟨"u", "web", "access", "jti", "", 0⟩

/-- One key, and one token signed with it. -/
def sampleLibrary : Library Unit where
  parse text := if text = "token" then some ⟨true, none, sampleClaims⟩ else none
  verify _ text := text = "token"
  current _ := true

/-- The token after a logout. -/
def loggedOut : Redis := fun key => if key = "revoked:jti" then .value "1" else .nil

/-- The handshake of a revoked token. -/
theorem revoked_token_upgrades :
    ¬∀ (library : Library Unit) (keys : SigningKeys Unit) (redis : Option Redis)
      (server : Server) (r : Request) (claims : Claims),
      upgrade library keys redis server r = .ok claims →
        Authenticates library keys redis (r.withToken (extractWSToken r)) claims := by
  intro h
  let request : Request := ⟨"", "bearer-token", "", "", "", true⟩
  have htoken : extractWSToken request = "token" := by decide
  have hvalid : validateToken sampleLibrary ⟨(), none⟩ "token" = .ok sampleClaims := by decide
  have hconnects : Connects sampleLibrary ⟨(), none⟩ (some loggedOut) ⟨true, fun _ => 0, true⟩
      request sampleClaims := by
    refine ⟨?_, by decide, by decide, rfl⟩
    rintro ⟨hbearer, -⟩
    exact hbearer (by decide)
  have hauthenticates := h sampleLibrary ⟨(), none⟩ (some loggedOut) ⟨true, fun _ => 0, true⟩
    request sampleClaims
    (upgrade_ok.mpr ⟨by rw [htoken]; exact ⟨by decide, hvalid, rfl⟩, hconnects⟩)
  rw [htoken, authenticates_iff (by decide) hvalid rfl] at hauthenticates
  have hrevoked : Revoked loggedOut sampleClaims := ⟨"1", by decide, by decide⟩
  exact (hauthenticates.1 loggedOut rfl).1 hrevoked

end UsbVault.Auth.EntryPoints
