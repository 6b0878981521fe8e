import Coordin8.Core.Records
import Coordin8.Support.Text
import Mathlib.Data.Countable.Basic
import Mathlib.Logic.Equiv.List

/-!
# Tokens between the services

`coordin8-auth`: a service checks the bearer token of every call it gets with
its `AuthConfig`, and attaches a token of its own to the calls it makes with a
`ClientAuthConfig`.  `client_config` derives the second from the first, so a
service and its peers with the same configuration should accept each other.

Signing and parsing are `jsonwebtoken`'s.  What is assumed of it is that a token
signed with a secret is read back under that secret, that leaving out the check
of the signature refuses nothing more, and that a token can be sent as metadata.
-/

namespace Coordin8.Auth

open Support

structure Claims where
  sub : String
  exp : Int
  iat : Int
  scope : Option String
  iss : Option String
deriving DecidableEq, Repr

/-- A byte that may stand in a metadata value that is text. -/
def isVisibleAscii (c : Char) : Bool :=
  (32 ≤ c.toNat && c.toNat < 127) || c == '\t'

/-- `encode` and `decode` with HS256; the secret is `none` when the signature is
not checked. -/
structure Jwt where
  encode : (secret : String) → Claims → String
  decode : (secret : Option String) → (token : String) → Except String Claims
  decode_encode : ∀ secret claims,
    decode (some secret) (encode secret claims) = .ok claims
  decode_unchecked : ∀ secret token claims,
    decode (some secret) token = .ok claims → decode none token = .ok claims
  encode_visible : ∀ secret claims,
    (encode secret claims).toList.all isVisibleAscii = true

/-- The metadata of a request, each value as its bytes. -/
abbrev Metadata := DashMap String String

def unauthenticated (message : String) : Status :=
  ⟨.unauthenticated, message⟩

variable (jwt : Jwt)

/-! ## Minting -/

/-- Mint a signed token at the time `now`, or nothing when the sum of times
panics. -/
def mintToken (now : Timestamp) (secret subject : String) (ttl : Int)
    (scope issuer : Option String) : Option String :=
  if minUtc ≤ now + ttl ∧ now + ttl ≤ maxUtc then
    some (jwt.encode secret
      { sub := subject
        iat := timestamp now
        exp := timestamp (now + ttl)
        scope := scope
        iss := issuer })
  else
    none

/-- What an outgoing call gets its token from: a function of the time, without a
value when it panics. -/
abbrev TokenProvider := Timestamp → Option (Option String)

structure ClientAuthConfig where
  provider : Option TokenProvider

structure ClientAuthInterceptor where
  provider : Option TokenProvider

namespace ClientAuthConfig

/-- Attach no token. -/
def trust : ClientAuthConfig where
  provider := none

/-- The term of a token minted for a call. -/
def selfMintedTtl : Int := 5 * 60 * second

/-- Mint a token for each call. -/
def selfMinted (secret subject : String) : ClientAuthConfig where
  provider := some fun now =>
    (mintToken jwt now secret subject selfMintedTtl none none).map some

def interceptor (client : ClientAuthConfig) : ClientAuthInterceptor where
  provider := client.provider

end ClientAuthConfig

/-- The metadata of a call made at the time `now`. -/
def ClientAuthInterceptor.call (client : ClientAuthInterceptor)
    (now : Timestamp) (metadata : Metadata) : Option (Except Status Metadata) :=
  match client.provider with
  | none => some (.ok metadata)
  | some provider =>
      (provider now).map fun
        | none => .ok metadata
        | some token =>
            let value := "Bearer " ++ token
            if value.toList.all isVisibleAscii then
              .ok (metadata.insert "authorization" value)
            else
              .error ⟨.internal, "token is not valid metadata"⟩

/-! ## Validation -/

def extractBearerToken (metadata : Metadata) : Except Status String :=
  match metadata["authorization"]? with
  | none => .error (unauthenticated "missing authorization metadata")
  | some raw =>
      if raw.toList.all isVisibleAscii then
        match stripPrefix "Bearer " raw with
        | some token => .ok token
        | none => .error
            (unauthenticated "authorization metadata must be a Bearer token")
      else
        .error (unauthenticated "authorization metadata is not valid UTF-8")

def decodeAndVerify (token secret : String) : Except Status Claims :=
  (jwt.decode (some secret) token).mapError fun e =>
    unauthenticated ("invalid token: " ++ e)

def decodeUnverified (token : String) : Except Status Claims :=
  (jwt.decode none token).mapError fun e =>
    unauthenticated ("malformed token: " ++ e)

def validateBaseline (now : Timestamp) (claims : Claims)
    (requiredIssuer : Option String) : Except Status Unit :=
  if claims.exp ≤ timestamp now then
    .error (unauthenticated "token expired")
  else
    match requiredIssuer with
    | none => .ok ()
    | some required =>
        if claims.iss ≠ some required then
          .error (unauthenticated "token issuer not trusted")
        else
          .ok ()

structure AuthConfig where
  /-- Without a secret nothing is checked. -/
  secret : Option String
  verifySignature : Bool
  issuer : Option String
  claimsCheck : Option (Claims → Except Status Unit)

namespace AuthConfig

/-- The configuration from the two environment variables. -/
def fromEnv (secretVar verifyVar : Option String) : AuthConfig where
  secret := secretVar.filter fun s => !s.isEmpty
  verifySignature := (verifyVar.map fun v => v != "false" && v != "0").getD true
  issuer := none
  claimsCheck := none

def withIssuer (config : AuthConfig) (issuer : String) : AuthConfig :=
  { config with issuer := some issuer }

/-- What the service attaches to its own calls. -/
def clientConfig (config : AuthConfig) (subject : String) : ClientAuthConfig :=
  match config.secret with
  | some secret => .selfMinted jwt secret subject
  | none => .trust

/-- The check of a call that comes in at the time `now`. -/
def validate (config : AuthConfig) (now : Timestamp) (metadata : Metadata) :
    Except Status Unit :=
  match config.secret with
  | none => .ok ()
  | some secret => do
      let token ← extractBearerToken metadata
      let claims ←
        if config.verifySignature then decodeAndVerify jwt token secret
        else decodeUnverified jwt token
      validateBaseline now claims config.issuer
      match config.claimsCheck with
      | some check => check claims
      | none => pure ()

end AuthConfig

/-! ## A service and its own tokens -/

section OwnTokens

variable {jwt} {secret subject : String} {now : Timestamp}

/-- The claims of a token minted for a call. -/
def ownClaims (subject : String) (now : Timestamp) : Claims where
  sub := subject
  exp := timestamp (now + ClientAuthConfig.selfMintedTtl)
  iat := timestamp now
  scope := none
  iss := none

/-- The metadata of a call with a token minted for it. -/
def ownMetadata (jwt : Jwt) (secret subject : String) (now : Timestamp)
    (metadata : Metadata) : Metadata :=
  metadata.insert "authorization"
    ("Bearer " ++ jwt.encode secret (ownClaims subject now))

theorem visible_bearer (claims : Claims) :
    ("Bearer " ++ jwt.encode secret claims).toList.all isVisibleAscii = true := by
  rw [String.toList_append, List.all_append, jwt.encode_visible]
  decide

/-- A call is made with its own token, if the end of the token's term is a
time. -/
theorem call_selfMinted (metadata : Metadata) :
    (ClientAuthConfig.selfMinted jwt secret subject).interceptor.call now
        metadata =
      if minUtc ≤ now + ClientAuthConfig.selfMintedTtl ∧
          now + ClientAuthConfig.selfMintedTtl ≤ maxUtc then
        some (.ok (ownMetadata jwt secret subject now metadata))
      else
        none := by
  simp only [ClientAuthInterceptor.call, ClientAuthConfig.interceptor,
    ClientAuthConfig.selfMinted, mintToken]
  split
  · simp only [Option.map_some, visible_bearer, if_true]
    rfl
  · rfl

theorem extractBearerToken_own (metadata : Metadata) :
    extractBearerToken (ownMetadata jwt secret subject now metadata) =
      .ok (jwt.encode secret (ownClaims subject now)) := by
  have hraw : (ownMetadata jwt secret subject now metadata)["authorization"]? =
      some ("Bearer " ++ jwt.encode secret (ownClaims subject now)) := by
    simp [ownMetadata]
  have hstrip := stripPrefix_eq_some_iff.mpr
    (rfl : "Bearer " ++ jwt.encode secret (ownClaims subject now) = _)
  simp only [extractBearerToken, hraw, visible_bearer, if_true, hstrip]

/-- What `validate` says to a call with a token of the service's own: the
signature is no obstacle, with or without its check. -/
theorem validate_own {config : AuthConfig} (hsecret : config.secret = some secret)
    (hcheck : config.claimsCheck = none) (later : Timestamp)
    (metadata : Metadata) :
    config.validate jwt later (ownMetadata jwt secret subject now metadata) =
      validateBaseline later (ownClaims subject now) config.issuer := by
  have hverified : decodeAndVerify jwt
      (jwt.encode secret (ownClaims subject now)) secret =
        .ok (ownClaims subject now) := by
    rw [decodeAndVerify, jwt.decode_encode]
    rfl
  have hunverified : decodeUnverified jwt
      (jwt.encode secret (ownClaims subject now)) =
        .ok (ownClaims subject now) := by
    rw [decodeUnverified,
      jwt.decode_unchecked _ _ _ (jwt.decode_encode secret _)]
    rfl
  simp only [AuthConfig.validate, hsecret, hcheck, extractBearerToken_own, bind,
    Except.bind, hverified, hunverified, ite_self]
  cases validateBaseline later (ownClaims subject now) config.issuer <;> rfl

/-- The token that a service attaches to a call is accepted by the same
configuration until its last second, exactly when no issuer is required: the
token names none. -/
theorem own_token_accepted (jwt : Jwt) (config : AuthConfig) {secret : String}
    (hsecret : config.secret = some secret) (hcheck : config.claimsCheck = none)
    (subject : String) (t : Timestamp) (metadata : Metadata) :
    (∀ sent, (config.clientConfig jwt subject).interceptor.call t metadata =
        some (.ok sent) →
      ∃ token claims, sent = metadata.insert "authorization" ("Bearer " ++ token) ∧
        jwt.decode (some secret) token = .ok claims ∧
        claims.exp = timestamp (t + 5 * 60 * second) ∧
        ∀ later, t ≤ later → timestamp later < claims.exp →
          (config.validate jwt later sent = .ok () ↔ config.issuer = none)) ∧
    (minUtc ≤ t → t + 5 * 60 * second ≤ maxUtc →
      ∃ sent, (config.clientConfig jwt subject).interceptor.call t metadata =
        some (.ok sent)) := by
  have hclient : config.clientConfig jwt subject =
      .selfMinted jwt secret subject := by
    simp only [AuthConfig.clientConfig, hsecret]
  rw [hclient, call_selfMinted]
  constructor
  · intro sent hsent
    split at hsent
    · obtain rfl := Except.ok.inj (Option.some.inj hsent)
      refine ⟨jwt.encode secret (ownClaims subject t), ownClaims subject t, rfl,
        jwt.decode_encode _ _, rfl, fun later _ hlater => ?_⟩
      rw [validate_own hsecret hcheck]
      unfold validateBaseline
      rw [if_neg (Int.not_le.mpr hlater)]
      cases config.issuer <;> simp [ownClaims]
    · cases hsent
  · intro hmin hmax
    have hlater : minUtc ≤ t + ClientAuthConfig.selfMintedTtl :=
      Int.le_trans hmin (Int.le_add_of_nonneg_right (by decide))
    exact ⟨_, if_pos ⟨hlater, hmax⟩⟩

end OwnTokens

/-! ### A format of tokens -/

theorem countable_claims : Countable Claims := by
  have hchar : Countable Char :=
    Function.Injective.countable (f := Char.toNat) fun _ _ => Char.toNat_inj.mp
  have hstring : Countable String :=
    Function.Injective.countable (f := String.toList) fun _ _ =>
      String.toList_inj.mp
  refine Function.Injective.countable
    (f := fun c : Claims => (c.sub, c.exp, c.iat, c.scope, c.iss)) ?_
  rintro ⟨⟩ ⟨⟩ h
  simpa using h

/-- A format that numbers the claims and writes a number as so many letters. -/
noncomputable def countedJwt : Jwt :=
  have hcount := countable_claims
  let number := (exists_injective_nat Claims).choose
  have hnumber : Function.Injective number :=
    (exists_injective_nat Claims).choose_spec
  have hdecode : ∀ claims, (Function.partialInv number
      (String.ofList (List.replicate (number claims) 'a')).toList.length) =
        some claims := by
    intro claims
    rw [String.toList_ofList, List.length_replicate]
    exact Function.partialInv_left hnumber claims
  { encode := fun _ claims => String.ofList (List.replicate (number claims) 'a')
    decode := fun _ token =>
      match Function.partialInv number token.toList.length with
      | some claims => .ok claims
      | none => .error "InvalidToken"
    decode_encode := fun _ claims => by rw [hdecode claims]
    decode_unchecked := fun _ _ _ h => h
    encode_visible := fun _ claims => by
      rw [String.toList_ofList, List.all_eq_true]
      intro c hc
      rw [List.eq_of_mem_replicate hc]
      decide }

/-- The configuration of a service that finds a secret in its environment. -/
def shh : AuthConfig := .fromEnv (some "shh") none

theorem shh_secret : shh.secret = some "shh" := by decide

theorem own_token_accepted_shh :
    ∃ sent, (shh.clientConfig countedJwt "space").interceptor.call 0 ∅ =
        some (.ok sent) ∧
      shh.validate countedJwt (299 * second) sent = .ok () := by
  obtain ⟨haccepted, hcalls⟩ :=
    own_token_accepted countedJwt shh shh_secret rfl "space" 0 ∅
  obtain ⟨sent, hsent⟩ := hcalls (by decide) (by decide)
  obtain ⟨token, claims, -, -, hexp, hvalid⟩ := haccepted sent hsent
  exact ⟨sent, hsent, (hvalid _ (by decide) (by rw [hexp]; decide)).mpr rfl⟩

/-- With an issuer required, the token of a call is refused the moment it is
minted. -/
theorem own_token_refused :
    ∃ sent,
      ((shh.withIssuer "coordin8").clientConfig countedJwt
        "space").interceptor.call 0 ∅ = some (.ok sent) ∧
      (shh.withIssuer "coordin8").validate countedJwt 0 sent =
        .error (unauthenticated "token issuer not trusted") := by
  refine ⟨ownMetadata countedJwt "shh" "space" 0 ∅, ?_, ?_⟩
  · have hcall : ((shh.withIssuer "coordin8").clientConfig countedJwt
        "space") = .selfMinted countedJwt "shh" "space" := rfl
    rw [hcall, call_selfMinted]
    exact if_pos (by decide)
  · rw [validate_own rfl rfl]
    rfl

end Coordin8.Auth
