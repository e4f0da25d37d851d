import PushHub.Auth.Verifier
import PushHub.Digest.Hmac
import PushHub.Text.Base64Url
import PushHub.Text.Bytes
/-!
Signed tokens: a header and claims in JSON, each in base64, with a code over both that only a holder
of the secret can make. The signature is checked before the claims are looked at, and expiry before
the subject.
-/
namespace PushHub.Auth

open Json (Outline Decoded Field)

structure Claims where
  subject : String
  issuedAt : Int64
  expiry : Int64
deriving DecidableEq, Repr

/-- A secret with the clock skew to tolerate, in seconds. -/
structure SigningKey where
  secret : List UInt8
  leeway : UInt64 := 60
deriving DecidableEq, Repr

def Claims.toJson (c : Claims) : Json :=
  .object [("sub", .text c.subject), ("iat", .number (.integer (.ofInt64 c.issuedAt))),
    ("exp", .number (.integer (.ofInt64 c.expiry)))]

namespace SignedToken

def header : Json := .object [("typ", .text "JWT"), ("alg", .text "HS256")]

def encodeText (s : String) : List Char := Text.Base64Url.encode (Text.utf8 s)

def signature (secret : List UInt8) (covered : List Char) : List UInt8 :=
  Digest.hmacSha256 secret (Text.utf8 (String.ofList covered))

def sign (secret : List UInt8) (c : Claims) : String :=
  let covered := encodeText header.render ++ '.' :: encodeText c.toJson.render
  String.ofList (covered ++ '.' :: Text.Base64Url.encode (signature secret covered))

def splitLast (cs : List Char) : Option (List Char × List Char) :=
  let tail := (cs.reverse.takeWhile (· ≠ '.')).reverse
  if tail.length < cs.length then some (cs.take (cs.length - tail.length - 1), tail) else none

def decodeText (cs : List Char) : Option String :=
  (Text.Base64Url.decode cs).bind Text.ofUtf8?

def algorithms : List String :=
  ["HS256", "HS384", "HS512", "ES256", "ES384", "RS256", "RS384", "RS512", "PS256", "PS384",
    "PS512", "EdDSA"]

def asAbsent : Outline → Decoded Unit
  | .null => .ok ()
  | v => v.unexpected "unit"

def optionalText (name : String) : Field := .of name (Outline.asOption Outline.asText)

/-- The algorithm that a header names. Its other known fields need the right types. -/
def readAlgorithm (v : Outline) : Decoded String := do
  let row ← v.record "struct Header"
    [optionalText "typ", .of "alg" (Outline.asName algorithms), optionalText "cty",
      optionalText "jku", .of "jwk" asAbsent, optionalText "kid", optionalText "x5u",
      .of "x5c" (Outline.asOption (Outline.asList Outline.asText)), optionalText "x5t",
      optionalText "x5t#S256"]
  row.get "alg" (Outline.asName algorithms)

def readClaims (v : Outline) : Decoded Claims := do
  let row ← v.record "struct Claims"
    [.of "sub" Outline.asText, .of "iat" Outline.asInt64, .of "exp" Outline.asInt64]
  .ok ⟨← row.get "sub" Outline.asText, ← row.get "iat" Outline.asInt64,
    ← row.get "exp" Outline.asInt64⟩

def isAudience : Outline → Bool
  | .text (some _) => true
  | .list items => (Outline.readItems Outline.asText 0 items).isOk
  | _ => false

/-- Whether the claims name an audience. They must be an object, and none of the registered claims
may come twice. -/
def readAudience : Outline → Decoded Bool
  | .object members => do
    let row ← Json.Members.row (["exp", "nbf", "sub", "iss", "aud"].map fun n =>
      Field.of n Outline.skipped) [] members
    .ok ((row.find? "aud").any isAudience)
  | v => v.unexpected "struct ClaimsForValidation"

def open? (secret : List UInt8) (token : String) : Option (Claims × Bool) := do
  let (covered, code) ← splitLast token.toList
  let (head, body) ← splitLast covered
  let algorithm ← (Json.decodeText readAlgorithm (← decodeText head)).toOption
  if algorithm ≠ "HS256" then none
  if (← Text.Base64Url.decode code) ≠ signature secret covered then none
  let text ← decodeText body
  let claims ← (Json.decodeText readClaims text).toOption
  let audience ← (Json.decodeText readAudience text).toOption
  if claims.expiry < 0 then none
  some (claims, audience)

end SignedToken

namespace SigningKey

def isExpired (k : SigningKey) (now : UInt64) (c : Claims) : Bool :=
  c.expiry.toUInt64 < now - k.leeway

def verifier (k : SigningKey) : Verifier := fun now token =>
  match SignedToken.open? k.secret token with
  | none => .error .invalidToken
  | some (claims, audience) =>
    if k.isExpired now claims then .error .expired
    else if audience then .error .invalidToken
    else match UserId.parse claims.subject with
      | .ok u => .ok u
      | .error _ => .error .unknownUser

def sign (k : SigningKey) (c : Claims) : String := SignedToken.sign k.secret c

def latest : Int := 0x7fffffffffffffff

/-- A token for a user that lasts `ttl` seconds from now, or as long as can be said. -/
def issue (k : SigningKey) (now : Int64) (u : UserId) (ttl : UInt64) : String :=
  let ttl := min (ttl.toNat : Int) latest
  k.sign ⟨u.display, now, Int64.ofInt (min (now.toInt + ttl) latest)⟩

end SigningKey

structure TokenOutline where
  parts : Nat
  header : String
  subject : String
  /-- Seconds from the time of issue to expiry; none when the token never expires. -/
  lifetime : Option Int
deriving DecidableEq, Repr

namespace TokenOutline

def ofToken? (token : String) : Option TokenOutline := do
  let (covered, _) ← SignedToken.splitLast token.toList
  let (head, body) ← SignedToken.splitLast covered
  let claims ← (Json.decodeText SignedToken.readClaims (← SignedToken.decodeText body)).toOption
  some {
    parts := 2 + (covered.filter (· = '.')).length
    header := ← SignedToken.decodeText head
    subject := claims.subject
    lifetime := if claims.expiry.toInt = SigningKey.latest then none
      else some (claims.expiry.toInt - claims.issuedAt.toInt) }

end TokenOutline

end PushHub.Auth
