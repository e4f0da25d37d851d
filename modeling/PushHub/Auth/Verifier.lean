import PushHub.Identity
/-!
Credentials: a verifier maps a token to the user it proves, at a reading of the clock. Several
verifiers are asked in order, and when all refuse, the most telling refusal stands.
-/
namespace PushHub.Auth

inductive AuthError
  | invalidToken
  | expired
  | unknownUser
  | noVerifier
  | signing (reason : String)
deriving DecidableEq, Repr

namespace AuthError

def message : AuthError → String
  | .invalidToken => "invalid token"
  | .expired => "token expired"
  | .unknownUser => "token does not name a valid user"
  | .noVerifier => "no credential verifier configured"
  | .signing reason => "failed to sign token: " ++ reason

def rank : AuthError → Nat
  | .noVerifier => 0
  | .signing _ => 1
  | .invalidToken => 1
  | .unknownUser => 2
  | .expired => 3

def worse (best e : AuthError) : AuthError := if best.rank < e.rank then e else best

def tag : AuthError → String
  | .invalidToken => "InvalidToken"
  | .expired => "Expired"
  | .unknownUser => "UnknownUser"
  | .noVerifier => "NoVerifier"
  | .signing _ => "Signing"

end AuthError

instance : Failure AuthError := ⟨AuthError.tag, AuthError.message⟩

/-- Takes the time in seconds since 1970 and a token. -/
abbrev Verifier := UInt64 → String → Except AuthError UserId

namespace Verifier

def ask (now : UInt64) (token : String) (best : AuthError) : List Verifier → Except AuthError UserId
  | [] => .error best
  | v :: rest =>
    match v now token with
    | .ok u => .ok u
    | .error e => ask now token (best.worse e) rest

/-- The first verifier that accepts decides. -/
def chain (verifiers : List Verifier) : Verifier :=
  fun now token => ask now token .noVerifier verifiers

end Verifier

structure TokenTable where
  entries : List (String × UserId)
deriving Repr

namespace TokenTable

def size (t : TokenTable) : Nat := t.entries.length

def verifier (t : TokenTable) : Verifier := fun _ token =>
  match t.entries.lookup token with
  | some u => .ok u
  | none => .error .invalidToken

/-- Reads table entries; an entry for user 0 is refused. -/
def ofEntries (entries : List (String × UInt64)) : Except AuthError TokenTable := do
  .ok ⟨← entries.mapM fun (token, id) =>
    match UserId.ofUInt64 id with
    | .ok u => .ok (token, u)
    | .error _ => .error .unknownUser⟩

end TokenTable

end PushHub.Auth
