import PushHub.Auth.SignedToken
import PushHub.Config
/-!
The verifier that a configuration asks for: fixed tokens first, then signed ones.
-/
namespace PushHub.Auth

def tables (a : AuthConfig) : Except AuthError (List Verifier) := do
  if a.tokens.isEmpty then .ok []
  else
    let table ← TokenTable.ofEntries (a.tokens.map fun (k, n) => (k, UInt64.ofNat n))
    .ok [table.verifier]

/-- The verifier of signed tokens; an empty secret means that there are none. -/
def signed (a : AuthConfig) : List Verifier :=
  match a.jwtSecret with
  | some secret =>
    if secret.isEmpty then []
    else [(⟨Text.utf8 secret, UInt64.ofNat a.jwtLeewaySecs⟩ : SigningKey).verifier]
  | none => []

def policy (a : AuthConfig) : Except AuthError Verifier := do
  .ok (Verifier.chain ((← tables a) ++ signed a))

end PushHub.Auth
