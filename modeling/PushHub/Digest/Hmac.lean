import PushHub.Digest.Sha256
/-!
Message authentication with a secret key, over SHA-256.
-/
namespace PushHub.Digest

/-- A key brought to the length of a block; a longer one is hashed first. -/
def blockKey (key : List UInt8) : List UInt8 :=
  let k := if 64 < key.length then sha256 key else key
  k ++ List.replicate (64 - k.length) 0

def hmacSha256 (key message : List UInt8) : List UInt8 :=
  let k := blockKey key
  sha256 (k.map (· ^^^ 0x5c) ++ sha256 (k.map (· ^^^ 0x36) ++ message))

end PushHub.Digest
