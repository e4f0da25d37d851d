import PushHub.Http.Message
/-!
Whether a request may go on as a WebSocket connection.
-/
namespace PushHub.Http

inductive UpgradeRefusal
  | method
  | connection
  | protocol
  | version
  | key
  | connectionState
deriving DecidableEq, Repr

def UpgradeRefusal.message : UpgradeRefusal → String
  | .method => "Request method must be `GET`"
  | .connection => "Connection header did not include 'upgrade'"
  | .protocol => "`Upgrade` header did not include 'websocket'"
  | .version => "`Sec-WebSocket-Version` header did not include '13'"
  | .key => "`Sec-WebSocket-Key` header missing"
  | .connectionState => "WebSocket request couldn't be upgraded since no upgrade state was present"

namespace Request

def lowered (bytes : List UInt8) : List Char := bytes.map fun b => (Char.ofNat b.toNat).toLower

def hasWord (word : List Char) : List Char → Bool
  | [] => word.isEmpty
  | c :: rest => word.isPrefixOf (c :: rest) || hasWord word rest

def headerIs (r : Request) (name : String) (word : List Char) : Bool :=
  match r.header? name with
  | some bytes => lowered bytes == word
  | none => false

def headerHas (r : Request) (name : String) (word : List Char) : Bool :=
  match r.header? name with
  | some bytes => (Text.ofUtf8? bytes).isSome && hasWord word (lowered bytes)
  | none => false

def upgradeRefusal? (r : Request) : Option UpgradeRefusal :=
  if r.method ≠ "GET" then some .method
  else if !r.headerHas "connection" "upgrade".toList then some .connection
  else if !r.headerIs "upgrade" "websocket".toList then some .protocol
  else if !r.headerIs "sec-websocket-version" "13".toList then some .version
  else if (r.header? "sec-websocket-key").isNone then some .key
  else if !r.upgradable then some .connectionState
  else none

end Request

def Request.webSocket (target : String) : Request where
  method := "GET"
  target := target
  headers := [("connection", Text.utf8 "Upgrade"), ("upgrade", Text.utf8 "websocket"),
    ("sec-websocket-version", Text.utf8 "13"),
    ("sec-websocket-key", Text.utf8 "dGhlIHNhbXBsZSBub25jZQ==")]
  upgradable := true

end PushHub.Http
