import PushHub.Channel
import PushHub.Identity
import PushHub.Auth.Verifier
import PushHub.SocketAddress
import PushHub.SystemError
import PushHub.Toml.Reader
import PushHub.Toml.Decode
import PushHub.Toml.Printer
/-!
The configuration of the daemon: defaults, then a TOML file, then overrides from the environment.
It is printed in a form that reads back as the same configuration.
-/
namespace PushHub

structure HubConfig where
  mailboxCapacity : Nat := 256
  commandBuffer : Nat := 1024
  maxConnections : Nat := 10000
  sweepIntervalSecs : Nat := 30
deriving DecidableEq, Repr

structure ConnectionConfig where
  authTimeoutSecs : Nat := 30
  pongWaitSecs : Nat := 60
  pingPeriodSecs : Nat := 54
  writeWaitSecs : Nat := 10
  maxMessageBytes : Nat := 65536
  maxTransportBytes : Nat := 1048576
  maxSubscriptions : Nat := 64
deriving DecidableEq, Repr

structure AuthConfig where
  /-- Signed tokens are accepted when there is a secret. -/
  jwtSecret : Option String := none
  jwtLeewaySecs : Nat := 60
  adminToken : Option String := none
  /-- Fixed tokens with their users, in the order of tokens. -/
  tokens : List (String × Nat) := []
deriving DecidableEq, Repr

structure Config where
  channels : List String := defaultChannels.map ChannelName.name
  listen : SocketAddress := .v4 ⟨127, 0, 0, 1⟩ 8080
  hub : HubConfig := {}
  connection : ConnectionConfig := {}
  auth : AuthConfig := {}
deriving DecidableEq, Repr

/-- Values found in the environment, each of which replaces one of the file. -/
structure Overrides where
  listen : Option String := none
  jwtSecret : Option String := none
  adminToken : Option String := none
deriving DecidableEq, Repr

namespace Overrides

def listenVariable : String := "RELAY_LISTEN"
def secretVariable : String := "RELAY_JWT_SECRET"
def adminVariable : String := "RELAY_ADMIN_TOKEN"

def read (lookup : String → Option String) : Overrides :=
  ⟨lookup listenVariable, lookup secretVariable, lookup adminVariable⟩

end Overrides

inductive ConfigFault
  | listen (text : String)
  | zero (name : String)
  | pingPeriod (ping pong : Nat)
  | transportBytes (transport message : Nat)
  | channel (e : InvalidChannel)
  | emptyToken
  | tokenUser (e : InvalidUserId)
  | credentials (e : Auth.AuthError)
deriving DecidableEq, Repr

def ConfigFault.message : ConfigFault → String
  | .listen text => Overrides.listenVariable ++ "=" ++ text ++ ": " ++ SocketAddress.refusal
  | .zero name => name ++ " must be greater than 0"
  | .pingPeriod ping pong =>
    "connection.ping_period_secs (" ++ toString ping ++
      ") must be less than connection.pong_wait_secs (" ++ toString pong ++ ")"
  | .transportBytes transport message =>
    "connection.max_transport_bytes (" ++ toString transport ++
      ") must be at least connection.max_message_bytes (" ++ toString message ++ ")"
  | .channel e => "channels: " ++ e.message
  | .emptyToken => "auth.tokens contains an empty token"
  | .tokenUser e => "auth.tokens: " ++ e.message
  | .credentials e => "auth: " ++ e.message

inductive ConfigError
  | unreadable (path : String) (reason : SystemError)
  | parse (m : Mismatch)
  | unprintable
  | invalid (f : ConfigFault)
deriving Repr

def ConfigError.message : ConfigError → String
  | .unreadable path reason => "failed to read config file " ++ path ++ ": " ++ reason.message
  | .parse m => "failed to parse config: " ++ m.message
  | .unprintable => "failed to serialize config: " ++ Toml.excess
  | .invalid f => "invalid config: " ++ f.message

def ConfigError.tag : ConfigError → String
  | .unreadable .. => "Read"
  | .parse _ => "Parse"
  | .unprintable => "Serialize"
  | .invalid _ => "Invalid"

instance : Failure ConfigError := ⟨ConfigError.tag, ConfigError.message⟩

namespace Config

/-! ## Reading -/

open Toml (Node Field Decoded)

def readAddress : Node → Decoded SocketAddress
  | .text s =>
    match SocketAddress.parse? s with
    | some a => .ok a
    | none => .error (.refused SocketAddress.refusal)
  | v => v.unexpected "socket address"

def size : Node → Decoded Nat := Node.asNat "usize"
def seconds : Node → Decoded Nat := Node.asNat "u64"

def readServer (v : Node) : Decoded SocketAddress := do
  let row ← v.section "struct ServerConfig" [.of "listen" readAddress]
  row.getD "listen" readAddress ({} : Config).listen

def readHub (v : Node) : Decoded HubConfig := do
  let row ← v.section "struct HubConfig"
    [.of "mailbox_capacity" size, .of "command_buffer" size, .of "max_connections" size,
      .of "sweep_interval_secs" seconds]
  let d : HubConfig := {}
  .ok ⟨← row.getD "mailbox_capacity" size d.mailboxCapacity,
    ← row.getD "command_buffer" size d.commandBuffer,
    ← row.getD "max_connections" size d.maxConnections,
    ← row.getD "sweep_interval_secs" seconds d.sweepIntervalSecs⟩

def readConnection (v : Node) : Decoded ConnectionConfig := do
  let row ← v.section "struct ConnectionConfig"
    [.of "auth_timeout_secs" seconds, .of "pong_wait_secs" seconds,
      .of "ping_period_secs" seconds, .of "write_wait_secs" seconds,
      .of "max_message_bytes" size, .of "max_transport_bytes" size,
      .of "max_subscriptions" size]
  let d : ConnectionConfig := {}
  .ok ⟨← row.getD "auth_timeout_secs" seconds d.authTimeoutSecs,
    ← row.getD "pong_wait_secs" seconds d.pongWaitSecs,
    ← row.getD "ping_period_secs" seconds d.pingPeriodSecs,
    ← row.getD "write_wait_secs" seconds d.writeWaitSecs,
    ← row.getD "max_message_bytes" size d.maxMessageBytes,
    ← row.getD "max_transport_bytes" size d.maxTransportBytes,
    ← row.getD "max_subscriptions" size d.maxSubscriptions⟩

def insertToken (k : String) (n : Nat) : List (String × Nat) → List (String × Nat)
  | [] => [(k, n)]
  | (k', n') :: rest =>
    if k < k' then (k, n) :: (k', n') :: rest
    else if k = k' then (k, n) :: rest
    else (k', n') :: insertToken k n rest

def readTokens (v : Node) : Decoded (List (String × Nat)) := do
  .ok ((← v.asCounts).foldl (fun done (k, n) => insertToken k n done) [])

def readAuth (v : Node) : Decoded AuthConfig := do
  let row ← v.section "struct AuthConfig"
    [.of "jwt_secret" Node.asText, .of "jwt_leeway_secs" seconds, .of "admin_token" Node.asText,
      .of "tokens" readTokens]
  let d : AuthConfig := {}
  .ok ⟨← row.getD "jwt_secret" (fun v => v.asText.map some) d.jwtSecret,
    ← row.getD "jwt_leeway_secs" seconds d.jwtLeewaySecs,
    ← row.getD "admin_token" (fun v => v.asText.map some) d.adminToken,
    ← row.getD "tokens" readTokens d.tokens⟩

def ofNode (v : Node) : Decoded Config := do
  let row ← v.section "struct RelayConfig"
    [.of "channels" Node.asTexts, .of "server" readServer, .of "hub" readHub,
      .of "connection" readConnection, .of "auth" readAuth]
  let d : Config := {}
  .ok ⟨← row.getD "channels" Node.asTexts d.channels, ← row.getD "server" readServer d.listen,
    ← row.getD "hub" readHub d.hub, ← row.getD "connection" readConnection d.connection,
    ← row.getD "auth" readAuth d.auth⟩

def parse (text : String) : Except ConfigError Config :=
  match Toml.parse? text with
  | none => .error (.parse .malformed)
  | some members => (ofNode (.table .header members)).mapError .parse

def override (c : Config) (o : Overrides) : Except ConfigError Config := do
  let listen ← match o.listen with
    | none => .ok c.listen
    | some text =>
      match SocketAddress.parse? text with
      | some a => .ok a
      | none => .error (.invalid (.listen text))
  .ok { c with
    listen := listen
    auth := { c.auth with
      jwtSecret := o.jwtSecret <|> c.auth.jwtSecret
      adminToken := o.adminToken <|> c.auth.adminToken } }

/-! ## Validation -/

def positives (c : Config) : List (String × Nat) :=
  [("hub.mailbox_capacity", c.hub.mailboxCapacity),
    ("hub.command_buffer", c.hub.commandBuffer),
    ("hub.max_connections", c.hub.maxConnections),
    ("connection.max_message_bytes", c.connection.maxMessageBytes),
    ("connection.max_subscriptions", c.connection.maxSubscriptions),
    ("hub.sweep_interval_secs", c.hub.sweepIntervalSecs),
    ("connection.auth_timeout_secs", c.connection.authTimeoutSecs),
    ("connection.ping_period_secs", c.connection.pingPeriodSecs),
    ("connection.write_wait_secs", c.connection.writeWaitSecs)]

def channelNames (c : Config) : Except ConfigFault (List ChannelName) :=
  (ChannelName.parseAll c.channels).mapError .channel

def checkToken (entry : String × Nat) : Except ConfigFault Unit :=
  if entry.1.isEmpty then .error .emptyToken
  else match UserId.ofUInt64 (UInt64.ofNat entry.2) with
    | .ok _ => .ok ()
    | .error e => .error (.tokenUser e)

def validate (c : Config) : Except ConfigFault Unit := do
  c.positives.forM fun (name, n) => if n = 0 then .error (.zero name) else .ok ()
  if c.connection.pongWaitSecs ≤ c.connection.pingPeriodSecs then
    .error (.pingPeriod c.connection.pingPeriodSecs c.connection.pongWaitSecs)
  if c.connection.maxTransportBytes < c.connection.maxMessageBytes then
    .error (.transportBytes c.connection.maxTransportBytes c.connection.maxMessageBytes)
  let _ ← c.channelNames
  c.auth.tokens.forM checkToken

def load (text : Option String) (o : Overrides) : Except ConfigError Config := do
  let c ← match text with
    | some text => parse text
    | none => .ok {}
  let c ← c.override o
  c.validate.mapError .invalid
  .ok c

/-! ## Printing -/

def numberLine (key : String) (n : Nat) : List Char := Toml.line key.toList (Text.decimal n)

def textLine (key : String) (s : String) : List Char := Toml.line key.toList (Toml.textForm s.toList)

def optionalLine (key : String) : Option String → List Char
  | none => []
  | some s => textLine key s

def printSection (name : String) (lines : List (List Char)) : List Char :=
  Toml.header name.toList ++ lines.flatten

def chars (c : Config) : List Char :=
  Toml.line "channels".toList (Toml.textsForm c.channels) ++
  printSection "server" [textLine "listen" c.listen.display] ++
  printSection "hub" [numberLine "mailbox_capacity" c.hub.mailboxCapacity,
    numberLine "command_buffer" c.hub.commandBuffer,
    numberLine "max_connections" c.hub.maxConnections,
    numberLine "sweep_interval_secs" c.hub.sweepIntervalSecs] ++
  printSection "connection" [numberLine "auth_timeout_secs" c.connection.authTimeoutSecs,
    numberLine "pong_wait_secs" c.connection.pongWaitSecs,
    numberLine "ping_period_secs" c.connection.pingPeriodSecs,
    numberLine "write_wait_secs" c.connection.writeWaitSecs,
    numberLine "max_message_bytes" c.connection.maxMessageBytes,
    numberLine "max_transport_bytes" c.connection.maxTransportBytes,
    numberLine "max_subscriptions" c.connection.maxSubscriptions] ++
  printSection "auth" [optionalLine "jwt_secret" c.auth.jwtSecret,
    numberLine "jwt_leeway_secs" c.auth.jwtLeewaySecs,
    optionalLine "admin_token" c.auth.adminToken] ++
  printSection "auth.tokens" (c.auth.tokens.map fun (k, n) => numberLine k n)

def render (c : Config) : String := String.ofList c.chars

def numbers (c : Config) : List Nat :=
  [c.hub.mailboxCapacity, c.hub.commandBuffer, c.hub.maxConnections, c.hub.sweepIntervalSecs,
    c.connection.authTimeoutSecs, c.connection.pongWaitSecs, c.connection.pingPeriodSecs,
    c.connection.writeWaitSecs, c.connection.maxMessageBytes, c.connection.maxTransportBytes,
    c.connection.maxSubscriptions, c.auth.jwtLeewaySecs] ++ c.auth.tokens.map Prod.snd

/-- The text of a configuration, unless one of its numbers is too great for that. -/
def print (c : Config) : Except ConfigError String :=
  if c.numbers.all (· ≤ Toml.greatest) then .ok c.render else .error .unprintable

end Config

end PushHub
