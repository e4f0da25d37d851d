import PushHub.Config
/-!
The limits and times that connections and the registry work with; times are in milliseconds.
-/
namespace PushHub

/-- The longest queue that the machine gives; asking for a longer one ends whoever asks. -/
def longestQueue : Nat := 0x1fffffffffffffff

/-- The last second that the monotonic clock can name; a time after it ends whoever asks for it. -/
def lastSecond : Nat := 0x7fffffffffffffff

structure ConnectionSettings where
  authTimeout : Nat := 30000
  /-- A client that sends nothing for this long is taken for dead. -/
  pongWait : Nat := 60000
  pingPeriod : Nat := 54000
  writeWait : Nat := 10000
  maxMessageBytes : Nat := 65536
  maxTransportBytes : Nat := 1048576
  maxSubscriptions : Nat := 64
  mailboxCapacity : Nat := 256
deriving DecidableEq, Repr

structure RegistrySettings where
  commandBuffer : Nat := 1024
  eventBuffer : Nat := 256
  maxConnections : Nat := 10000
  sweepInterval : Nat := 30000
deriving DecidableEq, Repr

namespace ConnectionSettings

def members (s : ConnectionSettings) : List (String × Nat) :=
  [("auth_timeout_ms", s.authTimeout), ("pong_wait_ms", s.pongWait),
    ("ping_period_ms", s.pingPeriod), ("write_wait_ms", s.writeWait),
    ("max_message_bytes", s.maxMessageBytes), ("max_transport_bytes", s.maxTransportBytes),
    ("max_subscriptions", s.maxSubscriptions), ("mailbox_capacity", s.mailboxCapacity)]

def read (lookup : String → Option Nat) : ConnectionSettings :=
  let d : ConnectionSettings := {}
  { authTimeout := (lookup "auth_timeout_ms").getD d.authTimeout
    pongWait := (lookup "pong_wait_ms").getD d.pongWait
    pingPeriod := (lookup "ping_period_ms").getD d.pingPeriod
    writeWait := (lookup "write_wait_ms").getD d.writeWait
    maxMessageBytes := (lookup "max_message_bytes").getD d.maxMessageBytes
    maxTransportBytes := (lookup "max_transport_bytes").getD d.maxTransportBytes
    maxSubscriptions := (lookup "max_subscriptions").getD d.maxSubscriptions
    mailboxCapacity := (lookup "mailbox_capacity").getD d.mailboxCapacity }

end ConnectionSettings

namespace RegistrySettings

def members (s : RegistrySettings) : List (String × Nat) :=
  [("command_buffer", s.commandBuffer), ("event_buffer", s.eventBuffer),
    ("max_connections", s.maxConnections), ("sweep_interval_ms", s.sweepInterval)]

def read (lookup : String → Option Nat) : RegistrySettings :=
  let d : RegistrySettings := {}
  { commandBuffer := (lookup "command_buffer").getD d.commandBuffer
    eventBuffer := (lookup "event_buffer").getD d.eventBuffer
    maxConnections := (lookup "max_connections").getD d.maxConnections
    sweepInterval := (lookup "sweep_interval_ms").getD d.sweepInterval }

end RegistrySettings

namespace Config

def connectionSettings (c : Config) : ConnectionSettings where
  authTimeout := 1000 * c.connection.authTimeoutSecs
  pongWait := 1000 * c.connection.pongWaitSecs
  pingPeriod := 1000 * c.connection.pingPeriodSecs
  writeWait := 1000 * c.connection.writeWaitSecs
  maxMessageBytes := c.connection.maxMessageBytes
  maxTransportBytes := c.connection.maxTransportBytes
  maxSubscriptions := c.connection.maxSubscriptions
  mailboxCapacity := c.hub.mailboxCapacity

def registrySettings (c : Config) : RegistrySettings where
  commandBuffer := c.hub.commandBuffer
  maxConnections := c.hub.maxConnections
  sweepInterval := 1000 * c.hub.sweepIntervalSecs

end Config

end PushHub
