import PushHub.CommandLine.Arguments
import PushHub.Config
/-!
The commands of the daemon, and how arguments and environment variables say which one is meant. A
variable stands in for an option that is not given, and is held to the same rules.
-/
namespace PushHub.CommandLine

inductive Command
  | start (listen : Option SocketAddress) (jsonLogs : Bool)
  | printConfig
  | issueToken (user lifetime : UInt64)
deriving DecidableEq, Repr

structure Invocation where
  config : Option String
  command : Command
deriving DecidableEq, Repr

inductive Request
  | run (i : Invocation)
  | information
  | misuse
deriving DecidableEq, Repr

def Request.config? : Request → Option String
  | .run i => i.config
  | _ => none

abbrev Environment := String → Option String

def configVariable : String := "RELAY_CONFIG"
def jsonLogsVariable : String := "RELAY_JSON_LOGS"

def environmentNames : List String :=
  [configVariable, jsonLogsVariable, Overrides.listenVariable, Overrides.secretVariable,
    Overrides.adminVariable]

def defaultLifetime : UInt64 := 3600

/-! ## What may be given -/

def isPath (s : String) : Bool := !s.isEmpty
def isNumber (s : String) : Bool := (UserId.numeral? s.toList).isSome
def isAddress (s : String) : Bool := (SocketAddress.parse? s).isSome
def isTruth (s : String) : Bool := s = "true" || s = "false"

def configOption : String × Arity := ("config", .valued isPath)

def startLevel : Level where
  options := [configOption, ("listen", .valued isAddress), ("json-logs", .flag)]

def printLevel : Level where
  options := [configOption]

def issueLevel : Level where
  options := [configOption, ("ttl-secs", .valued isNumber)]
  operand := some isNumber

def subcommands : List String := ["start", "print-config", "issue-token"]

def topLevel : Level where
  options := [configOption]
  subcommands := "help" :: subcommands
  tellsVersion := true

/-! ## What it means -/

/-- The value of an option at one level, from the environment if it is not given. A value that is
not acceptable is refused. -/
def fromEnvironment (env : Environment) (source : String) (accepts : String → Bool) (given : Given)
    (name : String) : Option (Option String) :=
  match given.lookup name with
  | some v => some (some v)
  | none =>
    match env source with
    | some v => if accepts v then some (some v) else none
    | none => some none

def jsonLogs? (env : Environment) (given : Given) : Option Bool :=
  match given.lookup "json-logs" with
  | some _ => some true
  | none =>
    match env jsonLogsVariable with
    | some v => if isTruth v then some (v = "true") else none
    | none => some false

def numberOf (s : String) : UInt64 := (UserId.numeral? s.toList).getD 0

def command? (env : Environment) (name : String) (given : Given) : Option Command :=
  match name with
  | "start" => do
    some (.start ((given.lookup "listen").bind SocketAddress.parse?) (← jsonLogs? env given))
  | "print-config" => some .printConfig
  | "issue-token" => do
    let user ← given.lookup operandName
    some (.issueToken (numberOf user) (((given.lookup "ttl-secs").map numberOf).getD defaultLifetime))
  | _ => none

def levelOf (name : String) : Level :=
  match name with
  | "start" => startLevel
  | "issue-token" => issueLevel
  | _ => printLevel

def helpOn : List String → Request
  | [] => .information
  | [name] => if topLevel.subcommands.contains name then .information else .misuse
  | _ => .misuse

def configAt (env : Environment) (given : Given) : Option (Option String) :=
  fromEnvironment env configVariable isPath given "config"

/-- The invocation that the arguments after a subcommand complete. The inner of two paths wins. -/
def completed (env : Environment) (outer inner : Given) (name : String) : Request :=
  match configAt env outer, configAt env inner, command? env name inner with
  | some fromOuter, some fromInner, some command =>
    .run ⟨inner.lookup "config" <|> outer.lookup "config" <|> fromInner <|> fromOuter, command⟩
  | _, _, _ => .misuse

def parse (env : Environment) (args : List String) : Request :=
  match scan topLevel [] args with
  | .information => .information
  | .misuse => .misuse
  | .finished given none =>
    match configAt env given with
    | some config => .run ⟨config, .start none false⟩
    | none => .misuse
  | .finished given (some (name, rest)) =>
    if name = "help" then helpOn rest
    else match scan (levelOf name) [] rest with
      | .information => .information
      | .misuse => .misuse
      | .finished inner _ => completed env given inner name

end PushHub.CommandLine
