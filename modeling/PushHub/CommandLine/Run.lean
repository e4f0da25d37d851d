import PushHub.CommandLine.Command
import PushHub.Http.Site
import PushHub.Report
import PushHub.Server
/-!
What a command comes to. Everything is settled here up to the point where a server would begin to
listen: the output, or the report of what went wrong.
-/
namespace PushHub.CommandLine

inductive Conclusion
  | printed (output : String)
  | serving (site : Http.Site) (address : SocketAddress)
  | failed (r : Report)
  | aborted

def configReport (e : ConfigError) : Report :=
  ⟨e.message, match e with
    | .unreadable _ reason => [reason.message]
    | .parse m => [m.message]
    | .unprintable => [Toml.excess]
    | .invalid _ => []⟩

def serverReport (e : ServerError) : Report := ⟨e.message, [e.cause.message]⟩

/-- What the commands find around them: the text of the configuration file, the overrides, the host
and the time in seconds since 1970. -/
structure World where
  file : String → Except SystemError String
  environment : Environment
  host : Host
  now : UInt64

namespace World

def config (w : World) (path : Option String) : Except ConfigError Config := do
  let text ← match path with
    | none => .ok none
    | some p =>
      match w.file p with
      | .ok text => .ok (some text)
      | .error e => .error (.unreadable p e)
  Config.load text (Overrides.read w.environment)

def start (w : World) (c : Config) : Conclusion :=
  match Hub.ofConfig c w.now with
  | .error (.invalid e) =>
    .failed (Report.wrap ⟨(ConfigError.invalid e).message, []⟩ "Failed to build hub")
  | .error (.queueTooLong _) => .aborted
  | .ok hub =>
    match w.host.bind c.listen with
    | .error e => .failed (serverReport e)
    | .ok _ => .serving (.create hub c.auth.adminToken) c.listen

def missingSecret : Report :=
  ⟨"No JWT secret configured (set auth.jwt_secret or RELAY_JWT_SECRET)", []⟩

/-- A token for a user, as a line of output. An empty secret is none. -/
def issueToken (w : World) (c : Config) (user lifetime : UInt64) : Conclusion :=
  match c.auth.jwtSecret.filter fun s => !s.isEmpty with
  | none => .failed missingSecret
  | some secret =>
    match UserId.ofUInt64 user with
    | .error e => .failed ⟨"Invalid user id", [e.message]⟩
    | .ok u =>
      let key : Auth.SigningKey := ⟨Text.utf8 secret, 60⟩
      .printed (key.issue w.now.toInt64 u lifetime ++ "\n")

def run (w : World) (i : Invocation) : Conclusion :=
  match w.config i.config with
  | .error e => .failed ((configReport e).wrap "Failed to load config")
  | .ok c =>
    match i.command with
    | .start listen _ => w.start { c with listen := listen.getD c.listen }
    | .printConfig =>
      match c.print with
      | .ok text => .printed text
      | .error e => .failed ((configReport e).wrap "Failed to render config")
    | .issueToken user lifetime => w.issueToken c user lifetime

end World

structure Exit where
  code : Nat
  output : String := ""
  report : String := ""
deriving DecidableEq, Repr

def Conclusion.exit : Conclusion → Exit
  | .printed output => { code := 0, output := output }
  | .serving .. => { code := 0 }
  | .failed r => { code := 1, report := r.render }
  | .aborted => { code := 101 }

def execute (w : World) (args : List String) : Exit :=
  match parse w.environment args with
  | .run i => (w.run i).exit
  | .information => { code := 0 }
  | .misuse => { code := 2 }

end PushHub.CommandLine
