import Std.Time.DateTime.Timestamp
import PushHub.CommandLine.Run
/-!
The daemon's command line on a real system: it reads the clock, the environment and the configuration
file, and leaves every decision to `CommandLine`.
-/
namespace PushHub.CommandLine

def systemError (e : IO.Error) : SystemError :=
  match e with
  | .noFileOrDirectory .. => .notFound
  | .permissionDenied .. => .denied
  | e => .other (toString e)

def readText (path : String) : IO (Except SystemError String) := do
  try
    let bytes ← IO.FS.readBinFile path
    return match String.fromUTF8? bytes with
      | some text => .ok text
      | none => .error .notText
  catch e => return .error (systemError e)

def readEnvironment : IO Environment := do
  let found ← environmentNames.filterMapM fun name => do
    return (← IO.getEnv name).map fun value => (name, value)
  return fun name => found.lookup name

end PushHub.CommandLine

/-- Runs the command that the arguments say. No socket is opened here, so a server that would listen is
the end of it. -/
def main (args : List String) : IO UInt32 := do
  let environment ← PushHub.CommandLine.readEnvironment
  let now ← Std.Time.Timestamp.now
  let file ← match (PushHub.CommandLine.parse environment args).config? with
    | some path => PushHub.CommandLine.readText path
    | none => pure (.error .notFound)
  let world : PushHub.CommandLine.World :=
    ⟨fun _ => file, environment, .isolated, UInt64.ofNat now.toSecondsSinceUnixEpoch.val.toNat⟩
  let exit := PushHub.CommandLine.execute world args
  IO.print exit.output
  IO.eprint exit.report
  return UInt32.ofNat exit.code
