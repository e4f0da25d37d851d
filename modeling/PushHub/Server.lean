import PushHub.SocketAddress
import PushHub.SystemError
/-!
Listening: a server needs an address of its host, and the host may refuse it.
-/
namespace PushHub

inductive ServerError
  | bind (address : SocketAddress) (e : SystemError)
  | serve (e : SystemError)
deriving DecidableEq, Repr

namespace ServerError

def message : ServerError → String
  | .bind address e => "failed to bind " ++ address.display ++ ": " ++ e.message
  | .serve e => "server error: " ++ e.message

def cause : ServerError → SystemError
  | .bind _ e => e
  | .serve e => e

end ServerError

instance : Failure ServerError := ⟨fun _ => "Server", ServerError.message⟩

structure Host where
  bindRefusal? : SocketAddress → Option SystemError
  connectRefusal? : SocketAddress → Option SystemError

namespace SocketAddress

def port : SocketAddress → UInt16
  | .v4 _ port => port
  | .v6 _ _ port => port

/-- The ports below this one are privileged, apart from 0, which stands for any free port. -/
def firstUnprivileged : UInt16 := 1024

def isPrivileged (a : SocketAddress) : Bool := a.port ≠ 0 && a.port < firstUnprivileged

end SocketAddress

namespace Host

/-- A host without any network: it has no address of its own, and a program may only wait there, at
ports that are not privileged. Addresses of the older family are not looked at for that. -/
def isolated : Host where
  bindRefusal? a :=
    if a.isPrivileged then some .denied
    else match a with
      | .v4 .. => none
      | .v6 address _ _ =>
        if address.groups.all (· == 0) then none else some .addressUnavailable
  connectRefusal? _ := some .networkUnreachable

def bind (h : Host) (a : SocketAddress) : Except ServerError Unit :=
  match h.bindRefusal? a with
  | some e => .error (.bind a e)
  | none => .ok ()

end Host

end PushHub
