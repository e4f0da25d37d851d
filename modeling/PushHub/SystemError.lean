import PushHub.Failure
/-!
What the operating system refuses, in its own words.
-/
namespace PushHub

inductive SystemError
  | notFound
  | notText
  | denied
  | addressUnavailable
  | networkUnreachable
  | other (reason : String)
deriving DecidableEq, Repr

namespace SystemError

def message : SystemError → String
  | .notFound => "No such file or directory (os error 2)"
  | .notText => "stream did not contain valid UTF-8"
  | .denied => "Permission denied (os error 13)"
  | .addressUnavailable => "Cannot assign requested address (os error 99)"
  | .networkUnreachable => "Network is unreachable (os error 101)"
  | .other reason => reason

end SystemError

instance : Failure SystemError := ⟨fun _ => "io", SystemError.message⟩

end PushHub
