import PushHub.Json.Basic
import PushHub.Text.Bytes
/-!
Requests and responses, as far as the routes look at them. Names of headers are compared without
regard to case; of a header given several times, the first counts.
-/
namespace PushHub.Http

structure Request where
  method : String
  target : String
  headers : List (String × List UInt8) := []
  body : List UInt8 := []
  upgradable : Bool := false
deriving Repr

namespace Request

def address (r : Request) : List Char := r.target.toList.takeWhile (· ≠ '#')

def path (r : Request) : String := String.ofList (r.address.takeWhile (· ≠ '?'))

def query (r : Request) : List Char := (r.address.dropWhile (· ≠ '?')).drop 1

def header? (r : Request) (name : String) : Option (List UInt8) :=
  (r.headers.find? fun h => h.1.toLower == name).map Prod.snd

/-- A byte that a header may show as text: printable ASCII, or a tab. -/
def isVisible (b : UInt8) : Bool := (32 ≤ b.toNat && b.toNat < 127) || b.toNat == 9

def headerText? (r : Request) (name : String) : Option (List Char) := do
  let bytes ← r.header? name
  if bytes.all isVisible then some (bytes.map fun b => Char.ofNat b.toNat) else none

end Request

structure Response where
  status : Nat
  /-- Empty when nothing is said about the body. -/
  contentType : String := ""
  body : String := ""
deriving DecidableEq, Repr

namespace Response

def json (status : Nat) (v : Json) : Response := ⟨status, "application/json", v.render⟩

def notFound : Response := ⟨404, "", ""⟩

def methodNotAllowed : Response := ⟨405, "", ""⟩

def withoutBody (r : Response) : Response := { r with body := "" }

end Response

end PushHub.Http
