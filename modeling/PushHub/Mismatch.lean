import PushHub.Text.Decimal
import PushHub.Text.Shapeless
/-!
What can be wrong with a text that is read as typed data, and the words that say so.
-/
namespace PushHub

inductive Found
  | null
  | bool (b : Bool)
  | integer (i : Int)
  | float (text : List Char)
  | text (s : String)
  | list
  | object
deriving Repr

inductive Mismatch
  | malformed
  | missingField (name : String)
  | duplicateField (name : String)
  | unknownField (name : String) (known : List String)
  | invalidType (found : Found) (expected : String)
  | invalidValue (found : Found) (expected : String)
  | invalidLength (length : Nat) (expected : String)
  | surplus (length : Nat)
  /-- A value that should name one of several things is neither a text nor an object. -/
  | nameless (found : Found)
  | severalNames
  | unknownVariant (name : String) (known : List String)
  | refused (reason : String)
deriving Repr

def debugChar (c : Char) : List Char :=
  if c = '"' then ['\\', '"']
  else if c = '\\' then ['\\', '\\']
  else if c = '\n' then ['\\', 'n']
  else if c = '\r' then ['\\', 'r']
  else if c = '\t' then ['\\', 't']
  else if c = '\x00' then ['\\', '0']
  else if Text.isShapeless c then
    ['\\', 'u', '\x7b'] ++ Text.hexPadded 1 c.toNat ++ ['\x7d']
  else [c]

def Found.describe : Found → String
  | .null => "null"
  | .bool true => "boolean `true`"
  | .bool false => "boolean `false`"
  | .integer i => "integer `" ++ String.ofList (Text.integer i) ++ "`"
  | .float x => "floating point `" ++ String.ofList x ++ "`"
  | .text s => "string \"" ++ String.ofList (s.toList.flatMap debugChar) ++ "\""
  | .list => "sequence"
  | .object => "map"

/-- Alternatives in a message: one alone, two joined by a word, more after an introduction. -/
def oneOf (names : List String) : String :=
  match names.map fun n => "`" ++ n ++ "`" with
  | [] => "nothing"
  | [a] => a
  | [a, b] => a ++ " or " ++ b
  | names => "one of " ++ ", ".intercalate names

def Mismatch.message : Mismatch → String
  | .malformed => "malformed text"
  | .missingField name => "missing field `" ++ name ++ "`"
  | .duplicateField name => "duplicate field `" ++ name ++ "`"
  | .invalidType found expected => "invalid type: " ++ found.describe ++ ", expected " ++ expected
  | .invalidValue found expected => "invalid value: " ++ found.describe ++ ", expected " ++ expected
  | .invalidLength n expected => "invalid length " ++ toString n ++ ", expected " ++ expected
  | .surplus n => "invalid length " ++ toString n ++ ", expected fewer elements in array"
  | .nameless found => "invalid type: " ++ found.describe ++ ", expected string or map"
  | .severalNames => "invalid value: map, expected map with a single key"
  | .unknownField name known => "unknown field `" ++ name ++ "`, expected " ++ oneOf known
  | .unknownVariant name known => "unknown variant `" ++ name ++ "`, expected " ++ oneOf known
  | .refused reason => reason

/-- Whether only the shape of a value is wrong, which a reader of text takes for a fault of the text. -/
def Mismatch.isShape : Mismatch → Bool
  | .surplus _ => true
  | .nameless _ => true
  | .severalNames => true
  | _ => false

end PushHub
