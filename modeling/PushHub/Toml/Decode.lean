import PushHub.Toml.Node
import PushHub.Mismatch
/-!
Reading typed data from a TOML document. Members are looked at in the order in which they were first
named, and one that is not known is refused.
-/
namespace PushHub.Toml

abbrev Decoded := Except Mismatch

def realLayout : Numeric.Layout := ⟨400, -400, false, 1⟩

def Real.chars : Real → List Char
  | .finite x => realLayout.write x
  | .infinite false => ['i', 'n', 'f']
  | .infinite true => ['-', 'i', 'n', 'f']
  | .notANumber => ['N', 'a', 'N']

namespace Node

def found : Node → Found
  | .text s => .text s
  | .integer n => .integer n.toInt
  | .real x => .float x.chars
  | .bool b => .bool b
  | .moment _ => .object
  | .array _ => .list
  | .table _ _ => .object
  | .series _ => .list

def unexpected (expected : String) (v : Node) : Decoded α := .error (.invalidType v.found expected)

def asText : Node → Decoded String
  | .text s => .ok s
  | v => v.unexpected "a string"

def asNat (expected : String) : Node → Decoded Nat
  | .integer n =>
    if n.toInt < 0 then .error (.invalidValue (.integer n.toInt) expected) else .ok n.toInt.toNat
  | v => v.unexpected expected

def asTexts : Node → Decoded (List String)
  | .array items => items.mapM asText
  | .series tables => tables.mapM asText
  | v => v.unexpected "a sequence"

def asCounts : Node → Decoded (List (String × Nat))
  | .table _ members => members.mapM fun (k, v) => do .ok (k, ← v.asNat "u64")
  | .moment s => (Node.text s).unexpected "u64"
  | v => v.unexpected "a map"

end Node

structure Field where
  name : String
  check : Node → Decoded Unit

def Field.of (name : String) (read : Node → Decoded α) : Field :=
  ⟨name, fun v => (read v).map fun _ => ()⟩

abbrev Row := List (String × Node)

def Row.getD (row : Row) (name : String) (read : Node → Decoded α) (default : α) : Decoded α :=
  match row.lookup name with
  | some v => read v
  | none => .ok default

/-- The name under which a moment passes for a table. -/
def momentField : String := "$__toml_private_datetime"

/-- A section given as a table, or as a list of its fields in their declared order. -/
def Node.section (expected : String) (fields : List Field) : Node → Decoded Row
  | .table _ members => do
    members.forM fun (k, v) =>
      match fields.find? fun f => f.name == k with
      | some f => f.check v
      | none => .error (.unknownField k (fields.map Field.name))
    .ok members
  | .moment _ => .error (.unknownField momentField (fields.map Field.name))
  | .array items => ofItems items
  | .series tables => ofItems tables
  | v => v.unexpected expected
where
  ofItems (items : List Node) : Decoded Row := do
    let pairs := fields.zip items
    pairs.forM fun (f, v) => f.check v
    .ok (pairs.map fun (f, v) => (f.name, v))

end PushHub.Toml
