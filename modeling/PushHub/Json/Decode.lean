import PushHub.Failure
import PushHub.Json.Outline
import PushHub.Mismatch
/-!
Reading typed data from the outline of a JSON text. A flaw says what is wrong and where; the first
one in the order of the text is reported, before anything that stands behind it is looked at.
-/
namespace PushHub.Json

inductive Segment
  | field (name : String)
  | item (index : Nat)
deriving Repr

structure Flaw where
  path : List Segment
  cause : Mismatch
deriving Repr

abbrev Decoded := Except Flaw

def fail (c : Mismatch) : Decoded α := .error ⟨[], c⟩

def within (s : Segment) : Decoded α → Decoded α
  | .ok a => .ok a
  | .error f => .error ⟨s :: f.path, f.cause⟩

def pathText : List Segment → String
  | [] => ""
  | .field name :: rest =>
    match rest with
    | .field _ :: _ => name ++ "." ++ pathText rest
    | _ => name ++ pathText rest
  | .item i :: rest =>
    match rest with
    | .field _ :: _ => "[" ++ toString i ++ "]." ++ pathText rest
    | _ => "[" ++ toString i ++ "]" ++ pathText rest

def Flaw.message (f : Flaw) : String := f.cause.message

instance : Failure Flaw := ⟨fun _ => "Json", Flaw.message⟩

def Flaw.placedMessage (f : Flaw) : String :=
  if f.path.isEmpty then f.message else pathText f.path ++ ": " ++ f.message

/-- How deep lists and objects may nest, the limit itself excluded. -/
def depthLimit : Nat := 128

namespace Outline

def found? : Outline → Option Found
  | .null => some .null
  | .bool b => some (.bool b)
  | .number (some (.integer n)) => some (.integer n.value)
  | .number (some (.float x)) => some (.float (doubleLayout.write x))
  | .text (some s) => some (.text s)
  | .list _ => some .list
  | .object _ => some .object
  | .number none => none
  | .text none => none
  | .fault => none

def unexpected (expected : String) (v : Outline) : Decoded α :=
  match v.found? with
  | some found => fail (.invalidType found expected)
  | none => fail .malformed

def asText : Outline → Decoded String
  | .text (some s) => .ok s
  | v => v.unexpected "a string"

def asInteger (low high : Int) (expected : String) : Outline → Decoded Int
  | .number (some (.integer n)) =>
    if low ≤ n.value ∧ n.value ≤ high then .ok n.value
    else fail (.invalidValue (.integer n.value) expected)
  | v => v.unexpected expected

def asUInt64 (v : Outline) : Decoded UInt64 :=
  (v.asInteger 0 0xffffffffffffffff "u64").map fun i => UInt64.ofNat i.toNat

def asUInt8 (v : Outline) : Decoded UInt8 :=
  (v.asInteger 0 255 "u8").map fun i => UInt8.ofNat i.toNat

def asInt64 (v : Outline) : Decoded Int64 :=
  (v.asInteger (-0x8000000000000000) 0x7fffffffffffffff "i64").map Int64.ofInt

def asOption (read : Outline → Decoded α) : Outline → Decoded (Option α)
  | .null => .ok none
  | v => (read v).map some

def asJson (room : Nat) (v : Outline) : Decoded Json :=
  match v.value? room with
  | some v => .ok v
  | none => fail .malformed

/-- A value that nothing is asked of but its grammar. -/
def skipped (v : Outline) : Decoded Unit :=
  if v.isWhole then .ok () else fail .malformed

def readItems (read : Outline → Decoded α) (index : Nat) : Items → Decoded (List α)
  | .closed => .ok []
  | .fault => fail .malformed
  | .cons v rest => do
    let a ← within (.item index) (read v)
    let others ← readItems read (index + 1) rest
    .ok (a :: others)

def asList (read : Outline → Decoded α) : Outline → Decoded (List α)
  | .list items => readItems read 0 items
  | v => v.unexpected "a sequence"

end Outline

/-- A field of a record: what its value must be, and whether it may be left out. -/
structure Field where
  name : String
  check : Outline → Decoded Unit
  optional : Bool := false

def Field.of (name : String) (read : Outline → Decoded α) : Field :=
  ⟨name, fun v => (read v).map fun _ => (), false⟩

def Field.defaulted (name : String) (read : Outline → Decoded α) : Field :=
  ⟨name, fun v => (read v).map fun _ => (), true⟩

abbrev Row := List (String × Outline)

namespace Row

def find? (row : Row) (name : String) : Option Outline := row.lookup name

def get (row : Row) (name : String) (read : Outline → Decoded α) : Decoded α :=
  match row.find? name with
  | some v => read v
  | none => fail (.missingField name)

def getD (row : Row) (name : String) (read : Outline → Decoded α) (default : α) : Decoded α :=
  match row.find? name with
  | some v => read v
  | none => .ok default

end Row

/-- The members of an object that belong to the record, in the order of the text; unknown ones are
passed over. -/
def Members.row (fields : List Field) (seen : Row) : Members → Decoded Row
  | .closed => .ok seen
  | .fault => fail .malformed
  | .cons none _ _ => fail .malformed
  | .cons (some name) v rest =>
    match fields.find? fun f => f.name == name with
    | none => do
      v.skipped
      Members.row fields seen rest
    | some f => do
      if (seen.find? name).isSome then fail (.duplicateField name)
      within (.field name) (f.check v)
      Members.row fields (seen ++ [(name, v)]) rest

/-- How many items there are, and whether no fault cuts them off. -/
def Items.count : Items → Nat × Bool
  | .closed => (0, true)
  | .fault => (0, false)
  | .cons _ rest => ((count rest).1 + 1, (count rest).2)

/-- The items of a list as the fields of a record, in their declared order. -/
def Items.row (expected : String) (index : Nat) (seen : Row) : List Field → Items → Decoded Row
  | [], .closed => .ok seen
  | [], items =>
    if items.count.2 then fail (.surplus (index + items.count.1)) else fail .malformed
  | f :: fields, .closed =>
    if f.optional then Items.row expected (index + 1) seen fields .closed
    else fail (.invalidLength index expected)
  | _ :: _, .fault => fail .malformed
  | f :: fields, .cons v rest => do
    within (.item index) (f.check v)
    Items.row expected (index + 1) (seen ++ [(f.name, v)]) fields rest

def Outline.record (name : String) (fields : List Field) : Outline → Decoded Row
  | .object members => Members.row fields [] members
  | .list items =>
    let n := fields.length
    let expected := name ++ " with " ++ toString n ++ if n = 1 then " element" else " elements"
    Items.row expected 0 [] fields items
  | v => v.unexpected name

/-- Reads a whole text; a value of a wrong shape counts as a fault of the text. -/
def decodeText (read : Outline → Decoded α) (text : String) : Decoded α :=
  let (v, alone) := Outline.ofString text
  match read v with
  | .ok a => if alone then .ok a else fail .malformed
  | .error f => .error (if f.cause.isShape then ⟨f.path, .malformed⟩ else f)

def decodeValue (read : Outline → Decoded α) (v : Json) : Decoded α := read (Outline.ofJson v)

/-- One of several names: a text, or an object whose only member has the name and no value. -/
def Outline.asName (known : List String) : Outline → Decoded String
  | .text (some s) => if known.contains s then .ok s else fail (.unknownVariant s known)
  | .object (.cons (some s) v rest) => do
    if !known.contains s then fail (.unknownVariant s known)
    match v with
    | .null => .ok ()
    | v => v.unexpected "unit"
    match rest with
    | .closed => .ok s
    | .cons .. => fail .severalNames
    | .fault => fail .malformed
  | .object .closed => fail .severalNames
  | .object _ => fail .malformed
  | v =>
    match v.found? with
    | some found => fail (.nameless found)
    | none => fail .malformed

end PushHub.Json
