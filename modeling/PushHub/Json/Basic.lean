import PushHub.Numeric.Shortest
/-!
JSON values: numbers are integers of at most 64 bits or doubles, and the members of an object are
kept in the order of their names, each name once. A value is written without spaces.
-/
namespace PushHub

/-- An integer that fits a signed or an unsigned word of 64 bits. -/
structure WireInt where
  value : Int
  lower : -0x8000000000000000 ≤ value := by decide
  upper : value < 0x10000000000000000 := by decide
deriving DecidableEq, Repr

namespace WireInt

def ofInt? (i : Int) : Option WireInt :=
  if h : -0x8000000000000000 ≤ i ∧ i < 0x10000000000000000 then some ⟨i, h.1, h.2⟩ else none

def ofUInt64 (n : UInt64) : WireInt :=
  ⟨n.toNat, by have := n.toNat_lt; omega, by have := n.toNat_lt; omega⟩

def ofUInt8 (n : UInt8) : WireInt :=
  ⟨n.toNat, by have := n.toNat_lt; omega, by have := n.toNat_lt; omega⟩

def ofInt64 (n : Int64) : WireInt :=
  ⟨n.toInt, by have := n.le_toInt; omega, by have := n.toInt_lt; omega⟩

end WireInt

inductive JsonNumber
  | integer (n : WireInt)
  | float (x : Numeric.Double)
deriving DecidableEq, Repr

inductive Json
  | null
  | bool (b : Bool)
  | number (n : JsonNumber)
  | text (s : String)
  | list (items : List Json)
  | object (members : List (String × Json))
deriving Repr, Inhabited

namespace Json

def nat (n : UInt64) : Json := .number (.integer (.ofUInt64 n))

/-- Doubles are positional while the point lies within four places before the first digit and
sixteen after it. -/
def doubleLayout : Numeric.Layout := ⟨16, -4, true, 2⟩

def escape (c : Char) : List Char :=
  if c = '"' then ['\\', '"']
  else if c = '\\' then ['\\', '\\']
  else if c = '\x08' then ['\\', 'b']
  else if c = '\x0c' then ['\\', 'f']
  else if c = '\n' then ['\\', 'n']
  else if c = '\r' then ['\\', 'r']
  else if c = '\t' then ['\\', 't']
  else if c.toNat < 32 then '\\' :: 'u' :: Text.hexPadded 4 c.toNat
  else [c]

def quoted (cs : List Char) : List Char := '"' :: (cs.flatMap escape ++ ['"'])

def JsonNumber.chars : JsonNumber → List Char
  | .integer n => Text.integer n.value
  | .float x => doubleLayout.write x

def commaSeparated : List (List Char) → List Char
  | [] => []
  | [a] => a
  | a :: rest => a ++ ',' :: commaSeparated rest

mutual

def chars : Json → List Char
  | .null => ['n', 'u', 'l', 'l']
  | .bool true => ['t', 'r', 'u', 'e']
  | .bool false => ['f', 'a', 'l', 's', 'e']
  | .number n => JsonNumber.chars n
  | .text s => quoted s.toList
  | .list items => '[' :: (commaSeparated (itemTexts items) ++ [']'])
  | .object members => '{' :: (commaSeparated (memberTexts members) ++ ['}'])

def itemTexts : List Json → List (List Char)
  | [] => []
  | v :: rest => chars v :: itemTexts rest

def memberTexts : List (String × Json) → List (List Char)
  | [] => []
  | (k, v) :: rest => (quoted k.toList ++ ':' :: chars v) :: memberTexts rest

end

def render (v : Json) : String := String.ofList v.chars

/-- Adds a member in the order of names; a name that is there already takes the new value. -/
def insertMember (k : String) (v : Json) : List (String × Json) → List (String × Json)
  | [] => [(k, v)]
  | (k', v') :: rest =>
    if k < k' then (k, v) :: (k', v') :: rest
    else if k = k' then (k, v) :: rest
    else (k', v') :: insertMember k v rest

def ofMembers (members : List (String × Json)) : Json :=
  .object (members.foldl (fun done (k, v) => insertMember k v done) [])

end Json

end PushHub
