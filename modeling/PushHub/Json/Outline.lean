import PushHub.Json.Token
/-!
The outline of a JSON text: its values in the order of the text, duplicate members included, up to
the first fault. A reader that walks an outline from left to right therefore meets a wrong type
before a fault that stands behind it, and may pass over what it does not look at.
-/
namespace PushHub.Json

mutual

inductive Outline
  | null
  | bool (b : Bool)
  | number (value : Option JsonNumber)
  | text (value : Option String)
  | list (items : Items)
  | object (members : Members)
  | fault

inductive Items
  | closed
  | fault
  | cons (item : Outline) (rest : Items)

inductive Members
  | closed
  | fault
  | cons (name : Option String) (value : Outline) (rest : Members)

end

instance : Inhabited Outline := ⟨.fault⟩

namespace Outline

/-- An enclosing list or object with what it holds so far, latest first. -/
inductive Frame
  | list (done : List Outline)
  | object (done : List (Option String × Outline)) (name : Option String)

inductive Goal
  | value
  | firstItem
  | name (done : List (Option String × Outline)) (first : Bool)
  | colon (done : List (Option String × Outline)) (name : Option String)
  | settled (value : Outline)

def itemsOf (done : List Outline) (tail : Items) : Items :=
  done.foldl (fun rest v => .cons v rest) tail

def membersOf (done : List (Option String × Outline)) (tail : Members) : Members :=
  done.foldl (fun rest (k, v) => .cons k v rest) tail

def start (frames : List Frame) : Token → Option (Goal × List Frame)
  | .openList => some (.firstItem, .list [] :: frames)
  | .openObject => some (.name [] true, frames)
  | .null => some (.settled .null, frames)
  | .bool b => some (.settled (.bool b), frames)
  | .number n => some (.settled (.number n), frames)
  | .text s => some (.settled (.text s), frames)
  | _ => none

def step (goal : Goal) (frames : List Frame) (t : Token) : Option (Goal × List Frame) :=
  match goal with
  | .value => start frames t
  | .firstItem =>
    match t, frames with
    | .closeList, .list _ :: frames => some (.settled (.list .closed), frames)
    | t, frames => start frames t
  | .name done first =>
    match t with
    | .text k => some (.colon done k, frames)
    | .closeObject => if first then some (.settled (.object .closed), frames) else none
    | _ => none
  | .colon done k =>
    match t with
    | .colon => some (.value, .object done k :: frames)
    | _ => none
  | .settled v =>
    match t, frames with
    | .comma, .list done :: frames => some (.value, .list (v :: done) :: frames)
    | .closeList, .list done :: frames => some (.settled (.list (itemsOf (v :: done) .closed)), frames)
    | .comma, .object done k :: frames => some (.name ((k, v) :: done) false, frames)
    | .closeObject, .object done k :: frames =>
      some (.settled (.object (membersOf ((k, v) :: done) .closed)), frames)
    | _, _ => none

def abandonFrame (v : Outline) : Frame → Outline
  | .list done => .list (itemsOf (v :: done) .fault)
  | .object done k => .object (membersOf ((k, v) :: done) .fault)

def abandon (goal : Goal) (frames : List Frame) : Outline :=
  let v := match goal with
    | .value => .fault
    | .firstItem => .fault
    | .name done _ => .object (membersOf done .fault)
    | .colon done k => .object (membersOf ((k, .fault) :: done) .fault)
    | .settled v => v
  frames.foldl abandonFrame v

def read : Goal → List Frame → List Token → Outline × List Token
  | .settled v, [], rest => (v, rest)
  | goal, frames, [] => (abandon goal frames, [.fault])
  | goal, frames, t :: rest =>
    match step goal frames t with
    | some (goal, frames) => read goal frames rest
    | none => (abandon goal frames, [.fault])

/-- The value a text starts with, and whether nothing but blanks follows it. -/
def ofString (s : String) : Outline × Bool :=
  let (v, rest) := read .value [] (Token.scan s)
  (v, rest.isEmpty)

mutual

/-- Whether no fault stands in a value. Only its grammar counts: numbers out of range and broken
surrogate pairs pass. -/
def isWhole : Outline → Bool
  | .fault => false
  | .list items => Items.isWhole items
  | .object members => Members.isWhole members
  | _ => true

def Items.isWhole : Items → Bool
  | .closed => true
  | .fault => false
  | .cons v rest => isWhole v && Items.isWhole rest

def Members.isWhole : Members → Bool
  | .closed => true
  | .fault => false
  | .cons _ v rest => isWhole v && Members.isWhole rest

end

mutual

/-- The value of an outline whose lists and objects are nested less than `room` deep. -/
def value? (room : Nat) : Outline → Option Json
  | .null => some .null
  | .bool b => some (.bool b)
  | .number n => n.map .number
  | .text s => s.map .text
  | .list items => if room ≤ 1 then none else (Items.values? (room - 1) items).map .list
  | .object members =>
    if room ≤ 1 then none else (Members.values? (room - 1) members).map Json.ofMembers
  | .fault => none

def Items.values? (room : Nat) : Items → Option (List Json)
  | .closed => some []
  | .fault => none
  | .cons v rest =>
    match value? room v with
    | some v => (Items.values? room rest).map (v :: ·)
    | none => none

def Members.values? (room : Nat) : Members → Option (List (String × Json))
  | .closed => some []
  | .fault => none
  | .cons k v rest =>
    match k, value? room v with
    | some k, some v => (Members.values? room rest).map ((k, v) :: ·)
    | _, _ => none

end

mutual

def ofJson : Json → Outline
  | .null => .null
  | .bool b => .bool b
  | .number n => .number (some n)
  | .text s => .text (some s)
  | .list items => .list (itemsOfJson items)
  | .object members => .object (membersOfJson members)

def itemsOfJson : List Json → Items
  | [] => .closed
  | v :: rest => .cons (ofJson v) (itemsOfJson rest)

def membersOfJson : List (String × Json) → Members
  | [] => .closed
  | (k, v) :: rest => .cons (some k) (ofJson v) (membersOfJson rest)

end

end Outline

end PushHub.Json
