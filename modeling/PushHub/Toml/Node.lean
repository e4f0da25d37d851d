import PushHub.Numeric.Shortest
/-!
TOML documents as trees. Every table remembers how it came about, since that decides whether later
lines may add to it.
-/
namespace PushHub.Toml

inductive Real
  | finite (x : Numeric.Double)
  | infinite (negative : Bool)
  | notANumber
deriving DecidableEq, Repr

inductive Origin
  /-- It has a header of its own, or is the document. -/
  | header
  | implied
  | dotted
  | inlined
deriving DecidableEq, Repr

inductive Node
  | text (s : String)
  | integer (n : Int64)
  | real (x : Real)
  | bool (b : Bool)
  /-- A date, a time of day or both, in canonical form. -/
  | moment (text : String)
  | array (items : List Node)
  | table (origin : Origin) (members : List (String × Node))
  /-- Tables under one repeated header, the latest last. -/
  | series (tables : List Node)
deriving Repr, Inhabited

abbrev Members := List (String × Node)

namespace Members

def find? (ms : Members) (k : String) : Option Node := ms.lookup k

def erase (ms : Members) (k : String) : Members := ms.filter fun m => m.1 ≠ k

/-- Gives a name a value: in its old place, or at the end. -/
def put (ms : Members) (k : String) (v : Node) : Members :=
  if (ms.find? k).isSome then ms.map fun m => if m.1 = k then (k, v) else m else ms ++ [(k, v)]

end Members

structure Place where
  origin : Origin
  members : Members

/-- Changes the table at a path, making the tables on the way. A dotted key passes only through
tables that no header has opened. -/
def alter (dotted : Bool) (f : Place → Option Members) : List String → Place → Option Members
  | [], place => f place
  | k :: path, place => do
    let made : Origin := if dotted then .dotted else .implied
    match place.members.find? k with
    | none =>
      let inner ← alter dotted f path ⟨made, []⟩
      some (place.members ++ [(k, .table made inner)])
    | some (.table origin members) =>
      if origin = .inlined ∨ (dotted ∧ origin = .header) then none
      let inner ← alter dotted f path ⟨origin, members⟩
      some (place.members.put k (.table origin inner))
    | some (.series tables) =>
      match tables.getLast? with
      | some (.table origin members) =>
        let inner ← alter dotted f path ⟨origin, members⟩
        some (place.members.put k (.series (tables.dropLast ++ [.table origin inner])))
      | _ => none
    | some _ => none

def assign (path : List String) (k : String) (v : Node) (place : Place) : Option Members :=
  alter true (fun inner =>
    if (inner.origin == .dotted) == path.isEmpty then none
    else if (inner.members.find? k).isSome then none
    else some (inner.members ++ [(k, v)])) path place

/-- A document while it is read: what is complete, and the table of the latest header. -/
structure Draft where
  root : Members
  current : Members
  path : List String
  inSeries : Bool

namespace Draft

def empty : Draft := ⟨[], [], [], false⟩

def settle (d : Draft) : Option Members :=
  match d.path.getLast? with
  | none => some d.current
  | some k =>
    alter false (fun place =>
      if d.inSeries then
        match place.members.find? k with
        | none => some (place.members ++ [(k, .series [.table .header d.current])])
        | some (.series tables) =>
          some (place.members.put k (.series (tables ++ [.table .header d.current])))
        | some _ => none
      else if (place.members.find? k).isSome then none
      else some (place.members ++ [(k, .table .header d.current)])) d.path.dropLast ⟨.header, d.root⟩

def reach (k : String) : List String → Members → Option Node
  | [], ms => ms.find? k
  | j :: path, ms =>
    match ms.find? j with
    | some (.table _ inner) => reach k path inner
    | some (.series tables) =>
      match tables.getLast? with
      | some (.table _ inner) => reach k path inner
      | _ => none
    | _ => none

/-- Opens the table of a header. A table that was only implied so far keeps its members. -/
def openTable (d : Draft) (path : List String) : Option Draft := do
  let k ← path.getLast?
  let root ← d.settle
  match reach k path.dropLast root with
  | none =>
    let root ← alter false (fun place => some place.members) path.dropLast ⟨.header, root⟩
    some ⟨root, [], path, false⟩
  | some (.table .implied members) =>
    let root ← alter false (fun place => some (place.members.erase k)) path.dropLast ⟨.header, root⟩
    some ⟨root, members, path, false⟩
  | some _ => none

def openSeries (d : Draft) (path : List String) : Option Draft := do
  let k ← path.getLast?
  let root ← d.settle
  let root ← alter false (fun place =>
    match place.members.find? k with
    | none => some (place.members ++ [(k, .series [])])
    | some (.series _) => some place.members
    | some _ => none) path.dropLast ⟨.header, root⟩
  some ⟨root, [], path, true⟩

def add (d : Draft) (path : List String) (k : String) (v : Node) : Option Draft := do
  some { d with current := ← assign path k v ⟨.header, d.current⟩ }

end Draft

end PushHub.Toml
