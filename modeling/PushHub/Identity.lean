import PushHub.Json.Decode
import PushHub.Text.Blank
/-!
Who is connected: user ids, which are never zero on any path, and connection ids.
-/
namespace PushHub

/-- A user: a word other than zero. -/
structure UserId where
  value : UInt64
  nonzero : value ≠ 0
deriving DecidableEq

structure InvalidUserId where
  text : String
deriving DecidableEq, Repr

def InvalidUserId.message (e : InvalidUserId) : String :=
  "Invalid user id: " ++ e.text ++ " (expected a non-zero integer)"

instance : Failure InvalidUserId := ⟨fun _ => "InvalidUserId", InvalidUserId.message⟩

namespace UserId

instance : Repr UserId := ⟨fun u _ => repr u.value⟩

def ofUInt64 (n : UInt64) : Except InvalidUserId UserId :=
  if h : n = 0 then .error ⟨"0"⟩ else .ok ⟨n, h⟩

def display (u : UserId) : String := String.ofList (Text.decimal u.value.toNat)

def numeral? (cs : List Char) : Option UInt64 :=
  let digits := match cs with
    | '+' :: rest => rest
    | cs => cs
  match Text.decimal? digits with
  | some n => if n < UInt64.size then some (UInt64.ofNat n) else none
  | none => none

def parse (s : String) : Except InvalidUserId UserId :=
  match numeral? (Text.trim s.toList) with
  | some n => ofUInt64 n
  | none => .error ⟨s⟩

def toJson (u : UserId) : Json := .nat u.value

def decode (v : Json.Outline) : Json.Decoded UserId := do
  match ofUInt64 (← v.asUInt64) with
  | .ok u => .ok u
  | .error e => Json.fail (.refused e.message)

end UserId

structure ConnectionId where
  value : UInt64
deriving DecidableEq, Repr

namespace ConnectionId

def display (c : ConnectionId) : String := "conn-" ++ String.ofList (Text.decimal c.value.toNat)

def toJson (c : ConnectionId) : Json := .nat c.value

def decode (v : Json.Outline) : Json.Decoded ConnectionId := v.asUInt64.map ConnectionId.mk

end ConnectionId

end PushHub
