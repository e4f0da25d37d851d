import PushHub.Json.Decode
/-!
Channel names: at most 64 ASCII letters, digits and marks, and at least one.
-/
namespace PushHub

inductive ChannelFlaw
  | empty
  | tooLong
  | unsupported
deriving DecidableEq, Repr

def ChannelFlaw.reason : ChannelFlaw → String
  | .empty => "name is empty"
  | .tooLong => "name is too long"
  | .unsupported => "name contains unsupported characters"

structure InvalidChannel where
  name : String
  flaw : ChannelFlaw
deriving DecidableEq, Repr

def InvalidChannel.message (e : InvalidChannel) : String :=
  "Invalid channel name '" ++ e.name ++ "': " ++ e.flaw.reason

instance : Failure InvalidChannel := ⟨fun _ => "InvalidChannel", InvalidChannel.message⟩

namespace ChannelName

def maxLength : Nat := 64

def isNameChar (c : Char) : Bool :=
  c.isAlphanum || c == '_' || c == '-' || c == '.' || c == ':'

/-- The first flaw of a text that is to be a channel name; its length is counted in bytes. -/
def flaw? (s : String) : Option ChannelFlaw :=
  if s.isEmpty then some .empty
  else if maxLength < s.utf8ByteSize then some .tooLong
  else if !s.toList.all isNameChar then some .unsupported
  else none

end ChannelName

structure ChannelName where
  name : String
  valid : ChannelName.flaw? name = none
deriving DecidableEq

namespace ChannelName

instance : Repr ChannelName := ⟨fun c _ => repr c.name⟩

def parse (s : String) : Except InvalidChannel ChannelName :=
  match h : flaw? s with
  | none => .ok ⟨s, h⟩
  | some f => .error ⟨s, f⟩

def parseAll (names : List String) : Except InvalidChannel (List ChannelName) :=
  names.mapM parse

def toJson (c : ChannelName) : Json := .text c.name

def decode (v : Json.Outline) : Json.Decoded ChannelName := do
  match parse (← v.asText) with
  | .ok c => .ok c
  | .error e => Json.fail (.refused e.message)

end ChannelName

def taskUpdates : ChannelName := ⟨"task_updates", by decide +kernel⟩

def accountStatus : ChannelName := ⟨"account_status", by decide +kernel⟩

def systemNotices : ChannelName := ⟨"system_notices", by decide +kernel⟩

def defaultChannels : List ChannelName := [taskUpdates, accountStatus, systemNotices]

end PushHub
