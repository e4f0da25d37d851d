import PushHub.Channel
/-!
The channels a connection follows: a set in the order of names, with an optional limit.
-/
namespace PushHub

structure SubscriptionLimit where
  max : Nat
deriving DecidableEq, Repr

def SubscriptionLimit.message (e : SubscriptionLimit) : String :=
  "Subscription limit reached (" ++ toString e.max ++ " channels)"

instance : Failure SubscriptionLimit := ⟨fun _ => "SubscriptionLimit", SubscriptionLimit.message⟩

structure SubscriptionSet where
  channels : List ChannelName
  limit : Option Nat
deriving DecidableEq, Repr

namespace SubscriptionSet

def empty (limit : Option Nat) : SubscriptionSet := ⟨[], limit⟩

def contains (s : SubscriptionSet) (c : ChannelName) : Bool := s.channels.contains c

def size (s : SubscriptionSet) : Nat := s.channels.length

def insertSorted (c : ChannelName) : List ChannelName → List ChannelName
  | [] => [c]
  | d :: rest => if c.name < d.name then c :: d :: rest else d :: insertSorted c rest

def refusal? (s : SubscriptionSet) : Option SubscriptionLimit :=
  match s.limit with
  | some max => if max ≤ s.size then some ⟨max⟩ else none
  | none => none

/-- Adds one name; a name that is there already needs no room. -/
def add (s : SubscriptionSet) (c : ChannelName) : Except SubscriptionLimit SubscriptionSet :=
  if s.contains c then .ok s
  else match s.refusal? with
    | some e => .error e
    | none => .ok ⟨insertSorted c s.channels, s.limit⟩

/-- Adds names in order until one has no room; those before it stay. -/
def subscribe (s : SubscriptionSet) : List ChannelName → SubscriptionSet × Option SubscriptionLimit
  | [] => (s, none)
  | c :: rest =>
    match s.add c with
    | .ok s => s.subscribe rest
    | .error e => (s, some e)

def unsubscribe (s : SubscriptionSet) (names : List ChannelName) : SubscriptionSet :=
  ⟨s.channels.filter fun c => !names.contains c, s.limit⟩

/-- Adds names as `subscribe` does, and lists those that the set then holds because of it. -/
def follow (s : SubscriptionSet) (applied : List ChannelName) :
    List ChannelName → SubscriptionSet × Except SubscriptionLimit (List ChannelName)
  | [] => (s, .ok applied)
  | c :: rest =>
    match s.add c with
    | .ok s => s.follow (applied ++ [c]) rest
    | .error e => (s, .error e)

def remove (s : SubscriptionSet) (c : ChannelName) : SubscriptionSet :=
  ⟨s.channels.filter fun d => d != c, s.limit⟩

def leave (s : SubscriptionSet) : List ChannelName → SubscriptionSet × List ChannelName
  | [] => (s, [])
  | c :: rest =>
    let (s, names) := (s.remove c).leave rest
    (s, c :: names)

inductive Request
  | subscribe (names : List ChannelName)
  | unsubscribe (names : List ChannelName)
deriving DecidableEq, Repr

/-- Carries out a request and answers it with the names it is about. -/
def serve (s : SubscriptionSet) :
    Request → SubscriptionSet × Except SubscriptionLimit (List ChannelName)
  | .subscribe names => s.follow [] names
  | .unsubscribe names =>
    let (s, names) := s.leave names
    (s, .ok names)

def run (s : SubscriptionSet) (requests : List Request) : SubscriptionSet :=
  requests.foldl (fun s request => (s.serve request).1) s

def admits (s : SubscriptionSet) (filter : List ChannelName) : Bool :=
  filter.isEmpty || filter.any s.contains

end SubscriptionSet

end PushHub
