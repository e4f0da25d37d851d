import PushHub.Hub.Exchange
/-!
A hub together with the clients that have come to it, by name. After everything that is asked of it a
gathering settles, and tells what the clients saw in the meantime: frames, the end of a connection,
what became of an admission.
-/
namespace PushHub

structure Client where
  name : String
  session : Nat
  manual : Bool := false
  gone : Bool := false
  toldClosed : Bool := false
  toldResult : Bool := false
  toldEnd : Bool := false
deriving DecidableEq, Repr

structure Sighting where
  frames : List (String × List Frame) := []
  ended : List String := []
  closed : List (String × Nat) := []
  results : List (String × Except AdmitError ConnectionId) := []

structure Gathering where
  hub : Hub
  clients : List Client := []

inductive ClientSent
  | sent
  | failed (e : TransportError)
  | gone
deriving DecidableEq, Repr

namespace Gathering

def find? (g : Gathering) (name : String) : Option Client := g.clients.find? fun c => c.name == name

def update (g : Gathering) (c : Client) : Gathering :=
  { g with clients := g.clients.map fun d => if d.name == c.name then c else d }

def add (g : Gathering) (c : Client) : Gathering :=
  let hub := match g.find? c.name with
    | some old => g.hub.onClient old.session Wire.dropClient
    | none => g.hub
  ⟨hub, g.clients.filter (fun d => d.name != c.name) ++ [c]⟩

def wire? (g : Gathering) (c : Client) : Option Wire :=
  (g.hub.sessions[c.session]?).map fun s => s.line.wire

def closeCalls? (g : Gathering) (c : Client) : Option Nat :=
  match g.wire? c with
  | some (.pipe p) => if c.gone then none else some p.closeCalls
  | _ => none

def closeCounts (g : Gathering) : List (String × Nat) :=
  g.clients.filterMap fun c => (g.closeCalls? c).map fun n => (c.name, n)

/-! ## What clients do -/

def send (g : Gathering) (c : Client) (f : Frame) : Gathering × ClientSent :=
  if c.gone then (g, .gone)
  else
    let (hub, result) := g.hub.clientSend c.session f
    ({ g with hub := hub }, match result with
      | .ok _ => .sent
      | .error e => .failed e)

def sendAll (g : Gathering) (c : Client) : List Frame → Gathering × List ClientSent
  | [] => (g, [])
  | f :: rest =>
    let (g, first) := g.send c f
    let (g, others) := sendAll g c rest
    (g, first :: others)

def read (g : Gathering) (c : Client) (limit : Nat) : Gathering × List Frame :=
  let (hub, frames) := g.hub.clientRead c.session limit
  ({ g with hub := hub }, frames)

def disconnect (g : Gathering) (c : Client) : Gathering :=
  { g with hub := g.hub.onClient c.session Wire.disconnect }

def drop (g : Gathering) (c : Client) : Gathering :=
  { g with hub := g.hub.onClient c.session Wire.dropClient }.update { c with gone := true }

/-! ## What clients see -/

def findsEnd (g : Gathering) (c : Client) : Bool :=
  match g.wire? c with
  | some (.socket w) => !c.manual && !c.gone && !c.toldEnd && decide (w.clientRead.2 = .ended)
  | _ => false

def findsClosed (g : Gathering) (c : Client) : Option Nat :=
  match g.wire? c with
  | some (.pipe p) => if p.closed && !c.gone && !c.toldClosed then some p.closeCalls else none
  | _ => none

def findsResult (g : Gathering) (c : Client) : Option (Except AdmitError ConnectionId) :=
  match g.hub.sessions[c.session]? with
  | some s =>
    match s.line.wire with
    | .pipe _ => if c.toldResult then none else s.result?
    | .socket _ => none
  | none => none

def look (received : Session.Received) (seen : Sighting) (g : Gathering) (c : Client) :
    Sighting × Client :=
  let frames := Session.framesOf received c.session
  let ended := g.findsEnd c
  let closed := g.findsClosed c
  let result := g.findsResult c
  (⟨seen.frames ++ (if frames.isEmpty then [] else [(c.name, frames)]),
    seen.ended ++ (if ended then [c.name] else []),
    seen.closed ++ (closed.map fun n => (c.name, n)).toList,
    seen.results ++ (result.map fun r => (c.name, r)).toList⟩,
    { c with
      toldClosed := c.toldClosed || closed.isSome
      toldResult := c.toldResult || result.isSome
      toldEnd := c.toldEnd || ended })

def readers (g : Gathering) : List Nat :=
  (g.clients.filter fun c => !c.manual && !c.gone).map Client.session

def settle (g : Gathering) : Gathering × Sighting :=
  let (hub, received) := g.hub.exchange g.readers
  let g := { g with hub := hub }
  g.clients.foldl (fun (g, seen) c =>
    let (seen, c) := look received seen g c
    (g.update c, seen)) (g, {})

end Gathering

end PushHub
