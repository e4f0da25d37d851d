import PushHub.Text.Decimal
/-!
Socket addresses of both families: `127.0.0.1:8080`, `[::1]:8080`, `[fe80::1%2]:8080`. They are
written in their canonical form.
-/
namespace PushHub

structure IPv4 where
  a : UInt8
  b : UInt8
  c : UInt8
  d : UInt8
deriving DecidableEq, Repr

structure IPv6 where
  groups : List UInt16
  eight : groups.length = 8
deriving DecidableEq

instance : Repr IPv6 := ⟨fun a _ => repr a.groups⟩

inductive SocketAddress
  | v4 (address : IPv4) (port : UInt16)
  | v6 (address : IPv6) (scope : UInt32) (port : UInt16)
deriving DecidableEq, Repr

namespace SocketAddress

/-- Digits of a radix in front of a text, at most `room` of them where that is given. The value has
to stay below `bound`. -/
def number? (radix : Nat) (digit? : Char → Option Nat) (room : Option Nat) (bound : Nat)
    (cs : List Char) : Option (Nat × List Char) :=
  let digits := cs.takeWhile fun c => (digit? c).isSome
  let n := digits.foldl (fun n c => radix * n + (digit? c).getD 0) 0
  if digits.isEmpty ∨ bound ≤ n then none
  else if (room.map fun r => decide (r < digits.length)).getD false then none
  else some (n, cs.drop digits.length)

def decimalDigit? (c : Char) : Option Nat := if c.isDigit then some (c.toNat - 48) else none

def octet? (cs : List Char) : Option (UInt8 × List Char) :=
  match number? 10 decimalDigit? (some 3) 256 cs with
  | none => none
  | some (n, rest) =>
    if cs.head? = some '0' ∧ rest.length + 1 < cs.length then none else some (UInt8.ofNat n, rest)

def char? (c : Char) : List Char → Option (List Char)
  | d :: rest => if c = d then some rest else none
  | [] => none

def ipv4? (cs : List Char) : Option (IPv4 × List Char) := do
  let (a, cs) ← octet? cs
  let (b, cs) ← octet? (← char? '.' cs)
  let (c, cs) ← octet? (← char? '.' cs)
  let (d, cs) ← octet? (← char? '.' cs)
  some (⟨a, b, c, d⟩, cs)

def port? (cs : List Char) : Option (UInt16 × List Char) := do
  let (n, cs) ← number? 10 decimalDigit? none 65536 (← char? ':' cs)
  some (UInt16.ofNat n, cs)

def IPv4.groups (a : IPv4) : List UInt16 :=
  [UInt16.ofNat (a.a.toNat * 256 + a.b.toNat), UInt16.ofNat (a.c.toNat * 256 + a.d.toNat)]

/-- What a run of groups consists of, and whether an IPv4 address ends it. -/
structure Groups where
  groups : List UInt16
  ended : Bool
  rest : List Char

/-- Reads groups joined by colons, as many as there is room for. Two of them may be given as an IPv4
address, which is then the last. -/
def groups (first : Bool) : Nat → List Char → Groups
  | 0, cs => ⟨[], false, cs⟩
  | room + 1, cs =>
    let start := if first then some cs else char? ':' cs
    match (if room = 0 then none else start.bind ipv4?) with
    | some (a, rest) => ⟨IPv4.groups a, true, rest⟩
    | none =>
      match start.bind (number? 16 Text.hexDigit? (some 4) 65536) with
      | some (n, rest) =>
        let g := groups false room rest
        ⟨UInt16.ofNat n :: g.groups, g.ended, g.rest⟩
      | none => ⟨[], false, cs⟩

/-- Fills up with zeros between the groups before and after a double colon. -/
def joined (head tail : List UInt16) : Option IPv6 :=
  let all := head ++ List.replicate (8 - head.length - tail.length) 0 ++ tail
  if h : all.length = 8 then some ⟨all, h⟩ else none

def ipv6? (cs : List Char) : Option (IPv6 × List Char) := do
  let head := groups true 8 cs
  if head.groups.length = 8 then return (← joined head.groups [], head.rest)
  if head.ended then none
  let rest ← char? ':' (← char? ':' head.rest)
  let tail := groups true (7 - head.groups.length) rest
  some (← joined head.groups tail.groups, tail.rest)

def scope? (cs : List Char) : Option (UInt32 × List Char) := do
  let (n, cs) ← number? 10 decimalDigit? none UInt32.size (← char? '%' cs)
  some (UInt32.ofNat n, cs)

def readV4 (cs : List Char) : Option (SocketAddress × List Char) := do
  let (a, cs) ← ipv4? cs
  let (port, cs) ← port? cs
  some (.v4 a port, cs)

def readV6 (cs : List Char) : Option (SocketAddress × List Char) := do
  let (a, cs) ← ipv6? (← char? '[' cs)
  let (scope, cs) := (scope? cs).getD (0, cs)
  let (port, cs) ← port? (← char? ']' cs)
  some (.v6 a scope port, cs)

def parse? (s : String) : Option SocketAddress :=
  match (readV4 s.toList <|> readV6 s.toList) with
  | some (a, []) => some a
  | _ => none

def refusal : String := "invalid socket address syntax"

def ipv4Chars (a : IPv4) : List Char :=
  Text.decimal a.a.toNat ++ '.' :: Text.decimal a.b.toNat ++ '.' :: Text.decimal a.c.toNat ++
    '.' :: Text.decimal a.d.toNat

def groupChars : List UInt16 → List Char
  | [] => []
  | [g] => Text.hexPadded 1 g.toNat
  | g :: rest => Text.hexPadded 1 g.toNat ++ ':' :: groupChars rest

def longestZeros (groups : List UInt16) : Nat × Nat :=
  let runAt (i : Nat) := ((groups.drop i).takeWhile (· == 0)).length
  (List.range groups.length).foldl
    (fun best i => if best.2 < runAt i then (i, runAt i) else best) (0, 0)

def mapped? : List UInt16 → Option IPv4
  | [0, 0, 0, 0, 0, 0xffff, g, h] =>
    some ⟨(g >>> 8).toUInt8, g.toUInt8, (h >>> 8).toUInt8, h.toUInt8⟩
  | _ => none

def ipv6Chars (a : IPv6) : List Char :=
  match mapped? a.groups with
  | some tail => [':', ':', 'f', 'f', 'f', 'f', ':'] ++ ipv4Chars tail
  | none =>
    let (i, n) := longestZeros a.groups
    if 1 < n then groupChars (a.groups.take i) ++ ':' :: ':' :: groupChars (a.groups.drop (i + n))
    else groupChars a.groups

def chars : SocketAddress → List Char
  | .v4 a port => ipv4Chars a ++ ':' :: Text.decimal port.toNat
  | .v6 a scope port =>
    let scopeChars := if scope = 0 then [] else '%' :: Text.decimal scope.toNat
    '[' :: (ipv6Chars a ++ scopeChars ++ ']' :: ':' :: Text.decimal port.toNat)

def display (a : SocketAddress) : String := String.ofList a.chars

end SocketAddress

end PushHub
