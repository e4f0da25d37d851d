import PushHub.Text.Decimal
/-!
Media types: a type and a subtype, of which the part behind the last plus sign is a suffix, and
parameters, which have to be well formed and mean nothing here. Case does not matter.
-/
namespace PushHub.Http

structure MediaType where
  main : List Char
  sub : List Char
  suffix : Option (List Char)
deriving DecidableEq, Repr

namespace MediaType

def tokenMarks : List Char :=
  ['!', '#', '$', '%', '&', '\x27', '*', '+', '-', '.', '^', '_', '\x60', '|', '~']

def isTokenChar (c : Char) : Bool := c.isAlphanum || tokenMarks.contains c

def isQuotable (c : Char) : Bool := 32 ≤ c.toNat && c.toNat ≠ 127

/-- What follows a quoted value, from the character after its opening mark; the value is not empty. -/
def afterQuoted (started : Bool) : List Char → Option (List Char)
  | [] => none
  | '"' :: rest => if started then some rest else afterQuoted true rest
  | '\\' :: c :: rest => if isQuotable c then afterQuoted true rest else none
  | c :: rest => if c ≠ '\\' && isQuotable c then afterQuoted true rest else none

/-- Whether a list of parameters is well formed, from the character after a semicolon. Every turn
takes one parameter. -/
def parametersOk : Nat → List Char → Bool
  | 0, _ => false
  | fuel + 1, cs =>
    let cs := cs.dropWhile (· = ' ')
    cs.isEmpty ||
      let name := cs.takeWhile isTokenChar
      match name, cs.drop name.length with
      | [], _ => false
      | _, '=' :: '"' :: rest =>
        match afterQuoted false rest with
        | none => false
        | some rest =>
          match rest.dropWhile (· = ' ') with
          | [] => true
          | ';' :: rest => parametersOk fuel rest
          | _ => false
      | _, '=' :: rest =>
        let value := rest.takeWhile isTokenChar
        match rest.drop value.length with
        | [] => true
        | ';' :: rest => !value.isEmpty && parametersOk fuel rest
        | _ => false
      | _, _ => false

/-- Splits a subtype at its last plus sign, unless nothing stands before that. -/
def splitSuffix (cs : List Char) : List Char × Option (List Char) :=
  let suffix := (cs.reverse.takeWhile (· ≠ '+')).reverse
  let sub := cs.take (cs.length - suffix.length - 1)
  if suffix.length < cs.length && !sub.isEmpty then (sub, some suffix) else (cs, none)

def parse? (cs : List Char) : Option MediaType :=
  let cs := cs.map Char.toLower
  let main := cs.takeWhile isTokenChar
  match main, cs.drop main.length with
  | [], _ => none
  | main, '/' :: rest =>
    let sub := rest.takeWhile isTokenChar
    let ok := match rest.drop sub.length with
      | [] => true
      | ';' :: rest => !sub.isEmpty && parametersOk (rest.length + 1) rest
      | _ => false
    if ok then
      let (sub, suffix) := splitSuffix sub
      some ⟨main, sub, suffix⟩
    else none
  | _, _ => none

def isJson (m : MediaType) : Bool :=
  let json := ['j', 's', 'o', 'n']
  m.main == "application".toList && (m.sub == json || m.suffix == some json)

end MediaType

end PushHub.Http
