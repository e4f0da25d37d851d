/-!
Arguments of a command: options with and without a value, operands, and subcommands. Every argument
is judged as it comes, so that of two mistakes the first one decides.
-/
namespace PushHub.CommandLine

inductive Shape
  | help
  | version
  | option (name : String) (value : Option String)
  | separator
  | plain
  | unknown
deriving DecidableEq, Repr

def longShape (cs : List Char) : Shape :=
  let name := String.ofList (cs.takeWhile (· ≠ '='))
  let value := match cs.dropWhile (· ≠ '=') with
    | _ :: v => some (String.ofList v)
    | [] => none
  if name = "help" then if value.isNone then .help else .unknown
  else if name = "version" then if value.isNone then .version else .unknown
  else .option name value

def shapeOf (arg : String) : Shape :=
  match arg.toList with
  | ['-', '-'] => .separator
  | '-' :: '-' :: cs => longShape cs
  | ['-'] => .plain
  | '-' :: 'h' :: _ => .help
  | '-' :: 'V' :: _ => .version
  | '-' :: _ => .unknown
  | _ => .plain

inductive Arity
  | flag
  | valued (accepts : String → Bool)

structure Level where
  options : List (String × Arity)
  /-- What a value must be like to be the one operand; none when there is no operand. -/
  operand : Option (String → Bool) := none
  subcommands : List String := []
  tellsVersion : Bool := false

/-- What was given at one level, each option under its name, and the operand under none. -/
abbrev Given := List (String × String)

inductive Scan
  | finished (given : Given) (subcommand : Option (String × List String))
  | information
  | misuse
deriving Repr

def operandName : String := ""

/-- Keeps a value that is acceptable and the first one of its name. -/
def Given.keep (given : Given) (name value : String) (accepts : String → Bool) : Option Given :=
  if (given.lookup name).isNone && accepts value then some (given ++ [(name, value)]) else none

def Given.keepOperand (given : Given) (l : Level) (value : String) : Option Given :=
  l.operand.bind fun accepts => given.keep operandName value accepts

def operands (l : Level) (given : Given) : List String → Scan
  | [] => .finished given none
  | arg :: rest =>
    match given.keepOperand l arg with
    | some given => operands l given rest
    | none => .misuse

def isValue (arg : String) : Bool := shapeOf arg = .plain

def scan (l : Level) (given : Given) : List String → Scan
  | [] => .finished given none
  | arg :: rest =>
    match shapeOf arg with
    | .help => .information
    | .version => if l.tellsVersion then .information else .misuse
    | .separator => operands l given rest
    | .plain =>
      if l.subcommands.contains arg then .finished given (some (arg, rest))
      else match given.keepOperand l arg with
        | some given => scan l given rest
        | none => .misuse
    | .option name value =>
      match l.options.lookup name, value, rest with
      | some .flag, none, rest =>
        match given.keep name "" fun _ => true with
        | some given => scan l given rest
        | none => .misuse
      | some (.valued accepts), some value, rest =>
        match given.keep name value accepts with
        | some given => scan l given rest
        | none => .misuse
      | some (.valued accepts), none, value :: rest =>
        if isValue value then
          match given.keep name value accepts with
          | some given => scan l given rest
          | none => .misuse
        else .misuse
      | _, _, _ => .misuse
    | .unknown => .misuse

end PushHub.CommandLine
