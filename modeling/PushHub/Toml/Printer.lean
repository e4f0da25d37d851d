import PushHub.Text.Decimal
/-!
Writing TOML. A text takes the plainest form that holds it: basic, literal, and the same two over
several lines; escapes are written only where no form does without them.
-/
namespace PushHub.Toml

def greatest : Nat := 0x7fffffffffffffff

def excess : String := "out-of-range value for u64 type"

structure Traits where
  controls : Bool
  backslash : Bool
  newline : Bool
  /-- The longest run of double marks, and of single ones. -/
  doubles : Nat
  singles : Nat

def isControl (c : Char) : Bool := (c.toNat < 32 && c ≠ '\t' && c ≠ '\n') || c.toNat == 127

/-- The longest run of a character, after a run of `run` already. -/
def longestRun (c : Char) (run best : Nat) : List Char → Nat
  | [] => best
  | d :: rest =>
    if d = c then longestRun c (run + 1) (max best (run + 1)) rest else longestRun c 0 best rest

def traits (cs : List Char) : Traits :=
  ⟨cs.any isControl, cs.contains '\\', cs.contains '\n', longestRun '"' 0 0 cs,
    longestRun '\'' 0 0 cs⟩

def basicChar (c : Char) : List Char :=
  if c = '\x08' then ['\\', 'b']
  else if c = '\t' then ['\\', 't']
  else if c = '\n' then ['\\', 'n']
  else if c = '\x0c' then ['\\', 'f']
  else if c = '\r' then ['\\', 'r']
  else if c = '\\' then ['\\', '\\']
  else if c = '"' then ['\\', '"']
  else if c.toNat < 32 ∨ c.toNat = 127 then
    ['\\', 'u'] ++ (Text.hexPadded 4 c.toNat).map Char.toUpper
  else [c]

/-- The characters of a basic text over several lines, after `run` double marks: newlines stand as
they are, and so do double marks that no two others precede. -/
def basicLinesChars (run : Nat) : List Char → List Char
  | [] => []
  | c :: rest =>
    if c = '"' then
      if run < 2 then c :: basicLinesChars (run + 1) rest
      else '\\' :: c :: basicLinesChars 0 rest
    else if c = '\n' then c :: basicLinesChars 0 rest
    else basicChar c ++ basicLinesChars 0 rest

def basicForm (cs : List Char) : List Char := '"' :: (cs.flatMap basicChar ++ ['"'])

def literalForm (cs : List Char) : List Char := '\'' :: (cs ++ ['\''])

/-- Marks around a text that may take several lines; a text that does starts on a line of its own. -/
def linesForm (mark : Char) (newline : Bool) (body : List Char) : List Char :=
  [mark, mark, mark] ++ (if newline then ['\n'] else []) ++ body ++ [mark, mark, mark]

def textForm (cs : List Char) : List Char :=
  let t := traits cs
  let lines := linesForm '"' t.newline (basicLinesChars 0 cs)
  if !t.controls && !t.backslash && t.doubles == 0 && !t.newline then basicForm cs
  else if !t.controls && t.singles == 0 && !t.newline then literalForm cs
  else if !t.controls && !t.backslash && t.doubles ≤ 2 then lines
  else if !t.controls && t.singles ≤ 2 then linesForm '\'' t.newline cs
  else if t.newline then lines
  else basicForm cs

def isBareKeyChar (c : Char) : Bool := c.isAlphanum || c == '_' || c == '-'

def keyForm (cs : List Char) : List Char :=
  let t := traits cs
  if !cs.isEmpty && cs.all isBareKeyChar then cs
  else if !t.controls && !t.backslash && t.doubles == 0 && !t.newline then basicForm cs
  else if !t.controls && t.singles == 0 && !t.newline then literalForm cs
  else basicForm cs

def textsForm : List String → List Char
  | [] => ['[', ']']
  | [s] => '[' :: (textForm s.toList ++ [']'])
  | ss => '[' :: '\n' :: (ss.flatMap fun s => [' ', ' ', ' ', ' '] ++ textForm s.toList ++ [',', '\n']) ++ [']']

def line (key : List Char) (value : List Char) : List Char :=
  keyForm key ++ ' ' :: '=' :: ' ' :: value ++ ['\n']

def header (name : List Char) : List Char := '\n' :: '[' :: (name ++ [']', '\n'])

end PushHub.Toml
