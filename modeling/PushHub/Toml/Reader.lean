import PushHub.Toml.Node
import PushHub.Text.Decimal
/-!
Reading TOML: a text is a document or breaks the rules, and why it breaks them is not told.
-/
namespace PushHub.Toml

/-- How deep arrays and inline tables may nest and how long a dotted key may be, the limit itself
excluded. -/
def nestingLimit : Nat := 80

def isSpace (c : Char) : Bool := c = ' ' || c = '\t'

def skipSpaces (cs : List Char) : List Char := cs.dropWhile isSpace

def isLineChar (c : Char) : Bool :=
  c = '\t' || (32 ≤ c.toNat && c.toNat ≤ 126) || 128 ≤ c.toNat

def newline? : List Char → Option (List Char)
  | '\n' :: rest => some rest
  | '\r' :: '\n' :: rest => some rest
  | _ => none

def skipComment : List Char → List Char
  | '#' :: rest => rest.dropWhile isLineChar
  | cs => cs

def lineEnd? (cs : List Char) : Option (List Char) :=
  match skipComment (skipSpaces cs) with
  | [] => some []
  | cs => newline? cs

def skipLines (inComment : Bool) : List Char → List Char
  | [] => []
  | '\r' :: '\n' :: rest => skipLines false rest
  | c :: rest =>
    if inComment && isLineChar c then skipLines true rest
    else if c = ' ' || c = '\t' || c = '\n' then skipLines false rest
    else if c = '#' then skipLines true rest
    else c :: rest

/-! ## Texts -/

def hex? (width : Nat) (cs : List Char) : Option (Nat × List Char) := do
  let digits ← (cs.take width).mapM Text.hexDigit?
  if digits.length ≠ width then none
  some (digits.foldl (fun n d => 16 * n + d) 0, cs.drop width)

def scalar? (r : Option (Nat × List Char)) : Option (Char × List Char) :=
  match r with
  | some (n, rest) => if n.isValidChar then some (Char.ofNat n, rest) else none
  | none => none

def escape? : List Char → Option (Char × List Char)
  | 'b' :: rest => some ('\x08', rest)
  | 'f' :: rest => some ('\x0c', rest)
  | 'n' :: rest => some ('\n', rest)
  | 'r' :: rest => some ('\r', rest)
  | 't' :: rest => some ('\t', rest)
  | '\\' :: rest => some ('\\', rest)
  | '"' :: rest => some ('"', rest)
  | 'u' :: rest => scalar? (hex? 4 rest)
  | 'U' :: rest => scalar? (hex? 8 rest)
  | _ => none

def basic (done : List Char) : Nat → List Char → Option (String × List Char)
  | 0, _ => none
  | _, [] => none
  | fuel + 1, c :: rest =>
    if c = '"' then some (String.ofList done.reverse, rest)
    else if c = '\\' then
      match escape? rest with
      | some (c, rest) => basic (c :: done) fuel rest
      | none => none
    else if isLineChar c then basic (c :: done) fuel rest
    else none

def literal (done : List Char) : List Char → Option (String × List Char)
  | [] => none
  | c :: rest =>
    if c = '\'' then some (String.ofList done.reverse, rest)
    else if isLineChar c then literal (c :: done) rest
    else none

/-- A run of marks in a text of several lines: fewer than three belong to the text; of more, the
last three of at most five end it. -/
inductive Marks
  | inside (n : Nat)
  | ending (n : Nat)

def marks (mark : Char) (cs : List Char) : Marks :=
  let n := (cs.takeWhile (· = mark)).length
  if n < 3 then .inside n else .ending (min n 5 - 3)

/-- The rest of a basic text of several lines. A backslash at the end of a line joins it with the
next character that is no blank. -/
def basicLines (done : List Char) : Nat → List Char → Option (String × List Char)
  | 0, _ => none
  | _, [] => none
  | fuel + 1, c :: rest =>
    if c = '"' then
      match marks '"' (c :: rest) with
      | .inside n => basicLines (List.replicate n '"' ++ done) fuel (rest.drop (n - 1))
      | .ending n => some (String.ofList (List.replicate n '"' ++ done).reverse, rest.drop (n + 2))
    else if c = '\\' then
      match newline? (skipSpaces rest) with
      | some rest => basicLines done fuel (skipBlankLines rest)
      | none =>
        match escape? rest with
        | some (c, rest) => basicLines (c :: done) fuel rest
        | none => none
    else match newline? (c :: rest) with
      | some rest => basicLines ('\n' :: done) fuel rest
      | none => if isLineChar c then basicLines (c :: done) fuel rest else none
where
  skipBlankLines : List Char → List Char
    | [] => []
    | '\r' :: '\n' :: rest => skipBlankLines rest
    | c :: rest => if c = ' ' || c = '\t' || c = '\n' then skipBlankLines rest else c :: rest

def literalLines (done : List Char) : Nat → List Char → Option (String × List Char)
  | 0, _ => none
  | _, [] => none
  | fuel + 1, c :: rest =>
    if c = '\'' then
      match marks '\'' (c :: rest) with
      | .inside n => literalLines (List.replicate n '\'' ++ done) fuel (rest.drop (n - 1))
      | .ending n => some (String.ofList (List.replicate n '\'' ++ done).reverse, rest.drop (n + 2))
    else match newline? (c :: rest) with
      | some rest => literalLines ('\n' :: done) fuel rest
      | none => if isLineChar c then literalLines (c :: done) fuel rest else none

def afterMarks (cs : List Char) : List Char := (newline? cs).getD cs

def text? (cs : List Char) : Option (String × List Char) :=
  match cs with
  | '"' :: '"' :: '"' :: rest => basicLines [] (rest.length + 1) (afterMarks rest)
  | '"' :: rest => basic [] rest.length rest
  | '\'' :: '\'' :: '\'' :: rest => literalLines [] (rest.length + 1) (afterMarks rest)
  | '\'' :: rest => literal [] rest
  | _ => none

/-! ## Keys -/

def isBareChar (c : Char) : Bool := c.isAlphanum || c == '_' || c == '-'

def key? (cs : List Char) : Option (String × List Char) :=
  match cs with
  | '"' :: rest => basic [] rest.length rest
  | '\'' :: rest => literal [] rest
  | cs =>
    match cs.takeWhile isBareChar with
    | [] => none
    | ks => some (String.ofList ks, cs.dropWhile isBareChar)

def parts? : Nat → List Char → Option (List String × List Char)
  | 0, _ => none
  | fuel + 1, cs => do
    let (k, rest) ← key? (skipSpaces cs)
    match skipSpaces rest with
    | '.' :: rest =>
      let (ks, rest) ← parts? fuel rest
      some (k :: ks, rest)
    | rest => some ([k], rest)

def path? (cs : List Char) : Option (List String × List Char) := do
  let (ks, rest) ← parts? cs.length cs
  if nestingLimit ≤ ks.length then none
  some (ks, rest)

/-! ## Numbers and moments -/

/-- Further digits of a radix; a single underscore may stand before each. -/
def moreDigits? (digit? : Char → Option Nat) : List Char → Option (List Nat × List Char)
  | [] => some ([], [])
  | c :: rest =>
    match digit? c with
    | some d => (moreDigits? digit? rest).map fun (ds, rest) => (d :: ds, rest)
    | none =>
      if c ≠ '_' then some ([], c :: rest)
      else if (rest.head?.bind digit?).isSome then moreDigits? digit? rest
      else none

def digits? (digit? : Char → Option Nat) (cs : List Char) : Option (List Nat × List Char) :=
  if (cs.head?.bind digit?).isSome then moreDigits? digit? cs else none

def decimalDigit? (c : Char) : Option Nat := if c.isDigit then some (c.toNat - 48) else none

def digitIn? (radix : Nat) (c : Char) : Option Nat :=
  (Text.hexDigit? c).bind fun d => if d < radix then some d else none

def valueIn (radix : Nat) (ds : List Nat) : Nat := ds.foldl (fun n d => radix * n + d) 0

def integer? (i : Int) : Option Node :=
  if -0x8000000000000000 ≤ i ∧ i < 0x8000000000000000 then some (.integer (Int64.ofInt i)) else none

def radixInteger? (radix : Nat) (cs : List Char) : Option (Node × List Char) := do
  let (ds, rest) ← digits? (digitIn? radix) cs
  some (← integer? (valueIn radix ds), rest)

def sign (cs : List Char) : Bool × List Char :=
  match cs with
  | '-' :: rest => (true, rest)
  | '+' :: rest => (false, rest)
  | cs => (false, cs)

def exponent? (cs : List Char) : Option (Int × List Char) :=
  match cs with
  | c :: rest =>
    if c = 'e' ∨ c = 'E' then do
      let (negative, rest) := sign rest
      let (ds, rest) ← digits? decimalDigit? rest
      let n := valueIn 10 ds
      some (if negative then -n else n, rest)
    else some (0, c :: rest)
  | [] => some (0, [])

/-- A number too great for a double is infinite below zero and refused above. -/
def real? (negative : Bool) (significand : Nat) (e : Int) : Option Node :=
  match Numeric.Double.ofDecimal negative significand e with
  | some x => some (.real (.finite x))
  | none => if negative then some (.real (.infinite true)) else none

def number? (cs : List Char) : Option (Node × List Char) := do
  let (negative, rest) := sign cs
  let (whole, rest) ← digits? decimalDigit? rest
  let (whole, rest) ←
    if whole.head? = some 0 ∧ whole.length ≠ 1 then none else some (whole, rest)
  match rest with
  | '.' :: rest =>
    let (fraction, rest) ← digits? decimalDigit? rest
    let (e, rest) ← exponent? rest
    some (← real? negative (valueIn 10 (whole ++ fraction)) (e - fraction.length), rest)
  | rest =>
    if rest.head? = some 'e' ∨ rest.head? = some 'E' then
      let (e, rest) ← exponent? rest
      some (← real? negative (valueIn 10 whole) e, rest)
    else
      let n : Int := valueIn 10 whole
      some (← integer? (if negative then -n else n), rest)

def fixed? (width : Nat) (cs : List Char) : Option (Nat × List Char) := do
  let ds ← (cs.take width).mapM decimalDigit?
  if ds.length ≠ width then none
  some (valueIn 10 ds, cs.drop width)

def pair? (low high : Nat) (cs : List Char) : Option (Nat × List Char) := do
  let (n, rest) ← fixed? 2 cs
  if low ≤ n ∧ n ≤ high then some (n, rest) else none

def after? (c : Char) : List Char → Option (List Char)
  | d :: rest => if c = d then some rest else none
  | [] => none

def daysIn (year month : Nat) : Nat :=
  if month = 2 then
    if year % 4 = 0 ∧ (year % 100 ≠ 0 ∨ year % 400 = 0) then 29 else 28
  else if month = 4 ∨ month = 6 ∨ month = 9 ∨ month = 11 then 30
  else 31

def taken (cs rest : List Char) : List Char := cs.take (cs.length - rest.length)

def date? (year : Nat) (cs : List Char) : Option (List Char × List Char) := do
  let (month, rest) ← pair? 1 12 cs
  let (_, rest) ← pair? 1 (daysIn year month) (← after? '-' rest)
  some (taken cs rest, rest)

/-- The digits of a fraction of a second: at most nine count, zeros at the end do not. -/
def fractionText (ds : List Char) : List Char :=
  match ((ds.take 9).reverse.dropWhile (· = '0')).reverse with
  | [] => []
  | ds => '.' :: ds

def time? (cs : List Char) : Option (List Char × List Char) := do
  let (_, rest) ← pair? 0 59 cs
  let (_, rest) ← pair? 0 60 (← after? ':' rest)
  match rest with
  | '.' :: more =>
    let ds := more.takeWhile Char.isDigit
    if ds.isEmpty then none
    else some (taken cs rest ++ fractionText ds, more.dropWhile Char.isDigit)
  | more => some (taken cs rest, more)

def hour? (cs : List Char) : Option (List Char × List Char) := do
  let (_, rest) ← pair? 0 23 cs
  let rest ← after? ':' rest
  some (taken cs rest, rest)

/-- Hours and minutes of an offset after its sign; an offset of zero is positive. -/
def zone? (sign : Char) (cs : List Char) : Option (List Char × List Char) := do
  let (hour, rest) ← hour? cs
  let (_, rest) ← pair? 0 59 rest
  let text := taken cs rest
  some ((if hour ++ ['0', '0'] = text ∧ hour = ['0', '0', ':'] then '+' else sign) :: text, rest)

def offset? (cs : List Char) : Option (List Char × List Char) :=
  match cs with
  | 'Z' :: rest => some (['Z'], rest)
  | 'z' :: rest => some (['Z'], rest)
  | '+' :: rest => zone? '+' rest
  | '-' :: rest => zone? '-' rest
  | cs => some ([], cs)

def year? (cs : List Char) : Option (Nat × List Char) := do
  let (year, rest) ← fixed? 4 cs
  some (year, ← after? '-' rest)

def timeAfterDate (cs : List Char) : Option (List Char × List Char) :=
  match cs with
  | c :: rest =>
    if c = 'T' ∨ c = 't' ∨ c = ' ' then
      match hour? rest with
      | some (hour, rest) => do
        let (time, rest) ← time? rest
        let (offset, rest) ← offset? rest
        some ('T' :: hour ++ time ++ offset, rest)
      | none => some ([], c :: rest)
    else some ([], c :: rest)
  | [] => some ([], [])

def moment (text : List Char) : Node := .moment (String.ofList text)

def plain? (cs : List Char) : Option (Node × List Char) :=
  match cs with
  | 't' :: 'r' :: 'u' :: 'e' :: rest => some (.bool true, rest)
  | 'f' :: 'a' :: 'l' :: 's' :: 'e' :: rest => some (.bool false, rest)
  | '0' :: 'x' :: rest => radixInteger? 16 rest
  | '0' :: 'o' :: rest => radixInteger? 8 rest
  | '0' :: 'b' :: rest => radixInteger? 2 rest
  | cs =>
    match year? cs with
    | some (year, rest) => do
      let (date, rest) ← date? year rest
      let (time, rest) ← timeAfterDate rest
      some (moment (cs.take 5 ++ date ++ time), rest)
    | none =>
      match hour? cs with
      | some (hour, rest) => (time? rest).map fun (time, rest) => (moment (hour ++ time), rest)
      | none =>
        match sign cs with
        | (negative, 'i' :: 'n' :: 'f' :: rest) => some (.real (.infinite negative), rest)
        | (_, 'n' :: 'a' :: 'n' :: rest) => some (.real .notANumber, rest)
        | _ => number? cs

/-! ## Values and documents -/

def unsnoc? (ks : List String) : Option (List String × String) :=
  ks.getLast?.map fun k => (ks.dropLast, k)

mutual

def value? : Nat → Nat → List Char → Option (Node × List Char)
  | 0, _, _ => none
  | fuel + 1, depth, cs =>
    match cs with
    | '[' :: rest =>
      if nestingLimit ≤ depth + 1 then none
      else (items? fuel (depth + 1) (skipLines false rest)).map fun (vs, rest) => (.array vs, rest)
    | '{' :: rest =>
      if nestingLimit ≤ depth + 1 then none
      else match skipSpaces rest with
        | '}' :: rest => some (.table .inlined [], rest)
        | rest => (pairs? fuel (depth + 1) [] rest).map fun (ms, rest) => (.table .inlined ms, rest)
    | cs =>
      match text? cs with
      | some (s, rest) => some (.text s, rest)
      | none => plain? cs

def items? : Nat → Nat → List Char → Option (List Node × List Char)
  | 0, _, _ => none
  | fuel + 1, depth, cs =>
    match cs with
    | ']' :: rest => some ([], rest)
    | cs =>
      match value? fuel depth cs with
      | none => none
      | some (v, rest) =>
        match skipLines false rest with
        | ']' :: rest => some ([v], rest)
        | ',' :: rest =>
          (items? fuel depth (skipLines false rest)).map fun (vs, rest) => (v :: vs, rest)
        | _ => none

def pairs? : Nat → Nat → Members → List Char → Option (Members × List Char)
  | 0, _, _, _ => none
  | fuel + 1, depth, done, cs =>
    match path? cs with
    | some (ks, '=' :: rest) =>
      match value? fuel depth (skipSpaces rest), unsnoc? ks with
      | some (v, rest), some (path, k) =>
        match assign path k v ⟨.inlined, done⟩ with
        | none => none
        | some done =>
          match skipSpaces rest with
          | '}' :: rest => some (done, rest)
          | ',' :: rest => pairs? fuel depth done rest
          | _ => none
      | _, _ => none
    | _ => none

end

def line? (d : Draft) (cs : List Char) : Option (Draft × List Char) :=
  match cs with
  | '[' :: '[' :: rest => do
    let (path, rest) ← path? rest
    some (← d.openSeries path, ← lineEnd? (← after? ']' (← after? ']' rest)))
  | '[' :: rest => do
    let (path, rest) ← path? rest
    some (← d.openTable path, ← lineEnd? (← after? ']' rest))
  | cs => do
    let (ks, rest) ← path? cs
    let (path, k) ← unsnoc? ks
    let rest ← after? '=' rest
    let (v, rest) ← value? (2 * rest.length + 2) 0 (skipSpaces rest)
    some (← d.add path k v, ← lineEnd? rest)

def lines? (d : Draft) : Nat → List Char → Option Members
  | 0, _ => none
  | fuel + 1, cs =>
    match skipSpaces cs with
    | [] => d.settle
    | '#' :: rest => (lineEnd? ('#' :: rest)).bind (lines? d fuel)
    | cs =>
      match newline? cs with
      | some rest => lines? d fuel rest
      | none =>
        match line? d cs with
        | some (d, rest) => lines? d fuel rest
        | none => none

def parse? (s : String) : Option Members :=
  let cs := match s.toList with
    | '\ufeff' :: rest => rest
    | cs => cs
  lines? .empty (cs.length + 1) cs

end PushHub.Toml
