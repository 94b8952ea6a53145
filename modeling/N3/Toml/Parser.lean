import N3.Json.Parser
import N3.Toml

/-!
# Reading tables of settings

Every function reads from the front of a list of characters and returns what is left, or nothing if the text breaks
the grammar. What can nest, or go on for as long as the text does, has fuel, of which each step uses some and takes
at least one character.
-/

set_option autoImplicit false

namespace N3.Toml

/-! ## Blanks, comments and ends of lines -/

def skipSpaces (cs : List Char) : List Char := cs.dropWhile fun c => c == ' ' || c == '\t'

/-- Characters that may stand in comments and literal strings. -/
def isPlain (c : Char) : Bool := c == '\t' || (0x20 ≤ c.toNat && c.toNat != 0x7F)

/-- What follows the end of a line, if the characters begin with one. -/
def newline? : List Char → Option (List Char)
  | '\n' :: rest => some rest
  | '\r' :: '\n' :: rest => some rest
  | _ => none

/-- What follows spaces, a comment and the end of the line, or the end of the text. -/
def endOfLine? (cs : List Char) : Option (List Char) :=
  let cs := match skipSpaces cs with
    | '#' :: rest => rest.dropWhile isPlain
    | cs => cs
  if cs.isEmpty then some [] else newline? cs

/-- Skips spaces, ends of lines and comments, which may stand between the items of an array. -/
def skipLines : Nat → List Char → List Char
  | 0, cs => cs
  | fuel + 1, cs =>
    match skipSpaces cs with
    | '#' :: rest =>
      match newline? (rest.dropWhile isPlain) with
      | some rest => skipLines fuel rest
      | none => '#' :: rest
    | cs =>
      match newline? cs with
      | some rest => skipLines fuel rest
      | none => cs

/-! ## Strings -/

def hexDigits? : Nat → Nat → List Char → Option (Nat × List Char)
  | 0, v, cs => some (v, cs)
  | n + 1, v, c :: cs => do hexDigits? n (16 * v + (← Json.hexValue? c)) cs
  | _ + 1, _, [] => none

/-- The character with a code, unless the code is that of half a pair or too large. -/
def scalar? (n : Nat) : Option Char := if h : n.isValidChar then some (Char.ofNatAux n h) else none

def escape? : List Char → Option (Char × List Char)
  | 'b' :: rest => some (Char.ofNat 0x08, rest)
  | 't' :: rest => some ('\t', rest)
  | 'n' :: rest => some ('\n', rest)
  | 'f' :: rest => some (Char.ofNat 0x0C, rest)
  | 'r' :: rest => some ('\r', rest)
  | '"' :: rest => some ('"', rest)
  | '\\' :: rest => some ('\\', rest)
  | 'u' :: rest => do
    let (n, rest) ← hexDigits? 4 0 rest
    return (← scalar? n, rest)
  | 'U' :: rest => do
    let (n, rest) ← hexDigits? 8 0 rest
    return (← scalar? n, rest)
  | _ => none

/-- A string between double quotes, after the first; `acc` holds its characters so far, last first. -/
def basicString? : Nat → List Char → List Char → Option (String × List Char)
  | 0, _, _ => none
  | fuel + 1, acc, cs =>
    match cs with
    | '"' :: rest => some (String.ofList acc.reverse, rest)
    | '\\' :: rest => do
      let (c, rest) ← escape? rest
      basicString? fuel (c :: acc) rest
    | c :: rest => if isPlain c then basicString? fuel (c :: acc) rest else none
    | [] => none

def literalString? (cs : List Char) : Option (String × List Char) :=
  match cs.dropWhile fun c => isPlain c && c != '\'' with
  | '\'' :: rest => some (String.ofList (cs.takeWhile fun c => isPlain c && c != '\''), rest)
  | _ => none

/-- After a backslash at the end of a line: the next character that is no blank and no end of a line. -/
def skipFold : Nat → List Char → List Char
  | 0, cs => cs
  | fuel + 1, cs =>
    match newline? (skipSpaces cs) with
    | some rest => skipFold fuel rest
    | none => skipSpaces cs

/-- The closing three quotes with up to two more, which belong to the string. -/
def closing? (quote : Char) (cs : List Char) : Option (List Char × List Char) :=
  let run := cs.takeWhile (· == quote)
  if 3 ≤ run.length ∧ run.length ≤ 5 then some (run.drop 3, cs.drop run.length) else none

/-- A string of several lines, after its opening quotes; `acc` holds its characters so far, last first. -/
def longString? (quote : Char) (escapes : Bool) : Nat → List Char → List Char → Option (String × List Char)
  | 0, _, _ => none
  | fuel + 1, acc, cs =>
    match closing? quote cs with
    | some (more, rest) => some (String.ofList (acc.reverse ++ more), rest)
    | none =>
      match cs with
      | [] => none
      | c :: rest =>
        if c = quote then
          if (cs.takeWhile (· == quote)).length < 3 then longString? quote escapes fuel (c :: acc) rest else none
        else if c = '\\' ∧ escapes then
          match newline? (skipSpaces rest) with
          | some rest => longString? quote escapes fuel acc (skipFold rest.length rest)
          | none => do
            let (c, rest) ← escape? rest
            longString? quote escapes fuel (c :: acc) rest
        else match newline? cs with
          | some rest => longString? quote escapes fuel ('\n' :: acc) rest
          | none => if isPlain c then longString? quote escapes fuel (c :: acc) rest else none

def dropNewline (cs : List Char) : List Char := (newline? cs).getD cs

def string? (cs : List Char) : Option (String × List Char) :=
  let fuel := cs.length + 1
  match cs with
  | '"' :: '"' :: '"' :: rest => longString? '"' true fuel [] (dropNewline rest)
  | '\'' :: '\'' :: '\'' :: rest => longString? '\'' false fuel [] (dropNewline rest)
  | '"' :: rest => basicString? fuel [] rest
  | '\'' :: rest => literalString? rest
  | _ => none

/-! ## Numbers and dates -/

/-- The digits of a run in which single underscores may stand between digits. -/
def digits? (isDigit : Char → Bool) (cs : List Char) : Option (List Char) :=
  let rec go : Bool → List Char → List Char → Option (List Char)
    | afterDigit, acc, [] => if afterDigit then some acc.reverse else none
    | afterDigit, acc, c :: rest =>
      if isDigit c then go true (c :: acc) rest
      else if c = '_' ∧ afterDigit then go false acc rest
      else none
  go false [] cs

def valueIn (base : Nat) (ds : List Char) : Nat := ds.foldl (fun v c => base * v + (Json.hexValue? c).getD 0) 0

def within64 (v : Int) : Option Toml := if Int64.minValue.toInt ≤ v ∧ v ≤ Int64.maxValue.toInt then some (integer v) else none

def sign : List Char → Bool × List Char
  | '-' :: rest => (true, rest)
  | '+' :: rest => (false, rest)
  | cs => (false, cs)

def decimal? (cs : List Char) : Option (List Char) := do
  let ds ← digits? Char.isDigit cs
  if ds.head? = some '0' ∧ ds.length ≠ 1 then none else some ds

def integer? (token : List Char) : Option Toml :=
  match token with
  | '0' :: 'x' :: rest => do within64 (valueIn 16 (← digits? (fun c => (Json.hexValue? c).isSome) rest))
  | '0' :: 'o' :: rest => do within64 (valueIn 8 (← digits? (fun c => '0' ≤ c ∧ c ≤ '7') rest))
  | '0' :: 'b' :: rest => do within64 (valueIn 2 (← digits? (fun c => c = '0' ∨ c = '1') rest))
  | _ => do
    let (negative, rest) := sign token
    let v : Int := valueIn 10 (← decimal? rest)
    within64 (if negative then -v else v)

def float? (token : List Char) : Option Toml := do
  let body := (sign token).2
  let text := some (float (String.ofList token))
  if body = "inf".toList ∨ body = "nan".toList then text
  else
    let mantissa := body.takeWhile fun c => c != 'e' && c != 'E'
    let exponent := body.drop mantissa.length
    let whole := mantissa.takeWhile (· != '.')
    let fraction := mantissa.drop whole.length
    let _ ← decimal? whole
    let _ ← if fraction.isEmpty then some [] else digits? Char.isDigit (fraction.drop 1)
    let _ ← if exponent.isEmpty then some [] else digits? Char.isDigit (sign (exponent.drop 1)).2
    if fraction.isEmpty ∧ exponent.isEmpty then none else text

/-- The value of exactly `n` digits, from `low` to `high`. -/
def field? (n low high : Nat) (cs : List Char) : Option (Nat × List Char) :=
  let ds := cs.take n
  let v := valueIn 10 ds
  if ds.length = n ∧ ds.all Char.isDigit ∧ low ≤ v ∧ v ≤ high then some (v, cs.drop n) else none

def expect? (c : Char) : List Char → Option (List Char)
  | d :: rest => if c = d then some rest else none
  | [] => none

def daysOf (year month : Nat) : Nat :=
  if month = 2 then if year % 4 = 0 ∧ (year % 100 ≠ 0 ∨ year % 400 = 0) then 29 else 28
  else if month = 4 ∨ month = 6 ∨ month = 9 ∨ month = 11 then 30
  else 31

def date? (cs : List Char) : Option (List Char) := do
  let (year, cs) ← field? 4 0 9999 cs
  let (month, cs) ← field? 2 1 12 (← expect? '-' cs)
  let (_, cs) ← field? 2 1 (daysOf year month) (← expect? '-' cs)
  return cs

def time? (cs : List Char) : Option (List Char) := do
  let (_, cs) ← field? 2 0 23 cs
  let (_, cs) ← field? 2 0 59 (← expect? ':' cs)
  let (_, cs) ← field? 2 0 60 (← expect? ':' cs)
  match cs with
  | '.' :: rest => if (rest.takeWhile Char.isDigit).isEmpty then none else some (rest.dropWhile Char.isDigit)
  | cs => some cs

def offset? : List Char → Option (List Char)
  | [] => some []
  | c :: rest =>
    if c = 'Z' ∨ c = 'z' then some rest
    else if c = '+' ∨ c = '-' then do
      let (_, cs) ← field? 2 0 24 rest
      let (_, cs) ← field? 2 0 59 (← expect? ':' cs)
      return cs
    else none

def datetime? (token : List Char) : Option Toml := do
  let rest ← match date? token with
    | some [] => some []
    | some (c :: rest) => if c = 'T' ∨ c = 't' ∨ c = ' ' then offset? (← time? rest) else none
    | none => time? token
  if rest.isEmpty then some (datetime (String.ofList token)) else none

def isTokenChar (c : Char) : Bool :=
  c.isAlphanum || c == '_' || c == '+' || c == '-' || c == '.' || c == ':'

/-- A number, a date or a truth value. A date may be parted from a time of day by one space. -/
def token? (cs : List Char) : Option (Toml × List Char) :=
  let token := cs.takeWhile isTokenChar
  let rest := cs.drop token.length
  let (token, rest) :=
    match date? token, rest with
    | some [], ' ' :: d :: _ =>
      if d.isDigit then
        let time := (rest.drop 1).takeWhile isTokenChar
        (token ++ ' ' :: time, rest.drop (time.length + 1))
      else (token, rest)
    | _, _ => (token, rest)
  let value :=
    if token = "true".toList then some (boolean true)
    else if token = "false".toList then some (boolean false)
    else ((integer? token).or (float? token)).or (datetime? token)
  value.map fun v => (v, rest)

/-! ## Keys -/

def isBare (c : Char) : Bool := c.isAlphanum || c == '_' || c == '-'

def simpleKey? (cs : List Char) : Option (String × List Char) :=
  match cs with
  | '"' :: rest => basicString? (rest.length + 1) [] rest
  | '\'' :: rest => literalString? rest
  | cs =>
    let key := cs.takeWhile isBare
    if key.isEmpty then none else some (String.ofList key, cs.drop key.length)

/-- The parts of a dotted key but for the last, last first, and the last part. -/
def key? : Nat → List String → List Char → Option (List String × String × List Char)
  | 0, _, _ => none
  | fuel + 1, acc, cs => do
    let (part, rest) ← simpleKey? (skipSpaces cs)
    match skipSpaces rest with
    | '.' :: rest => key? fuel (part :: acc) rest
    | rest => return (acc.reverse, part, rest)

/-! ## Values -/

mutual

def value? : Nat → List Char → Option (Toml × List Char)
  | 0, _ => none
  | fuel + 1, cs =>
    match cs with
    | '[' :: rest => items? fuel [] rest
    | '\x7b' :: rest =>
      match skipSpaces rest with
      | '\x7d' :: rest => some (inlineTable [], rest)
      | rest => inlineEntries? fuel [] rest
    | c :: _ =>
      if c = '"' ∨ c = '\'' then (string? cs).map fun (s, rest) => (string s, rest) else token? cs
    | [] => none

/-- The items of an array up to its closing bracket; `acc` holds those so far, last first. -/
def items? : Nat → List Toml → List Char → Option (Toml × List Char)
  | 0, _, _ => none
  | fuel + 1, acc, cs =>
    match skipLines cs.length cs with
    | ']' :: rest => some (array acc.reverse, rest)
    | cs => do
      let (v, rest) ← value? fuel cs
      match skipLines rest.length rest with
      | ',' :: rest => items? fuel (v :: acc) rest
      | ']' :: rest => return (array (v :: acc).reverse, rest)
      | _ => none

def inlineEntries? : Nat → Entries → List Char → Option (Toml × List Char)
  | 0, _, _ => none
  | fuel + 1, es, cs => do
    let (path, key, rest) ← key? cs.length [] cs
    let rest ← expect? '=' rest
    let (v, rest) ← value? fuel (skipSpaces rest)
    let es ← addValue path key v es
    match skipSpaces rest with
    | ',' :: rest => inlineEntries? fuel es rest
    | '\x7d' :: rest => return (inlineTable es, rest)
    | _ => none

end

/-! ## Documents -/

/-- Reads a header from its first bracket on: whether it is a repeated one, its path and what follows it. -/
def header? (cs : List Char) : Option (Bool × List String × String × List Char) :=
  match cs with
  | '[' :: '[' :: rest => do
    let (path, key, rest) ← key? rest.length [] rest
    match rest with
    | ']' :: ']' :: rest => return (true, path, key, rest)
    | _ => none
  | '[' :: rest => do
    let (path, key, rest) ← key? rest.length [] rest
    match rest with
    | ']' :: rest => return (false, path, key, rest)
    | _ => none
  | _ => none

/-- The lines of a document. `current` is the path that the last header named, `es` all that came before. -/
def lines? : Nat → List String → Entries → List Char → Option Entries
  | 0, _, es, cs => if cs.isEmpty then some es else none
  | fuel + 1, current, es, cs =>
    match skipSpaces cs with
    | [] => some es
    | '[' :: rest => do
      let (repeated, path, key, rest) ← header? ('[' :: rest)
      let es ← if repeated then addElement path key es else addHeader path key es
      lines? fuel (path ++ [key]) es (← endOfLine? rest)
    | cs =>
      match endOfLine? cs with
      | some rest => lines? fuel current es rest
      | none => do
        let (path, key, rest) ← key? cs.length [] cs
        let rest ← expect? '=' rest
        let (v, rest) ← value? cs.length (skipSpaces rest)
        let es ← atHeader (addValue path key v) current es
        lines? fuel current es (← endOfLine? rest)

def parse? (text : String) : Option Toml := do
  let cs := match text.toList with
    | '\uFEFF' :: rest => rest
    | cs => cs
  return table .header (← lines? (cs.length + 1) [] [] cs)

end N3.Toml
