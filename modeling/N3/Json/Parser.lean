import N3.Json
import N3.Json.Double

/-!
# Reading JSON

A value is read from the front of a list of characters. Each call has one step of fuel less than the one that makes
it, and of two such steps at least one takes a character, so twice the length of the text is fuel enough, also for
the characters of a string. A field that is repeated keeps its first place and its last value.
-/

set_option autoImplicit false

namespace N3.Json

def skipBlanks (cs : List Char) : List Char :=
  cs.dropWhile fun c => c == ' ' || c == '\n' || c == '\r' || c == '\t'

/-! ## Numbers -/

def digitValue (c : Char) : Nat := c.toNat - 0x30

def digitsValue (cs : List Char) : Nat := cs.foldl (fun v c => 10 * v + digitValue c) 0

/-- An integer within 64 bits, or the nearest double. A negative zero is a double. -/
def number? (negative : Bool) (whole fraction : List Char) (exponent : Option Int) : Option JsonNumber :=
  let m := digitsValue (whole ++ fraction)
  let isWhole := fraction.isEmpty && exponent.isNone
  if isWhole && !negative && m < UInt64.size then some (.int m)
  else if isWhole && negative && 0 < m && Int64.minValue.toInt ≤ -(m : Int) then some (.int (-(m : Int)))
  else (Double.ofDecimal? m (exponent.getD 0 - fraction.length)).map fun (d, e) => .real negative d e

def parseExponent (cs : List Char) : Option (Option Int × List Char) :=
  match cs with
  | c :: rest =>
    if c = 'e' ∨ c = 'E' then
      let (negative, rest) :=
        match rest with
        | '-' :: r => (true, r)
        | '+' :: r => (false, r)
        | r => (false, r)
      let ds := rest.takeWhile Char.isDigit
      if ds.isEmpty then none
      else
        let v : Int := digitsValue ds
        some (some (if negative then -v else v), rest.dropWhile Char.isDigit)
    else some (none, cs)
  | [] => some (none, cs)

def parseNumber (cs : List Char) : Option (JsonNumber × List Char) := do
  let (negative, cs) := match cs with
    | '-' :: rest => (true, rest)
    | cs => (false, cs)
  let whole := cs.takeWhile Char.isDigit
  let cs := cs.dropWhile Char.isDigit
  if whole.isEmpty ∨ (whole.head? = some '0' ∧ whole.length ≠ 1) then none
  let (fraction, cs) ← match cs with
    | '.' :: rest =>
      let ds := rest.takeWhile Char.isDigit
      if ds.isEmpty then none else some (ds, rest.dropWhile Char.isDigit)
    | cs => some ([], cs)
  let (exponent, cs) ← parseExponent cs
  let n ← number? negative whole fraction exponent
  return (n, cs)

/-! ## Strings -/

def hexValue? (c : Char) : Option Nat :=
  if '0' ≤ c ∧ c ≤ '9' then some (c.toNat - 0x30)
  else if 'a' ≤ c ∧ c ≤ 'f' then some (c.toNat - 0x57)
  else if 'A' ≤ c ∧ c ≤ 'F' then some (c.toNat - 0x37)
  else none

def parseUnit : List Char → Option (Nat × List Char)
  | a :: b :: c :: d :: rest => do
    let v := (((← hexValue? a) * 16 + (← hexValue? b)) * 16 + (← hexValue? c)) * 16 + (← hexValue? d)
    return (v, rest)
  | _ => none

/-- The character of an escape, from the letter on. -/
def parseEscape : List Char → Option (Char × List Char)
  | '"' :: rest => some ('"', rest)
  | '\\' :: rest => some ('\\', rest)
  | '/' :: rest => some ('/', rest)
  | 'b' :: rest => some (Char.ofNat 0x08, rest)
  | 'f' :: rest => some (Char.ofNat 0x0C, rest)
  | 'n' :: rest => some ('\n', rest)
  | 'r' :: rest => some ('\r', rest)
  | 't' :: rest => some ('\t', rest)
  | 'u' :: rest => do
    let (u, rest) ← parseUnit rest
    if 0xD800 ≤ u ∧ u < 0xDC00 then
      match rest with
      | '\\' :: 'u' :: rest =>
        let (v, rest) ← parseUnit rest
        if 0xDC00 ≤ v ∧ v < 0xE000 then
          return (Char.ofNat (0x10000 + (u - 0xD800) * 0x400 + (v - 0xDC00)), rest)
        else none
      | _ => none
    else if 0xDC00 ≤ u ∧ u < 0xE000 then none
    else return (Char.ofNat u, rest)
  | _ => none

/-- The characters of a string after its opening quote; `acc` holds those so far, last first. -/
def parseChars : Nat → List Char → List Char → Option (String × List Char)
  | 0, _, _ => none
  | fuel + 1, acc, cs =>
    match cs with
    | '"' :: rest => some (String.ofList acc.reverse, rest)
    | '\\' :: rest => do
      let (c, rest) ← parseEscape rest
      parseChars fuel (c :: acc) rest
    | c :: rest => if c.toNat < 0x20 then none else parseChars fuel (c :: acc) rest
    | [] => none

/-! ## Values -/

mutual

def parseValue : Nat → List Char → Option (Json × List Char)
  | 0, _ => none
  | fuel + 1, cs =>
    match skipBlanks cs with
    | 'n' :: 'u' :: 'l' :: 'l' :: rest => some (null, rest)
    | 't' :: 'r' :: 'u' :: 'e' :: rest => some (bool true, rest)
    | 'f' :: 'a' :: 'l' :: 's' :: 'e' :: rest => some (bool false, rest)
    | '"' :: rest => do
      let (s, rest) ← parseChars fuel [] rest
      return (str s, rest)
    | '[' :: rest =>
      match skipBlanks rest with
      | ']' :: rest => some (arr [], rest)
      | rest => do
        let (items, rest) ← parseItems fuel [] rest
        return (arr items, rest)
    | '\x7b' :: rest =>
      match skipBlanks rest with
      | '\x7d' :: rest => some (obj [], rest)
      | rest => do
        let (fields, rest) ← parseFields fuel [] rest
        return (obj fields, rest)
    | cs => do
      let (n, rest) ← parseNumber cs
      return (num n, rest)

/-- The items of an array up to its closing bracket; `acc` holds those so far, last first. -/
def parseItems : Nat → List Json → List Char → Option (List Json × List Char)
  | 0, _, _ => none
  | fuel + 1, acc, cs => do
    let (j, rest) ← parseValue fuel cs
    match skipBlanks rest with
    | ',' :: rest => parseItems fuel (j :: acc) rest
    | ']' :: rest => return ((j :: acc).reverse, rest)
    | _ => none

/-- The fields of an object up to its closing brace; `acc` holds those so far. -/
def parseFields : Nat → List (String × Json) → List Char → Option (List (String × Json) × List Char)
  | 0, _, _ => none
  | fuel + 1, acc, cs =>
    match skipBlanks cs with
    | '"' :: rest => do
      let (key, rest) ← parseChars fuel [] rest
      match skipBlanks rest with
      | ':' :: rest =>
        let (j, rest) ← parseValue fuel rest
        let acc := setField acc key j
        match skipBlanks rest with
        | ',' :: rest => parseFields fuel acc rest
        | '\x7d' :: rest => return (acc, rest)
        | _ => none
      | _ => none
    | _ => none

end

/-- The value that a text spells, if it spells one and nothing more. -/
def parse? (text : String) : Option Json := do
  let cs := text.toList
  let (j, rest) ← parseValue (2 * cs.length + 2) cs
  if (skipBlanks rest).isEmpty then some j else none

end N3.Json
