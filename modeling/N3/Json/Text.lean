import N3.Json

/-!
# JSON as text

`render` writes a value without blanks and `pretty` with one field or item a line. A string escapes quotes,
backslashes and control characters. A double is written positionally where its point falls within sixteen digits
after the first or five zeros before it, and otherwise with an exponent.
-/

set_option autoImplicit false

namespace N3

namespace JsonNumber

/-- The text of a double: its digits, and where the point falls in them. -/
def renderReal (negative : Bool) (digits : Nat) (exponent : Int) : String :=
  let ds := toString digits
  let n : Int := ds.length
  let point := n + exponent
  let body :=
    if digits = 0 then "0.0"
    else if 0 ≤ exponent ∧ point ≤ 16 then ds ++ String.ofList (List.replicate exponent.toNat '0') ++ ".0"
    else if 0 < point ∧ point ≤ 16 then
      String.ofList (ds.toList.take point.toNat) ++ "." ++ String.ofList (ds.toList.drop point.toNat)
    else if -5 < point ∧ point ≤ 0 then "0." ++ String.ofList (List.replicate (-point).toNat '0') ++ ds
    else
      let head := String.ofList (ds.toList.take 1)
      let tail := String.ofList (ds.toList.drop 1)
      (if tail.isEmpty then head else head ++ "." ++ tail) ++ "e" ++ toString (point - 1)
  if negative then "-" ++ body else body

def render : JsonNumber → String
  | int v => toString v
  | real negative digits exponent => renderReal negative digits exponent

end JsonNumber

namespace Json

/-! ## Strings -/

def hexDigit (v : Nat) : Char := if v < 10 then Char.ofNat (0x30 + v) else Char.ofNat (0x57 + v)

def escapeChar (c : Char) : List Char :=
  match c with
  | '"' => ['\\', '"']
  | '\\' => ['\\', '\\']
  | '\n' => ['\\', 'n']
  | '\r' => ['\\', 'r']
  | '\t' => ['\\', 't']
  | c =>
    let n := c.toNat
    if n = 0x08 then ['\\', 'b']
    else if n = 0x0C then ['\\', 'f']
    else if n < 0x20 then ['\\', 'u', '0', '0', hexDigit (n / 16), hexDigit (n % 16)]
    else [c]

def quote (s : String) : String := "\"" ++ String.ofList (s.toList.flatMap escapeChar) ++ "\""

/-! ## Values -/

mutual

def render : Json → String
  | null => "null"
  | bool b => if b then "true" else "false"
  | num n => n.render
  | str s => quote s
  | arr items => "[" ++ ",".intercalate (renderItems items) ++ "]"
  | obj fields => "\x7b" ++ ",".intercalate (renderFields fields) ++ "\x7d"

def renderItems : List Json → List String
  | [] => []
  | j :: js => render j :: renderItems js

def renderFields : List (String × Json) → List String
  | [] => []
  | (key, j) :: fields => (quote key ++ ":" ++ render j) :: renderFields fields

end

/-- Lines between two brackets, indented one level more than the brackets. -/
def bracket (opening closing : String) (depth : Nat) (lines : List String) : String :=
  if lines.isEmpty then opening ++ closing
  else
    let indent (n : Nat) := "\n" ++ String.ofList (List.replicate (2 * n) ' ')
    opening ++ indent (depth + 1) ++ ("," ++ indent (depth + 1)).intercalate lines ++ indent depth ++ closing

mutual

def prettyAt (depth : Nat) : Json → String
  | arr items => bracket "[" "]" depth (prettyItems (depth + 1) items)
  | obj fields => bracket "\x7b" "\x7d" depth (prettyFields (depth + 1) fields)
  | j => render j

def prettyItems (depth : Nat) : List Json → List String
  | [] => []
  | j :: js => prettyAt depth j :: prettyItems depth js

def prettyFields (depth : Nat) : List (String × Json) → List String
  | [] => []
  | (key, j) :: fields => (quote key ++ ": " ++ prettyAt depth j) :: prettyFields depth fields

end

/-- The text with one field or item a line, each level indented by two blanks. -/
def pretty (j : Json) : String := prettyAt 0 j

end Json

end N3
