import N3.Json

/-!
# Tables of settings

A document is a table of keys and values. Headers name tables inside it, a dotted key names a value in a table
inside the current one, and a table between braces is closed as soon as it is written. Nothing is written twice: a
header may name a table that so far was only passed through, and a dotted key may add to a table that dotted keys
made, but a table that has had its header or its braces is complete.
-/

set_option autoImplicit false

namespace N3

inductive TableOrigin where
  /-- Passed through on the way to another. -/
  | implicit
  | dotted
  /-- Named by its own header. -/
  | header
  deriving DecidableEq, Repr

inductive Toml where
  | string (value : String)
  | integer (value : Int)
  | boolean (value : Bool)
  | float (text : String)
  | datetime (text : String)
  | array (items : List Toml)
  /-- A table between braces. -/
  | inlineTable (entries : List (String × Toml))
  | table (origin : TableOrigin) (entries : List (String × Toml))
  /-- Tables under one repeated header, last first. -/
  | tables (elements : List (List (String × Toml)))
  deriving Inhabited

namespace Toml

abbrev Entries := List (String × Toml)

def put (es : Entries) (key : String) (v : Toml) : Entries :=
  if es.any fun e => e.1 == key then es.map fun e => if e.1 == key then (key, v) else e else es ++ [(key, v)]

/-- Applies a change to the table at the end of a path from `es`. Tables on the way that do not exist yet are made
with the given origin; a dotted path does not enter a table that has had its header. -/
def descend (dotted : Bool) (change : Bool → Entries → Option Entries) : List String → Bool → Entries → Option Entries
  | [], isDotted, es => change isDotted es
  | key :: path, _, es =>
    match es.lookup key with
    | none => do
      let inner ← descend dotted change path dotted []
      return put es key (table (if dotted then .dotted else .implicit) inner)
    | some (table origin inner) => do
      if dotted && origin == .header then none
      let inner ← descend dotted change path (origin == .dotted) inner
      return put es key (table origin inner)
    | some (tables (last :: others)) => do
      let last ← descend dotted change path false last
      return put es key (tables (last :: others))
    | some _ => none

def addValue (path : List String) (key : String) (v : Toml) (es : Entries) : Option Entries :=
  descend true
    (fun isDotted inner =>
      if isDotted == path.isEmpty then none
      else if (inner.lookup key).isSome then none
      else some (inner ++ [(key, v)]))
    path false es

def addHeader (path : List String) (key : String) (es : Entries) : Option Entries :=
  descend false
    (fun _ inner =>
      match inner.lookup key with
      | none => some (inner ++ [(key, table .header [])])
      | some (table .implicit t) => some (put inner key (table .header t))
      | some _ => none)
    path false es

/-- Opens one more table under a repeated header. -/
def addElement (path : List String) (key : String) (es : Entries) : Option Entries :=
  descend false
    (fun _ inner =>
      match inner.lookup key with
      | none => some (inner ++ [(key, tables [[]])])
      | some (tables ts) => some (put inner key (tables ([] :: ts)))
      | some _ => none)
    path false es

/-- Applies a change to the table that the last header opened. -/
def atHeader (change : Entries → Option Entries) : List String → Entries → Option Entries
  | [], es => change es
  | key :: path, es =>
    match es.lookup key with
    | some (table origin inner) => do return put es key (table origin (← atHeader change path inner))
    | some (tables (last :: others)) => do return put es key (tables ((← atHeader change path last) :: others))
    | _ => none

/-! ## As JSON -/

mutual

/-- The same value in JSON. Numbers with a fraction and dates have no use here, and become objects, which nothing
takes for a number or a text. -/
def toJson : Toml → Json
  | string s => .str s
  | integer v => .int v
  | boolean b => .bool b
  | float s => .obj [("float", .str s)]
  | datetime s => .obj [("datetime", .str s)]
  | array items => .arr (itemsToJson items)
  | inlineTable es => .obj (entriesToJson es)
  | table _ es => .obj (entriesToJson es)
  | tables ts => .arr (tablesToJson ts).reverse

def itemsToJson : List Toml → List Json
  | [] => []
  | t :: ts => toJson t :: itemsToJson ts

def entriesToJson : Entries → List (String × Json)
  | [] => []
  | (key, t) :: es => (key, toJson t) :: entriesToJson es

def tablesToJson : List Entries → List Json
  | [] => []
  | es :: ts => .obj (entriesToJson es) :: tablesToJson ts

end

end Toml

end N3
