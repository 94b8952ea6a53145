/-!
# JSON values

An object keeps its fields in the order in which they were written. A number is an integer of 64 bits, signed or
not, or else a double, which is kept as the shortest decimal that reads back as it: `digits` times ten to the
`exponent`, the digits without a trailing zero.
-/

set_option autoImplicit false

namespace N3

inductive JsonNumber where
  | int (value : Int)
  | real (negative : Bool) (digits : Nat) (exponent : Int)
  deriving DecidableEq, Repr

inductive Json where
  | null
  | bool (value : Bool)
  | num (value : JsonNumber)
  | str (value : String)
  | arr (items : List Json)
  | obj (fields : List (String × Json))
  deriving Inhabited, Repr

namespace Json

instance : Coe String Json := ⟨str⟩

def int (v : Int) : Json := num (.int v)

def nat (v : Nat) : Json := int v

def get? (key : String) : Json → Option Json
  | obj fields => fields.lookup key
  | _ => none

def asString? : Json → Option String
  | str s => some s
  | _ => none

def asArray? : Json → Option (List Json)
  | arr items => some items
  | _ => none

def asBool? : Json → Option Bool
  | bool b => some b
  | _ => none

def asInt? : Json → Option Int
  | num (.int v) => some v
  | _ => none

/-- The integer, if it fits in 64 bits with a sign. -/
def asInt64? (j : Json) : Option Int64 := do
  let v ← j.asInt?
  if Int64.minValue.toInt ≤ v ∧ v ≤ Int64.maxValue.toInt then some (Int64.ofInt v) else none

/-- A field that is written only if it has a value. -/
def field? (key : String) (value : Option Json) : List (String × Json) :=
  (value.map fun v => (key, v)).toList

/-- The fields with one set: in its old place, or else last. -/
def setField (fields : List (String × Json)) (key : String) (value : Json) : List (String × Json) :=
  if fields.any fun f => f.1 == key then fields.map fun f => if f.1 == key then (key, value) else f
  else fields ++ [(key, value)]

end Json

end N3
