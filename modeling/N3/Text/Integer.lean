/-!
# Integers as text

A sign and decimal digits. Integers of any size may be grouped by underscores, though not from the first digit on;
integers of a fixed width may not.
-/

set_option autoImplicit false

namespace N3.Integer

inductive Error where
  | empty
  | invalidDigit
  deriving DecidableEq, Repr

def Error.message : Error → String
  | .empty => "cannot parse integer from empty string"
  | .invalidDigit => "invalid digit found in string"

def digit? (c : Char) : Option Nat := if '0' ≤ c ∧ c ≤ '9' then some (c.toNat - 0x30) else none

/-- Whether there is a minus sign in front, and what follows the sign. -/
def splitSign : List Char → Bool × List Char
  | '-' :: cs => (true, cs)
  | '+' :: cs => (false, cs)
  | cs => (false, cs)

def withSign (negative : Bool) (v : Nat) : Int := if negative then -(v : Int) else v

/-! ## Any size -/

/-- The number whose last digits these are, after `v`; underscores count for nothing. -/
def grouped? (v : Nat) : List Char → Option Nat
  | [] => some v
  | '_' :: cs => grouped? v cs
  | c :: cs =>
    match digit? c with
    | some d => grouped? (10 * v + d) cs
    | none => none

def parse (text : String) : Except Error Int :=
  match splitSign text.toList with
  | (_, []) => .error .empty
  | (_, '_' :: _) => .error .invalidDigit
  | (negative, cs) => (grouped? 0 cs).elim (.error .invalidDigit) fun v => .ok (withSign negative v)

/-! ## Fixed widths -/

def plain? (cs : List Char) : Option Nat :=
  if cs.isEmpty then none else cs.foldlM (fun v c => (digit? c).map fun d => 10 * v + d) 0

def parseInt64? (text : String) : Option Int64 := do
  let (negative, cs) := splitSign text.toList
  let v := withSign negative (← plain? cs)
  if Int64.minValue.toInt ≤ v ∧ v ≤ Int64.maxValue.toInt then some (Int64.ofInt v) else none

/-- An integer of 32 bits without a sign, which may still be written as minus zero. -/
def parseUInt32? (text : String) : Option UInt32 := do
  let v ← parseInt64? text
  if 0 ≤ v.toInt ∧ v.toInt < UInt32.size then some (UInt32.ofNat v.toInt.toNat) else none

/-- A count of 64 bits, to which no minus sign belongs. -/
def parseCount? (text : String) : Option Nat := do
  let v ← plain? (if text.toList.head? = some '-' then [] else (splitSign text.toList).2)
  if v < UInt64.size then some v else none

end N3.Integer
