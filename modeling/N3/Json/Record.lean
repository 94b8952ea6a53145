import N3.Error
import N3.Json.Text

/-!
# Records in JSON

A record of named fields is written as an object, in any order and with unknown fields among them, or as an array of
its fields in order, where those at the end may be missing if they have a default. All fields are read, and if
several are bad, the one that is written first decides the error; what is missing or too much comes after all that is
there.
-/

set_option autoImplicit false

namespace N3

/-- Why a JSON value is not what it should be. Most such errors have no wording of their own. -/
inductive JsonFault where
  | shape
  | amount (found : Json)
  | argument (cause : ArgumentError)

def JsonFault.message? : JsonFault → Option String
  | .shape => none
  | .amount (.str s) => some ("invalid amount '" ++ s ++ "'")
  | .amount found => some ("invalid amount " ++ found.render)
  | .argument cause => some (Error.message (.invalidArgument cause))

namespace Json

/-! ## Plain values -/

abbrev Read (α : Type) := Json → Except JsonFault α

def required {α : Type} (o : Option α) : Except JsonFault α := o.elim (.error .shape) .ok

def readText : Read String := fun j => required j.asString?

def readBool : Read Bool := fun j => required j.asBool?

def readAny : Read Json := .ok

def readInt (low high : Int) : Read Int := fun j =>
  match j.asInt? with
  | some v => if low ≤ v ∧ v ≤ high then .ok v else .error .shape
  | none => .error .shape

def readUInt32 : Read UInt32 := fun j => return UInt32.ofNat (← readInt 0 0xFFFFFFFF j).toNat

def readUInt64 : Read UInt64 := fun j => return UInt64.ofNat (← readInt 0 0xFFFFFFFFFFFFFFFF j).toNat

def readInt64 : Read Int64 := fun j => return Int64.ofInt (← readInt Int64.minValue.toInt Int64.maxValue.toInt j)

def readList {α : Type} (item : Read α) : Read (List α) := fun j => do (← required j.asArray?).mapM item

/-- Nothing for `null`. -/
def readOption {α : Type} (value : Read α) : Read (Option α)
  | .null => .ok none
  | j => return some (← value j)

/-- One of several names: a text, or an object of that one field with nothing in it. -/
def readName {α : Type} (names : List (String × α)) : Read α
  | .str s => required (names.lookup s)
  | .obj [(key, .null)] => required (names.lookup key)
  | _ => .error .shape

def readHash (n : Nat) : Read (FixedBytes n) := fun j => do
  (FixedBytes.parse n (← readText j)).mapError fun e => .argument (.hash e)

/-! ## Records -/

/-- A value, or the place and the cause of the first fault. -/
structure Checked (α : Type) where
  result : Except (Nat × JsonFault) α

namespace Checked

variable {α β : Type}

def value (a : α) : Checked α := ⟨.ok a⟩

/-- Applies what one field gives to what another gives; of two faults the one in the earlier place stays. -/
def apply (f : Checked (α → β)) (a : Checked α) : Checked β :=
  match f.result, a.result with
  | .ok f, .ok a => ⟨.ok (f a)⟩
  | .ok _, .error e => ⟨.error e⟩
  | .error e, .ok _ => ⟨.error e⟩
  | .error e, .error e' => ⟨.error (if e.1 ≤ e'.1 then e else e')⟩

instance : Applicative Checked where
  pure := value
  seq f a := apply f (a ())

end Checked

/-- The fields that are there, each with its place, and how many values there are in all. -/
structure Fields where
  found : List (String × (Nat × Json))
  total : Nat
  excess : Bool

/-- The fields of an object, or of an array with the given names. -/
def fields (names : List String) : Json → Option Fields
  | .obj fs => some ⟨fs.zipIdx.map fun (f, i) => (f.1, i, f.2), fs.length, false⟩
  | .arr items => some ⟨names.zip (items.zipIdx.map fun (j, i) => (i, j)), items.length, names.length < items.length⟩
  | _ => none

def Fields.need {α : Type} (fs : Fields) (name : String) (read : Read α) : Checked α :=
  match fs.found.lookup name with
  | some (place, j) => ⟨(read j).mapError fun e => (place, e)⟩
  | none => ⟨.error (fs.total, .shape)⟩

def Fields.get {α : Type} (fs : Fields) (name : String) (read : Read α) (default : α) : Checked α :=
  match fs.found.lookup name with
  | some (place, j) => ⟨(read j).mapError fun e => (place, e)⟩
  | none => .value default

/-- A field that may be missing or `null`. -/
def Fields.option {α : Type} (fs : Fields) (name : String) (read : Read α) : Checked (Option α) :=
  fs.get name (readOption read) none

def readRecord {α : Type} (names : List String) (build : Fields → Checked α) : Read α := fun j =>
  match fields names j with
  | none => .error .shape
  | some fs =>
    match (build fs).result with
    | .ok a => if fs.excess then .error .shape else .ok a
    | .error (_, e) => .error e

end Json

end N3
