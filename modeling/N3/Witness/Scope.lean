import N3.Json.Record
import N3.Text.Blank

/-!
# Where a witness counts

A scope is a set of flags, one bit each: the entry script, listed contracts, contracts of listed groups, wherever
rules allow, or everywhere. No flag at all lets the witness pay fees and nothing else. Everywhere leaves nothing to
add, so `Global` stands alone.
-/

set_option autoImplicit false

namespace N3

structure Scope where
  bits : UInt8
  deriving DecidableEq, Repr

namespace Scope

def none : Scope := ⟨0x00⟩
def calledByEntry : Scope := ⟨0x01⟩
def customContracts : Scope := ⟨0x10⟩
def customGroups : Scope := ⟨0x20⟩
def witnessRules : Scope := ⟨0x40⟩
def global : Scope := ⟨0x80⟩

/-- The flags by bit, each with its name. -/
def named : List (Scope × String) :=
  [(calledByEntry, "CalledByEntry"), (customContracts, "CustomContracts"), (customGroups, "CustomGroups"),
   (witnessRules, "WitnessRules"), (global, "Global")]

def knownBits : UInt8 := 0xF1

def union (a b : Scope) : Scope := ⟨a.bits ||| b.bits⟩

def has (a flag : Scope) : Bool := a.bits &&& flag.bits != 0

def isNone (a : Scope) : Bool := a.bits == 0

/-- Whether each bit is a flag, and `Global` stands alone. -/
def isValid (a : Scope) : Bool := !(a.has global && a != global) && a.bits &&& ~~~ knownBits == 0

def flags (a : Scope) : List Scope := (named.filter fun f => a.has f.1).map (·.1)

def ofByte (b : UInt8) : Except ScopeFault Scope :=
  if b &&& ~~~ knownBits ≠ 0 then .error (.unknownBits b)
  else if (Scope.mk b).isValid then .ok ⟨b⟩
  else .error .globalCombined

/-- The names of the flags, or `None`. -/
def text (a : Scope) : String :=
  if a.isNone then "None" else ", ".intercalate ((named.filter fun f => a.has f.1).map (·.2))

/-- Adds the flag of a name to a set; `None` adds nothing. -/
def addNamed (a : Scope) (name : String) : Except ArgumentError Scope :=
  if name = "None" then .ok a
  else match named.find? fun f => f.2 == name with
    | some (flag, _) => .ok (a.union flag)
    | Option.none => .error (.unknownScope name)

/-- Reads names between commas, with any blanks around them. -/
def parse (text : String) : Except ArgumentError Scope := do
  let names := ((Blank.splitOn ',' text.toList).map Blank.trim).filter (! ·.isEmpty)
  let a ← names.foldlM (fun a name => a.addNamed (String.ofList name)) none
  if a.isValid then return a else throw .globalCombined

def toJson (a : Scope) : Json := .str a.text

def ofJson : Json.Read Scope := fun j => do (parse (← Json.readText j)).mapError .argument

end Scope

end N3
