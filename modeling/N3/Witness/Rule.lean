import N3.Witness.Condition

/-!
# Rules

A rule lets a witness count, or forbids it, where its condition holds.
-/

set_option autoImplicit false

namespace N3

structure Rule where
  allow : Bool
  condition : Condition
  deriving DecidableEq, Inhabited

namespace Rule

def action (r : Rule) : String := if r.allow then "Allow" else "Deny"

def ofAction (name : String) : Except ArgumentError Bool :=
  if name = "Deny" then .ok false else if name = "Allow" then .ok true else .error (.ruleAction name)

/-! ## Wire form -/

def encode (r : Rule) : Bytes := (if r.allow then 1 else 0) :: r.condition.encode

def size (r : Rule) : Nat := 1 + r.condition.size

def decode : Decoder DecodeError Rule := do
  let b ← Decoder.byte
  let allow ← Decoder.ofOption (if b = 0 then some false else if b = 1 then some true else none)
    (.format (.ruleAction b))
  let condition ← Condition.decode
  return ⟨allow, condition⟩

/-! ## JSON -/

def toJson (r : Rule) : Json := .obj [("action", .str r.action), ("condition", r.condition.toJson)]

def ofJson (j : Json) : Except Error Rule := do
  let some (.str action) := j.get? "action" | throw (.invalidArgument (.ruleFieldMissing "action"))
  let allow ← (ofAction action).mapError .invalidArgument
  let some condition := j.get? "condition" | throw (.invalidArgument (.ruleFieldMissing "condition"))
  return ⟨allow, ← Condition.ofJson condition⟩

end Rule

end N3
