import N3.Codec.Reader
import N3.Codec.Writer
import N3.Error
import N3.Json.Lemmas
import N3.Limits

/-!
# Conditions

A condition says where a witness counts: it is a test of the contract that runs or that called it, or a negation
or a connective of other conditions. It has a wire form, which begins with the byte of its kind, and a JSON form,
which names the kind.

The depth of a condition is bounded twice, and both bounds are checked when a condition is attached to a signer and
again when one is read: the levels of connectives, which a negation passes through, and the levels of connectives and
negations together.
-/

set_option autoImplicit false

namespace N3

inductive Condition where
  | boolean (value : Bool)
  | not (condition : Condition)
  | and (conditions : List Condition)
  | or (conditions : List Condition)
  | scriptHash (hash : Hash160)
  | group (key : Point)
  | calledByEntry
  | calledByContract (hash : Hash160)
  | calledByGroup (key : Point)
  deriving Inhabited

namespace Condition

/-! ## Kinds -/

inductive Kind where
  | boolean | not | and | or | scriptHash | group | calledByEntry | calledByContract | calledByGroup
  deriving DecidableEq, Repr

namespace Kind

def byte : Kind → UInt8
  | boolean => 0x00
  | not => 0x01
  | and => 0x02
  | or => 0x03
  | scriptHash => 0x18
  | group => 0x19
  | calledByEntry => 0x20
  | calledByContract => 0x28
  | calledByGroup => 0x29

def name : Kind → String
  | boolean => "Boolean"
  | not => "Not"
  | and => "And"
  | or => "Or"
  | scriptHash => "ScriptHash"
  | group => "Group"
  | calledByEntry => "CalledByEntry"
  | calledByContract => "CalledByContract"
  | calledByGroup => "CalledByGroup"

def all : List Kind :=
  [boolean, not, and, or, scriptHash, group, calledByEntry, calledByContract, calledByGroup]

def ofByte? (b : UInt8) : Option Kind := all.find? fun k => k.byte == b

def ofName? (s : String) : Option Kind := all.find? fun k => k.name == s

end Kind

def kind : Condition → Kind
  | boolean _ => .boolean
  | not _ => .not
  | and _ => .and
  | or _ => .or
  | scriptHash _ => .scriptHash
  | group _ => .group
  | calledByEntry => .calledByEntry
  | calledByContract _ => .calledByContract
  | calledByGroup _ => .calledByGroup

/-! ## Equality -/

mutual

def beq : Condition → Condition → Bool
  | boolean v, boolean w => v == w
  | not c, not d => beq c d
  | and cs, and ds => beqAll cs ds
  | or cs, or ds => beqAll cs ds
  | scriptHash h, scriptHash k => h == k
  | group h, group k => h == k
  | calledByEntry, calledByEntry => true
  | calledByContract h, calledByContract k => h == k
  | calledByGroup h, calledByGroup k => h == k
  | _, _ => false

def beqAll : List Condition → List Condition → Bool
  | [], [] => true
  | c :: cs, d :: ds => beq c d && beqAll cs ds
  | _, _ => false

end

mutual

theorem beq_iff : ∀ a b : Condition, beq a b = true ↔ a = b
  | boolean _, b => by cases b <;> simp [beq]
  | not c, b => by cases b <;> simp [beq, beq_iff c]
  | and cs, b => by cases b <;> simp [beq, beqAll_iff cs]
  | or cs, b => by cases b <;> simp [beq, beqAll_iff cs]
  | scriptHash _, b => by cases b <;> simp [beq]
  | group _, b => by cases b <;> simp [beq]
  | calledByEntry, b => by cases b <;> simp [beq]
  | calledByContract _, b => by cases b <;> simp [beq]
  | calledByGroup _, b => by cases b <;> simp [beq]

theorem beqAll_iff : ∀ as bs : List Condition, beqAll as bs = true ↔ as = bs
  | [], bs => by cases bs <;> simp [beqAll]
  | a :: as, bs => by cases bs <;> simp [beqAll, beq_iff a, beqAll_iff as]

end

instance : DecidableEq Condition := fun a b => decidable_of_iff _ (beq_iff a b)

/-! ## Depth -/

mutual

/-- Whether at most `levels` connectives and at most `nesting` connectives and negations lie on each path from the
root, and no connective holds too many expressions. The first node that breaks a bound decides the error. -/
def checkAt (levels nesting : Nat) : Condition → Except Error Unit
  | not c =>
    if nesting = 0 then .error (.signerConfiguration (.conditionTooDeep Limits.connectiveLevels))
    else c.checkAt levels (nesting - 1)
  | and cs | or cs =>
    if levels = 0 ∨ nesting = 0 then .error (.signerConfiguration (.conditionTooDeep Limits.connectiveLevels))
    else if Limits.connectiveEntries < cs.length then
      .error (.signerConfiguration (.connectiveTooWide Limits.connectiveEntries))
    else checkAll (levels - 1) (nesting - 1) cs
  | _ => .ok ()

def checkAll (levels nesting : Nat) : List Condition → Except Error Unit
  | [] => .ok ()
  | c :: cs => do
    c.checkAt levels nesting
    checkAll levels nesting cs

end

def checkDepth (levels : Nat) (c : Condition) : Except Error Unit := c.checkAt levels Limits.conditionLevels

/-! ## Wire form -/

mutual

def encode (c : Condition) : Bytes :=
  c.kind.byte :: match c with
    | boolean v => Encode.bool v
    | not c => c.encode
    | and cs | or cs => Encode.count cs.length ++ encodeAll cs
    | scriptHash h | calledByContract h => h.bytes
    | group k | calledByGroup k => k.compressed.bytes
    | calledByEntry => []

def encodeAll : List Condition → Bytes
  | [] => []
  | c :: cs => c.encode ++ encodeAll cs

end

mutual

def size : Condition → Nat
  | boolean _ => 2
  | not c => 1 + c.size
  | and cs | or cs => 1 + (Encode.countSize cs.length + sizeAll cs)
  | scriptHash _ | calledByContract _ => 21
  | group _ | calledByGroup _ => 34
  | calledByEntry => 1

def sizeAll : List Condition → Nat
  | [] => 0
  | c :: cs => c.size + sizeAll cs

end

def decodeKey : Decoder DecodeError Point := do
  let bs ← Decoder.take 33
  Decoder.ofExcept ((Point.ofCompressed bs).mapError fun e => .data (.badKey e))

/-- Reads a condition with at most so many levels of connectives and negations together, and so many of
connectives alone. -/
def decodeAt (nesting levels : Nat) : Decoder DecodeError Condition := do
  let b ← Decoder.byte
  match Kind.ofByte? b with
  | none => Decoder.fail (.format (.conditionKind b))
  | some .boolean => return boolean (← Decoder.bool)
  | some .scriptHash => return scriptHash (← Decoder.fixed 20)
  | some .group => return group (← decodeKey)
  | some .calledByEntry => return calledByEntry
  | some .calledByContract => return calledByContract (← Decoder.fixed 20)
  | some .calledByGroup => return calledByGroup (← decodeKey)
  | some .not =>
    match nesting with
    | 0 => Decoder.fail (.format .conditionTooDeep)
    | n + 1 => return not (← decodeAt n levels)
  | some .and =>
    match nesting with
    | 0 => Decoder.fail (.format .conditionTooDeep)
    | n + 1 =>
      match levels with
      | 0 => Decoder.fail (.format (.connectiveTooDeep Kind.and.name Limits.connectiveLevels))
      | l + 1 => return and (← Decoder.list Limits.connectiveEntries (decodeAt n l))
  | some .or =>
    match nesting with
    | 0 => Decoder.fail (.format .conditionTooDeep)
    | n + 1 =>
      match levels with
      | 0 => Decoder.fail (.format (.connectiveTooDeep Kind.or.name Limits.connectiveLevels))
      | l + 1 => return or (← Decoder.list Limits.connectiveEntries (decodeAt n l))

def decode : Decoder DecodeError Condition := decodeAt Limits.conditionLevels Limits.connectiveLevels

/-! ## JSON -/

def object (c : Condition) (fields : List (String × Json)) : Json := .obj (("type", .str c.kind.name) :: fields)

mutual

def toJson (c : Condition) : Json :=
  match c with
  | boolean v => c.object [("expression", .bool v)]
  | not d => c.object [("expression", d.toJson)]
  | and cs | or cs => c.object [("expressions", .arr (allToJson cs))]
  | scriptHash h | calledByContract h => c.object [("hash", .str h.toText)]
  | group k | calledByGroup k => c.object [("group", .str k.toHex)]
  | calledByEntry => c.object []

def allToJson : List Condition → List Json
  | [] => []
  | c :: cs => c.toJson :: allToJson cs

end

def invalidJson (fault : ConditionFault) : Error := .invalidArgument (.condition fault)

def field (type key : String) (j : Json) : Except Error Json :=
  (j.get? key).elim (.error (invalidJson (.fieldMissing type key))) .ok

def textField (type key : String) (j : Json) : Except Error String := do
  let v ← field type key j
  v.asString?.elim (.error (invalidJson (.notAString key))) .ok

def hashField (type : String) (j : Json) : Except Error Hash160 := do
  (FixedBytes.parse 20 (← textField type "hash" j)).mapError Error.ofHash

def keyField (type : String) (j : Json) : Except Error Point := do
  (Point.ofHex (← textField type "group" j)).mapError Error.ofKey

/-- A boolean, or a text, which is true if it says so in letters of either case. -/
def truth : Json → Except Error Bool
  | .bool b => .ok b
  | .str s => .ok (s.toList.map Char.toLower == "true".toList)
  | _ => .error (invalidJson .expressionNotBoolean)

mutual

def ofJson (j : Json) : Except Error Condition := do
  let some (.str type) := j.get? "type" | throw (invalidJson .typeMissing)
  match Kind.ofName? type with
  | none => throw (invalidJson (.unknownType type))
  | some .boolean => return boolean (← truth (← field type "expression" j))
  | some .not =>
    match _h : j.get? "expression" with
    | some v => return not (← ofJson v)
    | none => throw (invalidJson (.fieldMissing type "expression"))
  | some .and => return and (← ofExpressions type j)
  | some .or => return or (← ofExpressions type j)
  | some .scriptHash => return scriptHash (← hashField type j)
  | some .group => return group (← keyField type j)
  | some .calledByEntry => return calledByEntry
  | some .calledByContract => return calledByContract (← hashField type j)
  | some .calledByGroup => return calledByGroup (← keyField type j)
termination_by (sizeOf j, 1)
decreasing_by
  · have := Json.sizeOf_get? _h
    exact Prod.Lex.left _ _ this
  · exact Prod.Lex.right _ (by decide)
  · exact Prod.Lex.right _ (by decide)

def ofExpressions (type : String) (j : Json) : Except Error (List Condition) :=
  match _h : j.get? "expressions" with
  | none => .error (invalidJson (.fieldMissing type "expressions"))
  | some v =>
    match _h' : v.asArray? with
    | none => .error (invalidJson .expressionsNotArray)
    | some items => ofItems items
termination_by (sizeOf j, 0)
decreasing_by
  have := Json.sizeOf_get? _h
  have := Json.sizeOf_asArray? _h'
  exact Prod.Lex.left _ _ (by omega)

def ofItems : List Json → Except Error (List Condition)
  | [] => .ok []
  | j :: js => do
    let c ← ofJson j
    let cs ← ofItems js
    return c :: cs
termination_by js => (sizeOf js, 0)
decreasing_by
  · exact Prod.Lex.left _ _ (by simp only [List.cons.sizeOf_spec]; omega)
  · exact Prod.Lex.left _ _ (by simp only [List.cons.sizeOf_spec]; omega)

end

end Condition

end N3
