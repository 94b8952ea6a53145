import N3.Proofs.Text.Hex
import N3.Witness.Rule

/-!
# Conditions and rules in JSON

A condition has one object whatever its depth and width, and is read back from it (`Condition.ofJson_toJson`): its kind
from its name, and then what is under it, a hash or a key from its text and a condition from its own object.
-/

set_option autoImplicit false

namespace N3

namespace Condition

theorem ofName?_name (k : Kind) : Kind.ofName? k.name = some k := by cases k <;> rfl

/-! ## Fields -/

theorem get?_type (c : Condition) (fields : List (String × Json)) :
    (c.object fields).get? "type" = some (.str c.kind.name) := rfl

theorem get?_object (c : Condition) {key : String} (hkey : key ≠ "type") (v : Json) :
    (c.object [(key, v)]).get? key = some v := by
  rw [object, Json.get?, List.lookup_cons, beq_false_of_ne hkey, List.lookup_cons_self]

theorem field_object (c : Condition) (type : String) {key : String} (hkey : key ≠ "type") (v : Json) :
    field type key (c.object [(key, v)]) = .ok v := by
  rw [field, get?_object c hkey]
  rfl

theorem hashField_object (c : Condition) (type : String) (h : Hash160) :
    hashField type (c.object [("hash", .str h.toText)]) = .ok h := by
  rw [hashField, textField, field_object c type (by decide)]
  simp only [bind, Except.bind, Json.asString?, Option.elim_some, FixedBytes.parse_toText]
  rfl

theorem keyField_object (c : Condition) (type : String) (k : Point) :
    keyField type (c.object [("group", .str k.toHex)]) = .ok k := by
  rw [keyField, textField, field_object c type (by decide)]
  simp only [bind, Except.bind, Json.asString?, Option.elim_some, Point.ofHex_toHex]
  rfl

theorem ofExpressions_object (c : Condition) (type : String) (items : List Json) :
    ofExpressions type (c.object [("expressions", .arr items)]) = ofItems items := by
  have hget := get?_object c (show "expressions" ≠ "type" by decide) (.arr items)
  rw [ofExpressions]
  split
  · next hnone => rw [hget] at hnone; cases hnone
  · next v hsome =>
    rw [hget] at hsome
    cases hsome
    rfl

mutual

theorem ofJson_toJson : ∀ c : Condition, ofJson c.toJson = .ok c
  | boolean v => by
    rw [toJson, ofJson, get?_type]
    simp only [kind, ofName?_name]
    rw [field_object _ _ (by decide)]
    rfl
  | not c => by
    rw [toJson, ofJson, get?_type]
    simp only [kind, ofName?_name]
    split
    · next v hsome =>
      rw [get?_object _ (by decide)] at hsome
      cases hsome
      rw [ofJson_toJson c]
      rfl
    · next hnone =>
      rw [get?_object _ (by decide)] at hnone
      cases hnone
  | and cs => by
    rw [toJson, ofJson, get?_type]
    simp only [kind, ofName?_name, ofExpressions_object, ofItems_allToJson cs]
    rfl
  | or cs => by
    rw [toJson, ofJson, get?_type]
    simp only [kind, ofName?_name, ofExpressions_object, ofItems_allToJson cs]
    rfl
  | scriptHash h => by
    rw [toJson, ofJson, get?_type]
    simp only [kind, ofName?_name, hashField_object]
    rfl
  | group k => by
    rw [toJson, ofJson, get?_type]
    simp only [kind, ofName?_name, keyField_object]
    rfl
  | calledByEntry => by
    rw [toJson, ofJson, get?_type]
    simp only [kind, ofName?_name]
    rfl
  | calledByContract h => by
    rw [toJson, ofJson, get?_type]
    simp only [kind, ofName?_name, hashField_object]
    rfl
  | calledByGroup k => by
    rw [toJson, ofJson, get?_type]
    simp only [kind, ofName?_name, keyField_object]
    rfl

theorem ofItems_allToJson : ∀ cs : List Condition, ofItems (allToJson cs) = .ok cs
  | [] => by rw [allToJson, ofItems]
  | c :: cs => by
    rw [allToJson, ofItems, ofJson_toJson c, ofItems_allToJson cs]
    rfl

end

end Condition

namespace Rule

theorem ofAction_action (r : Rule) : ofAction r.action = .ok r.allow := by
  obtain ⟨allow, c⟩ := r
  cases allow <;> rfl

theorem ofJson_toJson (r : Rule) : ofJson r.toJson = .ok r := by
  have haction : r.toJson.get? "action" = some (.str r.action) := rfl
  have hcondition : r.toJson.get? "condition" = some r.condition.toJson := rfl
  rw [ofJson, haction]
  simp only [ofAction_action, hcondition, Condition.ofJson_toJson]
  rfl

end Rule

end N3
