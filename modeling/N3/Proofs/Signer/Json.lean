import N3.Proofs.Signer
import N3.Proofs.Witness.Json

/-!
# Signers in JSON

A signer is read from its object by the same edits that restrict it: it is made with its scope, and then each list is
added. Since the scope has the flags already and the lists are within their bounds, the edits give the signer back
(`WellFormed.ofJson_toJson`), also where a flag stands over an empty list.
-/

set_option autoImplicit false

namespace N3.Signer

/-! ## Fields -/

/-- The field of a list, if its flag is set. -/
def flaggedField (scope flag : Scope) (key : String) (items : List Json) : List (String × Json) :=
  if scope.has flag then [(key, .arr items)] else []

theorem toJson_eq (s : Signer) : s.toJson =
    .obj ([("account", .str s.account.toText), ("scopes", .str s.scope.text)] ++
      flaggedField s.scope .customContracts "allowedcontracts" (s.contracts.map fun h => .str h.toText) ++
      flaggedField s.scope .customGroups "allowedgroups" (s.groups.map fun g => .str g.toHex) ++
      flaggedField s.scope .witnessRules "rules" (s.rules.map Rule.toJson)) := rfl

theorem lookup_flaggedField_ne {key other : String} (h : key ≠ other) (scope flag : Scope) (items : List Json) :
    (flaggedField scope flag other items).lookup key = Option.none := by
  unfold flaggedField
  split
  · rw [List.lookup_cons, beq_false_of_ne h]
    rfl
  · rfl

/-- A list that is not written for want of its flag is empty, and is read as empty. -/
theorem listField_flaggedField {α : Type} {before after : List (String × Json)} {key : String} {scope flag : Scope}
    {as : List α} (item : α → Json) (hflag : as ≠ [] → scope.has flag = true)
    (hbefore : before.lookup key = Option.none) (hafter : after.lookup key = Option.none) :
    listField key (.obj (before ++ flaggedField scope flag key (as.map item) ++ after)) = as.map item := by
  rw [listField, Json.get?, List.lookup_append, List.lookup_append, hbefore, hafter, flaggedField]
  split
  · rw [List.lookup_cons_self]
    rfl
  · next hunset =>
    rw [eq_nil_of_flag hflag (Bool.eq_false_iff.mpr hunset)]
    rfl

theorem textField_account (s : Signer) : textField "account" s.toJson = .ok s.account.toText := rfl

theorem textField_scopes (s : Signer) : textField "scopes" s.toJson = .ok s.scope.text := rfl

namespace WellFormed

variable {s : Signer}

theorem listField_contracts (hs : s.WellFormed) :
    listField "allowedcontracts" s.toJson = s.contracts.map fun h => .str h.toText := by
  rw [toJson_eq, List.append_assoc]
  refine listField_flaggedField _ hs.contracts_flagged rfl ?_
  rw [List.lookup_append, lookup_flaggedField_ne (by decide), lookup_flaggedField_ne (by decide)]
  rfl

theorem listField_groups (hs : s.WellFormed) :
    listField "allowedgroups" s.toJson = s.groups.map fun g => .str g.toHex := by
  rw [toJson_eq]
  refine listField_flaggedField _ hs.groups_flagged ?_ (lookup_flaggedField_ne (by decide) _ _ _)
  rw [List.lookup_append, lookup_flaggedField_ne (by decide)]
  rfl

theorem listField_rules (hs : s.WellFormed) : listField "rules" s.toJson = s.rules.map Rule.toJson := by
  rw [toJson_eq, ← List.append_nil (_ ++ _)]
  refine listField_flaggedField _ hs.rules_flagged ?_ rfl
  rw [List.lookup_append, List.lookup_append, lookup_flaggedField_ne (by decide), lookup_flaggedField_ne (by decide)]
  rfl

/-! ## Adding the lists again -/

/-- Over the scope of a well formed signer, entries of a list that has its flag can be added if there is room. -/
theorem apply_eq_append (hs : s.WellFormed) {t : Signer} (hscope : t.scope = s.scope) {e : Edit}
    (hflag : e.isEmpty = false → s.scope.has e.flag = true) (hroom : e.held t + e.count ≤ Limits.signerEntries)
    (hshallow : ∀ c ∈ e.conditions, c.checkDepth Limits.connectiveLevels = .ok ()) :
    e.apply t = .ok (e.append t) := by
  rw [← hscope] at hflag
  refine Edit.apply_of_flagged hflag fun hsome => Edit.check_eq_ok_iff.mpr ⟨?_, hroom, hshallow⟩
  by_contra hglobal
  have hvalid : t.scope.isValid = true := hscope ▸ hs.scope_valid
  have hunset := Scope.has_restriction_of_global _ e.flag_mem _ hvalid (Bool.not_eq_false _ ▸ hglobal)
  exact Bool.false_ne_true (hunset.symm.trans (hflag hsome))

end WellFormed

theorem mapM_map_eq_ok {α : Type} {read : Json → Except Error α} {item : α → Json} (h : ∀ a, read (item a) = .ok a)
    (as : List α) : (as.map item).mapM read = .ok as := by
  rw [Outcome.mapM_eq_ok, List.forall₂_map_left_iff, List.forall₂_same]
  exact fun a _ => h a

theorem contractOfJson_toText (h : Hash160) : contractOfJson (.str h.toText) = .ok h := by
  rw [contractOfJson, FixedBytes.parse_toText]
  rfl

theorem groupOfJson_toHex (g : Point) : groupOfJson (.str g.toHex) = .ok g := by
  rw [groupOfJson, Point.ofHex_toHex]
  rfl

theorem WellFormed.ofJson_toJson {s : Signer} (hs : s.WellFormed) : ofJson s.toJson = .ok s := by
  obtain ⟨account, scope, contracts, groups, rules⟩ := s
  have hmade : ofScope account scope = .ok { account, scope } := if_pos hs.scope_valid
  have hcontracts : Signer.addContracts { account, scope } contracts = .ok { account, scope, contracts } := by
    refine hs.apply_eq_append (t := { account, scope }) rfl (e := .contracts contracts) (fun hsome => hs.contracts_flagged ?_) ?_ nofun
    · exact List.isEmpty_eq_false_iff.mp hsome
    · exact Nat.zero_add _ ▸ hs.contracts_length
  have hgroups : Signer.addGroups { account, scope, contracts } groups = .ok { account, scope, contracts, groups } := by
    refine hs.apply_eq_append (t := { account, scope, contracts }) rfl (e := .groups groups) (fun hsome => hs.groups_flagged ?_) ?_ nofun
    · exact List.isEmpty_eq_false_iff.mp hsome
    · exact Nat.zero_add _ ▸ hs.groups_length
  have hrules : Signer.addRules { account, scope, contracts, groups } rules =
      .ok { account, scope, contracts, groups, rules } := by
    refine hs.apply_eq_append (t := { account, scope, contracts, groups }) rfl (e := .rules rules) (fun hsome => hs.rules_flagged ?_) ?_ ?_
    · exact List.isEmpty_eq_false_iff.mp hsome
    · exact Nat.zero_add _ ▸ hs.rules_length
    · exact List.forall_mem_map.mpr hs.rules_shallow
  rw [ofJson, textField_account, textField_scopes, hs.listField_contracts, hs.listField_groups, hs.listField_rules,
    mapM_map_eq_ok contractOfJson_toText, mapM_map_eq_ok groupOfJson_toHex, mapM_map_eq_ok Rule.ofJson_toJson]
  simp only [bind, Except.bind, Except.mapError, FixedBytes.parse_toText, Scope.parse_text hs.scope_valid, hmade,
    hcontracts, hgroups, hrules]

/-- Conditions, rules and signers are read back from what is written of them in JSON, however a signer was made. What
was written by others and is read is written so that it is read as the same signer. -/
theorem json_roundTrip :
    (∀ c : Condition, Condition.ofJson c.toJson = .ok c) ∧ (∀ r : Rule, Rule.ofJson r.toJson = .ok r) ∧
      (∀ s : Signer, s.Reachable → ofJson s.toJson = .ok s) ∧
      ∀ (j : Json) (s : Signer), ofJson j = .ok s → ofJson s.toJson = .ok s :=
  ⟨Condition.ofJson_toJson, Rule.ofJson_toJson, fun _ hs => hs.wellFormed.ofJson_toJson,
    fun _ _ h => (wellFormed_ofJson h).ofJson_toJson⟩

/-- A flag over an empty list is kept. -/
theorem json_roundTrip_empty_list :
    let s : Signer := { account := FixedBytes.zero 20, scope := .customContracts }
    s.Reachable ∧ s.scope.has .customContracts = true ∧ s.contracts = [] ∧ ofJson s.toJson = .ok s := by
  intro s
  have hmade : ofScope (FixedBytes.zero 20) .customContracts = .ok s := by decide
  have hs : s.Reachable := .ofScope hmade
  obtain ⟨-, -, hreachable, -⟩ := json_roundTrip
  exact ⟨hs, by decide, rfl, hreachable s hs⟩

end N3.Signer
