import N3.Proofs.Signer
import N3.Proofs.Witness.Json

/-!
# The fields of a signer

A signer is read from an object field by field. `ReadsList` says what becomes of the field of a list: its items are read
one by one and kept in their order, if it is an array, and otherwise the list is empty, whatever the field holds. The
scope is the one that the text names, with the flag of each list that has entries (`ofJson_fields`).

So a field that is there and is no array goes unnoticed: `ofJson_forgets` is a rule that was written without brackets
around it.
-/

set_option autoImplicit false

namespace N3.Signer

/-! ## Fields -/

theorem textField_eq_ok_iff {key text : String} {j : Json} :
    textField key j = .ok text ↔ j.get? key = some (.str text) := by
  unfold textField
  split
  · next s hs => simp [hs]
  · next hne => exact iff_of_false (by simp) (hne text)

theorem ofScope_eq_ok_iff {account : Hash160} {scope : Scope} {s : Signer} :
    ofScope account scope = .ok s ↔ scope.isValid = true ∧ s = { account, scope } := by
  refine ⟨ofScope_eq_ok, ?_⟩
  rintro ⟨hvalid, rfl⟩
  exact if_pos hvalid

/-- What is read of the field of a list: each of its items, if it is an array, and else nothing. -/
def ReadsList {α : Type} (read : Json → Except Error α) (key : String) (j : Json) (as : List α) : Prop :=
  (∃ items, j.get? key = some (.arr items) ∧ List.Forall₂ (fun i a => read i = .ok a) items as) ∨
    (∀ items, j.get? key ≠ some (.arr items)) ∧ as = []

theorem mapM_listField_eq_ok_iff {α : Type} {read : Json → Except Error α} {key : String} {j : Json} {as : List α} :
    (listField key j).mapM read = .ok as ↔ ReadsList read key j as := by
  rw [Outcome.mapM_eq_ok, ReadsList, listField]
  rcases hfield : j.get? key with _ | v
  · simp
  · cases v with
    | arr items => simp [Json.asArray?]
    | _ => simp [Json.asArray?]

/-! ## Lists that are added to a signer without entries -/

def flagOf {α : Type} (flag : Scope) (as : List α) : Scope := if as.isEmpty then .none else flag

theorem has_global_union_flagOf {α : Type} {flag : Scope} (hflag : flag ∈ Scope.restrictions) (a : Scope)
    (as : List α) : (a.union (flagOf flag as)).has .global = a.has .global := by
  unfold flagOf
  split
  · rw [Scope.union_none]
  · exact Scope.has_global_union flag hflag a

namespace Edit

theorem count_of_isEmpty {e : Edit} (h : e.isEmpty = true) : e.count = 0 := by
  cases e <;> exact List.length_eq_zero_iff.mpr (List.isEmpty_iff.mp h)

theorem conditions_of_isEmpty {e : Edit} (h : e.isEmpty = true) : e.conditions = [] := by
  cases e with
  | rules rs => rw [conditions, List.isEmpty_iff.mp h, List.map_nil]
  | _ => rfl

/-- To a list without entries at most sixteen can be added, none to the lists of a signer that counts everywhere, and
nothing but the list and its flag changes. -/
theorem apply_eq_ok_iff {s t : Signer} {e : Edit} (hheld : e.held s = 0) : e.apply s = .ok t ↔
    t = { e.append s with scope := s.scope.union (if e.isEmpty then .none else e.flag) } ∧
      (s.scope.has .global = true → e.isEmpty = true) ∧ e.count ≤ Limits.signerEntries ∧
      ∀ c ∈ e.conditions, c.checkDepth Limits.connectiveLevels = .ok () := by
  rw [apply_eq]
  split
  · next hempty =>
    have hsame : { e.append s with scope := s.scope.union .none } = s := by
      rw [append_of_isEmpty s hempty, Scope.union_none]
    rw [hsame, count_of_isEmpty hempty, conditions_of_isEmpty hempty]
    refine ⟨fun h => ⟨(Except.ok.inj h).symm, fun _ => hempty, Nat.zero_le _, ?_⟩, fun h => h.1 ▸ rfl⟩
    exact fun _ hc => absurd hc List.not_mem_nil
  · next hempty =>
    have hadded : { e.append s with scope := s.scope.union e.flag } = e.added s := by cases e <;> rfl
    have hcheck : e.check s = .ok () ↔ s.scope.has .global = false ∧ e.count ≤ Limits.signerEntries ∧
        ∀ c ∈ e.conditions, c.checkDepth Limits.connectiveLevels = .ok () := by
      rw [check_eq_ok_iff, hheld, Nat.zero_add]
    rw [hadded, imp_iff_not hempty, Bool.not_eq_true, ← hcheck]
    rcases e.check s with err | u
    · exact ⟨nofun, fun h => nomatch h.2⟩
    · exact ⟨fun h => ⟨(Except.ok.inj h).symm, rfl⟩, fun h => h.1 ▸ rfl⟩

end Edit

/-- The signer that has the lists, with their flags. -/
def ofLists (account : Hash160) (scope : Scope) (cs : List Hash160) (gs : List Point) (rs : List Rule) : Signer where
  account := account
  scope := ((scope.union (flagOf .customContracts cs)).union (flagOf .customGroups gs)).union (flagOf .witnessRules rs)
  contracts := cs
  groups := gs
  rules := rs

/-- What has to hold of lists that are added to a scope. -/
structure Fits (scope : Scope) (cs : List Hash160) (gs : List Point) (rs : List Rule) : Prop where
  unrestricted : scope.has .global = true → cs = [] ∧ gs = [] ∧ rs = []
  contracts_length : cs.length ≤ Limits.signerEntries
  groups_length : gs.length ≤ Limits.signerEntries
  rules_length : rs.length ≤ Limits.signerEntries
  rules_shallow : ∀ r ∈ rs, r.condition.checkDepth Limits.connectiveLevels = .ok ()

theorem add_eq_ok_iff {account : Hash160} {scope : Scope} {cs : List Hash160} {gs : List Point} {rs : List Rule}
    {s : Signer} :
    (∃ s₁, addContracts { account, scope } cs = .ok s₁ ∧ ∃ s₂, s₁.addGroups gs = .ok s₂ ∧ s₂.addRules rs = .ok s) ↔
      s = ofLists account scope cs gs rs ∧ Fits scope cs gs rs := by
  have hcontracts : ∀ a : Scope, (a.union (flagOf .customContracts cs)).has .global = a.has .global :=
    fun a => has_global_union_flagOf (by decide) a cs
  have hgroups : ∀ a : Scope, (a.union (flagOf .customGroups gs)).has .global = a.has .global :=
    fun a => has_global_union_flagOf (by decide) a gs
  constructor
  · rintro ⟨s₁, h₁, s₂, h₂, h₃⟩
    obtain ⟨rfl, hfree₁, hlength₁, -⟩ := (Edit.apply_eq_ok_iff (e := .contracts cs) rfl).mp h₁
    obtain ⟨rfl, hfree₂, hlength₂, -⟩ := (Edit.apply_eq_ok_iff (e := .groups gs) rfl).mp h₂
    obtain ⟨rfl, hfree₃, hlength₃, hshallow⟩ := (Edit.apply_eq_ok_iff (e := .rules rs) rfl).mp h₃
    refine ⟨rfl, ?_, hlength₁, hlength₂, hlength₃, List.forall_mem_map.mp hshallow⟩
    intro hglobal
    have hglobal₁ := (hcontracts scope).trans hglobal
    have hglobal₂ := (hgroups _).trans hglobal₁
    exact ⟨List.isEmpty_iff.mp (hfree₁ hglobal), List.isEmpty_iff.mp (hfree₂ hglobal₁),
      List.isEmpty_iff.mp (hfree₃ hglobal₂)⟩
  · rintro ⟨rfl, hfits⟩
    have hfree : ∀ a : Scope, a.has .global = scope.has .global → a.has .global = true →
        cs.isEmpty = true ∧ gs.isEmpty = true ∧ rs.isEmpty = true := by
      intro a ha hglobal
      obtain ⟨rfl, rfl, rfl⟩ := hfits.unrestricted (ha.symm.trans hglobal)
      exact ⟨rfl, rfl, rfl⟩
    refine ⟨_, (Edit.apply_eq_ok_iff (e := .contracts cs) rfl).mpr ⟨rfl, ?_, hfits.contracts_length, nofun⟩,
      _, (Edit.apply_eq_ok_iff (e := .groups gs) rfl).mpr ⟨rfl, ?_, hfits.groups_length, nofun⟩,
      (Edit.apply_eq_ok_iff (e := .rules rs) rfl).mpr ⟨rfl, ?_, hfits.rules_length,
        List.forall_mem_map.mpr hfits.rules_shallow⟩⟩
    · exact fun h => (hfree _ rfl h).1
    · exact fun h => (hfree _ (hcontracts scope) h).2.1
    · exact fun h => (hfree _ ((hgroups _).trans (hcontracts scope)) h).2.2

/-! ## All fields -/

/-- Exactly which objects are read, and as which signer. -/
theorem ofJson_fields {j : Json} {s : Signer} : ofJson j = .ok s ↔
    ∃ account text scope, j.get? "account" = some (.str account) ∧ FixedBytes.parse 20 account = .ok s.account ∧
    j.get? "scopes" = some (.str text) ∧ Scope.parse text = .ok scope ∧
    ReadsList contractOfJson "allowedcontracts" j s.contracts ∧ ReadsList groupOfJson "allowedgroups" j s.groups ∧
    ReadsList Rule.ofJson "rules" j s.rules ∧
    s.scope = ((scope.union (flagOf .customContracts s.contracts)).union (flagOf .customGroups s.groups)).union
      (flagOf .witnessRules s.rules) ∧
    Fits scope s.contracts s.groups s.rules := by
  unfold ofJson
  simp only [Outcome.bind_eq_ok, Outcome.mapError_eq_ok, textField_eq_ok_iff, mapM_listField_eq_ok_iff,
    ofScope_eq_ok_iff]
  constructor
  · rintro ⟨account, haccount, hash, hhash, text, htext, scope, hscope, s₀, ⟨-, rfl⟩, cs, hcs, gs, hgs, rs, hrs, hadd⟩
    obtain ⟨rfl, hfits⟩ := add_eq_ok_iff.mp hadd
    exact ⟨account, text, scope, haccount, hhash, htext, hscope, hcs, hgs, hrs, rfl, hfits⟩
  · rintro ⟨account, text, scope, haccount, hhash, htext, hscope, hcs, hgs, hrs, hflags, hfits⟩
    have hs : s = ofLists s.account scope s.contracts s.groups s.rules := by
      rw [ofLists, ← hflags]
    exact ⟨account, haccount, _, hhash, text, htext, scope, hscope, _, ⟨Scope.isValid_of_parse hscope, rfl⟩, _, hcs, _,
      hgs, _, hrs, add_eq_ok_iff.mpr ⟨hs, hfits⟩⟩

/-- A rule that refuses what the scope of the signer admits. -/
def deny : Rule := ⟨false, .calledByEntry⟩

/-- An object whose rule has no brackets around it. -/
def bareRule : Json :=
  .obj [("account", .str "0x0000000000000000000000000000000000000000"), ("scopes", .str "CalledByEntry"),
    ("rules", deny.toJson)]

/-- The rule is there and would be read, and the signer has no rules. -/
theorem ofJson_forgets : ofJson bareRule = .ok (calledByEntry (.zero 20)) ∧ (calledByEntry (.zero 20)).rules = [] ∧
    bareRule.get? "rules" = some deny.toJson ∧ Rule.ofJson deny.toJson = .ok deny ∧ deny.toJson ≠ .null ∧
    ∀ items, deny.toJson ≠ .arr items :=
  ⟨by decide +kernel, rfl, rfl, Rule.ofJson_toJson deny, nofun, nofun⟩

end N3.Signer
