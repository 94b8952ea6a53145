import N3.Proofs.Outcome
import N3.Proofs.Text.Blank
import N3.Witness.Scope

/-!
# Scopes as sets

A scope is a byte, so that a law of scopes is a statement about 256 of them; `forall_of_bits` is what lets them be
tried one by one. The laws are those that signers rest on: a valid scope comes back from its byte and from its text,
and adding the flag of a list keeps the scope valid unless it is the one that counts everywhere.
-/

set_option autoImplicit false

namespace N3.Scope

theorem forall_of_bits {P : Scope → Prop} (h : ∀ n < 256, P ⟨UInt8.ofNat n⟩) (a : Scope) : P a := by
  obtain ⟨bits⟩ := a
  have hbits := h bits.toNat bits.toNat_lt
  rwa [UInt8.ofNat_toNat] at hbits

/-- A scope is valid if each of its bits is a flag, and the flag that counts everywhere stands alone. -/
theorem isValid_iff {a : Scope} :
    a.isValid = true ↔ a.bits &&& ~~~ knownBits = 0 ∧ (a.has global = true → a = global) := by
  simp only [isValid, Bool.and_eq_true, Bool.not_eq_true', Bool.and_eq_false_imp, bne_eq_false_iff_eq, beq_iff_eq]
  exact and_comm

theorem isNone_eq_false_iff {a : Scope} : a.isNone = false ↔ a ≠ none := by
  obtain ⟨bits⟩ := a
  rw [isNone, beq_eq_false_iff_ne, Ne, Ne, none, mk.injEq]

/-! ## From the byte -/

theorem ofByte_bits {a : Scope} (h : a.isValid = true) : ofByte a.bits = .ok a := by
  have hknown : a.bits &&& ~~~ knownBits = 0 := beq_iff_eq.mp (Bool.and_eq_true_iff.mp h).2
  unfold ofByte
  rw [hknown, if_neg (by decide), if_pos h]

theorem of_ofByte {b : UInt8} {a : Scope} (h : ofByte b = .ok a) : a.isValid = true := by
  unfold ofByte at h
  split at h
  · cases h
  · split at h
    · next hvalid =>
      cases h
      exact hvalid
    · cases h

/-! ## Adding flags -/

def restrictions : List Scope := [customContracts, customGroups, witnessRules]

theorem has_union_self : ∀ flag ∈ restrictions, ∀ a : Scope, (a.union flag).has flag = true := by
  intro flag hflag
  refine forall_of_bits ?_
  revert flag
  decide +kernel

theorem has_union : ∀ flag ∈ restrictions, ∀ other ∈ restrictions, ∀ a : Scope, a.has flag = true →
    (a.union other).has flag = true := by
  intro flag hflag other hother
  refine forall_of_bits ?_
  revert flag other
  decide +kernel

theorem isValid_union : ∀ flag ∈ restrictions, ∀ a : Scope, a.isValid = true → a.has global = false →
    (a.union flag).isValid = true := by
  intro flag hflag
  refine forall_of_bits ?_
  revert flag
  decide +kernel

/-- A valid scope that counts everywhere has no other flag. -/
theorem has_restriction_of_global : ∀ flag ∈ restrictions, ∀ a : Scope, a.isValid = true → a.has global = true →
    a.has flag = false := by
  intro flag hflag
  refine forall_of_bits ?_
  revert flag
  decide +kernel

theorem has_global_union : ∀ flag ∈ restrictions, ∀ a : Scope, (a.union flag).has global = a.has global := by
  intro flag hflag
  refine forall_of_bits ?_
  revert flag
  decide +kernel

@[simp] theorem union_none (a : Scope) : a.union none = a := by
  obtain ⟨bits⟩ := a
  exact congrArg Scope.mk (UInt8.or_zero)

theorem union_of_has : ∀ flag ∈ restrictions, ∀ a : Scope, a.has flag = true → a.union flag = a := by
  intro flag hflag
  refine forall_of_bits ?_
  revert flag
  decide +kernel

/-! ## From the text -/

/-- A name stands between separators as it is. -/
def IsName (name : String) : Prop :=
  (',' ∉ name.toList ∧ Blank.trim name.toList = name.toList) ∧ name.toList.isEmpty = false

theorem isName_of_mem : ∀ f ∈ named, IsName f.2 := by
  unfold IsName
  decide +kernel

theorem isName_none : IsName "None" := by
  unfold IsName
  decide +kernel

theorem parse_intercalate {names : List String} (hne : names ≠ []) (h : ∀ name ∈ names, IsName name) :
    parse (", ".intercalate names) = (do
      let a ← names.foldlM addNamed none
      if a.isValid then return a else throw .globalCombined) := by
  have hsplit : (Blank.splitOn ',' (", ".intercalate names).toList).map Blank.trim = names.map String.toList := by
    rw [String.toList_intercalate]
    refine Blank.map_trim_splitOn_intercalate (by decide) (by decide) (by simpa using hne) ?_
    exact List.forall_mem_map.mpr fun name hname => (h name hname).1
  have hfilter : (names.map String.toList).filter (! ·.isEmpty) = names.map String.toList := by
    refine List.filter_eq_self.mpr (List.forall_mem_map.mpr fun name hname => ?_)
    rw [(h name hname).2]
    rfl
  rw [parse, hsplit, hfilter]
  simp only [List.foldlM_map, String.ofList_toList]

theorem addNamed_of_mem : ∀ f ∈ named, ∀ a : Scope, a.addNamed f.2 = .ok (a.union f.1) := by
  simp only [named, List.forall_mem_cons]
  exact ⟨fun _ => rfl, fun _ => rfl, fun _ => rfl, fun _ => rfl, fun _ => rfl, fun _ h => absurd h List.not_mem_nil⟩

theorem foldlM_addNamed {fs : List (Scope × String)} (h : ∀ f ∈ fs, f ∈ named) (a : Scope) :
    (fs.map (·.2)).foldlM addNamed a = .ok ((fs.map (·.1)).foldl union a) := by
  induction fs generalizing a with
  | nil => rfl
  | cons f fs ih =>
    obtain ⟨hf, hfs⟩ := List.forall_mem_cons.mp h
    rw [List.map_cons, List.foldlM_cons, addNamed_of_mem f hf, List.map_cons, List.foldl_cons, ← ih hfs]
    rfl

theorem foldl_union_flags : ∀ a : Scope, a.isValid = true → a.flags.foldl union none = a :=
  forall_of_bits (by decide +kernel)

theorem isValid_of_parse {text : String} {a : Scope} (h : parse text = .ok a) : a.isValid = true := by
  unfold parse at h
  obtain ⟨b, -, h⟩ := Outcome.bind_eq_ok.mp h
  split at h
  · next hvalid =>
    cases h
    exact hvalid
  · cases h

theorem parse_text {a : Scope} (h : a.isValid = true) : parse a.text = .ok a := by
  rw [text]
  split
  · next hnone =>
    obtain rfl : a = none := by
      obtain ⟨bits⟩ := a
      rw [show bits = 0 from beq_iff_eq.mp hnone]
      rfl
    have hjoined : "None" = ", ".intercalate ["None"] := String.intercalate_singleton.symm
    rw [hjoined, parse_intercalate (List.cons_ne_nil _ _) (List.forall_mem_singleton.mpr isName_none)]
    rfl
  · next hsome =>
    have hmem : ∀ f ∈ named.filter fun f => a.has f.1, f ∈ named := fun f hf => (List.mem_filter.mp hf).1
    have hflags : a.flags.foldl union none = a := foldl_union_flags a h
    -- No name at all would mean no flag, and that is the case above.
    have hne : (named.filter fun f => a.has f.1).map (·.2) ≠ [] := by
      intro hnil
      rw [flags, List.map_eq_nil_iff.mp hnil] at hflags
      rw [← hflags] at hsome
      exact hsome rfl
    rw [parse_intercalate hne (List.forall_mem_map.mpr fun f hf => isName_of_mem f (hmem f hf)), foldlM_addNamed hmem,
      ← flags, hflags]
    simp only [bind, Except.bind, h, if_true]
    rfl

end N3.Scope
