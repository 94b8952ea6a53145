import N3.Proofs.Signer.Edits
import N3.Proofs.Witness.Condition

/-!
# What signers are

A signer is made with a scope and no restrictions, is restricted one list at a time, or is read. `Signer.Reachable`
says that one was made in such a way, and `Signer.WellFormed` what is true of all of those (`Reachable.wellFormed`):
lists of at most sixteen entries, each of them with its flag, and rules whose conditions are not too deep.

A well formed signer is read back from its wire form (`reads_decode`), and a signer that is read is well formed
(`accepts_decode`). So a signer stays what it has to be through any history of edits, whether they succeed or not
(`restrictions_of_reachable`).
-/

set_option autoImplicit false

namespace N3.Signer

/-! ## Well-formed signers -/

structure WellFormed (s : Signer) : Prop where
  scope_valid : s.scope.isValid = true
  contracts_flagged : s.contracts ≠ [] → s.scope.has .customContracts = true
  groups_flagged : s.groups ≠ [] → s.scope.has .customGroups = true
  rules_flagged : s.rules ≠ [] → s.scope.has .witnessRules = true
  contracts_length : s.contracts.length ≤ Limits.signerEntries
  groups_length : s.groups.length ≤ Limits.signerEntries
  rules_length : s.rules.length ≤ Limits.signerEntries
  rules_shallow : ∀ r ∈ s.rules, r.condition.checkDepth Limits.connectiveLevels = .ok ()

/-- A list whose flag is not set is empty. -/
theorem eq_nil_of_flag {α : Type} {scope flag : Scope} {as : List α} (h : as ≠ [] → scope.has flag = true)
    (hflag : scope.has flag = false) : as = [] := by
  by_contra hne
  rw [h hne] at hflag
  cases hflag

/-- A signer that counts everywhere is not restricted. -/
theorem WellFormed.unrestricted_of_global {s : Signer} (h : s.WellFormed) (hglobal : s.scope.has .global = true) :
    s.contracts = [] ∧ s.groups = [] ∧ s.rules = [] := by
  have hflag : ∀ flag ∈ Scope.restrictions, s.scope.has flag = false :=
    fun flag hmem => Scope.has_restriction_of_global flag hmem s.scope h.scope_valid hglobal
  refine ⟨?_, ?_, ?_⟩
  · exact eq_nil_of_flag h.contracts_flagged (hflag _ (by decide))
  · exact eq_nil_of_flag h.groups_flagged (hflag _ (by decide))
  · exact eq_nil_of_flag h.rules_flagged (hflag _ (by decide))

theorem wellFormed_of_scope {account : Hash160} {scope : Scope} (h : scope.isValid = true) :
    WellFormed { account, scope } where
  scope_valid := h
  contracts_flagged hne := absurd rfl hne
  groups_flagged hne := absurd rfl hne
  rules_flagged hne := absurd rfl hne
  contracts_length := Nat.zero_le _
  groups_length := Nat.zero_le _
  rules_length := Nat.zero_le _
  rules_shallow _ hr := absurd hr List.not_mem_nil

/-! ## What each way to make a signer does -/

theorem ofScope_eq_ok {account : Hash160} {scope : Scope} {s : Signer} (h : ofScope account scope = .ok s) :
    scope.isValid = true ∧ s = { account, scope } := by
  unfold ofScope at h
  split at h
  · next hvalid =>
    cases h
    exact ⟨hvalid, rfl⟩
  · cases h

/-- A signer from JSON is made from a scope, and restricted three times. -/
theorem ofJson_eq_ok {j : Json} {s : Signer} (h : ofJson j = .ok s) :
    ∃ account scope cs gs rs s₀ s₁ s₂, ofScope account scope = .ok s₀ ∧ s₀.addContracts cs = .ok s₁ ∧
      s₁.addGroups gs = .ok s₂ ∧ s₂.addRules rs = .ok s := by
  unfold ofJson at h
  simp only [Outcome.bind_eq_ok] at h
  obtain ⟨_, _, account, _, _, _, scope, _, s₀, h₀, cs, _, gs, _, rs, _, s₁, h₁, s₂, h₂, h₃⟩ := h
  exact ⟨account, scope, cs, gs, rs, s₀, s₁, s₂, h₀, h₁, h₂, h₃⟩

/-! ## Each of them keeps signers well formed -/

/-- The flag of a list may be set on its own, since a flag does not say that its list has entries. -/
theorem WellFormed.union {s : Signer} (hs : s.WellFormed) (flag : Scope) (hflag : flag ∈ Scope.restrictions)
    (hglobal : s.scope.has .global = false) : WellFormed { s with scope := s.scope.union flag } where
  scope_valid := Scope.isValid_union flag hflag _ hs.scope_valid hglobal
  contracts_flagged hne := Scope.has_union _ (by decide) flag hflag _ (hs.contracts_flagged hne)
  groups_flagged hne := Scope.has_union _ (by decide) flag hflag _ (hs.groups_flagged hne)
  rules_flagged hne := Scope.has_union _ (by decide) flag hflag _ (hs.rules_flagged hne)
  contracts_length := hs.contracts_length
  groups_length := hs.groups_length
  rules_length := hs.rules_length
  rules_shallow := hs.rules_shallow

theorem WellFormed.apply {s t : Signer} {e : Edit} (hs : s.WellFormed) (h : e.apply s = .ok t) : t.WellFormed := by
  rcases Edit.apply_eq_ok h with rfl | ⟨hcheck, rfl⟩
  · exact hs
  · obtain ⟨hglobal, hroom, hshallow⟩ := Edit.check_eq_ok_iff.mp hcheck
    have hunion := hs.union e.flag e.flag_mem hglobal
    cases e with
    | contracts cs =>
      exact { hunion with
        contracts_flagged := fun _ => Scope.has_union_self _ (by decide) _
        contracts_length := List.length_append ▸ hroom }
    | groups gs =>
      exact { hunion with
        groups_flagged := fun _ => Scope.has_union_self _ (by decide) _
        groups_length := List.length_append ▸ hroom }
    | rules rs =>
      exact { hunion with
        rules_flagged := fun _ => Scope.has_union_self _ (by decide) _
        rules_length := List.length_append ▸ hroom
        rules_shallow := List.forall_mem_append.mpr ⟨hs.rules_shallow, List.forall_mem_map.mp hshallow⟩ }

theorem wellFormed_ofJson {j : Json} {s : Signer} (h : ofJson j = .ok s) : s.WellFormed := by
  obtain ⟨account, scope, cs, gs, rs, s₀, s₁, s₂, h₀, h₁, h₂, h₃⟩ := ofJson_eq_ok h
  obtain ⟨hvalid, rfl⟩ := ofScope_eq_ok h₀
  have hcontracts := (wellFormed_of_scope hvalid).apply (e := .contracts cs) h₁
  have hgroups := hcontracts.apply (e := .groups gs) h₂
  exact hgroups.apply (e := .rules rs) h₃

/-! ## Wire form -/

/-- What is written for a list, if its flag is set. -/
theorem length_flagged {α : Type} (scope flag : Scope) {encode : α → Bytes} {size : α → Nat} (as : List α)
    (h : ∀ a ∈ as, (encode a).length = size a) :
    (if scope.has flag then Encode.list encode as else []).length =
      if scope.has flag then Encode.listSize size as else 0 := by
  split
  · exact Encode.length_list as h
  · rfl

theorem length_encode (s : Signer) : s.encode.length = s.size := by
  have hcontracts := length_flagged s.scope .customContracts s.contracts fun h _ => h.length_eq
  have hgroups := length_flagged s.scope .customGroups s.groups fun g _ => g.compressed.length_eq
  have hrules := length_flagged s.scope .witnessRules s.rules fun r _ => r.length_encode
  rw [encode, size, List.length_append, List.length_cons, List.length_append, List.length_append, hcontracts, hgroups,
    hrules, s.account.length_eq]
  omega

theorem reads_flagged {α : Type} {scope flag : Scope} {item : Decoder DecodeError α} {encode : α → Bytes}
    {as : List α} (hflag : as ≠ [] → scope.has flag = true) (hlength : as.length ≤ Limits.signerEntries)
    (h : ∀ a ∈ as, item.Reads (encode a) a) :
    (flagged scope flag item).Reads (if scope.has flag then Encode.list encode as else []) as := by
  unfold flagged
  split
  · exact Decoder.reads_list (Nat.lt_of_le_of_lt hlength (by decide)) hlength h
  · next hunset =>
    rw [eq_nil_of_flag hflag (Bool.eq_false_iff.mpr hunset)]
    exact Decoder.reads_pure []

theorem reads_decode {s : Signer} (h : s.WellFormed) : decode.Reads s.encode s := by
  have hscope : (Scope.ofByte s.scope.bits).mapError (fun f => DecodeError.format (.scope f)) = .ok s.scope := by
    rw [Scope.ofByte_bits h.scope_valid]
    rfl
  have hcontracts := reads_flagged h.contracts_flagged h.contracts_length fun c _ => Decoder.reads_fixed c
  have hgroups := reads_flagged h.groups_flagged h.groups_length fun g _ => Condition.reads_decodeKey g
  have hrules := reads_flagged h.rules_flagged h.rules_length fun r hr => Rule.reads_decode (h.rules_shallow r hr)
  rw [encode, List.append_assoc _ _ (if s.scope.has .witnessRules then _ else _)]
  refine (Decoder.reads_fixed s.account).bind ?_
  refine (Decoder.reads_byte s.scope.bits).bind ((Decoder.reads_ofExcept hscope).bind ?_)
  exact hcontracts.bind (hgroups.bind (hrules.map (Signer.mk s.account s.scope s.contracts s.groups)))

def longest : Nat :=
  21 + (9 + Limits.signerEntries * 20) + (9 + Limits.signerEntries * 33) + (9 + Limits.signerEntries * Rule.longest)

theorem accepts_flagged {α : Type} {scope flag : Scope} {item : Decoder DecodeError α} {good : α → Prop}
    {size : α → Nat} {longest : Nat} (h : item.Accepts good size longest) :
    (flagged scope flag item).Accepts
      (fun as => (as ≠ [] → scope.has flag = true) ∧ as.length ≤ Limits.signerEntries ∧ ∀ a ∈ as, good a)
      (fun as => if scope.has flag then Encode.listSize size as else 0) (9 + Limits.signerEntries * longest) := by
  unfold flagged
  split
  · next hset =>
    refine (Decoder.accepts_list h Limits.signerEntries).mono fun as n has => ?_
    obtain ⟨hgood, hsize, hlong⟩ := has
    exact ⟨⟨fun _ => hset, hgood⟩, hsize, hlong⟩
  · refine Decoder.ensures_pure ⟨⟨fun hne => absurd rfl hne, Nat.zero_le _, ?_⟩, Nat.le_refl _, Nat.zero_le _⟩
    exact fun _ ha => absurd ha List.not_mem_nil

theorem accepts_decode : decode.Accepts WellFormed size longest := by
  have hhash : (Decoder.fixed 20).Accepts (fun _ => True) (fun _ => 20) 20 :=
    (Decoder.ensures_fixed 20).mono fun _ n hn => ⟨trivial, hn.ge, hn.le⟩
  have hkey : Condition.decodeKey.Accepts (fun _ => True) (fun _ => 33) 33 :=
    Condition.ensures_decodeKey.mono fun _ n hn => ⟨trivial, hn.ge, hn.le⟩
  refine (Decoder.ensures_fixed 20).bind fun account i hi => Decoder.ensures_byte.bind fun b j hj => ?_
  refine (Decoder.ensures_ofExcept (Q := fun scope k => scope.isValid = true ∧ k = 0) fun scope h => ?_).bind
    fun scope k hscope => ?_
  · exact ⟨Scope.of_ofByte (Outcome.mapError_eq_ok.mp h), rfl⟩
  · refine (accepts_flagged hhash).bind fun contracts n₁ h₁ => (accepts_flagged hkey).bind fun groups n₂ h₂ => ?_
    refine ((accepts_flagged Rule.accepts_decode).mono fun rules n₃ h₃ => ?_).map
    obtain ⟨⟨hflag₁, hlength₁, -⟩, hsize₁, hlong₁⟩ := h₁
    obtain ⟨⟨hflag₂, hlength₂, -⟩, hsize₂, hlong₂⟩ := h₂
    obtain ⟨⟨hflag₃, hlength₃, hshallow⟩, hsize₃, hlong₃⟩ := h₃
    refine ⟨?_, ?_, ?_⟩
    · exact {
        scope_valid := hscope.1
        contracts_flagged := hflag₁
        groups_flagged := hflag₂
        rules_flagged := hflag₃
        contracts_length := hlength₁
        groups_length := hlength₂
        rules_length := hlength₃
        rules_shallow := hshallow }
    · refine (Nat.add_le_add (Nat.add_le_add (Nat.add_le_add_left hsize₁ 21) hsize₂) hsize₃).trans ?_
      omega
    · rw [longest]
      omega

/-! ## Every signer that there is -/

/-- A signer that was made in one of the ways there are. -/
inductive Reachable : Signer → Prop where
  | none (account : Hash160) : Reachable (none account)
  | calledByEntry (account : Hash160) : Reachable (calledByEntry account)
  | global (account : Hash160) : Reachable (global account)
  | ofScope {account : Hash160} {scope : Scope} {s : Signer} (h : ofScope account scope = .ok s) : Reachable s
  | ofJson {j : Json} {s : Signer} (h : ofJson j = .ok s) : Reachable s
  | decode {r r' : Reader} {s : Signer} (h : decode r = (.ok s, r')) : Reachable s
  | addContracts {s t : Signer} {cs : List Hash160} (hs : Reachable s) (h : s.addContracts cs = .ok t) : Reachable t
  | addGroups {s t : Signer} {gs : List Point} (hs : Reachable s) (h : s.addGroups gs = .ok t) : Reachable t
  | addRules {s t : Signer} {rs : List Rule} (hs : Reachable s) (h : s.addRules rs = .ok t) : Reachable t

theorem Reachable.wellFormed {s : Signer} (h : s.Reachable) : s.WellFormed := by
  induction h with
  | none account => exact wellFormed_of_scope (by decide)
  | calledByEntry account => exact wellFormed_of_scope (by decide)
  | global account => exact wellFormed_of_scope (by decide)
  | ofScope h =>
    obtain ⟨hvalid, rfl⟩ := ofScope_eq_ok h
    exact wellFormed_of_scope hvalid
  | ofJson h => exact wellFormed_ofJson h
  | decode h =>
    obtain ⟨n, _, hgood, _⟩ := accepts_decode _ _ _ h
    exact hgood
  | @addContracts _ _ cs _ h ih => exact ih.apply (e := .contracts cs) h
  | @addGroups _ _ gs _ h ih => exact ih.apply (e := .groups gs) h
  | @addRules _ _ rs _ h ih => exact ih.apply (e := .rules rs) h

/-! ## Histories -/

namespace Edit

/-- The signer after edits, those that were refused among them. -/
def after (s : Signer) (history : List Edit) : Signer := history.foldl (fun s e => (e.outcome s).2) s

end Edit

theorem Reachable.outcome {s : Signer} (hs : s.Reachable) (e : Edit) : (e.outcome s).2.Reachable := by
  rw [Edit.outcome_eq_apply]
  rcases h : e.apply s with err | t
  · exact hs
  · cases e with
    | contracts cs => exact .addContracts hs h
    | groups gs => exact .addGroups hs h
    | rules rs => exact .addRules hs h

theorem Reachable.after {s : Signer} (hs : s.Reachable) (history : List Edit) : (Edit.after s history).Reachable := by
  induction history generalizing s with
  | nil => exact hs
  | cons e history ih => exact ih (hs.outcome e)

/-- However a signer was made and whatever was tried on it since, its scope is made of known flags with the one that
counts everywhere alone, each list that has entries has its flag, no list has more than sixteen, and no condition is too
deep. The next edit is refused, and leaves the signer as it is, or adds its entries and its flag and nothing else. -/
theorem restrictions_of_reachable {s : Signer} (hs : s.Reachable) (history : List Edit) :
    let t := Edit.after s history
    (t.scope.bits &&& ~~~ Scope.knownBits = 0 ∧ (t.scope.has .global = true → t.scope = .global)) ∧
    ((t.contracts ≠ [] → t.scope.has .customContracts = true) ∧
      (t.groups ≠ [] → t.scope.has .customGroups = true) ∧ (t.rules ≠ [] → t.scope.has .witnessRules = true)) ∧
    (t.scope = .global → t.contracts = [] ∧ t.groups = [] ∧ t.rules = []) ∧
    (t.contracts.length ≤ 16 ∧ t.groups.length ≤ 16 ∧ t.rules.length ≤ 16) ∧
    (∀ r ∈ t.rules, r.condition.checkDepth 2 = .ok ()) ∧
    ∀ e : Edit,
      (∀ u, e.apply t = .ok u ↔ e.outcome t = (.ok (), u)) ∧
      (∀ err, (e.outcome t).1 = .error err → (e.outcome t).2 = t) ∧
      ((e.outcome t).1 = .ok () → e.isEmpty = false → (e.outcome t).2 = e.added t) ∧
      (e.isEmpty = true → e.outcome t = (.ok (), t)) ∧
      ((e.outcome t).1 = .ok () ↔ e.isEmpty = true ∨ t.scope.has .global = false ∧ e.held t + e.count ≤ 16 ∧
        ∀ c ∈ e.conditions, c.checkDepth 2 = .ok ()) := by
  intro t
  have ht : t.WellFormed := (hs.after history).wellFormed
  refine ⟨Scope.isValid_iff.mp ht.scope_valid, ⟨ht.contracts_flagged, ht.groups_flagged, ht.rules_flagged⟩, ?_,
    ⟨ht.contracts_length, ht.groups_length, ht.rules_length⟩, ht.rules_shallow, fun e => ?_⟩
  · intro hglobal
    exact ht.unrestricted_of_global (by rw [hglobal]; decide)
  · refine ⟨fun u => Edit.apply_eq_ok_iff_outcome, fun err h => Edit.outcome_of_error h, Edit.outcome_of_ok, Edit.outcome_of_isEmpty t, ?_⟩
    rw [Edit.outcome_eq_ok_iff, Edit.check_eq_ok_iff]
    rfl

/-- A contract is added, three connectives under each other are refused, and no groups at all are added. -/
theorem restrictions_of_edited :
    let s := calledByEntry (FixedBytes.zero 20)
    let deep : Rule := ⟨true, .and [.or [.and []]]⟩
    let t := Edit.after s [.contracts [FixedBytes.zero 20], .rules [deep], .groups []]
    s.Reachable ∧ t = { s with scope := ⟨0x11⟩, contracts := [FixedBytes.zero 20] } ∧
      t.scope.has .customContracts = true ∧ (Edit.rules [deep]).outcome t = (.error (.signerConfiguration
        (.conditionTooDeep 2)), t) := by
  intro s deep t
  have hs : s.Reachable := .calledByEntry _
  obtain ⟨-, ⟨hflag, -, -⟩, -, -, -, hedit⟩ :=
    restrictions_of_reachable hs [.contracts [FixedBytes.zero 20], .rules [deep], .groups []]
  have ht : t = { s with scope := ⟨0x11⟩, contracts := [FixedBytes.zero 20] } := by decide
  have hrefused : ((Edit.rules [deep]).outcome t).1 = .error (.signerConfiguration (.conditionTooDeep 2)) := by
    decide
  have hkept : ((Edit.rules [deep]).outcome t).2 = t := (hedit (.rules [deep])).2.1 _ hrefused
  have hheld : t.contracts ≠ [] := by simp [ht]
  exact ⟨hs, ht, hflag hheld, Prod.ext hrefused hkept⟩

end N3.Signer
