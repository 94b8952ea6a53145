import N3.Proofs.Draft.Fees
import N3.Proofs.Lists
import N3.Proofs.Transaction.Repeated
import N3.Proofs.Transaction.Wire

/-!
# Drafts that are changed

An `Edit` is one change to a draft. Those that can be refused are taken apart once (`withSigners_eq_ok_iff` and its
like), so that what each edit keeps is read off. Whatever edits succeed one after the other, the draft stays
`Consistent`, and a transaction that is made from it can break a limit only by an answer to an oracle or a first block
that is there twice. The signer that is moved to the front stays there and pays, until the signers are replaced or
another one is moved (`Leads`). `edit_consistent` puts this together.
-/

set_option autoImplicit false

namespace N3

namespace Draft

open Rpc Session

/-! ## Edits -/

inductive Edit where
  | version (version : UInt8)
  | nonce (nonce : UInt32)
  | validUntil (height : UInt32)
  | signers (signers : List TransactionSigner)
  | firstSigner (account : Hash160)
  | attributes (attributes : List Attribute)
  | script (script : Bytes)
  | extendScript (script : Bytes)
  | extraNetworkFee (fee : Int64)
  | extraSystemFee (fee : Int64)
  | reportShortfall
  | refuseShortfall (reason : String)

def Edit.apply (d : Draft) : Edit → Except Error Draft
  | .version v => .ok { d with version := v }
  | .nonce n => .ok { d with nonce := n }
  | .validUntil height => .ok { d with validUntil := some height }
  | .signers ss => d.withSigners ss
  | .firstSigner account => d.withFirstSigner account
  | .attributes as => d.addAttributes as
  | .script bs => .ok (d.withScript bs)
  | .extendScript bs => .ok (d.extendScript bs)
  | .extraNetworkFee fee => .ok { d with extraNetworkFee := fee }
  | .extraSystemFee fee => .ok { d with extraSystemFee := fee }
  | .reportShortfall => d.reportShortfall
  | .refuseShortfall reason => d.refuseShortfall reason

/-- Changes a draft by one edit after the other, up to the first that is refused. -/
def edit (d : Draft) (edits : List Edit) : Except Error Draft := edits.foldlM Edit.apply d

theorem edit_nil_eq_ok {d d' : Draft} : d.edit [] = .ok d' ↔ d' = d :=
  ⟨fun h => (Except.ok.inj h).symm, fun h => h ▸ rfl⟩

theorem edit_cons_eq_ok {d d'' : Draft} {e : Edit} {es : List Edit} :
    d.edit (e :: es) = .ok d'' ↔ ∃ d', e.apply d = .ok d' ∧ d'.edit es = .ok d'' :=
  Outcome.bind_eq_ok

/-! ## What each of them does -/

section

variable {d d' : Draft}

theorem checkRoom_eq_ok_iff {signers attributes : Nat} :
    checkRoom signers attributes = .ok () ↔ signers + attributes ≤ Limits.signersAndAttributes := by
  unfold checkRoom
  split
  · next h => exact ⟨nofun, fun h' => absurd h (Nat.not_lt.mpr h')⟩
  · next h => exact ⟨fun _ => Nat.not_lt.mp h, fun _ => rfl⟩

theorem withSigners_eq_ok_iff {signers : List TransactionSigner} : d.withSigners signers = .ok d' ↔
    (signers.map (·.hash)).Nodup ∧ signers.length + d.attributes.length ≤ Limits.signersAndAttributes ∧
      d' = { d with signers } := by
  have hdistinct : Transaction.firstRepeatedAccount? [] (signers.map (·.signer)) = none ↔
      (signers.map (·.hash)).Nodup := by
    rw [Transaction.firstRepeatedAccount?_eq_none_iff, List.map_map]
    exact and_iff_left fun _ _ => List.not_mem_nil
  rw [← hdistinct, ← checkRoom_eq_ok_iff]
  unfold withSigners
  split
  · next h => simp [h]
  · next h =>
    rw [Outcome.bind_unit_eq_ok]
    simp only [h, true_and]
    exact and_congr_right fun _ => ⟨fun hd => (Except.ok.inj hd).symm, fun hd => hd ▸ rfl⟩

theorem withFirstSigner_eq_ok_iff {account : Hash160} : d.withFirstSigner account = .ok d' ↔
    (∀ s ∈ d.signers, s.scope ≠ .none) ∧ ∃ front s back, d.signers = front ++ s :: back ∧
      (∀ b ∈ front, b.hash ≠ account) ∧ s.hash = account ∧ d' = { d with signers := s :: (front ++ back) } := by
  have hpays : (d.signers.any fun s => s.scope.isNone) = false ↔ ∀ s ∈ d.signers, s.scope ≠ .none := by
    simp only [List.any_eq_false, Bool.not_eq_true, Scope.isNone_eq_false_iff]
  have hfound : ∀ {front back : List TransactionSigner} {s : TransactionSigner},
      (∀ b ∈ front, b.hash ≠ account) → s.hash = account → d.signers = front ++ s :: back →
      (d.signers.find? fun s => s.hash == account) = some s ∧
        (d.signers.eraseP fun s => s.hash == account) = front ++ back := by
    intro front back s hfront hs hsigners
    rw [hsigners]
    exact Lists.find?_eraseP_append_cons (fun b hb => beq_eq_false_iff_ne.mpr (hfront b hb)) (beq_iff_eq.mpr hs)
  rw [← hpays]
  unfold withFirstSigner
  split
  · next h => simp [h]
  · next h =>
    rw [Bool.not_eq_true] at h
    rw [h, and_iff_right rfl]
    split
    · next s hfind =>
      obtain ⟨hs, front, back, hsigners, hfront⟩ := List.find?_eq_some_iff_append.mp hfind
      constructor
      · intro hd
        have hother : ∀ b ∈ front, b.hash ≠ account := by simpa using hfront
        refine ⟨front, s, back, hsigners, hother, beq_iff_eq.mp hs, ?_⟩
        rw [← (hfound hother (beq_iff_eq.mp hs) hsigners).2]
        exact (Except.ok.inj hd).symm
      · rintro ⟨front', s', back', hsigners', hfront', hs', rfl⟩
        obtain ⟨hfind', herase⟩ := hfound hfront' hs' hsigners'
        obtain rfl : s = s' := Option.some.inj (hfind.symm.trans hfind')
        rw [herase]
    · next hfind =>
      refine ⟨nofun, ?_⟩
      rintro ⟨front, s, back, hsigners, hfront, hs, -⟩
      cases hfind.symm.trans (hfound hfront hs hsigners).1

theorem exists_withFirstSigner_iff {account : Hash160} : (∃ d', d.withFirstSigner account = .ok d') ↔
    (∀ s ∈ d.signers, s.scope ≠ .none) ∧ ∃ s ∈ d.signers, s.hash = account := by
  simp only [withFirstSigner_eq_ok_iff]
  constructor
  · rintro ⟨_, hscope, front, s, back, hsigners, -, hs, -⟩
    exact ⟨hscope, s, hsigners ▸ List.mem_append_right front List.mem_cons_self, hs⟩
  · rintro ⟨hscope, s, hmem, hs⟩
    have hfound : (d.signers.find? fun s => s.hash == account).isSome = true :=
      List.find?_isSome.mpr ⟨s, hmem, beq_iff_eq.mpr hs⟩
    obtain ⟨t, ht⟩ := Option.isSome_iff_exists.mp hfound
    obtain ⟨hhash, front, back, hsigners, hfront⟩ := List.find?_eq_some_iff_append.mp ht
    exact ⟨_, hscope, front, t, back, hsigners, by simpa using hfront, beq_iff_eq.mp hhash, rfl⟩

theorem addAttributes_eq_ok_iff {attributes : List Attribute} : d.addAttributes attributes = .ok d' ↔
    d.signers.length + (d.attributes.length + attributes.length) ≤ Limits.signersAndAttributes ∧
      d' = { d with attributes := attributes.foldl addAttribute d.attributes } := by
  unfold addAttributes
  rw [Outcome.bind_unit_eq_ok, checkRoom_eq_ok_iff]
  exact and_congr_right fun _ => ⟨fun hd => (Except.ok.inj hd).symm, fun hd => hd ▸ rfl⟩

theorem reportShortfall_eq_ok_iff : d.reportShortfall = .ok d' ↔
    (∀ reason, d.onShortfall ≠ .refuse reason) ∧ d' = { d with onShortfall := .report } := by
  unfold reportShortfall
  split
  · next h => simp [h]
  · next h => exact ⟨fun hd => ⟨h, (Except.ok.inj hd).symm⟩, fun hd => hd.2 ▸ rfl⟩

theorem refuseShortfall_eq_ok_iff {reason : String} : d.refuseShortfall reason = .ok d' ↔
    d.onShortfall ≠ .report ∧ d' = { d with onShortfall := .refuse reason } := by
  unfold refuseShortfall
  split
  · next h => simp [h]
  · next h => exact ⟨fun hd => ⟨h, (Except.ok.inj hd).symm⟩, fun hd => hd.2 ▸ rfl⟩

end

/-! ## What holds of every draft -/

structure Consistent (d : Draft) : Prop where
  nodup : (d.signers.map (·.hash)).Nodup
  length_le : d.signers.length + d.attributes.length ≤ Limits.signersAndAttributes
  priority : d.attributes.count .highPriority ≤ 1

theorem length_addAttribute_le (as : List Attribute) (a : Attribute) : (addAttribute as a).length ≤ as.length + 1 := by
  unfold addAttribute
  split
  · exact Nat.le_succ _
  · exact Nat.le_of_eq List.length_append

theorem count_addAttribute_le {as : List Attribute} (h : as.count .highPriority ≤ 1) (a : Attribute) :
    (addAttribute as a).count .highPriority ≤ 1 := by
  unfold addAttribute
  split
  · exact h
  · next hskip =>
    rw [List.count_append, List.count_singleton]
    split
    · next heq =>
      have hnone : .highPriority ∉ as := fun hmem => hskip ⟨beq_iff_eq.mp heq, List.contains_iff_mem.mpr hmem⟩
      rw [List.count_eq_zero.mpr hnone]
    · exact h

theorem foldl_addAttribute_le (added as : List Attribute) (h : as.count .highPriority ≤ 1) :
    (added.foldl addAttribute as).length ≤ as.length + added.length ∧
      (added.foldl addAttribute as).count .highPriority ≤ 1 := by
  induction added generalizing as with
  | nil => exact ⟨Nat.le_refl _, h⟩
  | cons a added ih =>
    obtain ⟨hlength, hcount⟩ := ih (addAttribute as a) (count_addAttribute_le h a)
    have hone := length_addAttribute_le as a
    rw [List.foldl_cons, List.length_cons]
    exact ⟨by omega, hcount⟩

/-- What an edit keeps. -/
theorem Consistent.apply {d d' : Draft} {e : Edit} (hd : d.Consistent) (h : e.apply d = .ok d') : d'.Consistent := by
  cases e with
  | signers ss =>
    obtain ⟨hnodup, hlength, rfl⟩ := withSigners_eq_ok_iff.mp h
    exact ⟨hnodup, hlength, hd.priority⟩
  | firstSigner account =>
    obtain ⟨-, front, s, back, hsigners, -, -, rfl⟩ := withFirstSigner_eq_ok_iff.mp h
    have hperm : (s :: (front ++ back)).Perm d.signers := hsigners ▸ List.perm_middle.symm
    exact ⟨(hperm.map _).nodup_iff.mpr hd.nodup, hperm.length_eq ▸ hd.length_le, hd.priority⟩
  | attributes as =>
    obtain ⟨hroom, rfl⟩ := addAttributes_eq_ok_iff.mp h
    obtain ⟨hlength, hcount⟩ := foldl_addAttribute_le as d.attributes hd.priority
    exact ⟨hd.nodup, Nat.le_trans (Nat.add_le_add_left hlength _) hroom, hcount⟩
  | reportShortfall =>
    obtain ⟨-, rfl⟩ := reportShortfall_eq_ok_iff.mp h
    exact ⟨hd.nodup, hd.length_le, hd.priority⟩
  | refuseShortfall reason =>
    obtain ⟨-, rfl⟩ := refuseShortfall_eq_ok_iff.mp h
    exact ⟨hd.nodup, hd.length_le, hd.priority⟩
  | _ =>
    cases h
    exact ⟨hd.nodup, hd.length_le, hd.priority⟩

theorem Consistent.edit {d d' : Draft} {es : List Edit} (hd : d.Consistent) (h : d.edit es = .ok d') :
    d'.Consistent := by
  induction es generalizing d with
  | nil => exact edit_nil_eq_ok.mp h ▸ hd
  | cons e es ih =>
    obtain ⟨d₁, hfirst, hrest⟩ := edit_cons_eq_ok.mp h
    exact ih (hd.apply hfirst) hrest

theorem consistent_nonce (nonce : UInt32) : ({ nonce } : Draft).Consistent :=
  ⟨List.nodup_nil, Nat.zero_le _, Nat.zero_le _⟩

/-! ## Limits -/

theorem count_kind_highPriority (as : List Attribute) :
    (as.map (·.kind)).count .highPriority = as.count .highPriority := by
  rw [List.count, List.countP_map, List.count]
  refine List.countP_congr fun a _ => ?_
  cases a <;> simp [Attribute.kind]

/-- Of a consistent draft, only the attributes are left to be checked. -/
theorem Consistent.validateLimits_filled {d : Draft} (hd : d.Consistent) (validUntil : UInt32)
    (systemFee networkFee : Int64) : (d.filled validUntil systemFee networkFee).validateLimits =
      (Attribute.firstRepeated? [] d.attributes).elim (.ok ()) fun k =>
        .error (.transactionConfiguration (.duplicateAttribute k.name)) := by
  have hlength : ¬ Limits.signersAndAttributes < d.modelSigners.length + d.attributes.length := by
    rw [modelSigners, List.length_map]
    exact Nat.not_lt.mpr hd.length_le
  have hdistinct : Transaction.firstRepeatedAccount? [] d.modelSigners = none := by
    rw [Transaction.firstRepeatedAccount?_eq_none_iff, modelSigners, List.map_map]
    exact ⟨hd.nodup, fun _ _ => List.not_mem_nil⟩
  unfold Transaction.validateLimits filled
  dsimp only
  rw [if_neg hlength, hdistinct]
  cases Attribute.firstRepeated? [] d.attributes <;> rfl

/-- A kind that is there twice and may not be is one of two. -/
theorem Consistent.of_firstRepeated? {d : Draft} (hd : d.Consistent) {k : Attribute.Kind}
    (h : Attribute.firstRepeated? [] d.attributes = some k) :
    (k = .oracleResponse ∨ k = .notValidBefore) ∧ 2 ≤ (d.attributes.map (·.kind)).count k := by
  obtain ⟨hsingle, hcount⟩ := Attribute.of_firstRepeated?_eq_some h
  refine ⟨?_, hcount⟩
  cases k with
  | highPriority =>
    rw [count_kind_highPriority] at hcount
    exact absurd hd.priority (Nat.not_le.mpr hcount)
  | oracleResponse => exact .inl rfl
  | notValidBefore => exact .inr rfl
  | conflicts => cases hsingle

theorem Consistent.validateLimits_eq_ok_iff {d : Draft} (hd : d.Consistent) {validUntil : UInt32}
    {systemFee networkFee : Int64} : (d.filled validUntil systemFee networkFee).validateLimits = .ok () ↔
      (d.attributes.map (·.kind)).count .oracleResponse ≤ 1 ∧
        (d.attributes.map (·.kind)).count .notValidBefore ≤ 1 := by
  rw [hd.validateLimits_filled]
  cases h : Attribute.firstRepeated? [] d.attributes with
  | none =>
    have hall := Attribute.firstRepeated?_eq_none_iff.mp h
    exact ⟨fun _ => ⟨hall _ rfl, hall _ rfl⟩, fun _ => rfl⟩
  | some k =>
    obtain ⟨rfl | rfl, hcount⟩ := hd.of_firstRepeated? h
    · exact ⟨nofun, fun hle => absurd hle.1 (Nat.not_le.mpr hcount)⟩
    · exact ⟨nofun, fun hle => absurd hle.2 (Nat.not_le.mpr hcount)⟩

theorem Consistent.of_validateLimits_eq_error {d : Draft} (hd : d.Consistent) {validUntil : UInt32}
    {systemFee networkFee : Int64} {e : Error}
    (h : (d.filled validUntil systemFee networkFee).validateLimits = .error e) :
    ∃ k : Attribute.Kind, (k = .oracleResponse ∨ k = .notValidBefore) ∧
      2 ≤ (d.attributes.map (·.kind)).count k ∧ e = .transactionConfiguration (.duplicateAttribute k.name) := by
  rw [hd.validateLimits_filled] at h
  cases hk : Attribute.firstRepeated? [] d.attributes with
  | none =>
    rw [hk] at h
    cases h
  | some k =>
    rw [hk] at h
    obtain ⟨hkind, hcount⟩ := hd.of_firstRepeated? hk
    exact ⟨k, hkind, hcount, (Except.error.inj h).symm⟩

/-! ## Shortfalls -/

theorem onShortfall_of_apply {d d' : Draft} {e : Edit} (h : e.apply d = .ok d') :
    (d'.onShortfall = .report ↔ d.onShortfall = .report ∨ e = .reportShortfall) ∧
      ((∃ reason, d'.onShortfall = .refuse reason) ↔
        (∃ reason, d.onShortfall = .refuse reason) ∨ ∃ reason, e = .refuseShortfall reason) := by
  cases e with
  | signers ss =>
    obtain ⟨-, -, rfl⟩ := withSigners_eq_ok_iff.mp h
    simp
  | firstSigner account =>
    obtain ⟨-, front, s, back, -, -, -, rfl⟩ := withFirstSigner_eq_ok_iff.mp h
    simp
  | attributes as =>
    obtain ⟨-, rfl⟩ := addAttributes_eq_ok_iff.mp h
    simp
  | reportShortfall =>
    obtain ⟨hne, rfl⟩ := reportShortfall_eq_ok_iff.mp h
    simp [hne]
  | refuseShortfall reason =>
    obtain ⟨hne, rfl⟩ := refuseShortfall_eq_ok_iff.mp h
    simp [hne]
  | _ =>
    cases h
    simp [withScript, extendScript]

/-- A policy is there exactly if it was asked for. -/
theorem onShortfall_of_edit {d d' : Draft} {es : List Edit} (h : d.edit es = .ok d') :
    (d'.onShortfall = .report ↔ d.onShortfall = .report ∨ .reportShortfall ∈ es) ∧
      ((∃ reason, d'.onShortfall = .refuse reason) ↔
        (∃ reason, d.onShortfall = .refuse reason) ∨ ∃ reason, .refuseShortfall reason ∈ es) := by
  induction es generalizing d with
  | nil =>
    rw [edit_nil_eq_ok.mp h]
    simp
  | cons e es ih =>
    obtain ⟨d₁, hfirst, hrest⟩ := edit_cons_eq_ok.mp h
    obtain ⟨hreport, hrefuse⟩ := onShortfall_of_apply hfirst
    obtain ⟨hreports, hrefuses⟩ := ih hrest
    rw [hreports, hreport, hrefuses, hrefuse]
    simp only [List.mem_cons, exists_or, or_assoc, eq_comm, and_self]

/-! ## Who pays -/

/-- The accounts whose signers are moved to the front, one after the other. -/
def Edit.firsts (es : List Edit) : List Hash160 :=
  es.filterMap fun
    | .firstSigner account => some account
    | _ => none

/-- Signers in another order, with that of an account in front, in which those keep their order whose accounts are not
among the chosen ones. None of them only pays fees, so that the first one pays. -/
structure Leads (start : List TransactionSigner) (chosen : List Hash160) (account : Hash160)
    (ss : List TransactionSigner) : Prop where
  first : ∃ s rest, ss = s :: rest ∧ s.hash = account
  scope_ne : ∀ s ∈ ss, s.scope ≠ .none
  perm : ss.Perm start
  others : (ss.filter fun s => s.hash ∉ chosen) = start.filter fun s => s.hash ∉ chosen

section

variable {d d' : Draft} {start : List TransactionSigner} {chosen : List Hash160} {account : Hash160}

theorem leads_of_withFirstSigner (h : d.withFirstSigner account = .ok d') (hchosen : account ∈ chosen) :
    Leads d.signers chosen account d'.signers := by
  obtain ⟨hscope, front, s, back, hsigners, -, hs, rfl⟩ := withFirstSigner_eq_ok_iff.mp h
  have hperm : (s :: (front ++ back)).Perm d.signers := hsigners ▸ List.perm_middle.symm
  refine ⟨⟨s, _, rfl, hs⟩, fun t ht => hscope t (hperm.mem_iff.mp ht), hperm, ?_⟩
  rw [hsigners]
  simp [hs, hchosen]

theorem signers_of_apply {e : Edit} (h : e.apply d = .ok d') (hsigners : ∀ ss, e ≠ .signers ss)
    (hfirst : ∀ a, e ≠ .firstSigner a) : d'.signers = d.signers := by
  cases e with
  | signers ss => exact absurd rfl (hsigners ss)
  | firstSigner a => exact absurd rfl (hfirst a)
  | attributes as => rw [(addAttributes_eq_ok_iff.mp h).2]
  | reportShortfall => rw [(reportShortfall_eq_ok_iff.mp h).2]
  | refuseShortfall reason => rw [(refuseShortfall_eq_ok_iff.mp h).2]
  | _ =>
    cases h
    rfl

/-- The last signer that was moved to the front stays there until the signers are replaced. -/
theorem Leads.edit {es : List Edit} (hd : Leads start chosen account d.signers) (h : d.edit es = .ok d')
    (hkept : ∀ ss, .signers ss ∉ es) (hchosen : ∀ a ∈ Edit.firsts es, a ∈ chosen) :
    Leads start chosen ((Edit.firsts es).getLastD account) d'.signers := by
  induction es generalizing d account with
  | nil =>
    rw [edit_nil_eq_ok.mp h]
    exact hd
  | cons e es ih =>
    obtain ⟨d₁, hfirst, hrest⟩ := edit_cons_eq_ok.mp h
    have hkept' : ∀ ss, .signers ss ∉ es := fun ss hss => hkept ss (List.mem_cons_of_mem e hss)
    by_cases hmoves : ∃ a, e = .firstSigner a
    · obtain ⟨a, rfl⟩ := hmoves
      have hfirsts : Edit.firsts (.firstSigner a :: es) = a :: Edit.firsts es := rfl
      rw [hfirsts, List.forall_mem_cons] at hchosen
      have hmoved := leads_of_withFirstSigner hfirst hchosen.1
      rw [hfirsts, List.getLastD_cons]
      exact ih ⟨hmoved.first, hmoved.scope_ne, hmoved.perm.trans hd.perm, hmoved.others.trans hd.others⟩ hrest hkept'
        hchosen.2
    · have hstays : ∀ a, e ≠ .firstSigner a := fun a ha => hmoves ⟨a, ha⟩
      have hfirsts : Edit.firsts (e :: es) = Edit.firsts es := by
        cases e with
        | firstSigner a => exact absurd rfl (hstays a)
        | _ => rfl
      have hsame := signers_of_apply hfirst (fun ss hss => hkept ss (hss ▸ List.mem_cons_self)) hstays
      rw [hfirsts] at hchosen ⊢
      exact ih (hsame ▸ hd) hrest hkept' hchosen

theorem Leads.sender?_filled (hd : Leads start chosen account d.signers) (validUntil : UInt32)
    (systemFee networkFee : Int64) : (d.filled validUntil systemFee networkFee).sender? = some account := by
  obtain ⟨⟨s, rest, hsigners, rfl⟩, hscope, -, -⟩ := hd
  have hpayer : (d.modelSigners.find? fun s => s.scope == .none) = none := by
    rw [modelSigners, List.find?_map, Option.map_eq_none_iff, List.find?_eq_none]
    intro t ht
    rw [Function.comp_apply, beq_iff_eq]
    exact hscope t ht
  unfold Transaction.sender? filled
  dsimp only
  rw [hpayer, modelSigners, hsigners]
  rfl

end

/-! ## All edits -/

/-- What is known of every draft that is made from nothing by edits that succeed: its signers are distinct, it is within
the limits, and reports on shortfalls exclude refusals. So a limit is broken only by two attributes of one of two kinds.
A signer is moved to the front exactly if it is there and none of them only pays fees; after that the last one moved
pays, and the others keep their order, until the signers are replaced. -/
theorem edit_consistent {nonce : UInt32} {es : List Edit} {d : Draft} (h : ({ nonce } : Draft).edit es = .ok d) :
    (d.signers.map (·.hash)).Nodup ∧ d.signers.length + d.attributes.length ≤ 16 ∧
    d.attributes.count .highPriority ≤ 1 ∧
    ((d.onShortfall = .report ↔ .reportShortfall ∈ es) ∧
      ((∃ reason, d.onShortfall = .refuse reason) ↔ ∃ reason, .refuseShortfall reason ∈ es) ∧
      ¬ (.reportShortfall ∈ es ∧ ∃ reason, .refuseShortfall reason ∈ es)) ∧
    (∀ validUntil systemFee networkFee,
      ((d.filled validUntil systemFee networkFee).validateLimits = .ok () ↔
        (d.attributes.map (·.kind)).count .oracleResponse ≤ 1 ∧
          (d.attributes.map (·.kind)).count .notValidBefore ≤ 1) ∧
      ∀ e, (d.filled validUntil systemFee networkFee).validateLimits = .error e →
        ∃ k : Attribute.Kind, (k = .oracleResponse ∨ k = .notValidBefore) ∧
          2 ≤ (d.attributes.map (·.kind)).count k ∧ e = .transactionConfiguration (.duplicateAttribute k.name)) ∧
    ∀ account,
      ((∃ d', d.withFirstSigner account = .ok d') ↔
        (∀ s ∈ d.signers, s.scope ≠ .none) ∧ ∃ s ∈ d.signers, s.hash = account) ∧
      ∀ d' later d'', d.withFirstSigner account = .ok d' → d'.edit later = .ok d'' → (∀ ss, .signers ss ∉ later) →
        (∀ c tr t tr', d''.build.Gives c tr t tr' → t.sender? = some ((Edit.firsts later).getLastD account)) ∧
        d''.signers.Perm d.signers ∧
        (d''.signers.filter fun s => s.hash ∉ account :: Edit.firsts later) =
          d.signers.filter fun s => s.hash ∉ account :: Edit.firsts later := by
  have hd := (consistent_nonce nonce).edit h
  obtain ⟨hreport, hrefuse⟩ := onShortfall_of_edit h
  have hreport' : d.onShortfall = .report ↔ .reportShortfall ∈ es := by simpa using hreport
  have hrefuse' : (∃ reason, d.onShortfall = .refuse reason) ↔ ∃ reason, .refuseShortfall reason ∈ es := by
    simpa using hrefuse
  refine ⟨hd.nodup, hd.length_le, hd.priority, ⟨hreport', hrefuse', ?_⟩, ?_, ?_⟩
  · rw [← hreport', ← hrefuse']
    rintro ⟨hpolicy, reason, hpolicy'⟩
    cases hpolicy.symm.trans hpolicy'
  · exact fun _ _ _ => ⟨hd.validateLimits_eq_ok_iff, fun _ => hd.of_validateLimits_eq_error⟩
  · intro account
    refine ⟨exists_withFirstSigner_iff, ?_⟩
    intro d' later d'' hmoved hlater hkept
    have hleads : Leads d.signers (account :: Edit.firsts later) _ d''.signers :=
      (leads_of_withFirstSigner hmoved List.mem_cons_self).edit hlater hkept fun a ha => List.mem_cons_of_mem _ ha
    refine ⟨?_, hleads.perm, hleads.others⟩
    intro c tr t tr' hbuilt
    obtain ⟨⟨validUntil, systemFee, networkFee, rfl⟩, -⟩ := build_gives hbuilt
    exact hleads.sender?_filled validUntil systemFee networkFee

/-! Two contracts sign, the second of which is to pay. -/

def payer : Hash160 := ⟨List.replicate 20 1, List.length_replicate⟩

def twoContracts : List TransactionSigner :=
  [.contractCalledByEntry (FixedBytes.zero 20) [], .contractCalledByEntry payer []]

def twoDraft (signers : List TransactionSigner) : Draft :=
  { signers, attributes := [.notValidBefore 1], script := [0x40] }

theorem edit_consistent_two :
    ({ nonce := 0 } : Draft).edit [.signers twoContracts, .attributes [.notValidBefore 1], .script [0x40]] =
      .ok (twoDraft twoContracts) ∧
    ((twoDraft twoContracts).filled 0 0 0).validateLimits = .ok () ∧
    (twoDraft twoContracts).withFirstSigner payer = .ok (twoDraft twoContracts.reverse) ∧
    ∃ d p, (twoDraft twoContracts.reverse).edit [.validUntil 1] = .ok d ∧
      (d.buildUnsigned smallClient {}).1 = .ok p ∧ p.transaction.sender? = some payer := by
  have hedited : ({ nonce := 0 } : Draft).edit
      [.signers twoContracts, .attributes [.notValidBefore 1], .script [0x40]] = .ok (twoDraft twoContracts) := rfl
  have hmoved : (twoDraft twoContracts).withFirstSigner payer = .ok (twoDraft twoContracts.reverse) := rfl
  obtain ⟨d, hd⟩ : ∃ d : Draft, d = { twoDraft twoContracts.reverse with validUntil := some 1 } := ⟨_, rfl⟩
  have hlater : (twoDraft twoContracts.reverse).edit [.validUntil 1] = .ok d := hd ▸ rfl
  have hbuilt : (d.buildUnsigned smallClient {}).1 = .ok ⟨d.filled 1 10 5, none⟩ := by
    subst hd
    exact fst_buildUnsigned rfl (fun _ => rfl) (fun _ => rfl) (fun _ => rfl) (addFee_eq_ok_iff.mpr rfl) (fun _ => rfl)
      (addFee_eq_ok_iff.mpr rfl) (fun _ => rfl) {}
  obtain ⟨-, -, -, -, hlimits, hfirst⟩ := edit_consistent hedited
  have hpays := ((hfirst payer).2 _ [.validUntil 1] d hmoved hlater (by simp)).1
  exact ⟨hedited, (hlimits 0 0 0).1.mpr (by decide), hmoved, d, _, hlater, hbuilt,
    hpays _ _ _ _ (buildUnsigned_gives (gives_of_ok hbuilt))⟩

end Draft

end N3
