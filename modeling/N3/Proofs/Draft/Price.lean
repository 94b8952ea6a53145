import N3.Proofs.Draft.Sign
import N3.Proofs.Lists
import N3.Proofs.Transaction.Field

/-!
# What is priced

A draft is priced once, with placeholders for its witnesses. The bytes that are priced have the size of the signed
transaction, and are its bytes but for the network fee and for the signatures of accounts (`sign_prices`). An account of
several keys is not signed for here; its placeholder has the size of whatever witness it is given later.
-/

set_option autoImplicit false

namespace N3.Draft

open Rpc Session

variable {d : Draft} {c : Client} {tr tr' : Trace}

/-- What building leaves open, and the witnesses. -/
def witnessed (d : Draft) (validUntil : UInt32) (systemFee networkFee : Int64) (witnesses : List Witness) :
    Transaction :=
  { d.filled validUntil systemFee networkFee with witnesses }

/-! ## The one request for the price -/

def pricing (bytes : Bytes) (id : UInt64) : Request :=
  { method := "calculatenetworkfee", params := [bytesToJson bytes], id }

def IsNotPricing (q : Request) : Prop := q.method ≠ "calculatenetworkfee"

/-- A session that asks with one other method does not ask for the price. -/
theorem extends_isNotPricing {α : Type} {s : Session BuildError α} {method : String} {a : α}
    (h : s.AsksOnly fun q => q.method = method) (hne : method ≠ "calculatenetworkfee") (hs : s.Gives c tr a tr') :
    tr.Extends IsNotPricing tr' :=
  h.extends_ne hne hs

theorem networkFee_gives {t : Transaction} {fee : Int64} (h : (d.carriage t).Gives c tr fee tr') :
    ∃ placeholders, d.signers.mapM Placeholder.ofSigner = .ok placeholders ∧
      (networkFee { t with witnesses := placeholders }.encode).Gives c tr fee tr' := by
  unfold carriage at h
  obtain ⟨priced, tr₁, hpriced, hasked⟩ := gives_bind h
  obtain ⟨hvalue, rfl⟩ := gives_ofExcept hpriced
  obtain ⟨placeholders, hplaceholders, hmade⟩ := Outcome.bind_eq_ok.mp (Outcome.mapError_eq_ok.mp hvalue)
  cases hmade
  exact ⟨placeholders, hplaceholders, gives_mapError hasked⟩

theorem carriage_gives {t : Transaction} {fee : Int64} (h : (d.carriage t).Gives c tr fee tr') :
    ∃ placeholders id, d.signers.mapM Placeholder.ofSigner = .ok placeholders ∧
      tr'.requests = tr.requests ++ [pricing { t with witnesses := placeholders }.encode id] := by
  obtain ⟨placeholders, hplaceholders, hasked⟩ := networkFee_gives h
  exact ⟨placeholders, _, hplaceholders, requests_call hasked⟩

/-- Of all requests, one is for the price; it is made when all is there but the network fee and the witnesses. -/
theorem build_prices {t : Transaction} (h : d.build.Gives c tr t tr') :
    ∃ (validUntil : UInt32) (systemFee networkFee : Int64) (placeholders : List Witness) (id : UInt64)
      (tr₁ tr₂ : Trace), t = d.filled validUntil systemFee networkFee ∧
      d.signers.mapM Placeholder.ofSigner = .ok placeholders ∧ tr.Extends IsNotPricing tr₁ ∧
      tr₂.requests = tr₁.requests ++
        [pricing (d.witnessed validUntil systemFee 0 placeholders).encode id] ∧
      tr₂.Extends IsNotPricing tr' := by
  obtain ⟨validUntil, gas, systemFee, price, networkFee, tr₁, tr₂, tr₃, tr₄, rfl, -, hvalid, hpriority, hconsumed, -,
    hcarriage, -, hbalance⟩ := build_steps h
  obtain ⟨placeholders, id, hplaceholders, hasked⟩ := carriage_gives hcarriage
  have hfirst := extends_isNotPricing asksOnly_resolveValidUntil (by decide) hvalid
  have hsecond := extends_isNotPricing asksOnly_checkPriority (by decide) hpriority
  have hthird := extends_isNotPricing asksOnly_consumed (by decide) hconsumed
  have hlast := extends_isNotPricing (asksOnly_checkBalance _) (by decide) hbalance
  exact ⟨validUntil, systemFee, networkFee, placeholders, id, tr₃, tr₄, rfl, hplaceholders,
    (hfirst.trans hsecond).trans hthird, hasked, hlast⟩

/-! ## The priced bytes -/

/-- A placeholder is the witness itself, or else differs from it in the signature of an account alone. -/
theorem placeholder_of_witness {data : Bytes} {s : TransactionSigner} {w w' : Witness}
    (hw : Placeholder.ofSigner s = .ok w) (hw' : witness data s = .ok w') :
    w = w' ∨ ∃ a signature key, s.source = .account a ∧ w = .ofSignature (FixedBytes.zero 64) key ∧
      w' = .ofSignature signature key := by
  unfold Placeholder.ofSigner at hw
  split at hw
  · next hs =>
    rw [witness, hs] at hw'
    exact .inl (Except.ok.inj (hw.symm.trans (Outcome.mapError_eq_ok.mp hw')))
  · next a hs =>
    obtain ⟨pair, signature, hpair, -, rfl⟩ := witness_account hs hw'
    rw [Placeholder.ofAccount_of_keyPair? hpair] at hw
    exact .inr ⟨a, signature, pair.key, hs, (Except.ok.inj hw).symm, rfl⟩

section Priced

variable {data : Bytes} {placeholders witnesses : List Witness}
  (hplaced : List.Forall₂ (fun s w => Placeholder.ofSigner s = .ok w) d.signers placeholders)
  (hmade : List.Forall₂ (fun s w => witness data s = .ok w) d.signers witnesses)

include hplaced hmade

theorem length_encode_placeholders :
    List.Forall₂ (fun w w' => w.encode.length = w'.encode.length) placeholders witnesses := by
  refine Lists.forall₂_of_common ?_ hplaced hmade
  intro s w w' hw hw'
  rcases placeholder_of_witness hw hw' with rfl | ⟨a, signature, key, -, rfl, rfl⟩
  · rfl
  · exact Witness.length_encode_ofSignature _ _ key

/-- Where two transactions differ that have all in common but their network fees, and of which one has placeholders for
the witnesses of the other. -/
theorem encode_placeholders_ne {t u : Transaction} (hfront : u.encodeFront = t.encodeFront)
    (hback : u.encodeBack = t.encodeBack) (hu : u.witnesses = placeholders) (ht : t.witnesses = witnesses) {j : Nat}
    (hne : u.encode[j]? ≠ t.encode[j]?) :
    Encode.InField t.encode Transaction.networkFeeOffset (Encode.i64 t.networkFee) j ∨
      ∃ i s a w signature, d.signers[i]? = some s ∧ s.source = .account a ∧ t.witnesses[i]? = some w ∧
        w.invocation.signatures = .ok [signature] ∧
        Encode.InField t.encode (t.signatureOffset i) signature.bytes j := by
  have hlengths := length_encode_placeholders hplaced hmade
  subst hu ht
  rcases Transaction.encode_ne hfront hback hlengths hne with hfee | ⟨i, k, w, w', hw, hw', rfl, hpart⟩
  · exact .inl hfee
  · obtain ⟨s, hs, hmade⟩ := Lists.getElem?_of_forall₂ hmade hw'
    obtain ⟨s', hs', hplaced⟩ := Lists.getElem?_of_forall₂ hplaced hw
    obtain rfl : s = s' := Option.some.inj (hs.symm.trans hs')
    rcases placeholder_of_witness hplaced hmade with rfl | ⟨a, signature, key, hsource, rfl, rfl⟩
    · exact absurd rfl hpart
    · obtain ⟨hlow, hhigh⟩ := Witness.encode_ofSignature_ne hpart
      refine .inr ⟨i, s, a, _, signature, hs, hsource, hw', InvocationScript.signatures_ofSignatures [signature], ?_⟩
      exact Transaction.inField_signature hw' (Nat.add_le_add_left hlow _) (by rw [Transaction.signatureOffset]; omega)

end Priced

/-- The only bytes that are priced have the size of the signed transaction, and differ from its bytes in the network fee
and in signatures of accounts alone. The placeholder of an account of several keys has the size of each witness that
can be made for a script that the account admits. -/
theorem sign_prices :
    (∀ (d : Draft) (c : Client) (tr tr' : Trace) (p : Pending), d.sign.Gives c tr p tr' →
      ∃ bytes id before after, tr'.requests = tr.requests ++ (before ++ pricing bytes id :: after) ∧
        (∀ q ∈ before ++ after, IsNotPricing q) ∧ bytes.length = p.transaction.size ∧
        ∀ j : Nat, bytes[j]? ≠ p.transaction.encode[j]? →
          Encode.InField p.transaction.encode Transaction.networkFeeOffset (Encode.i64 p.transaction.networkFee) j ∨
          ∃ i s a w signature, d.signers[i]? = some s ∧ s.source = .account a ∧
            p.transaction.witnesses[i]? = some w ∧ w.invocation.signatures = .ok [signature] ∧
            Encode.InField p.transaction.encode (p.transaction.signatureOffset i) signature.bytes j) ∧
      ∀ (s : TransactionSigner) (a : Account), s.source = .account a → a.isMultisig = true →
        ∃ placeholder, Placeholder.ofSigner s = .ok placeholder ∧ ∀ script m w, a.Admits script →
          Witness.ofSignatures script m = .ok w → w.encode.length = placeholder.encode.length := by
  constructor
  · intro d c tr tr' p h
    obtain ⟨q, witnesses, -, hbuild, hmade, rfl⟩ := sign_gives h
    obtain ⟨validUntil, systemFee, networkFee, placeholders, id, tr₁, tr₂, hq, hplaceholders, ⟨before, hbefore, hnot⟩,
      hasked, ⟨after, hafter, hnot'⟩⟩ := build_prices (buildUnsigned_gives hbuild)
    have hplaced := Outcome.mapM_eq_ok.mp hplaceholders
    have hlengths := length_encode_placeholders hplaced hmade
    have htransaction : (List.foldl Pending.addWitness q witnesses).transaction =
        d.witnessed validUntil systemFee networkFee witnesses := by
      rw [addWitnesses_transaction, hq]
      rfl
    have hfront : (d.witnessed validUntil systemFee 0 placeholders).encodeFront =
        (d.witnessed validUntil systemFee networkFee witnesses).encodeFront := rfl
    have hback : (d.witnessed validUntil systemFee 0 placeholders).encodeBack =
        (d.witnessed validUntil systemFee networkFee witnesses).encodeBack := by
      simp only [Transaction.encodeBack, witnessed, hlengths.length_eq]
      rfl
    rw [htransaction]
    refine ⟨(d.witnessed validUntil systemFee 0 placeholders).encode, id, before, after, ?_, ?_, ?_, ?_⟩
    · rw [hafter, hasked, hbefore]
      simp only [List.append_assoc, List.singleton_append]
    · intro q hq
      exact (List.mem_append.mp hq).elim (hnot q) (hnot' q)
    · rw [← Transaction.length_encode]
      exact Transaction.length_encode_congr hfront hback hlengths
    · intro j hne
      exact encode_placeholders_ne hplaced hmade hfront hback rfl rfl hne
  · intro s a hs hmultisig
    obtain ⟨placeholder, hplaceholder, hlength⟩ := Placeholder.length_encode_ofSignatures hmultisig
    refine ⟨placeholder, ?_, hlength⟩
    rw [Placeholder.ofSigner, hs]
    exact hplaceholder

/-- An account that is known to take two signatures of two keys, and nothing else. -/
def pairAccount : Account := { known := .quorum (FixedBytes.zero 20) ⟨2, 2⟩ (by decide) }

theorem admits_pairAccount : pairAccount.Admits (Witness.bothOf .base .opposite) := by
  refine ⟨⟨2, 2⟩, [.opposite, .base], rfl, rfl, ?_⟩
  rw [VerificationScript.ofKeys_eq_ok_iff, Point.sort_opposite_base]
  exact ⟨by decide, rfl⟩

theorem sign_prices_pair :
    (∃ p bytes id before after, (pairDraft.sign Pending.terseClient {}).1 = .ok p ∧
      (pairDraft.sign Pending.terseClient {}).2.requests = before ++ pricing bytes id :: after ∧
      bytes.length = p.transaction.size) ∧
    ∃ placeholder w, Placeholder.ofSigner (.calledByEntry pairAccount) = .ok placeholder ∧
      Witness.ofSignatures (Witness.bothOf .base .opposite) Witness.twoSignatures = .ok w ∧
      w.encode.length = placeholder.encode.length := by
  constructor
  · obtain ⟨p, hp⟩ := exists_sign_pairDraft
    obtain ⟨bytes, id, before, after, hrequests, -, hlength, -⟩ :=
      sign_prices.1 pairDraft Pending.terseClient {} _ p (gives_of_ok hp)
    exact ⟨p, bytes, id, before, after, hp, hrequests, hlength⟩
  · obtain ⟨placeholder, hplaceholder, hlength⟩ := sign_prices.2 (.calledByEntry pairAccount) pairAccount rfl rfl
    have hmade := Witness.ofSignatures_bothOf (a := .base) (b := .opposite) List.mem_cons_self (by simp)
    exact ⟨placeholder, _, hplaceholder, hmade, hlength _ _ _ admits_pairAccount hmade⟩

end N3.Draft
