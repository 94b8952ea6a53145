import N3.Proofs.Script.Invocation
import N3.Proofs.Transaction.Wire

/-!
# Where fields stand

A transaction has its network fee at a fixed place, and the signature of a witness of one key behind the witnesses
before it. Two transactions that differ in their network fees and witnesses alone, and whose witnesses have the same
sizes, differ as bytes in the network fee and inside of witnesses alone (`Transaction.encode_ne`).
-/

set_option autoImplicit false

namespace N3

/-! ## Where bytes differ -/

namespace Encode

/-- The field stands in the bytes at the offset, and `j` is one of its positions. -/
def InField (bs : Bytes) (offset : Nat) (field : Bytes) (j : Nat) : Prop :=
  (bs.drop offset).take field.length = field ∧ offset ≤ j ∧ j < offset + field.length

theorem inField_append {bs before field after : Bytes} {offset j : Nat} (h : bs = before ++ (field ++ after))
    (hoffset : before.length = offset) (hlow : offset ≤ j) (hhigh : j < offset + field.length) :
    InField bs offset field j := by
  refine ⟨?_, hlow, hhigh⟩
  rw [h, List.drop_left' hoffset, List.take_left' rfl]

theorem append_ne {as as' bs bs' : Bytes} {j : Nat} (h : as.length = as'.length)
    (hne : (as ++ bs)[j]? ≠ (as' ++ bs')[j]?) :
    j < as.length ∧ as[j]? ≠ as'[j]? ∨ as.length ≤ j ∧ bs[j - as.length]? ≠ bs'[j - as.length]? := by
  rw [List.getElem?_append, List.getElem?_append, ← h] at hne
  by_cases hj : j < as.length
  · rw [if_pos hj, if_pos hj] at hne
    exact .inl ⟨hj, hne⟩
  · rw [if_neg hj, if_neg hj] at hne
    exact .inr ⟨Nat.not_lt.mp hj, hne⟩

theorem append_left_ne {as bs bs' : Bytes} {j : Nat} (hne : (as ++ bs)[j]? ≠ (as ++ bs')[j]?) :
    as.length ≤ j ∧ bs[j - as.length]? ≠ bs'[j - as.length]? :=
  (append_ne rfl hne).resolve_left fun h => h.2 rfl

theorem length_flatMap_of_forall₂ {α : Type} {item : α → Bytes} {as bs : List α}
    (h : List.Forall₂ (fun a b => (item a).length = (item b).length) as bs) :
    (as.flatMap item).length = (bs.flatMap item).length := by
  induction h with
  | nil => rfl
  | cons hlength _ ih => rw [List.flatMap_cons, List.flatMap_cons, List.length_append, List.length_append, hlength, ih]

/-- Where two concatenations differ, two of their parts do, if the parts have the same lengths. -/
theorem flatMap_ne {α : Type} {item : α → Bytes} {as bs : List α}
    (h : List.Forall₂ (fun a b => (item a).length = (item b).length) as bs) {j : Nat}
    (hne : (as.flatMap item)[j]? ≠ (bs.flatMap item)[j]?) :
    ∃ i k a b, as[i]? = some a ∧ bs[i]? = some b ∧ j = ((bs.take i).flatMap item).length + k ∧
      (item a)[k]? ≠ (item b)[k]? := by
  induction h generalizing j with
  | nil => exact absurd rfl hne
  | @cons a b as bs hlength _ ih =>
    rw [List.flatMap_cons, List.flatMap_cons] at hne
    rcases append_ne hlength hne with ⟨-, hfirst⟩ | ⟨hj, hrest⟩
    · exact ⟨0, j, a, b, rfl, rfl, (Nat.zero_add j).symm, hfirst⟩
    · obtain ⟨i, k, a', b', ha, hb, hk, hpart⟩ := ih hrest
      refine ⟨i + 1, k, a', b', ha, hb, ?_, hpart⟩
      rw [List.take_succ_cons, List.flatMap_cons, List.length_append]
      omega

end Encode

open Encode

/-! ## Witnesses of one key -/

namespace Witness

theorem encode_ofSignature (signature : Signature) (key : Point) : (ofSignature signature key).encode =
    [66, OpCode.PUSHDATA1.byte, 64] ++ (signature.bytes ++ (VerificationScript.ofKey key).encode) := by
  have hpush : (InvocationScript.ofSignatures [signature]).bytes = OpCode.PUSHDATA1.byte :: 64 :: signature.bytes := by
    rw [InvocationScript.ofSignatures, List.flatMap_singleton, InvocationScript.data_signature]
  have hlength : (InvocationScript.ofSignatures [signature]).bytes.length = 66 :=
    InvocationScript.length_ofSignatures [signature]
  rw [encode, ofSignature, InvocationScript.encode, Encode.counted, hlength, hpush]
  rfl

/-- Witnesses of the same key differ in the signature alone. -/
theorem encode_ofSignature_ne {signature signature' : Signature} {key : Point} {k : Nat}
    (hne : (ofSignature signature key).encode[k]? ≠ (ofSignature signature' key).encode[k]?) : 3 ≤ k ∧ k < 3 + 64 := by
  rw [encode_ofSignature, encode_ofSignature] at hne
  obtain ⟨hlow, hne⟩ := append_left_ne hne
  have hlengths : signature.bytes.length = signature'.bytes.length := by rw [signature.length_eq, signature'.length_eq]
  rcases append_ne hlengths hne with ⟨hhigh, -⟩ | ⟨-, hsame⟩
  · rw [signature.length_eq] at hhigh
    exact ⟨hlow, (Nat.sub_lt_iff_lt_add' hlow).mp hhigh⟩
  · exact absurd rfl hsame

theorem length_encode_ofSignature (signature signature' : Signature) (key : Point) :
    (ofSignature signature key).encode.length = (ofSignature signature' key).encode.length := by
  rw [encode_ofSignature, encode_ofSignature]
  simp only [List.length_append, signature.length_eq, signature'.length_eq]

end Witness

/-! ## Fields of transactions -/

namespace Transaction

/-- The network fee comes after the version, the nonce and the system fee. -/
def networkFeeOffset : Nat := 13

def witnessOffset (t : Transaction) (i : Nat) : Nat :=
  t.unsignedSize + countSize t.witnesses.length + totalSize Witness.size (t.witnesses.take i)

/-- Where the signature of the witness begins, if it is that of one key: after the length of its first script, an
operation and the length of the signature. -/
def signatureOffset (t : Transaction) (i : Nat) : Nat := t.witnessOffset i + 3

def encodeFront (t : Transaction) : Bytes := [t.version] ++ (u32 t.nonce ++ i64 t.systemFee)

def encodeBack (t : Transaction) : Bytes := u32 t.validUntil ++ (t.encodeParts ++ count t.witnesses.length)

theorem encode_eq (t : Transaction) : t.encode =
    t.encodeFront ++ (i64 t.networkFee ++ (t.encodeBack ++ t.witnesses.flatMap Witness.encode)) := by
  rw [encode, encodeUnsigned_eq, Encode.list, encodeFront, encodeBack]
  simp only [List.append_assoc]

theorem length_encodeFront (t : Transaction) : t.encodeFront.length = networkFeeOffset := by
  simp [encodeFront, u32, i64, networkFeeOffset]

theorem length_i64 (v : Int64) : (i64 v).length = 8 := Bytes.length_ofIntLE 8 v.toInt

theorem length_encodeBack (t : Transaction) :
    t.unsignedSize + countSize t.witnesses.length = networkFeeOffset + 8 + t.encodeBack.length := by
  have hunsigned := t.length_encodeUnsigned
  rw [encodeUnsigned_eq] at hunsigned
  have hfront := t.length_encodeFront
  simp only [encodeFront, List.length_append, length_i64] at hfront
  simp only [List.length_append, length_i64] at hunsigned
  rw [encodeBack, List.length_append, List.length_append, length_count]
  omega

theorem witnessOffset_eq (t : Transaction) (i : Nat) :
    t.witnessOffset i = networkFeeOffset + 8 + t.encodeBack.length +
      ((t.witnesses.take i).flatMap Witness.encode).length := by
  rw [witnessOffset, length_encodeBack, length_flatMap _ fun w _ => w.length_encode]

theorem inField_networkFee (t : Transaction) {j : Nat} (hlow : networkFeeOffset ≤ j)
    (hhigh : j < networkFeeOffset + 8) : InField t.encode networkFeeOffset (i64 t.networkFee) j :=
  inField_append t.encode_eq t.length_encodeFront hlow (by rwa [length_i64])

theorem inField_signature {t : Transaction} {i j : Nat} {signature : Signature} {key : Point}
    (hw : t.witnesses[i]? = some (.ofSignature signature key)) (hlow : t.signatureOffset i ≤ j)
    (hhigh : j < t.signatureOffset i + 64) : InField t.encode (t.signatureOffset i) signature.bytes j := by
  obtain ⟨hi, hget⟩ := List.getElem?_eq_some_iff.mp hw
  have hsplit : t.witnesses.flatMap Witness.encode = (t.witnesses.take i).flatMap Witness.encode ++
      ((Witness.ofSignature signature key).encode ++ (t.witnesses.drop (i + 1)).flatMap Witness.encode) := by
    rw [← hget, ← List.flatMap_cons, ← List.flatMap_append, List.getElem_cons_drop, List.take_append_drop]
  have hbytes : t.encode = t.encodeFront ++ (i64 t.networkFee ++ (t.encodeBack ++
      ((t.witnesses.take i).flatMap Witness.encode ++ [66, OpCode.PUSHDATA1.byte, 64]))) ++ (signature.bytes ++
        ((VerificationScript.ofKey key).encode ++ (t.witnesses.drop (i + 1)).flatMap Witness.encode)) := by
    rw [encode_eq, hsplit, Witness.encode_ofSignature]
    simp only [List.append_assoc]
  refine inField_append hbytes ?_ hlow (by rwa [signature.length_eq])
  rw [signatureOffset, witnessOffset_eq]
  simp only [List.length_append, length_encodeFront, length_i64, List.length_cons, List.length_nil]
  omega

section Alike

/-! Two transactions that have all in common but their network fees and what is in their witnesses. -/

variable {t u : Transaction} (hfront : u.encodeFront = t.encodeFront) (hback : u.encodeBack = t.encodeBack)
  (hwitnesses : List.Forall₂ (fun w w' => w.encode.length = w'.encode.length) u.witnesses t.witnesses)

include hfront hback hwitnesses

theorem length_encode_congr : u.encode.length = t.encode.length := by
  rw [encode_eq, t.encode_eq, hfront, hback]
  simp only [List.length_append, length_i64, length_flatMap_of_forall₂ hwitnesses]

theorem encode_ne {j : Nat} (hne : u.encode[j]? ≠ t.encode[j]?) :
    InField t.encode networkFeeOffset (i64 t.networkFee) j ∨
      ∃ i k w w', u.witnesses[i]? = some w ∧ t.witnesses[i]? = some w' ∧ j = t.witnessOffset i + k ∧
        w.encode[k]? ≠ w'.encode[k]? := by
  rw [encode_eq, t.encode_eq, hfront, hback] at hne
  obtain ⟨hlow, hne⟩ := append_left_ne hne
  rw [length_encodeFront] at hlow hne
  have hlengths : (i64 u.networkFee).length = (i64 t.networkFee).length := by rw [length_i64, length_i64]
  rcases append_ne hlengths hne with ⟨hhigh, -⟩ | ⟨hafter, hne⟩
  · rw [length_i64] at hhigh
    exact .inl (t.inField_networkFee hlow ((Nat.sub_lt_iff_lt_add' hlow).mp hhigh))
  · rw [length_i64] at hafter hne
    obtain ⟨hback, hne⟩ := append_left_ne hne
    obtain ⟨i, k, w, w', hw, hw', hk, hpart⟩ := flatMap_ne hwitnesses hne
    refine .inr ⟨i, k, w, w', hw, hw', ?_, hpart⟩
    rw [witnessOffset_eq]
    omega

end Alike

end Transaction

end N3
