import N3.Proofs.Codec.Unambiguous
import N3.Proofs.Transaction.RoundTrip

/-!
# What a signature binds

The bytes over which the hash is taken determine all that they are made from, and not only for transactions that are
within the limits: no part of them can be taken for the beginning of another part (`encodeUnsigned_binds`). Signers are
those that can be made, since a list is written where its flag is set and they have no list without its flag.

Nothing limits the lists but that their counts fit 64 bits, as the length of any list does that a machine holds.
-/

set_option autoImplicit false

namespace N3

/-! ## Attributes -/

namespace Attribute

theorem Kind.ofByte?_byte (k : Kind) : Kind.ofByte? k.byte = some k := by cases k <;> rfl

theorem response_append_inj {id id' : UInt64} {code code' : OracleCode} {result result' r s : Bytes}
    (hresult : result.length < UInt64.size) (hresult' : result'.length < UInt64.size)
    (h : (Encode.u64 id ++ code.byte :: Encode.counted result) ++ r =
      (Encode.u64 id' ++ code'.byte :: Encode.counted result') ++ s) :
    oracleResponse id code result = oracleResponse id' code' result' ∧ r = s := by
  rw [List.append_assoc, List.append_assoc, List.cons_append, List.cons_append] at h
  obtain ⟨rfl, -⟩ := (Decoder.reads_u64 id).append_inj (Decoder.reads_u64 id') h
  obtain ⟨hcode, hrest⟩ := List.cons.inj (List.append_cancel_left h)
  obtain rfl := Encode.injective_of_read OracleCode.ofByte?_byte hcode
  obtain ⟨rfl, hend⟩ := Encode.counted_append_inj hresult hresult' hrest
  exact ⟨rfl, hend⟩

theorem encode_append_inj {a b : Attribute} {r s : Bytes} (ha : a.result.length < UInt64.size)
    (hb : b.result.length < UInt64.size) (h : a.encode ++ r = b.encode ++ s) : a = b ∧ r = s := by
  unfold encode at h
  rw [List.cons_append, List.cons_append] at h
  obtain ⟨hbyte, h⟩ := List.cons.inj h
  have hkind : a.kind = b.kind := Encode.injective_of_read Kind.ofByte?_byte hbyte
  cases a with
  | highPriority =>
    cases b with
    | highPriority => exact ⟨rfl, h⟩
    | _ => cases hkind
  | oracleResponse id code result =>
    cases b with
    | oracleResponse id' code' result' => exact response_append_inj ha hb h
    | _ => cases hkind
  | notValidBefore height =>
    cases b with
    | notValidBefore height' =>
      obtain ⟨rfl, hend⟩ := (Decoder.reads_u32 height).append_inj (Decoder.reads_u32 height') h
      exact ⟨rfl, hend⟩
    | _ => cases hkind
  | conflicts hash =>
    cases b with
    | conflicts hash' =>
      obtain ⟨rfl, hend⟩ := (Decoder.reads_fixed hash).append_inj (Decoder.reads_fixed hash') h
      exact ⟨rfl, hend⟩
    | _ => cases hkind

end Attribute

/-! ## Transactions -/

namespace Transaction

/-- Whether the counts in what is signed fit 64 bits, as those of all lists do that a machine holds. -/
structure IsCountable (t : Transaction) : Prop where
  signers : t.signers.length < UInt64.size
  attributes : t.attributes.length < UInt64.size
  results : ∀ a ∈ t.attributes, a.result.length < UInt64.size

theorem encodeParts_injective {t u : Transaction} (ht : ∀ s ∈ t.signers, s.WellFormed)
    (hu : ∀ s ∈ u.signers, s.WellFormed) (htc : t.IsCountable) (huc : u.IsCountable)
    (h : t.encodeParts = u.encodeParts) :
    t.signers = u.signers ∧ t.attributes = u.attributes ∧ t.script = u.script := by
  unfold encodeParts at h
  have hsigner : ∀ a ∈ t.signers, ∀ b ∈ u.signers, ∀ r s, a.encode ++ r = b.encode ++ s → a = b ∧ r = s := by
    intro a ha b hb r s
    exact (Signer.reads_decode (ht a ha)).append_inj (Signer.reads_decode (hu b hb))
  have hattribute : ∀ a ∈ t.attributes, ∀ b ∈ u.attributes, ∀ r s, a.encode ++ r = b.encode ++ s → a = b ∧ r = s := by
    intro a ha b hb r s
    exact Attribute.encode_append_inj (htc.results a ha) (huc.results b hb)
  obtain ⟨hsigners, h⟩ := Encode.list_append_inj htc.signers huc.signers hsigner h
  obtain ⟨hattributes, h⟩ := Encode.list_append_inj htc.attributes huc.attributes hattribute h
  exact ⟨hsigners, hattributes, Encode.counted_injective h⟩

theorem signData_append_inj {t u : Transaction} {magic magic' : UInt32}
    (h : t.signData magic = u.signData magic') :
    magic = magic' ∧ Sha256.digest t.encodeUnsigned = Sha256.digest u.encodeUnsigned := by
  obtain ⟨hmagic, hhash⟩ := (Decoder.reads_u32 magic).append_inj (Decoder.reads_u32 magic') h
  exact ⟨hmagic, FixedBytes.ext hhash⟩

/-- Two transactions with the same bytes to sign differ in their witnesses at most, and two signed data that are equal
are for one network and for bytes with the same hash. -/
theorem encodeUnsigned_binds (t u : Transaction) (ht : ∀ s ∈ t.signers, s.Reachable)
    (hu : ∀ s ∈ u.signers, s.Reachable) (htc : t.IsCountable) (huc : u.IsCountable) :
    (t.encodeUnsigned = u.encodeUnsigned →
      t.version = u.version ∧ t.nonce = u.nonce ∧ t.systemFee = u.systemFee ∧ t.networkFee = u.networkFee ∧
        t.validUntil = u.validUntil ∧ t.signers = u.signers ∧ t.attributes = u.attributes ∧ t.script = u.script) ∧
      ∀ magic magic' : UInt32, t.signData magic = u.signData magic' →
        magic = magic' ∧ Sha256.digest t.encodeUnsigned = Sha256.digest u.encodeUnsigned := by
  refine ⟨?_, fun _ _ => signData_append_inj⟩
  intro h
  rw [encodeUnsigned_eq, encodeUnsigned_eq] at h
  obtain ⟨hversion, h⟩ := (Decoder.reads_byte t.version).append_inj (Decoder.reads_byte u.version) h
  obtain ⟨hnonce, h⟩ := (Decoder.reads_u32 t.nonce).append_inj (Decoder.reads_u32 u.nonce) h
  obtain ⟨hsystem, h⟩ := (Decoder.reads_i64 t.systemFee).append_inj (Decoder.reads_i64 u.systemFee) h
  obtain ⟨hnetwork, h⟩ := (Decoder.reads_i64 t.networkFee).append_inj (Decoder.reads_i64 u.networkFee) h
  obtain ⟨hvalid, h⟩ := (Decoder.reads_u32 t.validUntil).append_inj (Decoder.reads_u32 u.validUntil) h
  have hparts := encodeParts_injective (fun s hs => (ht s hs).wellFormed) (fun s hs => (hu s hs).wellFormed) htc huc h
  exact ⟨hversion, hnonce, hsystem, hnetwork, hvalid, hparts⟩

theorem isCountable_minimal (witnesses : List Witness) : ({ minimal with witnesses } : Transaction).IsCountable where
  signers := show 1 < UInt64.size by decide
  attributes := show 0 < UInt64.size by decide
  results _ ha := absurd ha List.not_mem_nil

theorem encodeUnsigned_binds_minimal :
    minimal.encodeUnsigned = { minimal with witnesses := [{}] }.encodeUnsigned ∧
      minimal.signers = { minimal with witnesses := [{}] }.signers := by
  have hbinds := encodeUnsigned_binds minimal { minimal with witnesses := [{}] } reachable_minimal reachable_minimal
    (isCountable_minimal []) (isCountable_minimal [{}])
  exact ⟨rfl, (hbinds.1 rfl).2.2.2.2.2.1⟩

end Transaction

end N3
