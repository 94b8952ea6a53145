import N3.Proofs.Codec.Ensures
import N3.Transaction.Attribute

/-!
# Attributes on the wire

Nothing about an attribute is checked when it is made, and all that is checked when it is read is the result of an
oracle's response: `Attribute.IsReadable` is the condition. Attributes that satisfy it are read back (`reads_decode`),
others are refused (`refuses_decode`), and what is read satisfies it (`accepts_decode`).
-/

set_option autoImplicit false

namespace N3

theorem OracleCode.ofByte?_byte (c : OracleCode) : OracleCode.ofByte? c.byte = some c := by cases c <;> rfl

namespace Attribute

/-- Whether the result of an oracle's response may be read: no longer than allowed, and empty after a failure. -/
def IsReadable : Attribute → Prop
  | oracleResponse _ code result => result.length ≤ Limits.oracleResultSize ∧ (code ≠ .success → result = [])
  | _ => True

instance : (a : Attribute) → Decidable a.IsReadable
  | highPriority => inferInstanceAs (Decidable True)
  | oracleResponse _ code result =>
    inferInstanceAs (Decidable (result.length ≤ Limits.oracleResultSize ∧ (code ≠ .success → result = [])))
  | notValidBefore _ => inferInstanceAs (Decidable True)
  | conflicts _ => inferInstanceAs (Decidable True)

/-- The bytes in an attribute that are written after their count. -/
def result : Attribute → Bytes
  | oracleResponse _ _ result => result
  | _ => []

theorem length_encode (a : Attribute) : a.encode.length = a.size := by
  cases a with
  | highPriority => rfl
  | oracleResponse id code result =>
    rw [encode, size, List.length_cons, List.length_append, List.length_cons, Encode.length_counted, Encode.u64,
      Bytes.length_ofNatLE]
    omega
  | notValidBefore height => rw [encode, size, List.length_cons, Encode.u32, Bytes.length_ofNatLE]
  | conflicts hash => rw [encode, size, List.length_cons, hash.length_eq]

theorem size_pos (a : Attribute) : 1 ≤ a.size := by
  rw [← length_encode]
  exact Nat.le_add_left 1 _

theorem length_result_le (a : Attribute) : a.result.length ≤ a.size := by
  cases a with
  | oracleResponse id code result =>
    show result.length ≤ 10 + (Encode.countSize result.length + result.length)
    omega
  | _ => exact Nat.zero_le _

/-! ## An oracle's response -/

/-- What is read of an oracle's response after its code. -/
def decodeResult (id : UInt64) (code : OracleCode) : Decoder DecodeError Attribute := do
  let result ← Decoder.counted Limits.oracleResultSize
  if code ≠ .success ∧ result ≠ [] then Decoder.fail (.data .failedOracleResult)
  else return oracleResponse id code result

theorem reads_decodeResult {id : UInt64} {code : OracleCode} {result : Bytes}
    (h : (oracleResponse id code result).IsReadable) :
    (decodeResult id code).Reads (Encode.counted result) (oracleResponse id code result) := by
  obtain ⟨hlength, hfailed⟩ := h
  have hread := Decoder.reads_counted (Nat.lt_of_le_of_lt hlength (by decide)) hlength
  rw [← List.append_nil (Encode.counted result)]
  refine hread.bind ?_
  rw [if_neg fun ⟨hcode, hne⟩ => hne (hfailed hcode)]
  exact Decoder.reads_pure _

theorem refuses_decodeResult {id : UInt64} {code : OracleCode} {result : Bytes} (hcount : result.length < UInt64.size)
    (h : ¬ (oracleResponse id code result).IsReadable) :
    (decodeResult id code).Refuses (Encode.counted result) := by
  by_cases hlength : result.length ≤ Limits.oracleResultSize
  · have hfailed : code ≠ .success ∧ result ≠ [] := by
      refine ⟨fun hcode => h ⟨hlength, fun hne => absurd hcode hne⟩, fun hnil => h ⟨hlength, fun _ => hnil⟩⟩
    rw [← List.append_nil (Encode.counted result)]
    refine (Decoder.reads_counted hcount hlength).bind_refuses ?_
    rw [if_pos hfailed]
    exact Decoder.refuses_fail _
  · exact (Decoder.refuses_counted hcount (Nat.not_le.mp hlength)).bind _

theorem ensures_decodeResult (id : UInt64) (code : OracleCode) :
    (decodeResult id code).Ensures fun a n =>
      a.IsReadable ∧ a.size ≤ 10 + n ∧ n ≤ 9 + Limits.oracleResultSize := by
  refine (Decoder.accepts_counted Limits.oracleResultSize).bind fun result n hn => ?_
  obtain ⟨hlength, hsize, hlong⟩ := hn
  split
  · exact Decoder.ensures_fail _ _
  · next hok =>
    refine Decoder.ensures_pure ⟨⟨hlength, fun hcode => ?_⟩, Nat.add_le_add_left hsize 10, hlong⟩
    by_cases hnil : result = []
    · exact hnil
    · exact absurd ⟨hcode, hnil⟩ hok

/-! ## Reading -/

theorem reads_decode {a : Attribute} (h : a.IsReadable) : decode.Reads a.encode a := by
  cases a with
  | highPriority => exact (Decoder.reads_byte _).bind (Decoder.reads_pure highPriority)
  | oracleResponse id code result =>
    refine (Decoder.reads_byte _).bind ((Decoder.reads_u64 id).bind ((Decoder.reads_byte code.byte).bind ?_))
    exact (Decoder.reads_ofOption (OracleCode.ofByte?_byte code) _).bind (reads_decodeResult h)
  | notValidBefore height => exact (Decoder.reads_byte _).bind ((Decoder.reads_u32 height).map notValidBefore)
  | conflicts hash => exact (Decoder.reads_byte _).bind ((Decoder.reads_fixed hash).map conflicts)

theorem refuses_decode {a : Attribute} (hcount : a.result.length < UInt64.size) (h : ¬ a.IsReadable) :
    decode.Refuses a.encode := by
  cases a with
  | highPriority => exact absurd trivial h
  | oracleResponse id code result =>
    refine (Decoder.reads_byte _).bind_refuses ?_
    refine (Decoder.reads_u64 id).bind_refuses ((Decoder.reads_byte code.byte).bind_refuses ?_)
    exact (Decoder.reads_ofOption (OracleCode.ofByte?_byte code) _).bind_refuses (refuses_decodeResult hcount h)
  | notValidBefore height => exact absurd trivial h
  | conflicts hash => exact absurd trivial h

def longest : Nat := 19 + Limits.oracleResultSize

theorem accepts_decode : decode.Accepts IsReadable size longest := by
  refine Decoder.ensures_byte.bind fun b n hn => ?_
  subst hn
  split
  · exact Decoder.ensures_fail _ _
  · exact Decoder.ensures_pure ⟨trivial, by decide, by decide⟩
  · refine Decoder.ensures_u64.bind fun id i hi => Decoder.ensures_byte.bind fun c j hj => ?_
    refine (Decoder.ensures_ofOption (Q := fun _ k => k = 0) fun _ _ => rfl).bind fun code k hk => ?_
    refine (ensures_decodeResult id code).mono fun a m hm => ?_
    obtain ⟨hgood, hsize, hlong⟩ := hm
    refine ⟨hgood, by omega, ?_⟩
    rw [longest]
    omega
  · refine (Decoder.ensures_u32.mono fun height n hn => ?_).map
    subst hn
    exact ⟨trivial, Nat.le_refl 5, by decide⟩
  · refine ((Decoder.ensures_fixed 32).mono fun hash n hn => ?_).map
    subst hn
    exact ⟨trivial, Nat.le_refl 33, by decide⟩

end Attribute

end N3
