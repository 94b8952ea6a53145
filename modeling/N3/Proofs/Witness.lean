import N3.Proofs.Codec.Ensures
import N3.Witness

/-!
# Witnesses on the wire

A witness is made with scripts of any length, and read with scripts of at most 1024 bytes each.
-/

set_option autoImplicit false

namespace N3.Witness

def IsReadable (w : Witness) : Prop :=
  w.invocation.bytes.length ≤ Limits.witnessScriptSize ∧ w.verification.bytes.length ≤ Limits.witnessScriptSize

instance (w : Witness) : Decidable w.IsReadable := inferInstanceAs (Decidable (_ ∧ _))

theorem length_encode (w : Witness) : w.encode.length = w.size := by
  rw [encode, size, List.length_append, InvocationScript.encode, VerificationScript.encode, Encode.length_counted,
    Encode.length_counted]
  rfl

theorem size_pos (w : Witness) : 1 ≤ w.size := by
  have hcount := Encode.countSize_pos w.invocation.bytes.length
  show 1 ≤ Encode.countSize _ + _ + _
  omega

theorem reads_decode {w : Witness} (h : w.IsReadable) : decode.Reads w.encode w := by
  obtain ⟨hinvocation, hverification⟩ := h
  have hfirst := Decoder.reads_counted (Nat.lt_of_le_of_lt hinvocation (by decide)) hinvocation
  have hsecond := Decoder.reads_counted (Nat.lt_of_le_of_lt hverification (by decide)) hverification
  exact (hfirst.map InvocationScript.mk).bind ((hsecond.map VerificationScript.mk).map (Witness.mk w.invocation))

theorem refuses_decode {w : Witness} (hinvocation : w.invocation.bytes.length < UInt64.size)
    (hverification : w.verification.bytes.length < UInt64.size) (h : ¬ w.IsReadable) : decode.Refuses w.encode := by
  by_cases hfirst : w.invocation.bytes.length ≤ Limits.witnessScriptSize
  · have hsecond : Limits.witnessScriptSize < w.verification.bytes.length :=
      Nat.not_le.mp fun hsecond => h ⟨hfirst, hsecond⟩
    have hread := (Decoder.reads_counted hinvocation hfirst).map InvocationScript.mk
    exact hread.bind_refuses (((Decoder.refuses_counted hverification hsecond).bind _).bind _)
  · have hrefuse := Decoder.refuses_counted hinvocation (Nat.not_le.mp hfirst)
    exact (((hrefuse.bind _).bind _).append _)

def longest : Nat := 18 + 2 * Limits.witnessScriptSize

theorem accepts_decode : decode.Accepts IsReadable size longest := by
  have hinvocation : InvocationScript.decode.Accepts (fun s => s.bytes.length ≤ Limits.witnessScriptSize)
      InvocationScript.size (9 + Limits.witnessScriptSize) :=
    ((Decoder.accepts_counted _).mono fun _ _ h => h).map
  have hverification : VerificationScript.decode.Accepts (fun v => v.bytes.length ≤ Limits.witnessScriptSize)
      VerificationScript.size (9 + Limits.witnessScriptSize) :=
    ((Decoder.accepts_counted _).mono fun _ _ h => h).map
  refine hinvocation.bind fun invocation n hn => (hverification.mono fun verification m hm => ?_).map
  obtain ⟨hfirst, hsize₁, hlong₁⟩ := hn
  obtain ⟨hsecond, hsize₂, hlong₂⟩ := hm
  refine ⟨⟨hfirst, hsecond⟩, Nat.add_le_add hsize₁ hsize₂, ?_⟩
  rw [longest]
  omega

end N3.Witness
