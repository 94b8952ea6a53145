import N3.Proofs.Transaction.Wire

/-!
# Transactions to bytes and back

`ofBytes_encode` says which transactions come back from their wire form, and that the others are refused and never
taken for a different transaction. `encode_of_ofBytes` starts from the bytes, which may have longer counts than need
be, or no list of witnesses: what is read from them comes back from its own wire form, which is at most one byte
longer.
-/

set_option autoImplicit false

namespace N3.Transaction

/-! ## From transactions -/

/-- Without the list of witnesses, the reading ends at the end of the bytes. -/
theorem ofBytes_encodeUnsigned_of_isReadable {t : Transaction} (hsigners : ∀ s ∈ t.signers, s.WellFormed)
    (h : t.IsReadableUnsigned) : ofBytes t.encodeUnsigned = .ok t.withoutWitnesses := by
  have hread := reads_decodeUnsigned hsigners h [] 0 (t.encodeUnsigned, 0)
  rw [List.append_nil] at hread
  unfold ofBytes Decoder.parse Reader.start decode
  rw [Decoder.bind_of_ok hread]
  rfl

/-- A transaction that is not readable is refused. If it is too long for its counts to fit 64 bits, it is refused
because nothing that long is read. -/
theorem ofBytes_encode_of_not_isReadable {t : Transaction} (hsigners : ∀ s ∈ t.signers, s.WellFormed)
    (h : ¬ t.IsReadable) : ∃ e, ofBytes t.encode = .error e := by
  by_cases hsize : t.size < UInt64.size
  · exact Decoder.parse_of_refuses (refuses_decode hsigners hsize h)
  · rcases hparse : ofBytes t.encode with e | u
    · exact ⟨e, rfl⟩
    · obtain ⟨-, -, hlong⟩ := Decoder.ensures_of_parse ensures_decode hparse
      have hlongest := longest_lt
      rw [length_encode] at hlong
      omega

theorem ofBytes_encode_iff {t : Transaction} (hsigners : ∀ s ∈ t.signers, s.WellFormed) :
    ofBytes t.encode = .ok t ↔ t.IsReadable := by
  constructor
  · intro h
    by_contra hbad
    obtain ⟨e, he⟩ := ofBytes_encode_of_not_isReadable hsigners hbad
    rw [he] at h
    cases h
  · intro h
    exact Decoder.parse_of_reads (reads_decode hsigners h)

/-- A transaction is read back from its wire form, and without its witnesses from what is signed, if its signers and
attributes are within the limits and its scripts and the results of oracles are short enough. If not, its wire form is
refused. -/
theorem ofBytes_encode (t : Transaction) (hsigners : ∀ s ∈ t.signers, s.Reachable) :
    (t.IsReadable → ofBytes t.encode = .ok t ∧ ofBytes t.encodeUnsigned = .ok t.withoutWitnesses) ∧
      (¬ t.IsReadable → ∃ e, ofBytes t.encode = .error e) := by
  have hwell : ∀ s ∈ t.signers, s.WellFormed := fun s hs => (hsigners s hs).wellFormed
  constructor
  · intro h
    constructor
    · exact (ofBytes_encode_iff hwell).mpr h
    · exact ofBytes_encodeUnsigned_of_isReadable hwell h.toIsReadableUnsigned
  · intro h
    exact ofBytes_encode_of_not_isReadable hwell h

/-- A signer whose witness counts where it is entered, or the caller is not one contract. -/
def ruled : Signer :=
  { account := FixedBytes.zero 20, scope := ⟨0x41⟩
    rules := [⟨true, .or [.calledByEntry, .not (.calledByContract (FixedBytes.zero 20))]⟩] }

/-- Two signers, one of them with a rule, two attributes and a witness. -/
def full : Transaction :=
  { nonce := 1, systemFee := 2, networkFee := -3, validUntil := 4
    signers := [ruled, .none ⟨List.replicate 20 1, rfl⟩]
    attributes := [.oracleResponse 5 .success [6, 7], .conflicts (FixedBytes.zero 32)]
    script := [0x11, 0x40]
    witnesses := [⟨⟨[0x11]⟩, ⟨[0x51]⟩⟩] }

theorem reachable_full : ∀ s ∈ full.signers, s.Reachable := by
  intro s hs
  rcases List.mem_cons.mp hs with rfl | hs
  · have hruled : (Signer.calledByEntry (FixedBytes.zero 20)).addRules ruled.rules = .ok ruled := rfl
    exact .addRules (.calledByEntry _) hruled
  · obtain rfl := List.mem_singleton.mp hs
    exact .none _

theorem isReadable_full : full.IsReadable where
  limits := rfl
  attributes := by decide
  script_length := by decide
  witnesses_length := by decide
  witnesses := by decide

theorem ofBytes_encode_full :
    ofBytes full.encode = .ok full ∧ ofBytes full.encodeUnsigned = .ok full.withoutWitnesses :=
  (ofBytes_encode full reachable_full).1 isReadable_full

/-! ## From bytes -/

/-- What is read from any bytes is within all limits, and is read back from its own wire form, whose length is the
computed size and at most one more than that of the bytes. -/
theorem encode_of_ofBytes {bs : Bytes} {t : Transaction} (h : ofBytes bs = .ok t) :
    t.validateLimits = .ok () ∧
      (∀ s ∈ t.signers, s.WellFormed ∧
        (s.scope.has .global = true → s.contracts = [] ∧ s.groups = [] ∧ s.rules = [])) ∧
      ofBytes t.encode = .ok t ∧ t.size = t.encode.length ∧ t.encode.length ≤ bs.length + 1 := by
  obtain ⟨⟨hreadable, hsigners⟩, hsize, -⟩ := Decoder.ensures_of_parse ensures_decode h
  refine ⟨hreadable.limits, ?_, ?_, t.length_encode.symm, ?_⟩
  · intro s hs
    exact ⟨hsigners s hs, (hsigners s hs).unrestricted_of_global⟩
  · exact (ofBytes_encode_iff hsigners).mpr hreadable
  · rw [length_encode]
    exact hsize

def minimal : Transaction := { signers := [.calledByEntry (FixedBytes.zero 20)], script := [0x40] }

theorem reachable_minimal : ∀ s ∈ minimal.signers, s.Reachable := by
  intro s hs
  obtain rfl := List.mem_singleton.mp hs
  exact .calledByEntry _

/-- The number of signers is in three bytes where one would do, and there is no list of witnesses. -/
def lax : Bytes :=
  List.replicate 25 0 ++ [0xFD, 1, 0] ++ (List.replicate 20 0 ++ [0x01]) ++ [0] ++ [1, 0x40]

theorem encode_of_ofBytes_lax : ofBytes lax = .ok minimal ∧ minimal.encode.length ≤ lax.length + 1 := by
  have hread : ofBytes lax = .ok minimal := by rfl
  exact ⟨hread, (encode_of_ofBytes hread).2.2.2.2⟩

end N3.Transaction
