import N3.Proofs.Signer
import N3.Proofs.Transaction.Attribute
import N3.Proofs.Witness
import N3.Transaction

/-!
# Transactions on the wire

What is checked when a transaction is read is `Transaction.IsReadable`: the limits on signers and attributes, which
`validateLimits` checks as well, and the sizes of scripts and of the results of oracles, which nothing else checks. A
transaction of well-formed signers is read back if it is readable (`reads_decode`) and refused if it is not
(`refuses_decode`), and what is read is readable (`accepts_decode`).

Reading is followed in two steps: the words at the front, and then the parts (`decodeParts`), each of which can be
refused on its own.
-/

set_option autoImplicit false

namespace N3.Transaction

/-! ## What can be read -/

/-- What a transaction has to satisfy without its witnesses. -/
structure IsReadableUnsigned (t : Transaction) : Prop where
  limits : t.validateLimits = .ok ()
  attributes : ∀ a ∈ t.attributes, a.IsReadable
  script_length : t.script.length ≤ Limits.scriptSize

/-- What a transaction has to satisfy to be read back. -/
structure IsReadable (t : Transaction) : Prop extends IsReadableUnsigned t where
  witnesses_length : t.witnesses.length ≤ Limits.signersAndAttributes
  witnesses : ∀ w ∈ t.witnesses, w.IsReadable

def withoutWitnesses (t : Transaction) : Transaction := { t with witnesses := [] }

theorem validateLimits_eq_ok (t : Transaction) : t.validateLimits = .ok () ↔
    t.signers.length + t.attributes.length ≤ Limits.signersAndAttributes ∧
      firstRepeatedAccount? [] t.signers = none ∧ Attribute.firstRepeated? [] t.attributes = none := by
  unfold validateLimits
  by_cases hparts : Limits.signersAndAttributes < t.signers.length + t.attributes.length
  · simp [hparts]
  · rcases firstRepeatedAccount? [] t.signers with _ | account
    · rcases Attribute.firstRepeated? [] t.attributes with _ | kind
      · simp [hparts, Nat.not_lt.mp hparts]
      · simp [hparts]
    · simp [hparts]

/-! ## The order of the bytes -/

/-- The lists and the script, which come after the words. -/
def encodeParts (t : Transaction) : Bytes :=
  Encode.list Signer.encode t.signers ++ (Encode.list Attribute.encode t.attributes ++ Encode.counted t.script)

theorem encodeUnsigned_eq (t : Transaction) : t.encodeUnsigned =
    [t.version] ++ (Encode.u32 t.nonce ++ (Encode.i64 t.systemFee ++ (Encode.i64 t.networkFee ++
      (Encode.u32 t.validUntil ++ t.encodeParts)))) := by
  simp only [encodeUnsigned, encodeParts, List.append_assoc, List.cons_append, List.nil_append]

/-- Reads what follows the words, which `t` holds already. -/
def decodeParts (t : Transaction) : Decoder DecodeError Transaction := do
  let signers ← Decoder.list Limits.signersAndAttributes Signer.decode
  match firstRepeatedAccount? [] signers with
  | some account => Decoder.fail (.format (.duplicateSigner account))
  | none =>
    let attributes ← Decoder.list (Limits.signersAndAttributes - signers.length) Attribute.decode
    match Attribute.firstRepeated? [] attributes with
    | some kind => Decoder.fail (.format (.duplicateAttribute kind.name))
    | none =>
      let script ← Decoder.counted Limits.scriptSize
      return { t with signers, attributes, script }

/-- The words alone. -/
def words (t : Transaction) : Transaction :=
  { version := t.version, nonce := t.nonce, systemFee := t.systemFee, networkFee := t.networkFee,
    validUntil := t.validUntil }

theorem reads_of_parts {t u : Transaction} (h : t.words.decodeParts.Reads t.encodeParts u) :
    decodeUnsigned.Reads t.encodeUnsigned u := by
  rw [encodeUnsigned_eq]
  refine (Decoder.reads_byte t.version).bind ((Decoder.reads_u32 t.nonce).bind ?_)
  refine (Decoder.reads_i64 t.systemFee).bind ((Decoder.reads_i64 t.networkFee).bind ?_)
  exact (Decoder.reads_u32 t.validUntil).bind h

theorem refuses_of_parts {t : Transaction} (h : t.words.decodeParts.Refuses t.encodeParts) :
    decodeUnsigned.Refuses t.encodeUnsigned := by
  rw [encodeUnsigned_eq]
  refine (Decoder.reads_byte t.version).bind_refuses ((Decoder.reads_u32 t.nonce).bind_refuses ?_)
  refine (Decoder.reads_i64 t.systemFee).bind_refuses ((Decoder.reads_i64 t.networkFee).bind_refuses ?_)
  exact (Decoder.reads_u32 t.validUntil).bind_refuses h

/-! ## Sizes -/

theorem length_encodeUnsigned (t : Transaction) : t.encodeUnsigned.length = t.unsignedSize := by
  rw [encodeUnsigned_eq, encodeParts]
  simp only [List.length_append, Encode.length_list t.signers fun s _ => s.length_encode,
    Encode.length_list t.attributes fun a _ => a.length_encode, Encode.length_counted, Encode.u32, Encode.i64,
    Bytes.length_ofNatLE, Bytes.length_ofIntLE, List.length_singleton, unsignedSize, Limits.transactionHeaderSize]
  omega

theorem length_encode (t : Transaction) : t.encode.length = t.size := by
  rw [encode, size, List.length_append, length_encodeUnsigned,
    Encode.length_list t.witnesses fun w _ => w.length_encode]

theorem list_witnesses_ne_nil (t : Transaction) : Encode.list Witness.encode t.witnesses ≠ [] := by
  have hcount := Encode.countSize_pos t.witnesses.length
  rw [← List.length_pos_iff, Encode.length_list t.witnesses fun w _ => w.length_encode, Encode.listSize]
  omega

/-- In a transaction whose size fits 64 bits, all that is counted does. -/
theorem lengths_lt_of_unsignedSize {t : Transaction} (h : t.unsignedSize < UInt64.size) :
    t.signers.length < UInt64.size ∧ t.attributes.length < UInt64.size ∧ t.script.length < UInt64.size ∧
      ∀ a ∈ t.attributes, a.result.length < UInt64.size := by
  have hsigners : t.signers.length ≤ Encode.totalSize Signer.size t.signers :=
    Encode.length_le_totalSize t.signers fun s _ => by rw [Signer.size]; omega
  have hattributes := Encode.length_le_totalSize t.attributes fun a _ => a.size_pos
  simp only [unsignedSize, Encode.listSize, Encode.countedSize] at h
  refine ⟨by omega, by omega, by omega, ?_⟩
  intro a ha
  have hresult := a.length_result_le
  have hmem : a.size ≤ Encode.totalSize Attribute.size t.attributes := Encode.le_totalSize ha
  omega

theorem lengths_lt_of_size {t : Transaction} (h : t.size < UInt64.size) : t.witnesses.length < UInt64.size ∧
    ∀ w ∈ t.witnesses, w.invocation.bytes.length < UInt64.size ∧ w.verification.bytes.length < UInt64.size := by
  have hwitnesses := Encode.length_le_totalSize t.witnesses fun w _ => w.size_pos
  simp only [size, Encode.listSize] at h
  refine ⟨by omega, ?_⟩
  intro w hw
  have hmem : w.size ≤ Encode.totalSize Witness.size t.witnesses := Encode.le_totalSize hw
  have hsize : w.size = Encode.countedSize w.invocation.bytes.length + Encode.countedSize w.verification.bytes.length :=
    rfl
  simp only [Encode.countedSize] at hsize
  omega

/-! ## What is read back -/

theorem reads_decodeUnsigned {t : Transaction} (hsigners : ∀ s ∈ t.signers, s.WellFormed)
    (h : t.IsReadableUnsigned) : decodeUnsigned.Reads t.encodeUnsigned t.withoutWitnesses := by
  obtain ⟨hparts, haccounts, hkinds⟩ := t.validateLimits_eq_ok.mp h.limits
  have hsmall : Limits.signersAndAttributes < UInt64.size := by decide
  have hscript : t.script.length < UInt64.size := Nat.lt_of_le_of_lt h.script_length (by decide)
  refine reads_of_parts ?_
  refine (Decoder.reads_list (by omega) (by omega) fun s hs => Signer.reads_decode (hsigners s hs)).bind ?_
  rw [haccounts]
  refine (Decoder.reads_list (by omega) (by omega) fun a ha => Attribute.reads_decode (h.attributes a ha)).bind ?_
  rw [hkinds]
  exact (Decoder.reads_counted hscript h.script_length).map fun script =>
    { t.words with signers := t.signers, attributes := t.attributes, script }

theorem reads_decode {t : Transaction} (hsigners : ∀ s ∈ t.signers, s.WellFormed) (h : t.IsReadable) :
    decode.Reads t.encode t := by
  have hcount : t.witnesses.length < UInt64.size := Nat.lt_of_le_of_lt h.witnesses_length (by decide)
  have hlist := Decoder.reads_list hcount h.witnesses_length fun w hw => Witness.reads_decode (h.witnesses w hw)
  refine (reads_decodeUnsigned hsigners h.toIsReadableUnsigned).bind ?_
  refine Decoder.reads_isAtEnd_bind t.list_witnesses_ne_nil ?_
  exact hlist.map fun witnesses => { t with witnesses }

/-! ## What is refused -/

theorem refuses_attributes {t : Transaction} {max : Nat} (hsize : t.unsignedSize < UInt64.size)
    (h : ¬ (t.attributes.length ≤ max ∧ ∀ a ∈ t.attributes, a.IsReadable)) :
    (Decoder.list max Attribute.decode).Refuses (Encode.list Attribute.encode t.attributes) := by
  obtain ⟨-, hcount, -, hresults⟩ := lengths_lt_of_unsignedSize hsize
  exact Decoder.refuses_list hcount (fun a _ => Attribute.reads_decode)
    (fun a ha => Attribute.refuses_decode (hresults a ha)) h

theorem refuses_witnesses {t : Transaction} (hsize : t.size < UInt64.size)
    (h : ¬ (t.witnesses.length ≤ Limits.signersAndAttributes ∧ ∀ w ∈ t.witnesses, w.IsReadable)) :
    (Decoder.list Limits.signersAndAttributes Witness.decode).Refuses (Encode.list Witness.encode t.witnesses) := by
  obtain ⟨hcount, hscripts⟩ := lengths_lt_of_size hsize
  exact Decoder.refuses_list hcount (fun w _ => Witness.reads_decode)
    (fun w hw => Witness.refuses_decode (hscripts w hw).1 (hscripts w hw).2) h

theorem refuses_decodeParts {t : Transaction} (hsigners : ∀ s ∈ t.signers, s.WellFormed)
    (hsize : t.unsignedSize < UInt64.size) (h : ¬ t.IsReadableUnsigned) :
    t.words.decodeParts.Refuses t.encodeParts := by
  obtain ⟨hsignersCount, hattributesCount, hscriptCount, -⟩ := lengths_lt_of_unsignedSize hsize
  have hread : ∀ s ∈ t.signers, Signer.decode.Reads s.encode s := fun s hs => Signer.reads_decode (hsigners s hs)
  by_cases hfew : t.signers.length ≤ Limits.signersAndAttributes
  · refine (Decoder.reads_list hsignersCount hfew hread).bind_refuses ?_
    rcases haccounts : firstRepeatedAccount? [] t.signers with _ | account
    · by_cases hattributes : t.attributes.length ≤ Limits.signersAndAttributes - t.signers.length ∧
          ∀ a ∈ t.attributes, a.IsReadable
      · obtain ⟨hroom, hreadable⟩ := hattributes
        have hread : ∀ a ∈ t.attributes, Attribute.decode.Reads a.encode a :=
          fun a ha => Attribute.reads_decode (hreadable a ha)
        refine (Decoder.reads_list hattributesCount hroom hread).bind_refuses ?_
        rcases hkinds : Attribute.firstRepeated? [] t.attributes with _ | kind
        · have hlimits : t.validateLimits = .ok () := t.validateLimits_eq_ok.mpr ⟨by omega, haccounts, hkinds⟩
          have hlong : Limits.scriptSize < t.script.length :=
            Nat.not_le.mp fun hscript => h ⟨hlimits, hreadable, hscript⟩
          exact (Decoder.refuses_counted hscriptCount hlong).bind _
        · exact (Decoder.refuses_fail _).append _
      · exact ((refuses_attributes hsize hattributes).bind _).append _
    · exact (Decoder.refuses_fail _).append _
  · exact ((Decoder.refuses_list_of_length hsignersCount (Nat.not_le.mp hfew)).bind _).append _

theorem refuses_decode {t : Transaction} (hsigners : ∀ s ∈ t.signers, s.WellFormed) (hsize : t.size < UInt64.size)
    (h : ¬ t.IsReadable) : decode.Refuses t.encode := by
  have hunsigned : t.unsignedSize < UInt64.size := by
    rw [size] at hsize
    omega
  by_cases hgood : t.IsReadableUnsigned
  · refine (reads_decodeUnsigned hsigners hgood).bind_refuses ?_
    refine Decoder.refuses_isAtEnd_bind t.list_witnesses_ne_nil ?_
    exact (refuses_witnesses hsize fun ⟨hfew, hscripts⟩ => h ⟨hgood, hfew, hscripts⟩).bind _
  · exact ((refuses_of_parts (refuses_decodeParts hsigners hunsigned hgood)).bind _).append _

/-! ## What is read -/

def longestUnsigned : Nat :=
  Limits.transactionHeaderSize + (9 + Limits.signersAndAttributes * Signer.longest) +
    (9 + Limits.signersAndAttributes * Attribute.longest) + (9 + Limits.scriptSize)

def longest : Nat := longestUnsigned + (9 + Limits.signersAndAttributes * Witness.longest)

/-- No transaction that is read is so long that its counts would not fit 64 bits. -/
theorem longest_lt : longest + 1 < UInt64.size := by decide +kernel

/-- What is true of every transaction that is read without its witnesses. -/
structure IsDecodedUnsigned (t : Transaction) : Prop extends IsReadableUnsigned t where
  signers : ∀ s ∈ t.signers, s.WellFormed
  witnesses_eq : t.witnesses = []

theorem ensures_decodeParts (t : Transaction) : t.words.decodeParts.Ensures fun u n =>
    u.IsDecodedUnsigned ∧ u.unsignedSize ≤ Limits.transactionHeaderSize + n ∧
      Limits.transactionHeaderSize + n ≤ longestUnsigned := by
  refine (Decoder.accepts_list Signer.accepts_decode _).bind fun signers n₁ h₁ => ?_
  rcases haccounts : firstRepeatedAccount? [] signers with _ | account
  · refine (Decoder.accepts_list Attribute.accepts_decode _).bind fun attributes n₂ h₂ => ?_
    rcases hkinds : Attribute.firstRepeated? [] attributes with _ | kind
    · refine ((Decoder.accepts_counted Limits.scriptSize).mono fun script n₃ h₃ => ?_).map
      obtain ⟨⟨hfew, hsigners⟩, hsize₁, hlong₁⟩ := h₁
      obtain ⟨⟨hroom, hattributes⟩, hsize₂, hlong₂⟩ := h₂
      obtain ⟨hscript, hsize₃ : Encode.countedSize script.length ≤ n₃, hlong₃⟩ := h₃
      refine ⟨?_, ?_, ?_⟩
      · exact {
          limits := (validateLimits_eq_ok _).mpr ⟨by dsimp only; omega, haccounts, hkinds⟩
          attributes := hattributes
          script_length := hscript
          signers := hsigners
          witnesses_eq := rfl }
      · show Limits.transactionHeaderSize + Encode.listSize Signer.size signers +
          Encode.listSize Attribute.size attributes + Encode.countedSize script.length ≤ _
        omega
      · have hmul : (Limits.signersAndAttributes - signers.length) * Attribute.longest ≤
            Limits.signersAndAttributes * Attribute.longest := Nat.mul_le_mul_right _ (Nat.sub_le _ _)
        rw [longestUnsigned]
        omega
    · exact Decoder.ensures_fail _ _
  · exact Decoder.ensures_fail _ _

theorem accepts_decodeUnsigned :
    decodeUnsigned.Accepts IsDecodedUnsigned unsignedSize longestUnsigned := by
  refine Decoder.ensures_byte.bind fun version i hi => Decoder.ensures_u32.bind fun nonce j hj => ?_
  refine Decoder.ensures_i64.bind fun systemFee k hk => Decoder.ensures_i64.bind fun networkFee l hl => ?_
  refine Decoder.ensures_u32.bind fun validUntil m hm => ?_
  refine (ensures_decodeParts { version, nonce, systemFee, networkFee, validUntil }).mono fun t n hn => ?_
  obtain ⟨hgood, hsize, hlong⟩ := hn
  have hwords : Limits.transactionHeaderSize = i + (j + (k + (l + m))) := by
    rw [hi, hj, hk, hl, hm]
    rfl
  exact ⟨hgood, by omega, by omega⟩

/-- The list of witnesses may be missing, and is then one byte of the size that was not read. -/
theorem ensures_decode : decode.Ensures fun t n =>
    (t.IsReadable ∧ ∀ s ∈ t.signers, s.WellFormed) ∧ t.size ≤ n + 1 ∧ n ≤ longest := by
  refine accepts_decodeUnsigned.bind fun t n hn => ?_
  obtain ⟨hgood, hsize, hlong⟩ := hn
  refine Decoder.ensures_isAtEnd.bind fun atEnd m hm => ?_
  subst hm
  cases atEnd with
  | true =>
    have hnone : t.witnesses = [] := hgood.witnesses_eq
    refine Decoder.ensures_pure ⟨⟨⟨hgood.toIsReadableUnsigned, ?_, ?_⟩, hgood.signers⟩, ?_, ?_⟩
    · rw [hnone]
      exact Nat.zero_le _
    · rw [hnone]
      exact fun w hw => absurd hw List.not_mem_nil
    · rw [size, hnone]
      show t.unsignedSize + 1 ≤ n + 0 + 1
      omega
    · rw [longest]
      omega
  | false =>
    refine ((Decoder.accepts_list Witness.accepts_decode _).mono fun witnesses m hm => ?_).map
    obtain ⟨⟨hfew, hscripts⟩, hsize', hlong'⟩ := hm
    have hlimits : ({ t with witnesses } : Transaction).validateLimits = .ok () := hgood.limits
    refine ⟨⟨⟨⟨hlimits, hgood.attributes, hgood.script_length⟩, hfew, hscripts⟩, hgood.signers⟩, ?_, ?_⟩
    · show t.unsignedSize + Encode.listSize Witness.size witnesses ≤ _
      omega
    · rw [longest]
      omega

end N3.Transaction
