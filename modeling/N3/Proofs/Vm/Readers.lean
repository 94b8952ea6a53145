import N3.Proofs.Vm.Constant

/-!
# Readers and the disassembler

Pushes are read in two ways: one at a time from the front of any bytes, and all together when a script is taken apart
into its instructions. The two agree. What `Push.readData` and `Push.readInteger` take from the front is exactly what
the disassembler makes a single instruction of that pushes the same thing (`readData_eq_ok_iff`,
`readInteger_eq_ok_iff`).
-/

set_option autoImplicit false

namespace N3

/-- The operations that push their operand as bytes. -/
def OpCode.dataPushes : List OpCode := [.PUSHDATA1, .PUSHDATA2, .PUSHDATA4]

theorem OpCode.mem_dataPushes {op : OpCode} : op ∈ dataPushes ↔ op.pushesData = true := by
  simp [dataPushes, pushesData, or_assoc]

/-- They say the length of their operand, in so many bytes. -/
theorem OpCode.operand_of_mem_dataPushes : ∀ op ∈ dataPushes, op.operand = .counted op.operand.lengthWidth := by
  decide

/-- Bytes that come apart into one instruction are that instruction, whole. -/
theorem Instruction.disassemble_eq_singleton_iff {s : Bytes} {i : Instruction} :
    disassemble s = .ok [(0, i)] ↔ i.IsWhole ∧ s = i.encode := by
  rw [disassemble_eq_ok_iff]
  constructor
  · rintro ⟨is, his, rfl, hl⟩
    have hone : is = [i] := by rw [← map_snd_located 0 is, ← hl, List.map_singleton]
    subst hone
    exact ⟨his i List.mem_cons_self, List.flatMap_singleton _ _⟩
  · rintro ⟨hi, rfl⟩
    exact ⟨[i], List.forall_mem_singleton.mpr hi, (List.flatMap_singleton _ _).symm, rfl⟩

namespace Push

/-! ## Bytes -/

theorem takes_readData : readData.Takes fun bs p =>
    ∃ i : Instruction, i.IsWhole ∧ i.op ∈ OpCode.dataPushes ∧ i.operand = p ∧ bs = i.encode := by
  unfold readData
  refine takes_readOpCode.bind fun bs op hbs => ?_
  subst hbs
  split
  · next hpushes =>
    have hop := OpCode.mem_dataPushes.mpr hpushes
    refine (Decoder.Takes.bind (Decoder.takes_natLE _) fun ls n hn => ?_).mapError
    refine (Decoder.takes_take n).mono fun cs p hp => ?_
    obtain ⟨hwidth, rfl⟩ := hn
    obtain ⟨rfl, hlength⟩ := hp
    refine ⟨⟨op, cs⟩, ?_, hop, rfl, ?_⟩
    · rw [Instruction.IsWhole, OpCode.operand_of_mem_dataPushes op hop]
      show cs.length < Bytes.range op.operand.lengthWidth
      rw [hlength, ← hwidth]
      exact Bytes.toNatLE_lt_range ls
    · rw [Instruction.encode, hlength, ← hwidth, Bytes.ofNatLE_toNatLE]
      rfl
  · exact Decoder.takes_fail _ _

theorem reads_readData_encode {i : Instruction} (hi : i.IsWhole) (hop : i.op ∈ OpCode.dataPushes) :
    readData.Reads i.encode i.operand := by
  obtain ⟨op, operand⟩ := i
  rw [Instruction.IsWhole, OpCode.operand_of_mem_dataPushes op hop] at hi
  exact reads_instruction (OpCode.mem_dataPushes.mp hop) hi

/-- Bytes are read exactly from the front that is one instruction with them as its operand. -/
theorem readData_eq_ok_iff {s p : Bytes} {r : Reader} : readData (Reader.start s) = (.ok p, r) ↔
    ∃ k ≤ s.length, r = Reader.after s k ∧ ∃ i : Instruction, Instruction.disassemble (s.take k) = .ok [(0, i)] ∧
      i.op ∈ OpCode.dataPushes ∧ i.operand = p := by
  have hreads : ∀ bs p, (∃ i : Instruction, i.IsWhole ∧ i.op ∈ OpCode.dataPushes ∧ i.operand = p ∧ bs = i.encode) →
      readData.Reads bs p := by
    rintro _ _ ⟨i, hi, hop, rfl, rfl⟩
    exact reads_readData_encode hi hop
  simp only [takes_readData.eq_ok_iff hreads, Instruction.disassemble_eq_singleton_iff]
  grind

/-! ## Integers -/

/-- An integer is read exactly from the front that is one instruction that pushes it. -/
theorem readInteger_eq_ok_iff {s : Bytes} {v : Int} {r : Reader} : readInteger (Reader.start s) = (.ok v, r) ↔
    ∃ k ≤ s.length, r = Reader.after s k ∧ ∃ i : Instruction, Instruction.disassemble (s.take k) = .ok [(0, i)] ∧
      i.integer? = some v := by
  have hreads : ∀ bs v, (∃ i : Instruction, i.IsWhole ∧ i.integer? = some v ∧ bs = i.encode) →
      readInteger.Reads bs v := by
    rintro _ _ ⟨i, hi, hv, rfl⟩
    exact reads_readInteger_encode hi hv
  simp only [takes_readInteger.eq_ok_iff hreads, Instruction.disassemble_eq_singleton_iff]
  grind

end Push

end N3
