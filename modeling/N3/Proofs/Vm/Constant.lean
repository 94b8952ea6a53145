import N3.Proofs.Codec.Takes
import N3.Proofs.Vm.Instruction
import N3.Proofs.Vm.Push

/-!
# Instructions that push integers

`Instruction.integer?` is the integer that an instruction pushes: a small one belongs to its operation, and any other is
the operand of one of six operations. `Push.readInteger` reads exactly the whole instructions that push one
(`takes_readInteger`, `reads_readInteger_encode`), also those that are not the shortest for their integer.
-/

set_option autoImplicit false

namespace N3

/-! ## The integers -/

/-- The operations that push `-1` to `16`, in this order. -/
def OpCode.smallIntegers : List OpCode :=
  [.PUSHM1, .PUSH0, .PUSH1, .PUSH2, .PUSH3, .PUSH4, .PUSH5, .PUSH6, .PUSH7, .PUSH8, .PUSH9, .PUSH10, .PUSH11, .PUSH12,
   .PUSH13, .PUSH14, .PUSH15, .PUSH16]

/-- The operations that push the integer that is their operand. -/
def OpCode.wideIntegers : List OpCode := [.PUSHINT8, .PUSHINT16, .PUSHINT32, .PUSHINT64, .PUSHINT128, .PUSHINT256]

def OpCode.smallInteger? (op : OpCode) : Option Int := (smallIntegers.idxOf? op).map fun n => (n : Int) - 1

def Instruction.integer? (i : Instruction) : Option Int :=
  if i.op ∈ OpCode.wideIntegers then some (Bytes.toIntLE i.operand) else i.op.smallInteger?

namespace OpCode

theorem smallInteger?_of_range {op : OpCode} (h : 0x0F ≤ op.byte ∧ op.byte ≤ 0x20) :
    op.smallInteger? = some ((op.byte.toNat : Int) - 0x10) ∧ op.operand = .none ∧ op ∉ wideIntegers := by
  have hall : ∀ op ∈ all, 0x0F ≤ op.byte ∧ op.byte ≤ 0x20 →
      op.smallInteger? = some ((op.byte.toNat : Int) - 0x10) ∧ op.operand = .none ∧ op ∉ wideIntegers := by
    decide +kernel
  exact hall op (mem_all op) h

theorem range_of_smallInteger? {op : OpCode} {v : Int} (h : op.smallInteger? = some v) :
    0x0F ≤ op.byte ∧ op.byte ≤ 0x20 := by
  have hall : ∀ op ∈ all, op.smallInteger?.isSome → 0x0F ≤ op.byte ∧ op.byte ≤ 0x20 := by decide +kernel
  exact hall op (mem_all op) (by rw [h]; rfl)

theorem wideIntegers_spec : ∀ op ∈ wideIntegers,
    op.pushesInteger = true ∧ ¬ (0x0F ≤ op.byte ∧ op.byte ≤ 0x20) ∧ op.operand = .fixed op.operand.size := by
  decide

theorem mem_wideIntegers {op : OpCode} (h : op.pushesInteger = true) (hsmall : ¬ (0x0F ≤ op.byte ∧ op.byte ≤ 0x20)) :
    op ∈ wideIntegers := by
  have hall : ∀ op ∈ all, op.pushesInteger = true → ¬ (0x0F ≤ op.byte ∧ op.byte ≤ 0x20) → op ∈ wideIntegers := by
    decide +kernel
  exact hall op (mem_all op) h hsmall

end OpCode

namespace Instruction

theorem encode_of_none {op : OpCode} (h : op.operand = .none) : encode ⟨op, []⟩ = [op.byte] := by
  simp [encode, h, OperandShape.lengthWidth, Bytes.ofNatLE]

theorem encode_of_fixed {op : OpCode} {n : Nat} (h : op.operand = .fixed n) (operand : Bytes) :
    encode ⟨op, operand⟩ = op.byte :: operand := by
  simp [encode, h, OperandShape.lengthWidth, Bytes.ofNatLE]

/-- The two kinds of instructions that push an integer. -/
theorem integer?_eq_some {i : Instruction} (hi : i.IsWhole) {v : Int} (h : i.integer? = some v) :
    (0x0F ≤ i.op.byte ∧ i.op.byte ≤ 0x20) ∧ i.encode = [i.op.byte] ∧ v = (i.op.byte.toNat : Int) - 0x10 ∨
      i.op ∈ OpCode.wideIntegers ∧ i.encode = i.op.byte :: i.operand ∧ i.operand.length = i.op.operand.size ∧
        v = Bytes.toIntLE i.operand := by
  obtain ⟨op, operand⟩ := i
  unfold IsWhole at hi
  unfold integer? at h
  dsimp only at hi h ⊢
  split at h
  · next hwide =>
    obtain ⟨-, -, hshape⟩ := OpCode.wideIntegers_spec op hwide
    rw [hshape] at hi
    exact .inr ⟨hwide, encode_of_fixed hshape operand, hi, (Option.some.inj h).symm⟩
  · have hrange := OpCode.range_of_smallInteger? h
    obtain ⟨hsmall, hshape, -⟩ := OpCode.smallInteger?_of_range hrange
    rw [hshape] at hi
    obtain rfl : operand = [] := hi
    rw [hsmall] at h
    exact .inl ⟨hrange, encode_of_none hshape, (Option.some.inj h).symm⟩

end Instruction

/-! ## Reading them -/

namespace Push

theorem takes_readOpCode : readOpCode.Takes fun bs op => bs = [op.byte] := by
  unfold readOpCode
  refine Decoder.takes_position_bind fun offset => ?_
  refine Decoder.takes_byte.mapError.bind fun bs b hb => ?_
  refine Decoder.takes_ofOption fun op hop => ?_
  rw [List.append_nil, hb, OpCode.byte_of_ofByte? hop]

theorem takes_readInteger :
    readInteger.Takes fun bs v => ∃ i : Instruction, i.IsWhole ∧ i.integer? = some v ∧ bs = i.encode := by
  unfold readInteger
  refine takes_readOpCode.bind fun bs op hbs => ?_
  subst hbs
  split
  · next hrange =>
    obtain ⟨hsmall, hshape, hwide⟩ := OpCode.smallInteger?_of_range hrange
    refine Decoder.takes_pure ⟨⟨op, []⟩, ?_, ?_, (Instruction.encode_of_none hshape).symm⟩
    · rw [Instruction.IsWhole, hshape]
      rfl
    · rw [Instruction.integer?, if_neg hwide, hsmall]
  · next hrange =>
    split
    · next hpushes =>
      have hwide := OpCode.mem_wideIntegers hpushes hrange
      obtain ⟨-, -, hshape⟩ := OpCode.wideIntegers_spec op hwide
      intro r v r' hr
      obtain ⟨operand, hrest, hlength, rfl⟩ := (Decoder.takes_intLE op.operand.size).mapError r v r' hr
      refine ⟨operand, hrest, ⟨op, operand⟩, ?_, if_pos hwide, (Instruction.encode_of_fixed hshape operand).symm⟩
      rw [Instruction.IsWhole, hshape]
      exact hlength
    · exact Decoder.takes_fail _ _

theorem reads_readInteger_encode {i : Instruction} (hi : i.IsWhole) {v : Int} (h : i.integer? = some v) :
    readInteger.Reads i.encode v := by
  rcases Instruction.integer?_eq_some hi h with ⟨hrange, hencode, hv⟩ | ⟨hwide, hencode, hlength, hv⟩
  · rw [hencode, ← List.append_nil [i.op.byte], hv]
    refine (reads_readOpCode i.op).bind ?_
    rw [if_pos hrange]
    exact Decoder.reads_pure _
  · obtain ⟨hpushes, hrange, -⟩ := OpCode.wideIntegers_spec i.op hwide
    rw [hencode, ← List.singleton_append, hv]
    refine (reads_readOpCode i.op).bind ?_
    rw [if_neg hrange, if_pos hpushes, ← hlength]
    exact ((Decoder.reads_take i.operand).map Bytes.toIntLE).mapError

theorem takes_readInt :
    readInt.Takes fun bs v => ∃ i : Instruction, i.IsWhole ∧ i.integer? = some v.toInt ∧ bs = i.encode := by
  unfold readInt
  refine takes_readInteger.bind fun bs v h => ?_
  split
  · next hfits =>
    obtain ⟨i, hi, hv, rfl⟩ := h
    refine Decoder.takes_pure ⟨i, hi, ?_, List.append_nil _⟩
    obtain ⟨hlow, hhigh⟩ := Bytes.fits_iff.mp hfits
    rw [show Bytes.range 8 = 2 ^ 64 from rfl] at hlow hhigh
    rw [Int64.toInt_ofInt_of_le (by omega) (by omega), hv]
  · exact Decoder.takes_fail _ _

theorem reads_readInt_encode {i : Instruction} (hi : i.IsWhole) {v : Int64} (h : i.integer? = some v.toInt) :
    readInt.Reads i.encode v := by
  rw [← List.append_nil i.encode]
  refine (reads_readInteger_encode hi h).bind ?_
  rw [if_pos (Bytes.fits_toInt v), Int64.ofInt_toInt]
  exact Decoder.reads_pure v

/-! ## Writing them -/

theorem exists_integer {v : Int} {bs : Bytes} (h : integer? v = some bs) :
    ∃ i : Instruction, i.IsWhole ∧ i.integer? = some v ∧ bs = i.encode := by
  have hread := reads_readInteger h [] 0 (bs, 0)
  rw [List.append_nil] at hread
  obtain ⟨taken, hbs, i, hi, hv, rfl⟩ := takes_readInteger _ _ _ hread
  exact ⟨i, hi, hv, hbs.trans (List.append_nil _)⟩

theorem exists_nat {n : Nat} (h : n < 0x8000000000000000) :
    ∃ i : Instruction, i.IsWhole ∧ i.integer? = some (n : Int) ∧ nat n = i.encode := by
  obtain ⟨i, hi, hv, hbs⟩ := exists_integer (integer?_toInt (Int64.ofNat n))
  rw [Int64.toInt_ofNat_of_lt h] at hv
  exact ⟨i, hi, hv, hbs⟩

theorem integer?_isSome_iff {v : Int} : (integer? v).isSome ↔ -2 ^ 255 ≤ v ∧ v < 2 ^ 255 := by
  have hmax : ∀ e ∈ widths, Bytes.range e.1 ≤ 2 ^ 256 := by decide
  rw [Option.isSome_iff_exists]
  constructor
  · rintro ⟨bs, hbs⟩
    rcases integer?_eq_some hbs with ⟨hsmall, -⟩ | ⟨e, he, hfits, -⟩
    · omega
    · have hrange := hmax e he
      have hbounds := Bytes.fits_iff.mp hfits
      omega
  · intro h
    refine exists_integer? (e := (32, .PUSHINT256)) (by decide) (Bytes.fits_iff.mpr ?_)
    rw [show Bytes.range 32 = 2 ^ 256 from rfl]
    omega

/-- The push of a count and the operation that takes it. -/
theorem exists_count {op : OpCode} (hop : op.operand = .none) {n : Nat} (h : n < 0x8000000000000000) :
    ∃ count : Instruction, (∀ i ∈ [count, ⟨op, []⟩], i.IsWhole) ∧ count.integer? = some (n : Int) ∧
      nat n ++ [op.byte] = [count, ⟨op, []⟩].flatMap Instruction.encode := by
  obtain ⟨count, hwhole, hcount, hnat⟩ := exists_nat h
  have hwhole' : Instruction.IsWhole ⟨op, []⟩ := by
    rw [Instruction.IsWhole, hop]
    rfl
  refine ⟨count, ?_, hcount, ?_⟩
  · simp [hwhole, hwhole']
  · rw [hnat, List.flatMap_cons, List.flatMap_singleton, Instruction.encode_of_none hop]

end Push

end N3
