import Mathlib.Tactic.IntervalCases
import N3.Proofs.Codec.Reads
import N3.Proofs.Vm.OpCode
import N3.Vm.Push

/-!
# Reading what was pushed

The shortest push of an integer is read back as that integer (`reads_readInteger`), and the push of bytes as those
bytes (`reads_readData`). How long a push of bytes is depends on their number alone, and the push of an integer never
begins as a short push of bytes does, so that a script shows where a run of keys ends.
-/

set_option autoImplicit false

namespace N3.Push

theorem reads_readOpCode (op : OpCode) : readOpCode.Reads [op.byte] op := by
  unfold readOpCode
  refine Decoder.reads_position_bind fun offset => ?_
  exact (Decoder.reads_byte op.byte).mapError.bind (Decoder.reads_ofOption op.ofByte?_byte _)

/-! ## Bytes -/

/-- An operation that pushes its operand is read with it, if the length is one that its width can say. -/
theorem reads_instruction {op : OpCode} {bs : Bytes} (hop : op.pushesData = true)
    (h : bs.length < Bytes.range op.operand.lengthWidth) : readData.Reads (instruction op bs) bs := by
  refine (reads_readOpCode op).bind ?_
  rw [if_pos hop]
  exact ((Decoder.reads_natLE h).bind (Decoder.reads_take bs)).mapError

theorem reads_readData {bs : Bytes} (h : bs.length < 0x100000000) : readData.Reads (data bs) bs := by
  unfold data
  dsimp only
  split
  · next hshort => exact reads_instruction rfl hshort
  · split
    · next hmiddle => exact reads_instruction rfl hmiddle
    · exact reads_instruction rfl h

/-- A short push spells out its length. -/
theorem data_eq_cons {bs : Bytes} (h : bs.length < 0x100) :
    data bs = OpCode.PUSHDATA1.byte :: UInt8.ofNat bs.length :: bs := by
  unfold data
  dsimp only
  rw [if_pos h]
  rfl

/-! ## Integers -/

theorem widths_spec : ∀ e ∈ widths, e.2.pushesInteger = true ∧ e.2.operand.size = e.1 ∧ e.2.byte < 0x0F := by decide

/-- The two forms of the push of an integer. -/
theorem integer?_eq_some {v : Int} {bs : Bytes} (h : integer? v = some bs) :
    (-1 ≤ v ∧ v ≤ 16) ∧ bs = [UInt8.ofNat (0x10 + v).toNat] ∨
      ∃ e ∈ widths, Bytes.fits e.1 v = true ∧ bs = e.2.byte :: Bytes.ofIntLE e.1 v := by
  unfold integer? at h
  split at h
  · next hsmall => exact .inl ⟨hsmall, (Option.some.inj h).symm⟩
  · obtain ⟨e, hfind, hbs⟩ := Option.map_eq_some_iff.mp h
    have hfits := List.find?_some hfind
    exact .inr ⟨e, List.mem_of_find?_eq_some hfind, hfits, hbs.symm⟩

/-- An integer that fits one of the widths can be pushed. -/
theorem exists_integer? {v : Int} {e : Nat × OpCode} (he : e ∈ widths) (h : Bytes.fits e.1 v = true) :
    ∃ bs, integer? v = some bs := by
  unfold integer?
  split
  · exact ⟨_, rfl⟩
  · have hsome : (widths.find? fun f => Bytes.fits f.1 v).isSome := List.find?_isSome.mpr ⟨e, he, h⟩
    obtain ⟨f, hfind⟩ := Option.isSome_iff_exists.mp hsome
    exact ⟨_, congrArg (Option.map _) hfind⟩

/-- The operation of a small integer is read as that integer. -/
theorem reads_small {v : Int} (h : -1 ≤ v ∧ v ≤ 16) : readInteger.Reads [UInt8.ofNat (0x10 + v).toNat] v := by
  obtain ⟨hlow, hhigh⟩ := h
  interval_cases v <;> exact fun _ _ _ => rfl

theorem reads_readInteger {v : Int} {bs : Bytes} (h : integer? v = some bs) : readInteger.Reads bs v := by
  rcases integer?_eq_some h with ⟨hsmall, rfl⟩ | ⟨e, he, hfits, rfl⟩
  · exact reads_small hsmall
  · obtain ⟨hpushes, hsize, hbyte⟩ := widths_spec e he
    refine (reads_readOpCode e.2).bind ?_
    have hrange : ¬ (0x0F ≤ e.2.byte ∧ e.2.byte ≤ 0x20) := fun h => UInt8.not_le.mpr hbyte h.1
    rw [if_neg hrange, if_pos hpushes, hsize]
    exact (Decoder.reads_intLE hfits).mapError

theorem integer?_toInt (v : Int64) : integer? v.toInt = some (int v) := by
  obtain ⟨bs, hbs⟩ := exists_integer? (e := (8, .PUSHINT64)) (by decide) (Bytes.fits_toInt v)
  rw [int, hbs]
  rfl

theorem reads_readInt (v : Int64) : readInt.Reads (int v) v := by
  rw [← List.append_nil (int v)]
  refine (reads_readInteger (integer?_toInt v)).bind ?_
  rw [if_pos (Bytes.fits_toInt v), Int64.ofInt_toInt]
  exact Decoder.reads_pure v

/-- The push of an integer is not taken for a short push of bytes. -/
theorem int_eq_cons (v : Int64) : ∃ b bs, int v = b :: bs ∧ b ≠ OpCode.PUSHDATA1.byte := by
  rcases integer?_eq_some (integer?_toInt v) with ⟨⟨hlow, hhigh⟩, hbs⟩ | ⟨e, he, -, hbs⟩
  · refine ⟨_, _, hbs, ?_⟩
    generalize v.toInt = i at hlow hhigh
    interval_cases i <;> decide
  · have hne : ∀ e ∈ widths, e.2.byte ≠ OpCode.PUSHDATA1.byte := by decide
    exact ⟨_, _, hbs, hne e he⟩

end N3.Push
