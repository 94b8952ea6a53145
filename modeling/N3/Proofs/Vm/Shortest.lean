import Mathlib.Data.List.Find
import N3.Proofs.Bytes.Signed
import N3.Proofs.Codec.Sequence
import N3.Proofs.Vm.Readers

/-!
# Shortest pushes

`d.Shortest bs a` says that `d` reads `a` from `bs`, and takes at least as many bytes wherever it reads `a`. The pushes
of integers and of bytes are the shortest of all that are read back as the same (`shortest_readInteger`,
`shortest_readData`). That of an integer is also what is left of any of its two's complements when all bytes that only
go on with the sign are dropped, and as many put back as the narrowest operation takes (`integer?_toIntLE`).
-/

set_option autoImplicit false

namespace N3

namespace Decoder

variable {ε α β : Type}

/-- `d` reads `a` from `bs`, and takes no fewer bytes for it anywhere. -/
structure Shortest (d : Decoder ε α) (bs : Bytes) (a : α) : Prop where
  reads : d.Reads bs a
  minimal : ∀ r r', d r = (.ok a, r') → ∃ taken, r.rest = taken ++ r'.rest ∧ bs.length ≤ taken.length

theorem Takes.shortest {d : Decoder ε α} {R : Bytes → α → Prop} {bs : Bytes} {a : α} (htakes : d.Takes R)
    (hreads : d.Reads bs a) (h : ∀ taken, R taken a → bs.length ≤ taken.length) : d.Shortest bs a where
  reads := hreads
  minimal r r' hr := by
    obtain ⟨taken, hrest, hR⟩ := htakes r a r' hr
    exact ⟨taken, hrest, h taken hR⟩

theorem textOfBytes?_eq_some {bs : Bytes} {s : String} (h : textOfBytes? bs = some s) : s.toUTF8.toList = bs := by
  unfold textOfBytes? String.fromUTF8? at h
  split at h
  · cases h
    exact Bytes.toList_eq _
  · cases h

end Decoder

namespace Push

/-! ## Integers -/

/-- An integer with no operation of its own takes the first width that it fits. -/
theorem integer?_of_not_small {v : Int} (h : ¬ (-1 ≤ v ∧ v ≤ 16)) : integer? v =
    (widths.find? fun e => Bytes.fits e.1 v).map fun e => e.2.byte :: Bytes.ofIntLE e.1 v := if_neg h

/-- No width that the integer fits makes a shorter instruction. -/
theorem length_integer?_le {v : Int} {bs : Bytes} (h : integer? v = some bs) {e : Nat × OpCode} (he : e ∈ widths)
    (hfits : Bytes.fits e.1 v = true) : bs.length ≤ e.1 + 1 := by
  have hsorted : widths.Pairwise (fun e f => e.1 ≤ f.1) := by decide
  by_cases hsmall : -1 ≤ v ∧ v ≤ 16
  · rw [integer?, if_pos hsmall] at h
    cases h
    exact Nat.le_add_left _ _
  · rw [integer?_of_not_small hsmall] at h
    obtain ⟨f, hfind, rfl⟩ := Option.map_eq_some_iff.mp h
    rw [List.length_cons, Bytes.length_ofIntLE, Nat.add_le_add_iff_right]
    obtain ⟨-, before, after, hsplit, hbefore⟩ := List.find?_eq_some_iff_append.mp hfind
    rw [hsplit] at hsorted he
    rcases List.mem_append.mp he with hfirst | hrest
    · have hnot := hbefore e hfirst
      rw [hfits] at hnot
      cases hnot
    · rcases List.mem_cons.mp hrest with rfl | hlater
      · exact Nat.le_refl _
      · exact (List.pairwise_cons.mp (List.pairwise_append.mp hsorted).2.1).1 e hlater

theorem mem_widths_of_mem_wideIntegers : ∀ op ∈ OpCode.wideIntegers, (op.operand.size, op) ∈ widths := by decide

/-- No instruction that pushes the integer is shorter. -/
theorem length_integer?_le_encode {v : Int} {bs : Bytes} (h : integer? v = some bs) {i : Instruction}
    (hi : i.IsWhole) (hv : i.integer? = some v) : bs.length ≤ i.encode.length := by
  rcases Instruction.integer?_eq_some hi hv with ⟨hrange, hencode, rfl⟩ | ⟨hwide, hencode, hlength, rfl⟩
  · have hlow : 0x0F ≤ i.op.byte.toNat := UInt8.le_iff_toNat_le.mp hrange.1
    have hhigh : i.op.byte.toNat ≤ 0x20 := UInt8.le_iff_toNat_le.mp hrange.2
    rw [integer?, if_pos (by omega)] at h
    cases h
    rw [hencode]
    exact Nat.le_refl _
  · have hfits := Bytes.fits_toIntLE i.operand
    rw [hlength] at hfits
    rw [hencode, List.length_cons, hlength]
    exact length_integer?_le h (mem_widths_of_mem_wideIntegers _ hwide) hfits

theorem shortest_readInteger {v : Int} {bs : Bytes} (h : integer? v = some bs) : readInteger.Shortest bs v := by
  refine takes_readInteger.shortest (reads_readInteger h) ?_
  rintro _ ⟨i, hi, hv, rfl⟩
  exact length_integer?_le_encode h hi hv

theorem shortest_readInt {v : Int64} {bs : Bytes} (h : integer? v.toInt = some bs) : readInt.Shortest bs v := by
  obtain ⟨i, hi, hv, rfl⟩ := exists_integer h
  refine takes_readInt.shortest (reads_readInt_encode hi hv) ?_
  rintro _ ⟨j, hj, hv', rfl⟩
  exact length_integer?_le_encode h hj hv'

/-- An integer of more than 64 bits is read and refused. -/
theorem readInt_of_wide {v : Int} {bs : Bytes} (h : integer? v = some bs) (hwide : ¬ ∃ x : Int64, x.toInt = v)
    (rest : Bytes) (pos : Nat) (marked : Bytes × Nat) :
    (readInt ⟨bs ++ rest, pos, marked⟩).1 = .error (.unexpected (.integerTooWide v)) := by
  have hnot : ¬ Bytes.fits 8 v = true := by
    intro hfits
    obtain ⟨hlow, hhigh⟩ := Bytes.fits_iff.mp hfits
    rw [show Bytes.range 8 = 2 ^ 64 from rfl] at hlow hhigh
    exact hwide ⟨Int64.ofInt v, Int64.toInt_ofInt_of_le (by omega) (by omega)⟩
  unfold readInt
  rw [Decoder.bind_of_ok (reads_readInteger h rest pos marked), if_neg hnot]
  rfl

/-! ## Any two's complement -/

/-- The push of an integer of which the bytes are a two's complement: without the bytes that only go on with the sign,
but for those that fill the operation. -/
def ofSigned (negative : Bool) (bs : Bytes) : Bytes :=
  let kept := Bytes.trim negative bs
  let (width, op) := (widths.find? fun e => kept.length ≤ e.1).getD (32, .PUSHINT256)
  op.byte :: (kept ++ List.replicate (width - kept.length) (Bytes.signByte negative))

theorem integer?_toIntLE {negative : Bool} {bs : Bytes} (hbs : bs ≠ []) (hlength : bs.length ≤ 32)
    (hsign : Bytes.toIntLE bs < 0 ↔ negative = true) (hsmall : ¬ (-1 ≤ Bytes.toIntLE bs ∧ Bytes.toIntLE bs ≤ 16)) :
    integer? (Bytes.toIntLE bs) = some (ofSigned negative bs) := by
  obtain ⟨hne, hsame, hwidth⟩ := Bytes.trim_spec hbs hsign
  have hpos : ∀ e ∈ widths, 0 < e.1 := by decide
  have hfind : (widths.find? fun e => Bytes.fits e.1 (Bytes.toIntLE bs)) =
      widths.find? fun e => (Bytes.trim negative bs).length ≤ e.1 := by
    refine List.find?_congr fun e he => ?_
    rw [Bool.eq_iff_iff, hwidth e.1 (hpos e he), decide_eq_true_eq]
  have hmax : Bytes.fits 32 (Bytes.toIntLE bs) = true := Bytes.fits_of_le hlength (Bytes.fits_toIntLE bs)
  have hsome : (widths.find? fun e => Bytes.fits e.1 (Bytes.toIntLE bs)).isSome :=
    List.find?_isSome.mpr ⟨(32, .PUSHINT256), by decide, hmax⟩
  obtain ⟨⟨width, op⟩, hfirst⟩ := Option.isSome_iff_exists.mp hsome
  have hfits := List.find?_some hfirst
  have hkept := (hwidth width (hpos _ (List.mem_of_find?_eq_some hfirst))).mp hfits
  have hwide := Bytes.ofIntLE_of_le hne (by rwa [hsame]) hkept
  rw [hsame] at hwide
  rw [integer?_of_not_small hsmall, hfirst, ofSigned, ← hfind, hfirst]
  dsimp only [Option.map_some, Option.getD_some]
  rw [hwide]

/-- The eight bytes of a machine integer are one such two's complement. -/
theorem int_eq_ofSigned {v : Int64} (h : ¬ (-1 ≤ v.toInt ∧ v.toInt ≤ 16)) :
    int v = ofSigned (decide (v.toInt < 0)) (Bytes.ofIntLE 8 v.toInt) := by
  have hvalue := Bytes.toIntLE_ofIntLE (Bytes.fits_toInt v)
  have hlength := Bytes.length_ofIntLE 8 v.toInt
  have hpush : integer? (Bytes.toIntLE (Bytes.ofIntLE 8 v.toInt)) =
      some (ofSigned (decide (v.toInt < 0)) (Bytes.ofIntLE 8 v.toInt)) :=
    integer?_toIntLE (List.ne_nil_of_length_pos (by omega)) (by omega) (by rw [hvalue, decide_eq_true_eq])
      (by rwa [hvalue])
  rw [hvalue, integer?_toInt] at hpush
  exact Option.some.inj hpush

/-! ## Bytes -/

theorem lengthWidth_of_mem_dataPushes :
    ∀ op ∈ OpCode.dataPushes, op.operand.lengthWidth = 1 ∨ op.operand.lengthWidth = 2 ∨ op.operand.lengthWidth = 4 := by
  decide

/-- Of the widths that can say the length, the least is taken. -/
theorem length_data {bs : Bytes} {w : Nat} (hw : w = 1 ∨ w = 2 ∨ w = 4) (h : bs.length < Bytes.range w) :
    (data bs).length ≤ 1 + w + bs.length := by
  have hlength : ∀ op, (instruction op bs).length = 1 + op.operand.lengthWidth + bs.length :=
    fun op => Instruction.length_encode ⟨op, bs⟩
  unfold data
  rw [hlength]
  split
  · have hone : OpCode.PUSHDATA1.operand.lengthWidth = 1 := rfl
    omega
  · next hlong =>
    have htwo : OpCode.PUSHDATA2.operand.lengthWidth = 2 := rfl
    split
    · rcases hw with rfl | rfl | rfl
      · exact absurd h hlong
      · omega
      · omega
    · next hlonger =>
      rcases hw with rfl | rfl | rfl
      · exact absurd h hlong
      · exact absurd h hlonger
      · exact Nat.le_refl _

theorem length_data_le {i : Instruction} (hi : i.IsWhole) (hop : i.op ∈ OpCode.dataPushes) :
    (data i.operand).length ≤ i.encode.length := by
  rw [Instruction.IsWhole, OpCode.operand_of_mem_dataPushes i.op hop] at hi
  rw [Instruction.length_encode]
  exact length_data (lengthWidth_of_mem_dataPushes i.op hop) hi

theorem shortest_readData {bs : Bytes} (h : bs.length < 0x100000000) : readData.Shortest (data bs) bs := by
  refine takes_readData.shortest (reads_readData h) ?_
  rintro _ ⟨i, hi, hop, rfl, rfl⟩
  exact length_data_le hi hop

theorem shortest_readText {s : String} (h : s.toUTF8.toList.length < 0x100000000) : readText.Shortest (text s) s := by
  have htakes : readText.Takes fun taken s => ∃ i : Instruction, i.IsWhole ∧ i.op ∈ OpCode.dataPushes ∧
      i.operand = s.toUTF8.toList ∧ taken = i.encode := by
    unfold readText
    refine takes_readData.bind fun taken bs ⟨i, hi, hop, hbs, htaken⟩ => ?_
    refine Decoder.takes_ofOption fun s hs => ⟨i, hi, hop, ?_, (List.append_nil _).trans htaken⟩
    rw [hbs, Decoder.textOfBytes?_eq_some hs]
  have hreads : readText.Reads (text s) s := by
    rw [← List.append_nil (text s)]
    exact (reads_readData h).bind (Decoder.reads_ofOption (Decoder.textOfBytes?_toUTF8 s) _)
  refine htakes.shortest hreads ?_
  rintro _ ⟨i, hi, hop, hs, rfl⟩
  rw [text, ← hs]
  exact length_data_le hi hop

/-- Bytes that are no text are read and refused. -/
theorem readText_of_not_text {bs : Bytes} (h : bs.length < 0x100000000) (htext : ¬ ∃ s : String, s.toUTF8.toList = bs)
    (rest : Bytes) (pos : Nat) (marked : Bytes × Nat) :
    (readText ⟨data bs ++ rest, pos, marked⟩).1 = .error (.unexpected .notUtf8) := by
  unfold readText
  rw [Decoder.bind_of_ok (reads_readData h rest pos marked)]
  cases hs : Decoder.textOfBytes? bs with
  | none => rfl
  | some s => exact absurd ⟨s, Decoder.textOfBytes?_eq_some hs⟩ htext

/-! ## All of them -/

theorem toExcept_integer_iff {v : Int} {bs : Bytes} : (integer v).toExcept = .ok bs ↔ integer? v = some bs := by
  unfold integer
  cases integer? v with
  | none => exact ⟨nofun, nofun⟩
  | some cs => exact ⟨fun h => congrArg some (Except.ok.inj h), fun h => congrArg Except.ok (Option.some.inj h)⟩

theorem exists_toExcept_integer_iff (v : Int) :
    (∃ bs, (integer v).toExcept = .ok bs) ↔ -2 ^ 255 ≤ v ∧ v < 2 ^ 255 := by
  rw [← integer?_isSome_iff, Option.isSome_iff_exists]
  exact exists_congr fun bs => toExcept_integer_iff

theorem toExcept_integer_of_wide {v : Int} (h : ¬ (-2 ^ 255 ≤ v ∧ v < 2 ^ 255)) :
    (integer v).toExcept = .error (.argument (.integerTooLarge v)) := by
  rw [← integer?_isSome_iff, Option.not_isSome_iff_eq_none] at h
  unfold integer
  rw [h]
  rfl

/-- An integer can be pushed exactly if it fits in 256 bits, and is otherwise refused. Its push is read back as it, also
as an integer of 64 bits if it is one, and is the shortest that is; and it is the same from any two's complement of the
integer. The push of fewer than 2 ^ 32 bytes is the shortest that is read back as them, also as a text if they are
one. -/
theorem shortest_pushes :
    (∀ v : Int, ((∃ bs, (integer v).toExcept = .ok bs) ↔ -2 ^ 255 ≤ v ∧ v < 2 ^ 255) ∧
      (¬ (-2 ^ 255 ≤ v ∧ v < 2 ^ 255) → (integer v).toExcept = .error (.argument (.integerTooLarge v)))) ∧
    (∀ v bs, (integer v).toExcept = .ok bs → readInteger.Shortest bs v ∧
      (∀ x : Int64, x.toInt = v → readInt.Shortest bs x) ∧
      ((¬ ∃ x : Int64, x.toInt = v) → ∀ rest pos marked,
        (readInt ⟨bs ++ rest, pos, marked⟩).1 = .error (.unexpected (.integerTooWide v)))) ∧
    (∀ v : Int64, (integer v.toInt).toExcept = .ok (int v) ∧
      (¬ (-1 ≤ v.toInt ∧ v.toInt ≤ 16) →
        int v = ofSigned (decide (v.toInt < 0)) (Bytes.ofIntLE 8 v.toInt))) ∧
    (∀ negative bs, bs ≠ [] → bs.length ≤ 32 → (Bytes.toIntLE bs < 0 ↔ negative = true) →
      ¬ (-1 ≤ Bytes.toIntLE bs ∧ Bytes.toIntLE bs ≤ 16) →
      (integer (Bytes.toIntLE bs)).toExcept = .ok (ofSigned negative bs)) ∧
    (∀ bs : Bytes, bs.length < 2 ^ 32 → readData.Shortest (data bs) bs ∧
      (∀ s : String, s.toUTF8.toList = bs → readText.Shortest (data bs) s) ∧
      ((¬ ∃ s : String, s.toUTF8.toList = bs) → ∀ rest pos marked,
        (readText ⟨data bs ++ rest, pos, marked⟩).1 = .error (.unexpected .notUtf8))) := by
  refine ⟨fun v => ⟨exists_toExcept_integer_iff v, toExcept_integer_of_wide⟩, ?_,
    fun v => ⟨toExcept_integer_iff.mpr (integer?_toInt v), int_eq_ofSigned⟩, ?_, ?_⟩
  · intro v bs h
    have hpush := toExcept_integer_iff.mp h
    refine ⟨shortest_readInteger hpush, ?_, readInt_of_wide hpush⟩
    rintro x rfl
    exact shortest_readInt hpush
  · intro negative bs hbs hlength hsign hsmall
    exact toExcept_integer_iff.mpr (integer?_toIntLE hbs hlength hsign hsmall)
  · intro bs h
    refine ⟨shortest_readData h, ?_, readText_of_not_text h⟩
    rintro s rfl
    exact shortest_readText h

end Push

end N3
