import Mathlib.Data.List.Induction
import N3.Proofs.Bytes
import N3.Proofs.Vm.OpCode
import N3.Vm.Instruction

/-!
# Scripts as lists of instructions

An instruction is whole if its operand is one that its operation can have. Every script is a run of whole instructions
and a rest that begins with none (`exists_run`), and in one way only, since a whole instruction shows where it ends.
Disassembly gives the instructions if nothing is left (`disassemble_eq_ok_iff`), and otherwise the fault of the first
byte of the rest (`disassemble_of_stuck`).

* `readOperand?_eq_some`: the operand that is read is the one that was written;
* `disassembleFrom_run`: reading goes through a run of whole instructions, whatever follows;
* `disassemble_exact`: what a script's instructions, or the error in their place, say about the script.
-/

set_option autoImplicit false

namespace N3

/-- The same error, of a script that stands behind `n` other bytes. -/
def ScriptError.shift (n : Nat) : ScriptError → ScriptError
  | .unknownOpCode offset byte => .unknownOpCode (n + offset) byte
  | .truncatedOperand offset op => .truncatedOperand (n + offset) op
  | e => e

/-- Whether an operand has the length that the shape asks for, or one that the shape can say. -/
def OperandShape.Admits : OperandShape → Bytes → Prop
  | .none, operand => operand = []
  | .fixed n, operand => operand.length = n
  | .counted w, operand => operand.length < Bytes.range w

instance (shape : OperandShape) (operand : Bytes) : Decidable (shape.Admits operand) :=
  match shape with
  | .none => inferInstanceAs (Decidable (operand = []))
  | .fixed n => inferInstanceAs (Decidable (operand.length = n))
  | .counted w => inferInstanceAs (Decidable (operand.length < Bytes.range w))

namespace Instruction

/-- Whether the operand is one that the operation can have. -/
def IsWhole (i : Instruction) : Prop := i.op.operand.Admits i.operand

instance (i : Instruction) : Decidable i.IsWhole := inferInstanceAs (Decidable (i.op.operand.Admits i.operand))

def located (offset : Nat) : List Instruction → List (Nat × Instruction)
  | [] => []
  | i :: is => (offset, i) :: located (offset + i.size) is

@[simp] theorem extent_nil : extent [] = 0 := rfl

@[simp] theorem extent_cons (i : Instruction) (is : List Instruction) : extent (i :: is) = i.size + extent is := rfl

theorem length_flatMap_encode (is : List Instruction) : (is.flatMap encode).length = extent is :=
  Encode.length_flatMap is fun i _ => i.length_encode

@[simp] theorem extent_append (is js : List Instruction) : extent (is ++ js) = extent is + extent js := by
  simp only [← length_flatMap_encode, List.flatMap_append, List.length_append]

theorem size_pos (i : Instruction) : 0 < i.size := by
  unfold size
  omega

theorem length_le_extent (is : List Instruction) : is.length ≤ extent is := by
  induction is with
  | nil => exact Nat.le_refl 0
  | cons i is ih =>
    have hpos := i.size_pos
    rw [List.length_cons, extent_cons]
    omega

/-! ## One instruction -/

theorem split?_eq_some {n : Nat} {bs front rest : Bytes} :
    split? n bs = some (front, rest) ↔ bs = front ++ rest ∧ front.length = n := by
  unfold split?
  rw [List.splitAt_eq]
  dsimp only
  constructor
  · intro h
    split at h
    · next hlength =>
      simp only [Option.some.injEq, Prod.mk.injEq] at h
      obtain ⟨rfl, rfl⟩ := h
      exact ⟨(List.take_append_drop n bs).symm, hlength⟩
    · cases h
  · rintro ⟨rfl, rfl⟩
    simp

theorem readOperand?_eq_some {op : OpCode} {bs operand rest : Bytes} :
    readOperand? op bs = some (operand, rest) ↔
      IsWhole ⟨op, operand⟩ ∧ bs = Bytes.ofNatLE op.operand.lengthWidth operand.length ++ operand ++ rest := by
  unfold readOperand? IsWhole
  dsimp only
  cases op.operand with
  | none =>
    simp only [Option.some.injEq, Prod.mk.injEq]
    constructor
    · rintro ⟨rfl, rfl⟩
      exact ⟨rfl, rfl⟩
    · rintro ⟨rfl, rfl⟩
      exact ⟨rfl, rfl⟩
  | fixed n =>
    rw [split?_eq_some, and_comm]
    exact Iff.rfl
  | counted w =>
    simp only [OperandShape.lengthWidth, Option.bind_eq_bind, Option.bind_eq_some_iff]
    constructor
    · rintro ⟨⟨length, rest'⟩, h, h'⟩
      obtain ⟨rfl, rfl⟩ := split?_eq_some.mp h
      obtain ⟨rfl, hlength⟩ := split?_eq_some.mp h'
      have hlt : operand.length < Bytes.range length.length := by
        rw [hlength]
        exact Bytes.toNatLE_lt_range length
      refine ⟨hlt, ?_⟩
      rw [hlength, Bytes.ofNatLE_toNatLE, List.append_assoc]
    · rintro ⟨hlt, rfl⟩
      refine ⟨(Bytes.ofNatLE w operand.length, operand ++ rest), ?_, ?_⟩
      · rw [split?_eq_some, List.append_assoc]
        exact ⟨rfl, Bytes.length_ofNatLE w _⟩
      · rw [Bytes.toNatLE_ofNatLE_of_lt hlt, split?_eq_some]
        exact ⟨rfl, rfl⟩

theorem readOperand?_operand {i : Instruction} (hi : i.IsWhole) (rest : Bytes) :
    readOperand? i.op (Bytes.ofNatLE i.op.operand.lengthWidth i.operand.length ++ i.operand ++ rest) =
      some (i.operand, rest) :=
  readOperand?_eq_some.mpr ⟨hi, rfl⟩

theorem encode_append (i : Instruction) (rest : Bytes) : i.encode ++ rest =
    i.op.byte :: (Bytes.ofNatLE i.op.operand.lengthWidth i.operand.length ++ i.operand ++ rest) := rfl

/-- Whether the bytes begin with a whole instruction. -/
def Begins (bs : Bytes) : Prop := ∃ i : Instruction, i.IsWhole ∧ i.encode <+: bs

/-- Bytes begin with a whole instruction exactly if an operation and its operand can be read from them. -/
theorem begins_cons_iff {b : UInt8} {bs : Bytes} :
    Begins (b :: bs) ↔ ∃ op operand rest, OpCode.ofByte? b = some op ∧ readOperand? op bs = some (operand, rest) := by
  constructor
  · rintro ⟨⟨op, operand⟩, hwhole, rest, h⟩
    rw [encode_append] at h
    obtain ⟨rfl, rfl⟩ := List.cons.inj h
    exact ⟨op, operand, rest, op.ofByte?_byte, readOperand?_eq_some.mpr ⟨hwhole, rfl⟩⟩
  · rintro ⟨op, operand, rest, hop, h⟩
    obtain ⟨hwhole, rfl⟩ := readOperand?_eq_some.mp h
    refine ⟨⟨op, operand⟩, hwhole, rest, ?_⟩
    rw [encode_append, OpCode.byte_of_ofByte? hop]

/-- Two whole instructions at the front of the same bytes are the same. -/
theorem encode_append_inj {i j : Instruction} (hi : i.IsWhole) (hj : j.IsWhole) {r s : Bytes}
    (h : i.encode ++ r = j.encode ++ s) : i = j ∧ r = s := by
  rw [encode_append, encode_append] at h
  obtain ⟨hbyte, hrest⟩ := List.cons.inj h
  have hop : i.op = j.op := OpCode.byte_injective hbyte
  have hread := readOperand?_operand hi r
  rw [hrest, hop, readOperand?_operand hj s] at hread
  simp only [Option.some.injEq, Prod.mk.injEq] at hread
  obtain ⟨op, operand⟩ := i
  obtain ⟨hoperand, hrest⟩ := hread
  exact ⟨congrArg₂ Instruction.mk hop hoperand.symm, hrest.symm⟩

/-! ## Runs of instructions -/

/-- The induction is on the number of bytes: a whole instruction at the front leaves fewer. -/
theorem exists_run (bs : Bytes) : ∃ (is : List Instruction) (rest : Bytes),
    (∀ i ∈ is, i.IsWhole) ∧ bs = is.flatMap encode ++ rest ∧ ¬ Begins rest := by
  induction hn : bs.length using Nat.strongRecOn generalizing bs with
  | _ n ih =>
    by_cases hbegins : Begins bs
    · obtain ⟨i, hwhole, rest, rfl⟩ := hbegins
      have hpos := i.size_pos
      have hlt : rest.length < n := by
        rw [List.length_append, length_encode] at hn
        omega
      obtain ⟨is, stuck, his, rfl, hstuck⟩ := ih rest.length hlt rest rfl
      refine ⟨i :: is, stuck, List.forall_mem_cons.mpr ⟨hwhole, his⟩, ?_, hstuck⟩
      rw [List.flatMap_cons, List.append_assoc]
    · exact ⟨[], bs, by simp, rfl, hbegins⟩

theorem located_append (offset : Nat) (is js : List Instruction) :
    located offset (is ++ js) = located offset is ++ located (offset + extent is) js := by
  induction is generalizing offset with
  | nil => rfl
  | cons i is ih => simp [located, ih, Nat.add_assoc]

theorem located_add (n offset : Nat) (is : List Instruction) :
    located (n + offset) is = (located offset is).map fun e => (n + e.1, e.2) := by
  induction is generalizing offset with
  | nil => rfl
  | cons i is ih => simp [located, Nat.add_assoc, ih]

@[simp] theorem map_snd_located (offset : Nat) (is : List Instruction) : (located offset is).map (·.2) = is := by
  induction is generalizing offset with
  | nil => rfl
  | cons i is ih => simp [located, ih]

/-- Each offset is the extent of what is before it. -/
theorem offset_of_located {is : List Instruction} {before after : List (Nat × Instruction)} {offset start : Nat}
    {i : Instruction} (h : located start is = before ++ (offset, i) :: after) :
    offset = start + extent (before.map (·.2)) := by
  have his : is = before.map (·.2) ++ i :: after.map (·.2) := by
    rw [← map_snd_located start is, h]
    simp
  have hlength : (located start (before.map (·.2))).length = before.length := by
    rw [← List.length_map (·.2), map_snd_located, List.length_map]
  rw [his, located_append] at h
  have htail := (List.append_inj h hlength).2
  simp only [located, List.cons.injEq, Prod.mk.injEq] at htail
  exact htail.1.1.symm

/-! ## Disassembly -/

theorem disassembleFrom_encode {i : Instruction} (hi : i.IsWhole) (offset : Nat) (acc : List (Nat × Instruction))
    (rest : Bytes) :
    disassembleFrom offset acc (i.encode ++ rest) = disassembleFrom (offset + i.size) ((offset, i) :: acc) rest := by
  have hread := readOperand?_operand hi rest
  rw [encode_append, disassembleFrom]
  split
  · next hnone =>
    rw [i.op.ofByte?_byte] at hnone
    cases hnone
  · next op hop =>
    rw [i.op.ofByte?_byte] at hop
    cases hop
    split
    · next hnone =>
      rw [hread] at hnone
      cases hnone
    · next hsome =>
      rw [hread] at hsome
      cases hsome
      rfl

theorem disassembleFrom_run {is : List Instruction} (his : ∀ i ∈ is, IsWhole i) (offset : Nat)
    (acc : List (Nat × Instruction)) (rest : Bytes) :
    disassembleFrom offset acc (is.flatMap encode ++ rest) =
      disassembleFrom (offset + extent is) ((located offset is).reverse ++ acc) rest := by
  induction is generalizing offset acc with
  | nil => rfl
  | cons i is ih =>
    obtain ⟨hi, his⟩ := List.forall_mem_cons.mp his
    rw [List.flatMap_cons, List.append_assoc, disassembleFrom_encode hi, ih his]
    simp [located, Nat.add_assoc]

/-- What is wrong with a byte at which no whole instruction begins. -/
def fault (offset : Nat) (b : UInt8) : ScriptError :=
  match OpCode.ofByte? b with
  | none => .unknownOpCode offset b
  | some op => .truncatedOperand offset op

theorem shift_fault (n offset : Nat) (b : UInt8) : (fault offset b).shift n = fault (n + offset) b := by
  unfold fault
  split <;> rfl

theorem disassembleFrom_of_not_begins {b : UInt8} {bs : Bytes} (h : ¬ Begins (b :: bs)) (offset : Nat)
    (acc : List (Nat × Instruction)) : disassembleFrom offset acc (b :: bs) = .error (fault offset b) := by
  rw [begins_cons_iff] at h
  rw [disassembleFrom, fault]
  cases hop : OpCode.ofByte? b with
  | none => rfl
  | some op =>
    dsimp only
    split
    · rfl
    · next operand rest hread => exact absurd ⟨op, operand, rest, hop, hread⟩ h

section Run

variable {is : List Instruction} (his : ∀ i ∈ is, IsWhole i)
include his

theorem disassemble_run : disassemble (is.flatMap encode) = .ok (located 0 is) := by
  have h := disassembleFrom_run his 0 [] []
  rw [List.append_nil, List.append_nil, disassembleFrom, List.reverse_reverse] at h
  exact h

theorem disassemble_of_stuck {b : UInt8} {bs : Bytes} (h : ¬ Begins (b :: bs)) :
    disassemble (is.flatMap encode ++ b :: bs) = .error (fault (extent is) b) := by
  rw [disassemble, disassembleFrom_run his, disassembleFrom_of_not_begins h, Nat.zero_add]

/-- Behind a run of instructions, a script is read as it is by itself. -/
theorem disassemble_run_append (s : Bytes) :
    (∀ js, disassemble s = .ok js →
      disassemble (is.flatMap encode ++ s) = .ok (located 0 is ++ js.map fun e => (extent is + e.1, e.2))) ∧
    ∀ e, disassemble s = .error e → disassemble (is.flatMap encode ++ s) = .error (e.shift (extent is)) := by
  obtain ⟨js, rest, hjs, rfl, hstuck⟩ := exists_run s
  have hall : ∀ i ∈ is ++ js, IsWhole i := List.forall_mem_append.mpr ⟨his, hjs⟩
  rcases rest with _ | ⟨b, bs⟩
  · have hjs' := disassemble_run hjs
    have hall' := disassemble_run hall
    rw [List.flatMap_append, located_append, Nat.zero_add] at hall'
    rw [List.append_nil]
    constructor
    · intro js' h
      obtain rfl := Except.ok.inj (hjs'.symm.trans h)
      rw [hall', ← Nat.add_zero (extent is), located_add, Nat.add_zero]
    · intro e h
      rw [hjs'] at h
      cases h
  · have hjs' := disassemble_of_stuck hjs hstuck
    have hall' := disassemble_of_stuck hall hstuck
    rw [List.flatMap_append, List.append_assoc, extent_append] at hall'
    constructor
    · intro js' h
      rw [hjs'] at h
      cases h
    · intro e h
      obtain rfl := Except.error.inj (hjs'.symm.trans h)
      rw [hall', shift_fault]

end Run

/-- The scripts that can be read are the runs of whole instructions. -/
theorem disassemble_eq_ok_iff {s : Bytes} {l : List (Nat × Instruction)} :
    disassemble s = .ok l ↔ ∃ is, (∀ i ∈ is, IsWhole i) ∧ s = is.flatMap encode ∧ l = located 0 is := by
  constructor
  · intro h
    obtain ⟨is, rest, his, rfl, hstuck⟩ := exists_run s
    rcases rest with _ | ⟨b, bs⟩
    · rw [List.append_nil] at h ⊢
      exact ⟨is, his, rfl, Except.ok.inj (h.symm.trans (disassemble_run his))⟩
    · rw [disassemble_of_stuck his hstuck] at h
      cases h
  · rintro ⟨is, his, rfl, rfl⟩
    exact disassemble_run his

/-- What can be said of the instructions of a script can be said of a run that it consists of. -/
theorem exists_disassemble_iff {s : Bytes} {P : List Instruction → Prop} :
    (∃ l, disassemble s = .ok l ∧ P (l.map (·.2))) ↔ ∃ is, P is ∧ (∀ i ∈ is, IsWhole i) ∧ s = is.flatMap encode := by
  constructor
  · rintro ⟨l, hl, hP⟩
    obtain ⟨is, his, hs, rfl⟩ := disassemble_eq_ok_iff.mp hl
    rw [map_snd_located] at hP
    exact ⟨is, hP, his, hs⟩
  · rintro ⟨is, hP, his, rfl⟩
    refine ⟨located 0 is, disassemble_run his, ?_⟩
    rwa [map_snd_located]

/-! ## Where reading stops -/

/-- A whole instruction stands at the offset. -/
def StandsAt (s : Bytes) (offset : Nat) (i : Instruction) : Prop := i.IsWhole ∧ i.encode <+: s.drop offset

/-- The offsets that are reached from the first byte over whole instructions. -/
inductive IsBoundary (s : Bytes) : Nat → Prop where
  | start : IsBoundary s 0
  | next {offset : Nat} {i : Instruction} : IsBoundary s offset → StandsAt s offset i →
      IsBoundary s (offset + i.size)

theorem isBoundary_extent {is : List Instruction} (his : ∀ i ∈ is, IsWhole i) (rest : Bytes) :
    IsBoundary (is.flatMap encode ++ rest) (extent is) := by
  induction is using List.reverseRecOn generalizing rest with
  | nil => exact .start
  | append_singleton is i ih =>
    obtain ⟨his, hi⟩ := List.forall_mem_append.mp his
    have hbytes : (is ++ [i]).flatMap encode ++ rest = is.flatMap encode ++ (i.encode ++ rest) := by simp
    have hstands : StandsAt (is.flatMap encode ++ (i.encode ++ rest)) (extent is) i := by
      refine ⟨hi i List.mem_cons_self, ?_⟩
      rw [List.drop_left' (length_flatMap_encode is)]
      exact List.prefix_append _ _
    have hnext := (ih his (i.encode ++ rest)).next hstands
    rw [hbytes, extent_append, extent_cons, extent_nil, Nat.add_zero]
    exact hnext

/-- A boundary inside of a run has some of the run's instructions before it and the others behind. -/
theorem IsBoundary.exists_split {is : List Instruction} (his : ∀ i ∈ is, IsWhole i) {rest : Bytes}
    (hstuck : ¬ Begins rest) {offset : Nat} (h : IsBoundary (is.flatMap encode ++ rest) offset) :
    ∃ before after, is = before ++ after ∧ offset = extent before := by
  induction h with
  | start => exact ⟨[], is, rfl, rfl⟩
  | @next offset i _ hstands ih =>
    obtain ⟨before, after, rfl, rfl⟩ := ih
    obtain ⟨hi, r, hr⟩ := hstands
    rw [List.flatMap_append, List.append_assoc, List.drop_left' (length_flatMap_encode before)] at hr
    cases after with
    | nil => exact absurd ⟨i, hi, r, hr⟩ hstuck
    | cons j after =>
      have hj : IsWhole j := his j (by simp)
      rw [List.flatMap_cons, List.append_assoc] at hr
      obtain ⟨rfl, -⟩ := encode_append_inj hi hj hr
      exact ⟨before ++ [i], after, by simp, by simp⟩

/-- Before its end, a run has a whole instruction at each of its boundaries. -/
theorem exists_standsAt {is : List Instruction} (his : ∀ i ∈ is, IsWhole i) {rest : Bytes} (hstuck : ¬ Begins rest)
    {offset : Nat} (h : IsBoundary (is.flatMap encode ++ rest) offset) (hlt : offset < extent is) :
    ∃ i, StandsAt (is.flatMap encode ++ rest) offset i := by
  obtain ⟨before, after, rfl, rfl⟩ := h.exists_split his hstuck
  cases after with
  | nil =>
    rw [List.append_nil] at hlt
    omega
  | cons i after =>
    refine ⟨i, his i (by simp), ?_⟩
    rw [List.flatMap_append, List.append_assoc, List.drop_left' (length_flatMap_encode before), List.flatMap_cons,
      List.append_assoc]
    exact List.prefix_append _ _

theorem fault_eq (offset : Nat) (b : UInt8) :
    (fault offset b = .unknownOpCode offset b ∧ ∀ op : OpCode, op.byte ≠ b) ∨
      ∃ op : OpCode, op.byte = b ∧ fault offset b = .truncatedOperand offset op := by
  unfold fault
  split
  · next hnone =>
    left
    refine ⟨rfl, ?_⟩
    rintro op rfl
    rw [op.ofByte?_byte] at hnone
    cases hnone
  · next op hop => exact .inr ⟨op, OpCode.byte_of_ofByte? hop, rfl⟩

/-- The error names the first boundary at which no whole instruction stands. -/
theorem disassemble_eq_error {s : Bytes} {e : ScriptError} (h : disassemble s = .error e) :
    ∃ offset b, s[offset]? = some b ∧ e = fault offset b ∧ IsBoundary s offset ∧ (∀ i, ¬ StandsAt s offset i) ∧
      (∀ earlier < offset, IsBoundary s earlier → ∃ i, StandsAt s earlier i) ∧
      ∃ l, disassemble (s.take offset) = .ok l := by
  obtain ⟨is, rest, his, rfl, hstuck⟩ := exists_run s
  rcases rest with _ | ⟨b, bs⟩
  · rw [List.append_nil, disassemble_run his] at h
    cases h
  · rw [disassemble_of_stuck his hstuck] at h
    refine ⟨extent is, b, ?_, (Except.error.inj h).symm, isBoundary_extent his _, ?_, ?_, located 0 is, ?_⟩
    · rw [List.getElem?_append_right (Nat.le_of_eq (length_flatMap_encode is)), length_flatMap_encode, Nat.sub_self]
      rfl
    · rintro i ⟨hi, hprefix⟩
      rw [List.drop_left' (length_flatMap_encode is)] at hprefix
      exact hstuck ⟨i, hi, hprefix⟩
    · intro earlier hlt hboundary
      exact exists_standsAt his hstuck hboundary hlt
    · rw [List.take_left' (length_flatMap_encode is)]
      exact disassemble_run his

/-- A script that is read is the bytes of its instructions, each at the sum of the sizes before it. A script that is not
read breaks at the first boundary without a whole instruction, at a byte that is no operation or at one whose operand
is cut off. What stands behind a script that is read is read as it is by itself. -/
theorem disassemble_exact (s : Bytes) :
    (∀ l, disassemble s = .ok l →
      (∀ e ∈ l, e.2.IsWhole) ∧ (l.map (·.2)).flatMap encode = s ∧
      (∀ before offset i after, l = before ++ (offset, i) :: after → offset = extent (before.map (·.2))) ∧
      extent (l.map (·.2)) = s.length) ∧
    (∀ e, disassemble s = .error e → ∃ offset b, s[offset]? = some b ∧ IsBoundary s offset ∧
      (∀ i, ¬ StandsAt s offset i) ∧ (∀ earlier < offset, IsBoundary s earlier → ∃ i, StandsAt s earlier i) ∧
      (∃ l, disassemble (s.take offset) = .ok l) ∧
      (e = .unknownOpCode offset b ∧ (∀ op : OpCode, op.byte ≠ b) ∨
        ∃ op : OpCode, op.byte = b ∧ e = .truncatedOperand offset op)) ∧
    ∀ l, disassemble s = .ok l → ∀ t,
      (∀ m, disassemble t = .ok m → disassemble (s ++ t) = .ok (l ++ m.map fun e => (s.length + e.1, e.2))) ∧
      ∀ e, disassemble t = .error e → disassemble (s ++ t) = .error (e.shift s.length) := by
  refine ⟨?_, ?_, ?_⟩
  · intro l h
    obtain ⟨is, his, rfl, rfl⟩ := disassemble_eq_ok_iff.mp h
    rw [map_snd_located]
    refine ⟨?_, rfl, ?_, (length_flatMap_encode is).symm⟩
    · intro e he
      have hmem : e.2 ∈ (located 0 is).map (·.2) := List.mem_map_of_mem he
      rw [map_snd_located] at hmem
      exact his e.2 hmem
    · intro before offset i after hl
      rw [offset_of_located hl, Nat.zero_add]
  · intro e h
    obtain ⟨offset, b, hb, rfl, hboundary, hstuck, hearlier, hfront⟩ := disassemble_eq_error h
    exact ⟨offset, b, hb, hboundary, hstuck, hearlier, hfront, fault_eq offset b⟩
  · intro l h t
    obtain ⟨is, his, rfl, rfl⟩ := disassemble_eq_ok_iff.mp h
    rw [length_flatMap_encode]
    exact disassemble_run_append his t

/-- A push of two bytes, an operation without an operand, and a byte that is no operation. -/
theorem disassemble_exact_push : disassemble [0x0C, 0x02, 0x68, 0x69, 0x40, 0x06] = .error (.unknownOpCode 5 0x06) ∧
    disassemble [0x0C, 0x02, 0x68, 0x69, 0x40] = .ok [(0, ⟨.PUSHDATA1, [0x68, 0x69]⟩), (4, ⟨.RET, []⟩)] ∧
    extent [⟨.PUSHDATA1, [0x68, 0x69]⟩, ⟨.RET, []⟩] = 5 := by
  have hread : disassemble [0x0C, 0x02, 0x68, 0x69, 0x40] =
      .ok [(0, ⟨.PUSHDATA1, [0x68, 0x69]⟩), (4, ⟨.RET, []⟩)] := by
    refine disassemble_eq_ok_iff.mpr ⟨[⟨.PUSHDATA1, [0x68, 0x69]⟩, ⟨.RET, []⟩], ?_, rfl, rfl⟩
    decide
  have hbyte : disassemble [0x06] = .error (.unknownOpCode 0 0x06) := by
    rw [disassemble, disassembleFrom_of_not_begins]
    · rfl
    · rw [begins_cons_iff]
      rintro ⟨op, _, _, hop, -⟩
      cases hop
  obtain ⟨hone, -, htwo⟩ := disassemble_exact [0x0C, 0x02, 0x68, 0x69, 0x40]
  exact ⟨(htwo _ hread [0x06]).2 _ hbyte, hread, (hone _ hread).2.2.2⟩

end Instruction

end N3
