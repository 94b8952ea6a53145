import Mathlib.Data.List.Forall2
import N3.Proofs.Vm.Readers
import N3.Script.Invocation

/-!
# The signatures of a script

A script counts as a list of signatures exactly if its instructions push them, in any width of length, and nothing else
(`signatures_eq_ok_iff`). So one that is made to push signatures is read back as those, however many there are
(`signatures_ofSignatures`), and what is read is what the disassembler shows (`readers_agree`).

The length of a script that is made to push signatures depends on their number alone.
-/

set_option autoImplicit false

namespace N3.InvocationScript

theorem data_signature (s : Signature) : Push.data s.bytes = OpCode.PUSHDATA1.byte :: 64 :: s.bytes := by
  rw [Push.data_eq_cons (by rw [s.length_eq]; decide), s.length_eq]
  rfl

theorem length_ofSignatures (signatures : List Signature) :
    (ofSignatures signatures).bytes.length = 66 * signatures.length := by
  induction signatures with
  | nil => rfl
  | cons s signatures ih =>
    have hpush : (Push.data s.bytes).length = 66 := by
      rw [data_signature, List.length_cons, List.length_cons, s.length_eq]
    have hrest : (signatures.flatMap fun s => Push.data s.bytes).length = 66 * signatures.length := ih
    rw [ofSignatures, List.flatMap_cons, List.length_append, hpush, hrest, List.length_cons]
    omega

/-! ## One signature -/

structure Pushes (i : Instruction) (s : Signature) : Prop where
  isWhole : i.IsWhole
  op : i.op ∈ OpCode.dataPushes
  operand : i.operand = s.bytes

def readSignature : Decoder Error Signature := do
  let data ← Push.readData.mapError Error.ofScript
  Decoder.ofOption (FixedBytes.ofBytes? 64 data) (.scriptFormat (.notASignature data.length))

theorem reads_readSignature {i : Instruction} {s : Signature} (h : Pushes i s) : readSignature.Reads i.encode s := by
  rw [← List.append_nil i.encode]
  refine (Push.reads_readData_encode h.isWhole h.op).mapError.bind (Decoder.reads_ofOption ?_ _)
  rw [h.operand, FixedBytes.ofBytes?_bytes]

theorem takes_readSignature : readSignature.Takes fun bs s => ∃ i, Pushes i s ∧ bs = i.encode := by
  refine Push.takes_readData.mapError.bind fun bs p h => Decoder.takes_ofOption fun s hs => ?_
  obtain ⟨i, hi, hop, rfl, rfl⟩ := h
  exact ⟨i, ⟨hi, hop, (FixedBytes.ofBytes?_eq_some hs).symm⟩, List.append_nil _⟩

/-! ## All of them -/

theorem readSignatures_nil (fuel pos : Nat) (marked : Bytes × Nat) :
    readSignatures fuel ⟨[], pos, marked⟩ = (.ok [], ⟨[], pos, marked⟩) := by
  cases fuel <;> rfl

/-- Before the end of the script, one signature is read and then the others. -/
theorem readSignatures_succ (fuel : Nat) {r : Reader} (h : r.rest ≠ []) : readSignatures (fuel + 1) r =
    (do let s ← readSignature; let signatures ← readSignatures fuel; return s :: signatures : Decoder Error _) r := by
  obtain ⟨rest, pos, marked⟩ := r
  cases rest with
  | nil => exact absurd rfl h
  | cons b bs =>
    rw [readSignatures, readSignature, Decoder.bind_bind]
    rfl

/-- One signature takes one unit of fuel, and the end of the script none. -/
theorem readSignatures_run {is : List Instruction} {signatures : List Signature}
    (h : List.Forall₂ Pushes is signatures) {fuel : Nat} (hfuel : is.length ≤ fuel) (pos : Nat)
    (marked : Bytes × Nat) :
    ∃ r, readSignatures fuel ⟨is.flatMap Instruction.encode, pos, marked⟩ = (.ok signatures, r) := by
  induction h generalizing fuel pos with
  | nil => exact ⟨_, readSignatures_nil fuel pos marked⟩
  | @cons i s is signatures hi _ ih =>
    cases fuel with
    | zero => exact absurd hfuel (Nat.not_succ_le_zero _)
    | succ fuel =>
      obtain ⟨r, hr⟩ := ih (Nat.le_of_succ_le_succ hfuel) (pos + i.encode.length)
      have hne : i.encode ++ is.flatMap Instruction.encode ≠ [] := List.cons_ne_nil _ _
      rw [List.flatMap_cons, readSignatures_succ fuel hne,
        Decoder.bind_of_ok (reads_readSignature hi _ pos marked), Decoder.bind_of_ok hr]
      exact ⟨r, rfl⟩

/-- With enough fuel, the signatures that are read are pushed one after the other up to the end. -/
theorem exists_run_of_readSignatures {fuel : Nat} {r r' : Reader} {signatures : List Signature}
    (h : readSignatures fuel r = (.ok signatures, r')) (hfuel : r.rest.length ≤ fuel) :
    ∃ is, List.Forall₂ Pushes is signatures ∧ r.rest = is.flatMap Instruction.encode := by
  induction fuel generalizing r r' signatures with
  | zero =>
    obtain rfl : [] = signatures := Except.ok.inj (Prod.mk.inj h).1
    exact ⟨[], .nil, List.length_eq_zero_iff.mp (Nat.le_zero.mp hfuel)⟩
  | succ fuel ih =>
    by_cases hend : r.rest = []
    · obtain ⟨rest, pos, marked⟩ := r
      obtain rfl : rest = [] := hend
      rw [readSignatures_nil] at h
      obtain rfl : [] = signatures := Except.ok.inj (Prod.mk.inj h).1
      exact ⟨[], .nil, rfl⟩
    · rw [readSignatures_succ fuel hend] at h
      rcases hfirst : readSignature r with ⟨_ | s, r₁⟩
      · rw [Decoder.bind_apply, hfirst] at h
        cases h
      · rw [Decoder.bind_of_ok hfirst] at h
        obtain ⟨_, hrest, i, hi, rfl⟩ := takes_readSignature _ _ _ hfirst
        rcases hothers : readSignatures fuel r₁ with ⟨_ | others, r₂⟩
        · rw [Decoder.bind_apply, hothers] at h
          cases h
        · rw [Decoder.bind_of_ok hothers] at h
          obtain rfl : s :: others = signatures := Except.ok.inj (Prod.mk.inj h).1
          have hshorter : r₁.rest.length ≤ fuel := by
            have hpos := i.size_pos
            rw [hrest, List.length_append, Instruction.length_encode] at hfuel
            omega
          obtain ⟨is, his, hbytes⟩ := ih hothers hshorter
          exact ⟨i :: is, .cons hi his, by rw [hrest, hbytes, List.flatMap_cons]⟩

theorem signatures_eq_ok_iff {v : InvocationScript} {signatures : List Signature} : v.signatures = .ok signatures ↔
    ∃ is, List.Forall₂ Pushes is signatures ∧ v.bytes = is.flatMap Instruction.encode := by
  obtain ⟨bytes⟩ := v
  constructor
  · intro h
    rcases hread : readSignatures bytes.length (Reader.start bytes) with ⟨x, r⟩
    obtain rfl : x = .ok signatures := (congrArg Prod.fst hread).symm.trans h
    exact exists_run_of_readSignatures hread (Nat.le_refl _)
  · rintro ⟨is, his, rfl⟩
    have hfuel : is.length ≤ (is.flatMap Instruction.encode).length := by
      rw [Instruction.length_flatMap_encode]
      exact Instruction.length_le_extent is
    obtain ⟨r, hr⟩ := readSignatures_run his hfuel 0 (is.flatMap Instruction.encode, 0)
    exact congrArg Prod.fst hr

/-- Instructions that push signatures have those as their operands. -/
theorem forall₂_pushes_iff {is : List Instruction} {signatures : List Signature} :
    List.Forall₂ Pushes is signatures ↔ (∀ i ∈ is, i.IsWhole) ∧
      (∀ i ∈ is, i.op ∈ OpCode.dataPushes ∧ i.operand.length = 64) ∧
      signatures.map (·.bytes) = is.map (·.operand) := by
  constructor
  · intro h
    induction h with
    | nil => exact ⟨nofun, nofun, rfl⟩
    | @cons i s _ _ hi _ ih =>
      obtain ⟨hwhole, hpush, hbytes⟩ := ih
      have hlength : i.operand.length = 64 := by rw [hi.operand, s.length_eq]
      exact ⟨List.forall_mem_cons.mpr ⟨hi.isWhole, hwhole⟩, List.forall_mem_cons.mpr ⟨⟨hi.op, hlength⟩, hpush⟩,
        congrArg₂ List.cons hi.operand.symm hbytes⟩
  · rintro ⟨hwhole, hpush, hbytes⟩
    induction is generalizing signatures with
    | nil =>
      obtain rfl := List.map_eq_nil_iff.mp hbytes
      exact .nil
    | cons i is ih =>
      obtain ⟨s, signatures, rfl, hs, hrest⟩ := List.map_eq_cons_iff.mp hbytes
      obtain ⟨hi, hwhole⟩ := List.forall_mem_cons.mp hwhole
      obtain ⟨⟨hop, -⟩, hpush⟩ := List.forall_mem_cons.mp hpush
      exact .cons ⟨hi, hop, hs.symm⟩ (ih hwhole hpush hrest)

/-- The signatures are the operands of the instructions that the script comes apart into, if those are pushes of 64
bytes each. -/
theorem signatures_eq_ok_iff_disassemble {v : InvocationScript} {signatures : List Signature} :
    v.signatures = .ok signatures ↔ ∃ l, Instruction.disassemble v.bytes = .ok l ∧
      (∀ e ∈ l, e.2.op ∈ OpCode.dataPushes ∧ e.2.operand.length = 64) ∧
      signatures.map (·.bytes) = l.map (·.2.operand) := by
  have hoperands := Instruction.exists_disassemble_iff (s := v.bytes) (P := fun is =>
    (∀ i ∈ is, i.op ∈ OpCode.dataPushes ∧ i.operand.length = 64) ∧ signatures.map (·.bytes) = is.map (·.operand))
  simp only [List.forall_mem_map, List.map_map] at hoperands
  refine Iff.trans ?_ hoperands.symm
  simp only [signatures_eq_ok_iff, forall₂_pushes_iff]
  exact exists_congr fun is => by tauto

theorem signatures_ofSignatures (signatures : List Signature) :
    (ofSignatures signatures).signatures = .ok signatures := by
  refine signatures_eq_ok_iff.mpr ⟨signatures.map fun s => ⟨.PUSHDATA1, s.bytes⟩, ?_, ?_⟩
  · rw [List.forall₂_map_left_iff, List.forall₂_same]
    intro s _
    refine ⟨?_, List.mem_cons_self, rfl⟩
    show s.bytes.length < 256
    rw [s.length_eq]
    decide
  · rw [List.flatMap_map, ofSignatures]
    refine List.flatMap_congr fun s _ => ?_
    rw [data_signature, Instruction.encode, s.length_eq]
    rfl

/-! ## Both readers -/

/-- What is read from the front of a script, as bytes or as an integer, is what the disassembler makes one instruction
of, and the signatures of a script are the operands of all of its instructions, if each is a push of 64 bytes. -/
theorem readers_agree (s : Bytes) :
    (∀ p r, Push.readData (Reader.start s) = (.ok p, r) ↔
      ∃ k ≤ s.length, r = Reader.after s k ∧ ∃ i : Instruction, Instruction.disassemble (s.take k) = .ok [(0, i)] ∧
        i.op ∈ [.PUSHDATA1, .PUSHDATA2, .PUSHDATA4] ∧ i.operand = p) ∧
    (∀ v r, Push.readInteger (Reader.start s) = (.ok v, r) ↔
      ∃ k ≤ s.length, r = Reader.after s k ∧ ∃ i : Instruction, Instruction.disassemble (s.take k) = .ok [(0, i)] ∧
        i.integer? = some v) ∧
    (∀ signatures, (InvocationScript.mk s).signatures = .ok signatures ↔
      ∃ l, Instruction.disassemble s = .ok l ∧
        (∀ e ∈ l, e.2.op ∈ [.PUSHDATA1, .PUSHDATA2, .PUSHDATA4] ∧ e.2.operand.length = 64) ∧
        signatures.map (·.bytes) = l.map (·.2.operand)) ∧
    ∀ signatures, (ofSignatures signatures).signatures = .ok signatures :=
  ⟨fun _ _ => Push.readData_eq_ok_iff, fun _ _ => Push.readInteger_eq_ok_iff,
    fun _ => signatures_eq_ok_iff_disassemble, signatures_ofSignatures⟩

end N3.InvocationScript
