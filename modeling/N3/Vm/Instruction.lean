import N3.Codec.Writer
import N3.Vm.Error
import N3.Vm.Service

/-!
# Instructions

An instruction is an operation and its operand; `encode` writes it and `disassemble` reads a script as a list of
them, each with its offset. The script is refused at the first instruction that is not whole, and the error says
where that instruction begins.
-/

set_option autoImplicit false

namespace N3

structure Instruction where
  op : OpCode
  /-- The operand without the length before it. -/
  operand : Bytes
  deriving DecidableEq

namespace Instruction

/-- The byte of the operation, the length of the operand where it has one, and the operand. -/
def encode (i : Instruction) : Bytes :=
  i.op.byte :: (Bytes.ofNatLE i.op.operand.lengthWidth i.operand.length ++ i.operand)

def size (i : Instruction) : Nat := 1 + i.op.operand.lengthWidth + i.operand.length

theorem length_encode (i : Instruction) : i.encode.length = i.size := by
  simp [encode, size]; omega

def extent (is : List Instruction) : Nat := Encode.totalSize size is

def service? (i : Instruction) : Option Service := if i.op = .SYSCALL then Service.ofHash? i.operand else none

/-- The name of the operation, then the name of the service or the digits of the operand. -/
def text (i : Instruction) : String :=
  match i.service? with
  | some s => i.op.name ++ " " ++ s.name
  | none =>
    if i.operand = [] ∧ i.op.operand = .none then i.op.name
    else i.op.name ++ " " ++ Hex.encode i.operand

/-! ## Reading -/

def split? (n : Nat) (bs : Bytes) : Option (Bytes × Bytes) :=
  let (front, rest) := bs.splitAt n
  if front.length = n then some (front, rest) else none

def readOperand? (op : OpCode) (bs : Bytes) : Option (Bytes × Bytes) :=
  match op.operand with
  | .none => some ([], bs)
  | .fixed n => split? n bs
  | .counted w => do
    let (length, rest) ← split? w bs
    split? (Bytes.toNatLE length) rest

theorem split?_length {n : Nat} {bs front rest : Bytes} (h : split? n bs = some (front, rest)) :
    rest.length ≤ bs.length := by
  unfold split? at h
  rw [List.splitAt_eq] at h
  dsimp only at h
  split at h
  · simp only [Option.some.injEq, Prod.mk.injEq] at h
    rw [← h.2]; simp
  · cases h

theorem readOperand?_length {op : OpCode} {bs operand rest : Bytes}
    (h : readOperand? op bs = some (operand, rest)) : rest.length ≤ bs.length := by
  unfold readOperand? at h
  split at h
  · simp only [Option.some.injEq, Prod.mk.injEq] at h
    exact Nat.le_of_eq (congrArg List.length h.2.symm)
  · exact split?_length h
  · simp only [Option.bind_eq_bind, Option.bind_eq_some_iff] at h
    obtain ⟨⟨_, r⟩, h1, h2⟩ := h
    exact Nat.le_trans (split?_length h2) (split?_length h1)

/-- The instructions of a script that begins at `offset`, after those already read, last first. -/
def disassembleFrom (offset : Nat) (acc : List (Nat × Instruction)) :
    Bytes → Except ScriptError (List (Nat × Instruction))
  | [] => .ok acc.reverse
  | b :: bs =>
    match OpCode.ofByte? b with
    | none => .error (.unknownOpCode offset b)
    | some op =>
      match _h : readOperand? op bs with
      | none => .error (.truncatedOperand offset op)
      | some (operand, rest) =>
        let i : Instruction := ⟨op, operand⟩
        disassembleFrom (offset + i.size) ((offset, i) :: acc) rest
termination_by bs => bs.length
decreasing_by
  have := readOperand?_length _h
  simp only [List.length_cons]; omega

def disassemble (script : Bytes) : Except ScriptError (List (Nat × Instruction)) := disassembleFrom 0 [] script

end Instruction

end N3
