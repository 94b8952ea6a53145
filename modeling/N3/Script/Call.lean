import N3.Parameter
import N3.Vm.CallFlags

/-!
# Scripts that call a contract

`contractCall` pushes the arguments as one array, the permissions, the method and the contract, and calls. When the
method answers with an iterator, `unwrapIterator` adds a loop that takes items from it into an array until there
are no more or the array holds as many as it may.
-/

set_option autoImplicit false

namespace N3.Script

def contractCall (contract : Hash160) (method : String) (arguments : List Emission) (flags : CallFlags) : Emission :=
  Push.array arguments ++
    .ofBytes (Push.nat flags.bits.toNat ++ Push.text method ++ Push.data contract.bytes ++ Push.service .contractCall)

/-! ## The loop over an iterator

The stack holds the limit, the iterator and the array, the array on top. -/

def assemble (is : List Instruction) : Bytes := is.flatMap Instruction.encode

def plain (op : OpCode) : Instruction := ⟨op, []⟩

def call (s : Service) : Instruction := ⟨.SYSCALL, s.hash⟩

/-- A jump over so many bytes, counted from the jump itself. -/
def jump (op : OpCode) (distance : Int) : Instruction := ⟨op, Bytes.ofIntLE 1 distance⟩

/-- Moves the iterator to its next item, and asks whether there is one. -/
def advance : List Instruction := [plain .OVER, call .iteratorNext]

/-- Appends the current item to the array, and asks whether the array is full. -/
def collect : List Instruction :=
  [plain .DUP, plain .PUSH2, plain .PICK, call .iteratorValue, plain .APPEND,
   plain .DUP, plain .SIZE, plain .PUSH3, plain .PICK, plain .GE]

def jumpSize : Nat := 2

/-- The loop: both jumps forward land behind it, the jump back on its first instruction. -/
def drain : List Instruction :=
  advance ++ jump .JMPIFNOT (Instruction.extent collect + 3 * jumpSize) :: collect ++
    [jump .JMPIF (2 * jumpSize),
     jump .JMP (-((Instruction.extent advance + Instruction.extent collect + 2 * jumpSize : Nat) : Int))]

/-- Calls a method and leaves the array of at most `max` items of the iterator that it answers with. -/
def unwrapIterator (contract : Hash160) (method : String) (arguments : List Emission) (max : UInt32)
    (flags : CallFlags) : Emission :=
  .ofBytes (Push.nat max.toNat) ++ contractCall contract method arguments flags ++
    .ofBytes (assemble (plain .NEWARRAY0 :: drain ++ [plain .NIP, plain .NIP]))

end N3.Script
