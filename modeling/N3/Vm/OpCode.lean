/-!
# The instruction set

Each operation has a byte, an operand and a price. An operand has a fixed size or is a run of bytes after its
length; most operations have none. The table is one function, so that a line of it says all that there is to say
about an operation.
-/

set_option autoImplicit false

namespace N3

inductive OperandShape where
  | none
  /-- So many bytes. -/
  | fixed (size : Nat)
  /-- A length of so many bytes, least significant first, and then as many bytes as it says. -/
  | counted (width : Nat)
  deriving DecidableEq, Repr

namespace OperandShape

/-- The number of operand bytes where it is the same for every instruction, zero otherwise. -/
def size : OperandShape → Nat
  | .fixed n => n
  | _ => 0

/-- The number of bytes that hold the length of the operand. -/
def lengthWidth : OperandShape → Nat
  | .counted w => w
  | _ => 0

end OperandShape

inductive OpCode where
  | PUSHINT8 | PUSHINT16 | PUSHINT32 | PUSHINT64 | PUSHINT128 | PUSHINT256 | PUSHT | PUSHF | PUSHA | PUSHNULL
  | PUSHDATA1 | PUSHDATA2 | PUSHDATA4 | PUSHM1 | PUSH0 | PUSH1 | PUSH2 | PUSH3 | PUSH4 | PUSH5 | PUSH6 | PUSH7
  | PUSH8 | PUSH9 | PUSH10 | PUSH11 | PUSH12 | PUSH13 | PUSH14 | PUSH15 | PUSH16 | NOP | JMP | JMP_L | JMPIF
  | JMPIF_L | JMPIFNOT | JMPIFNOT_L | JMPEQ | JMPEQ_L | JMPNE | JMPNE_L | JMPGT | JMPGT_L | JMPGE | JMPGE_L
  | JMPLT | JMPLT_L | JMPLE | JMPLE_L | CALL | CALL_L | CALLA | CALLT | ABORT | ASSERT | THROW | TRY | TRY_L
  | ENDTRY | ENDTRY_L | ENDFINALLY | RET | SYSCALL | DEPTH | DROP | NIP | XDROP | CLEAR | DUP | OVER | PICK
  | TUCK | SWAP | ROT | ROLL | REVERSE3 | REVERSE4 | REVERSEN | INITSSLOT | INITSLOT | LDSFLD0 | LDSFLD1
  | LDSFLD2 | LDSFLD3 | LDSFLD4 | LDSFLD5 | LDSFLD6 | LDSFLD | STSFLD0 | STSFLD1 | STSFLD2 | STSFLD3 | STSFLD4
  | STSFLD5 | STSFLD6 | STSFLD | LDLOC0 | LDLOC1 | LDLOC2 | LDLOC3 | LDLOC4 | LDLOC5 | LDLOC6 | LDLOC | STLOC0
  | STLOC1 | STLOC2 | STLOC3 | STLOC4 | STLOC5 | STLOC6 | STLOC | LDARG0 | LDARG1 | LDARG2 | LDARG3 | LDARG4
  | LDARG5 | LDARG6 | LDARG | STARG0 | STARG1 | STARG2 | STARG3 | STARG4 | STARG5 | STARG6 | STARG | NEWBUFFER
  | MEMCPY | CAT | SUBSTR | LEFT | RIGHT | INVERT | AND | OR | XOR | EQUAL | NOTEQUAL | SIGN | ABS | NEGATE
  | INC | DEC | ADD | SUB | MUL | DIV | MOD | POW | SQRT | MODMUL | MODPOW | SHL | SHR | NOT | BOOLAND | BOOLOR
  | NZ | NUMEQUAL | NUMNOTEQUAL | LT | LE | GT | GE | MIN | MAX | WITHIN | PACKMAP | PACKSTRUCT | PACK | UNPACK
  | NEWARRAY0 | NEWARRAY | NEWARRAY_T | NEWSTRUCT0 | NEWSTRUCT | NEWMAP | SIZE | HASKEY | KEYS | VALUES
  | PICKITEM | APPEND | SETITEM | REVERSEITEMS | REMOVE | CLEARITEMS | POPITEM | ISNULL | ISTYPE | CONVERT
  | ABORTMSG | ASSERTMSG
  deriving DecidableEq, Repr

namespace OpCode

structure Entry where
  name : String
  byte : UInt8
  operand : OperandShape
  /-- In the smallest unit of the fee token, before the node's factor. -/
  price : Nat

def entry : OpCode → Entry
  | PUSHINT8 => ⟨"PUSHINT8", 0x00, .fixed 1, 1⟩
  | PUSHINT16 => ⟨"PUSHINT16", 0x01, .fixed 2, 1⟩
  | PUSHINT32 => ⟨"PUSHINT32", 0x02, .fixed 4, 1⟩
  | PUSHINT64 => ⟨"PUSHINT64", 0x03, .fixed 8, 1⟩
  | PUSHINT128 => ⟨"PUSHINT128", 0x04, .fixed 16, 4⟩
  | PUSHINT256 => ⟨"PUSHINT256", 0x05, .fixed 32, 4⟩
  | PUSHT => ⟨"PUSHT", 0x08, .none, 1⟩
  | PUSHF => ⟨"PUSHF", 0x09, .none, 1⟩
  | PUSHA => ⟨"PUSHA", 0x0A, .fixed 4, 4⟩
  | PUSHNULL => ⟨"PUSHNULL", 0x0B, .none, 1⟩
  | PUSHDATA1 => ⟨"PUSHDATA1", 0x0C, .counted 1, 8⟩
  | PUSHDATA2 => ⟨"PUSHDATA2", 0x0D, .counted 2, 512⟩
  | PUSHDATA4 => ⟨"PUSHDATA4", 0x0E, .counted 4, 4096⟩
  | PUSHM1 => ⟨"PUSHM1", 0x0F, .none, 1⟩
  | PUSH0 => ⟨"PUSH0", 0x10, .none, 1⟩
  | PUSH1 => ⟨"PUSH1", 0x11, .none, 1⟩
  | PUSH2 => ⟨"PUSH2", 0x12, .none, 1⟩
  | PUSH3 => ⟨"PUSH3", 0x13, .none, 1⟩
  | PUSH4 => ⟨"PUSH4", 0x14, .none, 1⟩
  | PUSH5 => ⟨"PUSH5", 0x15, .none, 1⟩
  | PUSH6 => ⟨"PUSH6", 0x16, .none, 1⟩
  | PUSH7 => ⟨"PUSH7", 0x17, .none, 1⟩
  | PUSH8 => ⟨"PUSH8", 0x18, .none, 1⟩
  | PUSH9 => ⟨"PUSH9", 0x19, .none, 1⟩
  | PUSH10 => ⟨"PUSH10", 0x1A, .none, 1⟩
  | PUSH11 => ⟨"PUSH11", 0x1B, .none, 1⟩
  | PUSH12 => ⟨"PUSH12", 0x1C, .none, 1⟩
  | PUSH13 => ⟨"PUSH13", 0x1D, .none, 1⟩
  | PUSH14 => ⟨"PUSH14", 0x1E, .none, 1⟩
  | PUSH15 => ⟨"PUSH15", 0x1F, .none, 1⟩
  | PUSH16 => ⟨"PUSH16", 0x20, .none, 1⟩
  | NOP => ⟨"NOP", 0x21, .none, 1⟩
  | JMP => ⟨"JMP", 0x22, .fixed 1, 2⟩
  | JMP_L => ⟨"JMP_L", 0x23, .fixed 4, 2⟩
  | JMPIF => ⟨"JMPIF", 0x24, .fixed 1, 2⟩
  | JMPIF_L => ⟨"JMPIF_L", 0x25, .fixed 4, 2⟩
  | JMPIFNOT => ⟨"JMPIFNOT", 0x26, .fixed 1, 2⟩
  | JMPIFNOT_L => ⟨"JMPIFNOT_L", 0x27, .fixed 4, 2⟩
  | JMPEQ => ⟨"JMPEQ", 0x28, .fixed 1, 2⟩
  | JMPEQ_L => ⟨"JMPEQ_L", 0x29, .fixed 4, 2⟩
  | JMPNE => ⟨"JMPNE", 0x2A, .fixed 1, 2⟩
  | JMPNE_L => ⟨"JMPNE_L", 0x2B, .fixed 4, 2⟩
  | JMPGT => ⟨"JMPGT", 0x2C, .fixed 1, 2⟩
  | JMPGT_L => ⟨"JMPGT_L", 0x2D, .fixed 4, 2⟩
  | JMPGE => ⟨"JMPGE", 0x2E, .fixed 1, 2⟩
  | JMPGE_L => ⟨"JMPGE_L", 0x2F, .fixed 4, 2⟩
  | JMPLT => ⟨"JMPLT", 0x30, .fixed 1, 2⟩
  | JMPLT_L => ⟨"JMPLT_L", 0x31, .fixed 4, 2⟩
  | JMPLE => ⟨"JMPLE", 0x32, .fixed 1, 2⟩
  | JMPLE_L => ⟨"JMPLE_L", 0x33, .fixed 4, 2⟩
  | CALL => ⟨"CALL", 0x34, .fixed 1, 512⟩
  | CALL_L => ⟨"CALL_L", 0x35, .fixed 4, 512⟩
  | CALLA => ⟨"CALLA", 0x36, .none, 512⟩
  | CALLT => ⟨"CALLT", 0x37, .fixed 2, 32768⟩
  | ABORT => ⟨"ABORT", 0x38, .none, 0⟩
  | ASSERT => ⟨"ASSERT", 0x39, .none, 1⟩
  | THROW => ⟨"THROW", 0x3A, .none, 512⟩
  | TRY => ⟨"TRY", 0x3B, .fixed 2, 4⟩
  | TRY_L => ⟨"TRY_L", 0x3C, .fixed 8, 4⟩
  | ENDTRY => ⟨"ENDTRY", 0x3D, .fixed 1, 4⟩
  | ENDTRY_L => ⟨"ENDTRY_L", 0x3E, .fixed 4, 4⟩
  | ENDFINALLY => ⟨"ENDFINALLY", 0x3F, .none, 4⟩
  | RET => ⟨"RET", 0x40, .none, 0⟩
  | SYSCALL => ⟨"SYSCALL", 0x41, .fixed 4, 0⟩
  | DEPTH => ⟨"DEPTH", 0x43, .none, 2⟩
  | DROP => ⟨"DROP", 0x45, .none, 2⟩
  | NIP => ⟨"NIP", 0x46, .none, 2⟩
  | XDROP => ⟨"XDROP", 0x48, .none, 16⟩
  | CLEAR => ⟨"CLEAR", 0x49, .none, 16⟩
  | DUP => ⟨"DUP", 0x4A, .none, 2⟩
  | OVER => ⟨"OVER", 0x4B, .none, 2⟩
  | PICK => ⟨"PICK", 0x4D, .none, 2⟩
  | TUCK => ⟨"TUCK", 0x4E, .none, 2⟩
  | SWAP => ⟨"SWAP", 0x50, .none, 2⟩
  | ROT => ⟨"ROT", 0x51, .none, 2⟩
  | ROLL => ⟨"ROLL", 0x52, .none, 16⟩
  | REVERSE3 => ⟨"REVERSE3", 0x53, .none, 2⟩
  | REVERSE4 => ⟨"REVERSE4", 0x54, .none, 2⟩
  | REVERSEN => ⟨"REVERSEN", 0x55, .none, 16⟩
  | INITSSLOT => ⟨"INITSSLOT", 0x56, .fixed 1, 16⟩
  | INITSLOT => ⟨"INITSLOT", 0x57, .fixed 2, 64⟩
  | LDSFLD0 => ⟨"LDSFLD0", 0x58, .none, 2⟩
  | LDSFLD1 => ⟨"LDSFLD1", 0x59, .none, 2⟩
  | LDSFLD2 => ⟨"LDSFLD2", 0x5A, .none, 2⟩
  | LDSFLD3 => ⟨"LDSFLD3", 0x5B, .none, 2⟩
  | LDSFLD4 => ⟨"LDSFLD4", 0x5C, .none, 2⟩
  | LDSFLD5 => ⟨"LDSFLD5", 0x5D, .none, 2⟩
  | LDSFLD6 => ⟨"LDSFLD6", 0x5E, .none, 2⟩
  | LDSFLD => ⟨"LDSFLD", 0x5F, .fixed 1, 2⟩
  | STSFLD0 => ⟨"STSFLD0", 0x60, .none, 2⟩
  | STSFLD1 => ⟨"STSFLD1", 0x61, .none, 2⟩
  | STSFLD2 => ⟨"STSFLD2", 0x62, .none, 2⟩
  | STSFLD3 => ⟨"STSFLD3", 0x63, .none, 2⟩
  | STSFLD4 => ⟨"STSFLD4", 0x64, .none, 2⟩
  | STSFLD5 => ⟨"STSFLD5", 0x65, .none, 2⟩
  | STSFLD6 => ⟨"STSFLD6", 0x66, .none, 2⟩
  | STSFLD => ⟨"STSFLD", 0x67, .fixed 1, 2⟩
  | LDLOC0 => ⟨"LDLOC0", 0x68, .none, 2⟩
  | LDLOC1 => ⟨"LDLOC1", 0x69, .none, 2⟩
  | LDLOC2 => ⟨"LDLOC2", 0x6A, .none, 2⟩
  | LDLOC3 => ⟨"LDLOC3", 0x6B, .none, 2⟩
  | LDLOC4 => ⟨"LDLOC4", 0x6C, .none, 2⟩
  | LDLOC5 => ⟨"LDLOC5", 0x6D, .none, 2⟩
  | LDLOC6 => ⟨"LDLOC6", 0x6E, .none, 2⟩
  | LDLOC => ⟨"LDLOC", 0x6F, .fixed 1, 2⟩
  | STLOC0 => ⟨"STLOC0", 0x70, .none, 2⟩
  | STLOC1 => ⟨"STLOC1", 0x71, .none, 2⟩
  | STLOC2 => ⟨"STLOC2", 0x72, .none, 2⟩
  | STLOC3 => ⟨"STLOC3", 0x73, .none, 2⟩
  | STLOC4 => ⟨"STLOC4", 0x74, .none, 2⟩
  | STLOC5 => ⟨"STLOC5", 0x75, .none, 2⟩
  | STLOC6 => ⟨"STLOC6", 0x76, .none, 2⟩
  | STLOC => ⟨"STLOC", 0x77, .fixed 1, 2⟩
  | LDARG0 => ⟨"LDARG0", 0x78, .none, 2⟩
  | LDARG1 => ⟨"LDARG1", 0x79, .none, 2⟩
  | LDARG2 => ⟨"LDARG2", 0x7A, .none, 2⟩
  | LDARG3 => ⟨"LDARG3", 0x7B, .none, 2⟩
  | LDARG4 => ⟨"LDARG4", 0x7C, .none, 2⟩
  | LDARG5 => ⟨"LDARG5", 0x7D, .none, 2⟩
  | LDARG6 => ⟨"LDARG6", 0x7E, .none, 2⟩
  | LDARG => ⟨"LDARG", 0x7F, .fixed 1, 2⟩
  | STARG0 => ⟨"STARG0", 0x80, .none, 2⟩
  | STARG1 => ⟨"STARG1", 0x81, .none, 2⟩
  | STARG2 => ⟨"STARG2", 0x82, .none, 2⟩
  | STARG3 => ⟨"STARG3", 0x83, .none, 2⟩
  | STARG4 => ⟨"STARG4", 0x84, .none, 2⟩
  | STARG5 => ⟨"STARG5", 0x85, .none, 2⟩
  | STARG6 => ⟨"STARG6", 0x86, .none, 2⟩
  | STARG => ⟨"STARG", 0x87, .fixed 1, 2⟩
  | NEWBUFFER => ⟨"NEWBUFFER", 0x88, .none, 256⟩
  | MEMCPY => ⟨"MEMCPY", 0x89, .none, 2048⟩
  | CAT => ⟨"CAT", 0x8B, .none, 2048⟩
  | SUBSTR => ⟨"SUBSTR", 0x8C, .none, 2048⟩
  | LEFT => ⟨"LEFT", 0x8D, .none, 2048⟩
  | RIGHT => ⟨"RIGHT", 0x8E, .none, 2048⟩
  | INVERT => ⟨"INVERT", 0x90, .none, 4⟩
  | AND => ⟨"AND", 0x91, .none, 8⟩
  | OR => ⟨"OR", 0x92, .none, 8⟩
  | XOR => ⟨"XOR", 0x93, .none, 8⟩
  | EQUAL => ⟨"EQUAL", 0x97, .none, 32⟩
  | NOTEQUAL => ⟨"NOTEQUAL", 0x98, .none, 32⟩
  | SIGN => ⟨"SIGN", 0x99, .none, 4⟩
  | ABS => ⟨"ABS", 0x9A, .none, 4⟩
  | NEGATE => ⟨"NEGATE", 0x9B, .none, 4⟩
  | INC => ⟨"INC", 0x9C, .none, 4⟩
  | DEC => ⟨"DEC", 0x9D, .none, 4⟩
  | ADD => ⟨"ADD", 0x9E, .none, 8⟩
  | SUB => ⟨"SUB", 0x9F, .none, 8⟩
  | MUL => ⟨"MUL", 0xA0, .none, 8⟩
  | DIV => ⟨"DIV", 0xA1, .none, 8⟩
  | MOD => ⟨"MOD", 0xA2, .none, 8⟩
  | POW => ⟨"POW", 0xA3, .none, 64⟩
  | SQRT => ⟨"SQRT", 0xA4, .none, 64⟩
  | MODMUL => ⟨"MODMUL", 0xA5, .none, 32⟩
  | MODPOW => ⟨"MODPOW", 0xA6, .none, 2048⟩
  | SHL => ⟨"SHL", 0xA8, .none, 8⟩
  | SHR => ⟨"SHR", 0xA9, .none, 8⟩
  | NOT => ⟨"NOT", 0xAA, .none, 4⟩
  | BOOLAND => ⟨"BOOLAND", 0xAB, .none, 8⟩
  | BOOLOR => ⟨"BOOLOR", 0xAC, .none, 8⟩
  | NZ => ⟨"NZ", 0xB1, .none, 4⟩
  | NUMEQUAL => ⟨"NUMEQUAL", 0xB3, .none, 8⟩
  | NUMNOTEQUAL => ⟨"NUMNOTEQUAL", 0xB4, .none, 8⟩
  | LT => ⟨"LT", 0xB5, .none, 8⟩
  | LE => ⟨"LE", 0xB6, .none, 8⟩
  | GT => ⟨"GT", 0xB7, .none, 8⟩
  | GE => ⟨"GE", 0xB8, .none, 8⟩
  | MIN => ⟨"MIN", 0xB9, .none, 8⟩
  | MAX => ⟨"MAX", 0xBA, .none, 8⟩
  | WITHIN => ⟨"WITHIN", 0xBB, .none, 8⟩
  | PACKMAP => ⟨"PACKMAP", 0xBE, .none, 2048⟩
  | PACKSTRUCT => ⟨"PACKSTRUCT", 0xBF, .none, 2048⟩
  | PACK => ⟨"PACK", 0xC0, .none, 2048⟩
  | UNPACK => ⟨"UNPACK", 0xC1, .none, 2048⟩
  | NEWARRAY0 => ⟨"NEWARRAY0", 0xC2, .none, 16⟩
  | NEWARRAY => ⟨"NEWARRAY", 0xC3, .none, 512⟩
  | NEWARRAY_T => ⟨"NEWARRAY_T", 0xC4, .fixed 1, 512⟩
  | NEWSTRUCT0 => ⟨"NEWSTRUCT0", 0xC5, .none, 16⟩
  | NEWSTRUCT => ⟨"NEWSTRUCT", 0xC6, .none, 512⟩
  | NEWMAP => ⟨"NEWMAP", 0xC8, .none, 8⟩
  | SIZE => ⟨"SIZE", 0xCA, .none, 4⟩
  | HASKEY => ⟨"HASKEY", 0xCB, .none, 64⟩
  | KEYS => ⟨"KEYS", 0xCC, .none, 16⟩
  | VALUES => ⟨"VALUES", 0xCD, .none, 8192⟩
  | PICKITEM => ⟨"PICKITEM", 0xCE, .none, 64⟩
  | APPEND => ⟨"APPEND", 0xCF, .none, 8192⟩
  | SETITEM => ⟨"SETITEM", 0xD0, .none, 8192⟩
  | REVERSEITEMS => ⟨"REVERSEITEMS", 0xD1, .none, 8192⟩
  | REMOVE => ⟨"REMOVE", 0xD2, .none, 16⟩
  | CLEARITEMS => ⟨"CLEARITEMS", 0xD3, .none, 16⟩
  | POPITEM => ⟨"POPITEM", 0xD4, .none, 16⟩
  | ISNULL => ⟨"ISNULL", 0xD8, .none, 2⟩
  | ISTYPE => ⟨"ISTYPE", 0xD9, .fixed 1, 2⟩
  | CONVERT => ⟨"CONVERT", 0xDB, .fixed 1, 8192⟩
  | ABORTMSG => ⟨"ABORTMSG", 0xE0, .none, 0⟩
  | ASSERTMSG => ⟨"ASSERTMSG", 0xE1, .none, 1⟩

def name (op : OpCode) : String := op.entry.name
def byte (op : OpCode) : UInt8 := op.entry.byte
def operand (op : OpCode) : OperandShape := op.entry.operand
def price (op : OpCode) : Nat := op.entry.price

def all : List OpCode := [
  .PUSHINT8, .PUSHINT16, .PUSHINT32, .PUSHINT64, .PUSHINT128, .PUSHINT256, .PUSHT, .PUSHF, .PUSHA, .PUSHNULL,
  .PUSHDATA1, .PUSHDATA2, .PUSHDATA4, .PUSHM1, .PUSH0, .PUSH1, .PUSH2, .PUSH3, .PUSH4, .PUSH5, .PUSH6, .PUSH7,
  .PUSH8, .PUSH9, .PUSH10, .PUSH11, .PUSH12, .PUSH13, .PUSH14, .PUSH15, .PUSH16, .NOP, .JMP, .JMP_L, .JMPIF,
  .JMPIF_L, .JMPIFNOT, .JMPIFNOT_L, .JMPEQ, .JMPEQ_L, .JMPNE, .JMPNE_L, .JMPGT, .JMPGT_L, .JMPGE, .JMPGE_L,
  .JMPLT, .JMPLT_L, .JMPLE, .JMPLE_L, .CALL, .CALL_L, .CALLA, .CALLT, .ABORT, .ASSERT, .THROW, .TRY, .TRY_L,
  .ENDTRY, .ENDTRY_L, .ENDFINALLY, .RET, .SYSCALL, .DEPTH, .DROP, .NIP, .XDROP, .CLEAR, .DUP, .OVER, .PICK,
  .TUCK, .SWAP, .ROT, .ROLL, .REVERSE3, .REVERSE4, .REVERSEN, .INITSSLOT, .INITSLOT, .LDSFLD0, .LDSFLD1,
  .LDSFLD2, .LDSFLD3, .LDSFLD4, .LDSFLD5, .LDSFLD6, .LDSFLD, .STSFLD0, .STSFLD1, .STSFLD2, .STSFLD3, .STSFLD4,
  .STSFLD5, .STSFLD6, .STSFLD, .LDLOC0, .LDLOC1, .LDLOC2, .LDLOC3, .LDLOC4, .LDLOC5, .LDLOC6, .LDLOC, .STLOC0,
  .STLOC1, .STLOC2, .STLOC3, .STLOC4, .STLOC5, .STLOC6, .STLOC, .LDARG0, .LDARG1, .LDARG2, .LDARG3, .LDARG4,
  .LDARG5, .LDARG6, .LDARG, .STARG0, .STARG1, .STARG2, .STARG3, .STARG4, .STARG5, .STARG6, .STARG, .NEWBUFFER,
  .MEMCPY, .CAT, .SUBSTR, .LEFT, .RIGHT, .INVERT, .AND, .OR, .XOR, .EQUAL, .NOTEQUAL, .SIGN, .ABS, .NEGATE,
  .INC, .DEC, .ADD, .SUB, .MUL, .DIV, .MOD, .POW, .SQRT, .MODMUL, .MODPOW, .SHL, .SHR, .NOT, .BOOLAND, .BOOLOR,
  .NZ, .NUMEQUAL, .NUMNOTEQUAL, .LT, .LE, .GT, .GE, .MIN, .MAX, .WITHIN, .PACKMAP, .PACKSTRUCT, .PACK, .UNPACK,
  .NEWARRAY0, .NEWARRAY, .NEWARRAY_T, .NEWSTRUCT0, .NEWSTRUCT, .NEWMAP, .SIZE, .HASKEY, .KEYS, .VALUES,
  .PICKITEM, .APPEND, .SETITEM, .REVERSEITEMS, .REMOVE, .CLEARITEMS, .POPITEM, .ISNULL, .ISTYPE, .CONVERT,
  .ABORTMSG, .ASSERTMSG]

def ofByte? (b : UInt8) : Option OpCode := all.find? fun op => op.byte == b

def ofName? (s : String) : Option OpCode := all.find? fun op => op.name == s

/-- Whether the operation pushes an integer of its own or from its operand. -/
def pushesInteger (op : OpCode) : Bool := op.byte ≤ 0x05 || (0x0F ≤ op.byte && op.byte ≤ 0x20)

/-- Whether the operation pushes its operand as bytes. -/
def pushesData (op : OpCode) : Bool := op == .PUSHDATA1 || op == .PUSHDATA2 || op == .PUSHDATA4

end OpCode

end N3
