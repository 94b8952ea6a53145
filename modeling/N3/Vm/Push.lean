import N3.Codec.Reader
import N3.Vm.Instruction

/-!
# Instructions that push constants

Small integers have an operation each; other integers are written in the narrowest of six widths that holds them,
and bytes after the narrowest of three lengths. What a value adds to a script is an `Emission`: the bytes, and the
reason for stopping if some part of the value cannot be pushed. The bytes before that part stay.

The readers undo this one instruction at a time, and accept the wider forms too.
-/

set_option autoImplicit false

namespace N3

/-- What a run of pushes adds to a script, and why it stopped short, if it did. -/
structure Emission where
  bytes : Bytes
  fault : Option ScriptError := none

namespace Emission

def ofBytes (bs : Bytes) : Emission := ⟨bs, none⟩

def fail (e : ScriptError) : Emission := ⟨[], some e⟩

/-- Goes on with `b` unless `a` stopped short. -/
def andThen (a b : Emission) : Emission :=
  match a.fault with
  | some _ => a
  | none => ⟨a.bytes ++ b.bytes, b.fault⟩

instance : Append Emission := ⟨andThen⟩

def sequence : List Emission → Emission
  | [] => ofBytes []
  | e :: es => e ++ sequence es

def toExcept (e : Emission) : Except ScriptError Bytes := e.fault.elim (.ok e.bytes) .error

end Emission

namespace Push

/-! ## Writing -/

def instruction (op : OpCode) (operand : Bytes) : Bytes := Instruction.encode ⟨op, operand⟩

def null : Bytes := [OpCode.PUSHNULL.byte]

def bool (v : Bool) : Bytes := [if v then OpCode.PUSHT.byte else OpCode.PUSHF.byte]

/-- The widths of integer operands, each with its operation. -/
def widths : List (Nat × OpCode) :=
  [(1, .PUSHINT8), (2, .PUSHINT16), (4, .PUSHINT32), (8, .PUSHINT64), (16, .PUSHINT128), (32, .PUSHINT256)]

/-- The shortest instruction that pushes an integer, if it fits in 256 bits. -/
def integer? (v : Int) : Option Bytes :=
  if -1 ≤ v ∧ v ≤ 16 then some [UInt8.ofNat (0x10 + v).toNat]
  else (widths.find? fun (w, _) => Bytes.fits w v).map fun (w, op) => op.byte :: Bytes.ofIntLE w v

def integer (v : Int) : Emission :=
  match integer? v with
  | some bs => .ofBytes bs
  | none => .fail (.argument (.integerTooLarge v))

/-- The shortest instruction that pushes an integer of 64 bits; one always fits. -/
def int (v : Int64) : Bytes := (integer? v.toInt).getD []

def nat (v : Nat) : Bytes := int (Int64.ofNat v)

/-- The shortest instruction that pushes the bytes. -/
def data (bs : Bytes) : Bytes :=
  let op : OpCode :=
    if bs.length < 0x100 then .PUSHDATA1 else if bs.length < 0x10000 then .PUSHDATA2 else .PUSHDATA4
  instruction op bs

def text (s : String) : Bytes := data s.toUTF8.toList

def service (s : Service) : Bytes := instruction .SYSCALL s.hash

/-- The items in reverse, their count, and the operation that gathers them, so that they come out in order. -/
def array (items : List Emission) : Emission :=
  if items.isEmpty then .ofBytes [OpCode.NEWARRAY0.byte]
  else .sequence items.reverse ++ .ofBytes (nat items.length ++ [OpCode.PACK.byte])

/-- For each entry the value and then the key, then their count and the operation that gathers them. -/
def map (entries : List (Emission × Emission)) : Emission :=
  .sequence (entries.map fun (key, value) => value ++ key) ++
    .ofBytes (nat entries.length ++ [OpCode.PACKMAP.byte])

/-! ## Reading -/

def readOpCode : Decoder ScriptError OpCode := do
  let offset ← Decoder.position
  let b ← Decoder.byte.mapError .decode
  Decoder.ofOption (OpCode.ofByte? b) (.unknownOpCode offset b)

def readData : Decoder ScriptError Bytes := do
  let op ← readOpCode
  if op.pushesData then
    (do Decoder.take (← Decoder.natLE op.operand.lengthWidth)).mapError .decode
  else Decoder.fail (.unexpected (.notData op))

def readInteger : Decoder ScriptError Int := do
  let op ← readOpCode
  if 0x0F ≤ op.byte ∧ op.byte ≤ 0x20 then return (op.byte.toNat : Int) - 0x10
  else if op.pushesInteger then (Decoder.intLE op.operand.size).mapError .decode
  else Decoder.fail (.unexpected (.notInteger op))

def readInt : Decoder ScriptError Int64 := do
  let v ← readInteger
  if Bytes.fits 8 v then return Int64.ofInt v else Decoder.fail (.unexpected (.integerTooWide v))

def readText : Decoder ScriptError String := do
  Decoder.ofOption (Decoder.textOfBytes? (← readData)) (.unexpected .notUtf8)

end Push

end N3
