import N3.Bytes
import N3.Text.CharLiteral

/-!
# Hexadecimal

`encode` writes two lower-case digits a byte. `decode` takes digits of either case, and refuses an odd number
of them before it looks at any: otherwise the first byte of the text that is no digit is named, with its index.
-/

set_option autoImplicit false

namespace N3.Hex

inductive Error where
  | oddLength
  | invalidCharacter (byte : UInt8) (index : Nat)
  deriving DecidableEq, Repr

def Error.message : Error → String
  | .oddLength => "Odd number of digits"
  | .invalidCharacter byte index =>
    "Invalid character " ++ CharLiteral.render byte ++ " at position " ++ toString index

def digit (v : UInt8) : UInt8 := if v < 10 then 0x30 + v else 0x57 + v

def value? (c : UInt8) : Option UInt8 :=
  if 0x30 ≤ c && c ≤ 0x39 then some (c - 0x30)
  else if 0x61 ≤ c && c ≤ 0x66 then some (c - 0x57)
  else if 0x41 ≤ c && c ≤ 0x46 then some (c - 0x37)
  else none

def digits (bs : Bytes) : List Char :=
  bs.flatMap fun (b : UInt8) => [Char.ofUInt8 (digit (b >>> 4)), Char.ofUInt8 (digit (b &&& 0x0F))]

def encode (bs : Bytes) : String := String.ofList (digits bs)

def ofByte (b : UInt8) : String := "0x" ++ encode [b]

/-- Reads pairs of digits; `i` is the index of the first, `acc` the bytes so far, last first. -/
def decodePairs (i : Nat) (acc : Bytes) : Bytes → Except Error Bytes
  | hi :: lo :: rest =>
    match value? hi, value? lo with
    | some h, some l => decodePairs (i + 2) ((h <<< 4 ||| l) :: acc) rest
    | none, _ => .error (.invalidCharacter hi i)
    | some _, none => .error (.invalidCharacter lo (i + 1))
  | _ => .ok acc.reverse

def decodeBytes (text : Bytes) : Except Error Bytes :=
  if text.length % 2 = 1 then .error .oddLength else decodePairs 0 [] text

def decode (s : String) : Except Error Bytes := decodeBytes s.toUTF8.toList

/-! ## The mark of hexadecimal -/

/-- The text without one leading `0x`, if it has it. -/
def dropMark : List Char → List Char
  | '0' :: 'x' :: rest => rest
  | cs => cs

/-- The text without any leading `0x`, however often it is repeated. -/
def dropMarks : List Char → List Char
  | '0' :: 'x' :: rest => dropMarks rest
  | cs => cs

end N3.Hex
