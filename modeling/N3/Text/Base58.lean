import N3.Hash
import N3.Text.CharLiteral

/-!
# Base58 with a checksum

A run of bytes is read as one number, most significant byte first, and written with fifty-eight digits; each
leading zero byte is written as a leading `1`, the digit zero. With a checksum, four bytes of the double hash of
the payload follow it. A text that is refused is refused at its first bad character, then for being too short to
hold a checksum, then for the checksum.
-/

set_option autoImplicit false

namespace N3.Base58

inductive Error where
  | nonAscii (index : Nat)
  | invalidCharacter (byte : UInt8) (index : Nat)
  | noChecksum
  | badChecksum (calculated found : Bytes)
  deriving DecidableEq, Repr

/-- Bytes as a bracketed list of decimal numbers. -/
def showBytes (bs : Bytes) : String := "[" ++ ", ".intercalate (bs.map fun (b : UInt8) => toString b.toNat) ++ "]"

def Error.message : Error → String
  | .nonAscii index =>
    "provided string contained non-ascii character starting at byte " ++ toString index
  | .invalidCharacter byte index =>
    "provided string contained invalid character " ++ CharLiteral.render byte ++ " at byte " ++ toString index
  | .noChecksum => "provided string is too small to contain a checksum"
  | .badChecksum calculated found =>
    "invalid checksum, calculated checksum: '" ++ showBytes calculated ++ "', expected checksum: " ++ showBytes found

/-! ## Numbers in a base -/

/-- The digits of `v` in base `b`, least significant first, with no leading zero; none for zero. -/
def digits (b : Nat) (hb : 1 < b) (v : Nat) : List Nat :=
  if _h : v = 0 then [] else v % b :: digits b hb (v / b)
termination_by v
decreasing_by exact Nat.div_lt_self (Nat.pos_of_ne_zero _h) hb

/-- The number with these digits in base `b`, most significant first. -/
def ofDigits (b : Nat) (ds : List Nat) : Nat := ds.foldl (fun v d => v * b + d) 0

/-! ## The alphabet -/

/-- Digits and letters without `0`, `O`, `I` and `l`. -/
def alphabet : List Char := "123456789ABCDEFGHJKLMNPQRSTUVWXYZabcdefghijkmnopqrstuvwxyz".toList

def char (d : Nat) : Char := alphabet.getD d '1'

def value? (c : UInt8) : Option Nat := alphabet.findIdx? (· == Char.ofUInt8 c)

/-! ## Plain text form -/

def encodeChars (bs : Bytes) : List Char :=
  let zeros := bs.takeWhile (· == 0)
  zeros.map (fun _ => '1') ++ (digits 58 (by decide) (Bytes.toNatBE bs)).reverse.map char

/-- The digits of a text given as its UTF-8 bytes; `i` is the index of the first, `acc` the digits so far, last
first. -/
def readDigits (i : Nat) (acc : List Nat) : Bytes → Except Error (List Nat)
  | [] => .ok acc.reverse
  | c :: rest =>
    if 0x7F < c then .error (.nonAscii i)
    else match value? c with
      | some d => readDigits (i + 1) (d :: acc) rest
      | none => .error (.invalidCharacter c i)

def bytesOfDigits (ds : List Nat) : Bytes :=
  (ds.takeWhile (· == 0)).map (fun _ => 0) ++
    ((digits 256 (by decide) (ofDigits 58 ds)).reverse.map UInt8.ofNat)

def decodeBytes (text : Bytes) : Except Error Bytes := (readDigits 0 [] text).map bytesOfDigits

/-! ## With a checksum -/

def checksum (payload : Bytes) : Bytes := (Hash.hash256 payload).bytes.take 4

def encodeChecked (payload : Bytes) : String := String.ofList (encodeChars (payload ++ checksum payload))

def decodeChecked (s : String) : Except Error Bytes := do
  let bs ← decodeBytes s.toUTF8.toList
  if bs.length < 4 then throw .noChecksum
  let payload := bs.take (bs.length - 4)
  let found := bs.drop (bs.length - 4)
  if checksum payload = found then return payload
  throw (.badChecksum (checksum payload) found)

end N3.Base58
