import N3.Bytes.Fixed
import N3.Text.Hex

/-!
# Hashes as text

A hash is kept in the order of the wire, least significant byte first, and shown the other way round: `0x` and the
digits from the most significant byte on. One leading `0x` may be left out when it is read.
-/

set_option autoImplicit false

namespace N3

inductive HashError where
  | wrongLength (width found : Nat)
  | notHex (width : Nat) (text : String) (cause : Hex.Error)
  deriving DecidableEq, Repr

namespace FixedBytes

variable {n : Nat}

/-- The name of a hash of `width` bytes counts its bits. -/
def typeName (width : Nat) : String := "UInt" ++ toString (8 * width)

end FixedBytes

def HashError.message : HashError → String
  | .wrongLength width found =>
    FixedBytes.typeName width ++ " needs " ++ toString width ++ " bytes, got " ++ toString found
  | .notHex width text cause =>
    "invalid " ++ FixedBytes.typeName width ++ " '" ++ text ++ "': " ++ cause.message

namespace FixedBytes

variable {n : Nat}

/-- The digits from the most significant byte on. -/
def toHex (a : FixedBytes n) : String := Hex.encode a.bytes.reverse

def toText (a : FixedBytes n) : String := "0x" ++ a.toHex

/-- Takes bytes in the order of the wire. -/
def ofBytes (n : Nat) (bs : Bytes) : Except HashError (FixedBytes n) :=
  (ofBytes? n bs).elim (.error (.wrongLength n bs.length)) .ok

/-- Reads the digits from the most significant byte on, with or without one `0x`. -/
def parse (n : Nat) (text : String) : Except HashError (FixedBytes n) :=
  match Hex.decode (String.ofList (Hex.dropMark text.toList)) with
  | .ok bs => ofBytes n bs.reverse
  | .error e => .error (.notHex n text e)

end FixedBytes

end N3
