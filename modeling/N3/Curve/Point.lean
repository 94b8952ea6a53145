import N3.Bytes.Fixed
import N3.Curve.Arithmetic
import N3.Text.Hex

/-!
# Public keys

A public key is a point of the curve other than infinity. Its short form is 33 bytes, the parity of `y` and then
`x`; its long form is 65. `ofBytes` takes both and `ofCompressed` only the short one, which is the form on the wire
and inside scripts. Keys are ordered by `x` and then by `y`.
-/

set_option autoImplicit false

namespace N3

inductive KeyError where
  /-- The secret number is zero or not below the order of the group. -/
  | scalarOutOfRange
  /-- The bytes are no form of a point. -/
  | notAPoint (bytes : Bytes)
  /-- The text is not hexadecimal. -/
  | notHex (cause : Hex.Error)
  /-- None of the candidates for a nonce gave a signature. -/
  | noNonce
  deriving DecidableEq, Repr

def KeyError.message : KeyError → String
  | .scalarOutOfRange => "invalid private key: scalar out of range"
  | .notAPoint bytes => "invalid public key: " ++ Hex.encode bytes
  | .notHex cause => "invalid public key: " ++ cause.message
  | .noNonce => "invalid signature: no usable nonce"

/-- A point of the curve other than infinity. -/
structure Point where
  x : Nat
  y : Nat
  onCurve : Curve.IsPoint x y

namespace Point

@[ext] theorem ext {a b : Point} (hx : a.x = b.x) (hy : a.y = b.y) : a = b := by
  cases a; cases b; cases hx; cases hy; rfl

instance : DecidableEq Point := fun a b =>
  if h : a.x = b.x ∧ a.y = b.y then .isTrue (ext h.1 h.2) else .isFalse fun e => h (e ▸ ⟨rfl, rfl⟩)

def ofCoordinates? (x y : Nat) : Option Point :=
  if h : Curve.IsPoint x y then some ⟨x, y, h⟩ else none

/-- The point with this `x` whose `y` is odd or even as asked. -/
def ofParity? (odd : Bool) (x : Nat) : Option Point := do
  let r ← Curve.sqrt? (Curve.rightSide x)
  ofCoordinates? x (if (r % 2 == 1) == odd then r else (Curve.p - r) % Curve.p)

/-! ## Order -/

instance : Ord Point := ⟨fun a b => (compare a.x b.x).then (compare a.y b.y)⟩

def le (a b : Point) : Bool := (compare a b).isLE

/-- The keys in ascending order, repeated ones kept. -/
def sort (keys : List Point) : List Point := keys.mergeSort le

/-! ## Short and long form -/

def xBytes (a : Point) : Bytes := Bytes.ofNatBE 32 a.x

def yBytes (a : Point) : Bytes := Bytes.ofNatBE 32 a.y

/-- The parity of `y` in the first byte, then `x`. -/
def compressed (a : Point) : FixedBytes 33 := ⟨(if a.y % 2 = 1 then 0x03 else 0x02) :: a.xBytes, by simp [xBytes]⟩

def uncompressed (a : Point) : Bytes := 0x04 :: (a.xBytes ++ a.yBytes)

def ofCompressed (bs : Bytes) : Except KeyError Point :=
  let point :=
    match bs with
    | tag :: x =>
      if x.length = 32 ∧ (tag = 0x02 ∨ tag = 0x03) then ofParity? (tag == 0x03) (Bytes.toNatBE x) else none
    | [] => none
  point.elim (.error (.notAPoint bs)) .ok

def ofUncompressed (bs : Bytes) : Except KeyError Point :=
  let point :=
    match bs with
    | tag :: xy =>
      if xy.length = 64 ∧ tag = 0x04 then
        ofCoordinates? (Bytes.toNatBE (xy.take 32)) (Bytes.toNatBE (xy.drop 32))
      else none
    | [] => none
  point.elim (.error (.notAPoint bs)) .ok

def ofBytes (bs : Bytes) : Except KeyError Point :=
  if bs.length = 65 then ofUncompressed bs else ofCompressed bs

/-- Reads either form in hexadecimal, with any number of leading `0x`. -/
def ofHex (text : String) : Except KeyError Point :=
  match Hex.decode (String.ofList (Hex.dropMarks text.toList)) with
  | .ok bs => ofBytes bs
  | .error e => .error (.notHex e)

def toHex (a : Point) : String := Hex.encode a.compressed.bytes

end Point

end N3
