import N3.Curve.Point
import N3.Hash

/-!
# Secret keys and signatures

A secret key is a number below the order of the group, and its public key that multiple of the base point. A
signature is the pair `(r, s)` of ECDSA over SHA-256. Its nonce is drawn from the key and the message by a keyed
hash, so that signing needs no chance and the same message has the same signature; `s` is left as it comes out.
-/

set_option autoImplicit false

namespace N3

/-- A number between 1 and the order of the group. -/
structure SecretKey where
  scalar : Nat
  pos : 0 < scalar
  lt : scalar < Curve.n

namespace SecretKey

@[ext] theorem ext {a b : SecretKey} (h : a.scalar = b.scalar) : a = b := by
  cases a; cases b; cases h; rfl

def ofScalar (v : Nat) : Except KeyError SecretKey :=
  if h : 0 < v ∧ v < Curve.n then .ok ⟨v, h.1, h.2⟩ else .error .scalarOutOfRange

/-- Reads a key from its 32 bytes, most significant first. -/
def ofBytes (bs : FixedBytes 32) : Except KeyError SecretKey := ofScalar (Bytes.toNatBE bs.bytes)

def bytes (k : SecretKey) : FixedBytes 32 := ⟨Bytes.ofNatBE 32 k.scalar, Bytes.length_ofNatBE _ _⟩

def publicKey (k : SecretKey) : Except KeyError Point :=
  match (Curve.generator.scale k.scalar).affine? with
  | some (x, y) => (Point.ofCoordinates? x y).elim (.error .scalarOutOfRange) .ok
  | none => .error .scalarOutOfRange

end SecretKey

namespace Ecdsa

def challenge (message : Bytes) : Nat := Bytes.toNatBE (Sha256.digest message).bytes

/-! ## Nonces -/

/-- The state of the generator of nonces: a key and the last value. -/
structure Drawer where
  key : Bytes
  value : Bytes

def Drawer.mix (d : Drawer) (tag : UInt8) (more : Bytes) : Drawer :=
  let key := (Hash.hmac d.key (d.value ++ tag :: more)).bytes
  ⟨key, (Hash.hmac key d.value).bytes⟩

def Drawer.start (k : SecretKey) (z : Nat) : Drawer :=
  let seed := k.bytes.bytes ++ Bytes.ofNatBE 32 (z % Curve.n)
  ((Drawer.mk (List.replicate 32 0) (List.replicate 32 1)).mix 0x00 seed).mix 0x01 seed

def Drawer.next (d : Drawer) : Drawer := { d with value := (Hash.hmac d.key d.value).bytes }

/-! ## Signing and verifying -/

def pair (r s : Nat) : Signature := ⟨Bytes.ofNatBE 32 r ++ Bytes.ofNatBE 32 s, by simp⟩

/-- The signature that a nonce gives, if neither of its numbers is zero. -/
def withNonce? (k : SecretKey) (z nonce : Nat) : Option Signature := do
  if nonce = 0 ∨ Curve.n ≤ nonce then none
  let (x, _) ← (Curve.generator.scale nonce).affine?
  let r := x % Curve.n
  let s := Curve.inverse Curve.n nonce * ((z + r * k.scalar) % Curve.n) % Curve.n
  if r = 0 ∨ s = 0 then none else some (pair r s)

/-- The first signature among those of the next `tries` nonces. -/
def search (k : SecretKey) (z : Nat) : Nat → Drawer → Option Signature
  | 0, _ => none
  | tries + 1, d =>
    let d := d.next
    match withNonce? k z (Bytes.toNatBE d.value) with
    | some signature => some signature
    | none => search k z tries (d.mix 0x00 [])

/-- Signs a message. All but one nonce in four thousand million succeed at once. -/
def sign (k : SecretKey) (message : Bytes) : Except KeyError Signature :=
  let z := challenge message
  (search k z 64 (Drawer.start k z)).elim (.error .noNonce) .ok

/-- Whether the bytes are a signature of the message under the key. Bytes of another length, and numbers that are
zero or not below the order of the group, are a signature of nothing. -/
def verify (key : Point) (message signature : Bytes) : Bool :=
  let r := Bytes.toNatBE (signature.take 32)
  let s := Bytes.toNatBE (signature.drop 32)
  if signature.length = 64 ∧ 0 < r ∧ r < Curve.n ∧ 0 < s ∧ s < Curve.n then
    let w := Curve.inverse Curve.n s
    let u := challenge message * w % Curve.n
    let v := r * w % Curve.n
    let t := (Curve.generator.scale u).add (Curve.Jacobian.scale v ⟨key.x, key.y, 1⟩)
    match t.affine? with
    | some (x, _) => x % Curve.n == r
    | none => false
  else false

end Ecdsa

end N3
