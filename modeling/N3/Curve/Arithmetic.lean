/-!
# Arithmetic on the curve P-256

The curve is `y² = x³ - 3x + b` over the integers modulo the prime `p`; its points and the point at infinity form
a group of prime order `n`. Sums are computed on Jacobian triples, in which a point `(x, y)` is any
`(x z², y z³, z)` with `z ≠ 0`, so that only the last step divides.
-/

set_option autoImplicit false

namespace N3.Curve

def p : Nat := 0xffffffff00000001000000000000000000000000ffffffffffffffffffffffff

def n : Nat := 0xffffffff00000000ffffffffffffffffbce6faada7179e84f3b9cac2fc632551

def b : Nat := 0x5ac635d8aa3a93e7b3ebbd55769886bc651d06b0cc53b0f63bce3c3e27d2604b

/-- `x³ - 3x + b` modulo `p`; `-3` is written `p - 3`. -/
def rightSide (x : Nat) : Nat := (x * x % p * x + (p - 3) * x + b) % p

/-- Whether `(x, y)` is on the curve, its coordinates reduced. -/
def IsPoint (x y : Nat) : Prop := x < p ∧ y < p ∧ y * y % p = rightSide x

instance (x y : Nat) : Decidable (IsPoint x y) := inferInstanceAs (Decidable (_ ∧ _ ∧ _))

/-! ## Powers, inverses and roots -/

/-- `a ^ e` modulo `m`, by repeated squaring. -/
def powMod (m a e : Nat) : Nat :=
  if h : e = 0 then 1 % m
  else
    let r := powMod m (a * a % m) (e / 2)
    if e % 2 = 1 then a * r % m else r
termination_by e
decreasing_by omega

/-- The inverse of `a` modulo the prime `m`, by the little theorem of Fermat. -/
def inverse (m a : Nat) : Nat := powMod m a (m - 2)

/-- A square root of `a` modulo `p`, if it has one: `p` leaves 3 on division by 4, so `a ^ ((p + 1) / 4)` is a
root whenever there is any. -/
def sqrt? (a : Nat) : Option Nat :=
  let r := powMod p (a % p) ((p + 1) / 4)
  if r * r % p = a % p then some r else none

/-! ## Jacobian triples -/

/-- A triple for the point `(x / z², y / z³)`; infinity if `z = 0`. -/
structure Jacobian where
  (x y z : Nat)

namespace Jacobian

def infinity : Jacobian := ⟨1, 1, 0⟩

/-- `a - b` modulo `p`, of reduced `a` and `b`. -/
def sub (a b : Nat) : Nat := (a + (p - b)) % p

def double (t : Jacobian) : Jacobian :=
  if t.z = 0 then t
  else
    let delta := t.z * t.z % p
    let gamma := t.y * t.y % p
    let beta := t.x * gamma % p
    let alpha := 3 * (sub t.x delta * ((t.x + delta) % p)) % p
    let x := sub (alpha * alpha % p) (8 * beta % p)
    let z := 2 * t.y * t.z % p
    let y := sub (alpha * sub (4 * beta % p) x % p) (8 * (gamma * gamma % p) % p)
    ⟨x, y, z⟩

def add (s t : Jacobian) : Jacobian :=
  if s.z = 0 then t
  else if t.z = 0 then s
  else
    let sz2 := s.z * s.z % p
    let tz2 := t.z * t.z % p
    let u1 := s.x * tz2 % p
    let u2 := t.x * sz2 % p
    let s1 := s.y * (t.z * tz2 % p) % p
    let s2 := t.y * (s.z * sz2 % p) % p
    if u1 = u2 then
      if s1 = s2 then double s else infinity
    else
      let h := sub u2 u1
      let r := sub s2 s1
      let h2 := h * h % p
      let h3 := h * h2 % p
      let v := u1 * h2 % p
      let x := sub (sub (r * r % p) h3) (2 * v % p)
      let y := sub (r * sub v x % p) (s1 * h3 % p)
      ⟨x, y, h * (s.z * t.z % p) % p⟩

def scale (k : Nat) (t : Jacobian) : Jacobian :=
  if h : k = 0 then infinity
  else
    let r := scale (k / 2) t
    let twice := double r
    if k % 2 = 1 then add twice t else twice
termination_by k
decreasing_by omega

def affine? (t : Jacobian) : Option (Nat × Nat) :=
  if t.z = 0 then none
  else
    let i := inverse p t.z
    let i2 := i * i % p
    some (t.x * i2 % p, t.y * (i2 * i % p) % p)

end Jacobian

def generator : Jacobian :=
  ⟨0x6b17d1f2e12c4247f8bce6e563a440f277037d812deb33a0f4a13945d898c296,
   0x4fe342e2fe1a7f9b8ee7eb4a7c0f9e162bce33576b315ececbb6406837bf51f5, 1⟩

end N3.Curve
