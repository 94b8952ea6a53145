import N3.Proofs.Curve.Compressed
import N3.Proofs.Curve.Group

/-!
# The parity of `y` tells the keys of an `x` apart

The two roots of a square differ in parity unless they are zero, and no key has a `y` of zero: `x³ - 3x + b` has no
root modulo `p` (`cubic_ne_zero`). A root would satisfy `xᵖ = x`, and so would the remainder of `xᵖ` on division by the
cubic, which is computed here. The difference of that remainder and `x` has an inverse modulo the cubic, so that it is
zero nowhere the cubic is.

What is read as a key has therefore the very bytes of the key as its short form
(`Point.compressed_of_ofCompressed`).
-/

set_option autoImplicit false

namespace N3.Curve

/-- The polynomial `c₀ + c₁ x + c₂ x²`, for a remainder on division by the cubic. -/
structure Remainder where
  (c₀ c₁ c₂ : ℕ)
  deriving DecidableEq

namespace Remainder

def one : Remainder := ⟨1, 0, 0⟩

def x : Remainder := ⟨0, 1, 0⟩

/-- The product, with `x³` replaced by `3x - b` and `x⁴` by `3x² - bx`. -/
def mul (s t : Remainder) : Remainder :=
  let d₃ := s.c₁ * t.c₂ + s.c₂ * t.c₁
  let d₄ := s.c₂ * t.c₂
  ⟨(s.c₀ * t.c₀ + (p - b) * d₃) % p,
    (s.c₀ * t.c₁ + s.c₁ * t.c₀ + 3 * d₃ + (p - b) * d₄) % p,
    (s.c₀ * t.c₂ + s.c₁ * t.c₁ + s.c₂ * t.c₀ + 3 * d₄) % p⟩

/-- The power, by repeated squaring. -/
def pow (t : Remainder) (e : ℕ) : Remainder :=
  if h : e = 0 then one
  else
    let r := pow (t.mul t) (e / 2)
    if e % 2 = 1 then t.mul r else r
termination_by e
decreasing_by omega

def eval (t : Remainder) (v : ZMod p) : ZMod p := t.c₀ + t.c₁ * v + t.c₂ * (v * v)

section Root

variable {v : ZMod p} (h : v ^ 3 = 3 * v - b)
include h

theorem eval_mul (s t : Remainder) : (s.mul t).eval v = s.eval v * t.eval v := by
  have hb : ((p - b : ℕ) : ZMod p) = -b := by
    rw [Nat.cast_sub (by decide), ZMod.natCast_self, zero_sub]
  simp only [eval, mul, ZMod.natCast_mod, Nat.cast_add, Nat.cast_mul, Nat.cast_ofNat, hb]
  linear_combination (-(s.c₁ * t.c₂ + s.c₂ * t.c₁ + s.c₂ * t.c₂ * v : ZMod p)) * h

theorem eval_pow (t : Remainder) (e : ℕ) : (t.pow e).eval v = t.eval v ^ e := by
  fun_induction pow t e with
  | case1 t => simp [eval, one]
  | case2 t e he r hodd ih =>
    have hexp : e = 2 * (e / 2) + 1 := by omega
    rw [eval_mul h, ih, eval_mul h]
    conv_rhs => rw [hexp, pow_succ, pow_mul, sq]
    rw [mul_comm]
  | case3 t e he r heven ih =>
    have hexp : e = 2 * (e / 2) := by omega
    rw [ih, eval_mul h]
    conv_rhs => rw [hexp, pow_mul, sq]

end Root

def inverse : Remainder :=
  ⟨0xa969487079f1744798bf0de6fded091b66e9d328eb0645fe5d979d1339b7f47f,
   0xa4a08891884100c13323460107a8d28eede4387fa3e6e9bfebec9f6d72d0b5cc,
   0x4cde11cf86cb876cd59cf0115813c55af0ecd3cda667d98bb9a347a56aa74a6d⟩

def frobenius : Remainder :=
  let r := x.pow p
  ⟨r.c₀, r.c₁ + (p - 1), r.c₂⟩

theorem inverse_mul_frobenius : inverse.mul frobenius = one := by decide +kernel

end Remainder

theorem cubic_ne_zero (v : ZMod p) : v * v * v + -3 * v + b ≠ 0 := by
  intro hzero
  have hroot : v ^ 3 = 3 * v - b := by linear_combination hzero
  have hpow : (Remainder.x.pow p).eval v = v := by
    rw [Remainder.eval_pow hroot, show Remainder.x.eval v = v by simp [Remainder.eval, Remainder.x], ZMod.pow_card]
  have hfrobenius : Remainder.frobenius.eval v = 0 := by
    have hone : ((p - 1 : ℕ) : ZMod p) = -1 := by
      rw [Nat.cast_sub prime_p.one_lt.le, ZMod.natCast_self, zero_sub, Nat.cast_one]
    simp only [Remainder.eval, Remainder.frobenius, Nat.cast_add, hone] at hpow ⊢
    linear_combination hpow
  have hone := Remainder.eval_mul hroot Remainder.inverse Remainder.frobenius
  rw [Remainder.inverse_mul_frobenius, hfrobenius, mul_zero] at hone
  simp [Remainder.eval, Remainder.one] at hone

end N3.Curve

namespace N3.Point

theorem y_ne_zero (a : Point) : a.y ≠ 0 := by
  intro hy
  have hside := a.onCurve.2.2
  rw [hy, Curve.rightSide, Nat.zero_mul, ← ZMod.natCast_eq_natCast_iff'] at hside
  have hthree : 3 ≤ Curve.p := by decide
  refine Curve.cubic_ne_zero (a.x : ZMod Curve.p) ?_
  simp only [Nat.cast_zero, Nat.cast_add, Nat.cast_mul, ZMod.natCast_mod, Nat.cast_sub hthree, ZMod.natCast_self,
    Nat.cast_ofNat] at hside
  linear_combination -hside

/-! ## Reading the short form -/

theorem ofCoordinates?_eq_some {x y : ℕ} {a : Point} (h : ofCoordinates? x y = some a) : a.x = x ∧ a.y = y := by
  unfold ofCoordinates? at h
  split at h
  · cases h
    exact ⟨rfl, rfl⟩
  · cases h

theorem ofParity?_eq_some {odd : Bool} {x : ℕ} {a : Point} (h : ofParity? odd x = some a) :
    a.x = x ∧ (a.y % 2 == 1) = odd := by
  unfold ofParity? at h
  rw [Option.bind_eq_bind, Option.bind_eq_some_iff] at h
  obtain ⟨r, hr, h⟩ := h
  obtain ⟨hx, hy⟩ := ofCoordinates?_eq_some h
  refine ⟨hx, ?_⟩
  split at hy
  · next hparity =>
    rw [hy]
    exact beq_iff_eq.mp hparity
  · next hparity =>
    have hlt := Curve.sqrt?_lt hr
    have hr0 : r ≠ 0 := by
      rintro rfl
      rw [Nat.sub_zero, Nat.mod_self] at hy
      exact a.y_ne_zero hy
    rw [Nat.mod_eq_of_lt (by omega)] at hy
    rw [hy, parity_sub hlt]
    cases hb : (r % 2 == 1) <;> cases odd <;> simp_all

/-- What is read as a key is the short form of that key. -/
theorem compressed_of_ofCompressed {bs : Bytes} {a : Point} (h : ofCompressed bs = .ok a) : a.compressed.bytes = bs := by
  unfold ofCompressed at h
  cases bs with
  | nil => cases h
  | cons tag x =>
    dsimp only at h
    split at h
    · next hform =>
      obtain ⟨hlength, htag⟩ := hform
      cases hpoint : ofParity? (tag == 0x03) (Bytes.toNatBE x) with
      | none =>
        rw [hpoint] at h
        cases h
      | some a' =>
        rw [hpoint] at h
        obtain rfl : a' = a := Except.ok.inj h
        obtain ⟨hx, hy⟩ := ofParity?_eq_some hpoint
        have hbytes : a'.xBytes = x := by
          rw [xBytes, hx, ← hlength, Bytes.ofNatBE_toNatBE]
        have hfirst : (if a'.y % 2 = 1 then 0x03 else 0x02) = tag := by
          rcases htag with rfl | rfl <;> simp_all
        show (if a'.y % 2 = 1 then 0x03 else 0x02) :: a'.xBytes = _
        rw [hbytes, hfirst]
    · cases h

end N3.Point
