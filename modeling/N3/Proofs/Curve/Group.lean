import Mathlib.AlgebraicGeometry.EllipticCurve.Affine.Point
import Mathlib.FieldTheory.Finite.Basic
import Mathlib.Tactic.LinearCombination
import N3.Proofs.Curve.Order
import N3.Proofs.Curve.Prime

/-!
# Triples and the group of the curve

A triple stands for a point of the elliptic curve over the integers modulo `p`, in the sense of Mathlib
(`Jacobian.Represents`). Doubling, adding and scaling of triples are those of the group, whatever triples stand for the
points, and the affine coordinates of a triple are those of its point. The order of the base point is the prime `n`
(`Point.addOrderOf_base`), so that all its multiples by numbers between are keys.
-/

set_option autoImplicit false

namespace N3.Curve

open WeierstrassCurve

/-! ## The curve -/

instance : Fact p.Prime := ⟨prime_p⟩

def curve : Affine (ZMod p) := ⟨0, 0, 0, -3, b⟩

theorem natCast_eq_zero_iff {a : ℕ} (h : a < p) : (a : ZMod p) = 0 ↔ a = 0 := by
  rw [← Nat.cast_zero, ZMod.natCast_eq_natCast_iff', Nat.mod_eq_of_lt h, Nat.zero_mod]

theorem two_ne_zero : (2 : ZMod p) ≠ 0 := by
  rw [← Nat.cast_ofNat, Ne, natCast_eq_zero_iff (by decide)]
  decide

instance : curve.IsElliptic := by
  have hdiscriminant : curve.Δ = ((16 * (108 + (p - 27 * (b * b) % p)) % p : ℕ) : ZMod p) := by
    have hle : 27 * (b * b) % p ≤ p := (Nat.mod_lt _ prime_p.pos).le
    rw [ZMod.natCast_mod, Nat.cast_mul, Nat.cast_add, Nat.cast_sub hle, ZMod.natCast_mod, ZMod.natCast_self]
    simp only [Δ, b₂, b₄, b₆, b₈, curve, Nat.cast_mul, Nat.cast_ofNat]
    ring
  refine ⟨isUnit_iff_ne_zero.mpr ?_⟩
  rw [hdiscriminant, Ne, natCast_eq_zero_iff (Nat.mod_lt _ prime_p.pos)]
  decide +kernel

theorem equation_iff {x y : ZMod p} : curve.Equation x y ↔ y * y = x * x * x + -3 * x + b := by
  rw [Affine.equation_iff]
  simp only [curve]
  constructor <;> intro h <;> linear_combination h

theorem negY_eq (x y : ZMod p) : curve.negY x y = -y := by
  simp only [Affine.negY, curve]
  ring

theorem addX_eq (x₁ x₂ l : ZMod p) : curve.addX x₁ x₂ l = l ^ 2 - x₁ - x₂ := by
  simp only [Affine.addX, curve]
  ring

theorem addY_eq (x₁ x₂ y l : ZMod p) : curve.addY x₁ x₂ y l = l * (x₁ - curve.addX x₁ x₂ l) - y := by
  rw [Affine.addY, negY_eq, Affine.negAddY]
  ring

/-- The slope of the tangent. -/
theorem slope_self {x y : ZMod p} (hy : y ≠ 0) : curve.slope x x y y * (2 * y) = 3 * x ^ 2 - 3 := by
  have hsum : y - -y = 2 * y := by ring
  have hne : 2 * y ≠ 0 := mul_ne_zero two_ne_zero hy
  rw [Affine.slope_of_Y_ne rfl, negY_eq, hsum, div_mul_cancel₀ _ hne]
  · simp only [curve]
    ring
  · rwa [negY_eq, ← sub_ne_zero, hsum]

theorem isPoint_iff {x y : ℕ} : IsPoint x y ↔ x < p ∧ y < p ∧ curve.Equation x y := by
  have hthree : 3 ≤ p := by decide
  rw [IsPoint, equation_iff, rightSide, ← ZMod.natCast_eq_natCast_iff']
  simp only [Nat.cast_mul, Nat.cast_add, ZMod.natCast_mod, Nat.cast_sub hthree, ZMod.natCast_self, zero_sub,
    Nat.cast_ofNat]

/-! ## Arithmetic on numbers -/

theorem natCast_inverse {q a : ℕ} (hq : q.Prime) (h : (a : ZMod q) ≠ 0) :
    (inverse q a : ZMod q) = (a : ZMod q)⁻¹ := by
  have := Fact.mk hq
  have hexp : q - 1 = q - 2 + 1 := by
    have := hq.two_le
    omega
  have hpow := ZMod.pow_card_sub_one_eq_one h
  rw [hexp, pow_succ] at hpow
  rw [inverse, powMod_eq, ZMod.natCast_mod, Nat.cast_pow]
  exact eq_inv_of_mul_eq_one_left hpow

namespace Jacobian

theorem sub_lt (a b : ℕ) : sub a b < p := Nat.mod_lt _ prime_p.pos

theorem natCast_sub (a : ℕ) {b : ℕ} (h : b < p) : ((sub a b : ℕ) : ZMod p) = a - b := by
  rw [sub, ZMod.natCast_mod, Nat.cast_add, Nat.cast_sub h.le, ZMod.natCast_self]
  ring

theorem natCast_sub_mod (a b : ℕ) : ((sub a (b % p) : ℕ) : ZMod p) = a - b := by
  rw [natCast_sub a (Nat.mod_lt _ prime_p.pos), ZMod.natCast_mod]

theorem natCast_sub_sub (a b c : ℕ) : ((sub a (sub b c) : ℕ) : ZMod p) = a - (sub b c : ℕ) :=
  natCast_sub a (sub_lt b c)

/-- What doubling does, with divisions left out. -/
theorem natCast_double {t : Jacobian} (h : t.z ≠ 0) :
    ((double t).x : ZMod p) = (3 * ((t.x - t.z ^ 2) * (t.x + t.z ^ 2))) ^ 2 - 8 * (t.x * t.y ^ 2) ∧
      ((double t).y : ZMod p) =
        3 * ((t.x - t.z ^ 2) * (t.x + t.z ^ 2)) * (4 * (t.x * t.y ^ 2) - (double t).x) - 8 * (t.y ^ 2) ^ 2 ∧
      (double t).z = 2 * t.y * t.z % p := by
  unfold double
  rw [if_neg h]
  dsimp only
  refine ⟨?_, ?_, rfl⟩
  · simp only [natCast_sub_mod, ZMod.natCast_mod, Nat.cast_mul, Nat.cast_add, Nat.cast_ofNat]
    ring
  · simp only [natCast_sub_mod, natCast_sub_sub, ZMod.natCast_mod, Nat.cast_mul, Nat.cast_add, Nat.cast_ofNat]
    ring

/-- What adding two triples with different `x` does, with divisions left out. -/
theorem natCast_add {s t : Jacobian} (hs : s.z ≠ 0) (ht : t.z ≠ 0)
    (hx : (s.x * t.z ^ 2 : ZMod p) ≠ t.x * s.z ^ 2) :
    let h : ZMod p := t.x * s.z ^ 2 - s.x * t.z ^ 2
    let r : ZMod p := t.y * s.z ^ 3 - s.y * t.z ^ 3
    ((add s t).x : ZMod p) = r ^ 2 - h ^ 3 - 2 * (s.x * t.z ^ 2 * h ^ 2) ∧
      ((add s t).y : ZMod p) = r * (s.x * t.z ^ 2 * h ^ 2 - (add s t).x) - s.y * t.z ^ 3 * h ^ 3 ∧
      ((add s t).z : ZMod p) = h * (s.z * t.z) ∧ (add s t).z < p := by
  have hne : ¬ s.x * (t.z * t.z % p) % p = t.x * (s.z * s.z % p) % p := by
    rw [← ZMod.natCast_eq_natCast_iff']
    simpa only [Nat.cast_mul, ZMod.natCast_mod, sq] using hx
  unfold add
  rw [if_neg hs, if_neg ht]
  dsimp only
  rw [if_neg hne]
  dsimp only
  refine ⟨?_, ?_, ?_, Nat.mod_lt _ prime_p.pos⟩
  all_goals
    simp only [natCast_sub_mod, natCast_sub_sub, ZMod.natCast_mod, Nat.cast_mul, Nat.cast_ofNat]
    ring

/-- What adding two triples with the same `x` does. -/
theorem add_of_eq {s t : Jacobian} (hs : s.z ≠ 0) (ht : t.z ≠ 0)
    (hx : (s.x * t.z ^ 2 : ZMod p) = t.x * s.z ^ 2) :
    add s t = if (s.y * t.z ^ 3 : ZMod p) = t.y * s.z ^ 3 then double s else infinity := by
  have heq : s.x * (t.z * t.z % p) % p = t.x * (s.z * s.z % p) % p := by
    rw [← ZMod.natCast_eq_natCast_iff']
    simpa only [Nat.cast_mul, ZMod.natCast_mod, sq] using hx
  have hy : s.y * (t.z * (t.z * t.z % p) % p) % p = t.y * (s.z * (s.z * s.z % p) % p) % p ↔
      (s.y * t.z ^ 3 : ZMod p) = t.y * s.z ^ 3 := by
    rw [← ZMod.natCast_eq_natCast_iff']
    simp only [Nat.cast_mul, ZMod.natCast_mod, pow_succ, pow_zero, one_mul, mul_assoc]
  unfold add
  rw [if_neg hs, if_neg ht]
  dsimp only
  rw [if_pos heq]
  simp only [hy]

/-! ## The coordinates that triples stand for -/

/-- The triple stands for the coordinates. The last of its own has to be reduced, since it is compared with zero. -/
structure HasCoordinates (t : Jacobian) (x y : ZMod p) : Prop where
  ne_zero : t.z ≠ 0
  lt : t.z < p
  x_eq : (t.x : ZMod p) = x * t.z ^ 2
  y_eq : (t.y : ZMod p) = y * t.z ^ 3

theorem HasCoordinates.natCast_ne_zero {t : Jacobian} {x y : ZMod p} (h : t.HasCoordinates x y) : (t.z : ZMod p) ≠ 0 :=
  mt (natCast_eq_zero_iff h.lt).mp h.ne_zero

section Double

variable {t : Jacobian} {x y : ZMod p} (h : t.HasCoordinates x y)
include h

theorem HasCoordinates.natCast_double_z : (t.double.z : ZMod p) = 2 * y * t.z ^ 4 := by
  rw [(natCast_double h.ne_zero).2.2, ZMod.natCast_mod, Nat.cast_mul, Nat.cast_mul, h.y_eq]
  push_cast
  ring

theorem HasCoordinates.double_z_lt : t.double.z < p := by
  rw [(natCast_double h.ne_zero).2.2]
  exact Nat.mod_lt _ prime_p.pos

/-- Doubling gives infinity where the tangent is vertical. -/
theorem HasCoordinates.double_z_eq_zero (hy : y = 0) : t.double.z = 0 := by
  refine (natCast_eq_zero_iff h.double_z_lt).mp ?_
  rw [h.natCast_double_z, hy, mul_zero, zero_mul]

/-- Elsewhere it gives the third point on the tangent, mirrored. -/
theorem HasCoordinates.double (hy : y ≠ 0) :
    t.double.HasCoordinates (curve.addX x x (curve.slope x x y y)) (curve.addY x x y (curve.slope x x y y)) := by
  obtain ⟨hdx, hdy, -⟩ := natCast_double h.ne_zero
  have hdz := h.natCast_double_z
  have hslope := slope_self (x := x) hy
  have hX : (t.double.x : ZMod p) = curve.addX x x (curve.slope x x y y) * t.double.z ^ 2 := by
    rw [hdx, hdz, h.x_eq, h.y_eq, addX_eq]
    linear_combination (-(t.z : ZMod p) ^ 8 * (3 * x ^ 2 - 3 + 2 * y * curve.slope x x y y)) * hslope
  refine ⟨?_, h.double_z_lt, hX, ?_⟩
  · rw [Ne, ← natCast_eq_zero_iff h.double_z_lt, hdz]
    exact mul_ne_zero (mul_ne_zero two_ne_zero hy) (pow_ne_zero 4 h.natCast_ne_zero)
  · rw [hdy, hX, hdz, h.x_eq, h.y_eq, addY_eq]
    generalize curve.addX x x (curve.slope x x y y) = x₃
    linear_combination (-4 * (t.z : ZMod p) ^ 12 * y ^ 2 * (x - x₃)) * hslope

end Double

/-- Two quotients are compared by multiplying crosswise. -/
theorem cross_eq_iff {c d u v : ZMod p} (hu : u ≠ 0) (hv : v ≠ 0) {e : ℕ} :
    c * u ^ e * v ^ e = d * v ^ e * u ^ e ↔ c = d := by
  rw [mul_right_comm d, mul_left_inj' (pow_ne_zero e hv), mul_left_inj' (pow_ne_zero e hu)]

section Add

variable {s t : Jacobian} {x₁ y₁ x₂ y₂ : ZMod p} (hs : s.HasCoordinates x₁ y₁) (ht : t.HasCoordinates x₂ y₂)
include hs ht

theorem HasCoordinates.cross_x : (s.x * t.z ^ 2 : ZMod p) = t.x * s.z ^ 2 ↔ x₁ = x₂ := by
  rw [hs.x_eq, ht.x_eq, cross_eq_iff hs.natCast_ne_zero ht.natCast_ne_zero]

theorem HasCoordinates.cross_y : (s.y * t.z ^ 3 : ZMod p) = t.y * s.z ^ 3 ↔ y₁ = y₂ := by
  rw [hs.y_eq, ht.y_eq, cross_eq_iff hs.natCast_ne_zero ht.natCast_ne_zero]

theorem HasCoordinates.add (hx : x₁ ≠ x₂) :
    (s.add t).HasCoordinates (curve.addX x₁ x₂ (curve.slope x₁ x₂ y₁ y₂))
      (curve.addY x₁ x₂ y₁ (curve.slope x₁ x₂ y₁ y₂)) := by
  obtain ⟨hax, hay, haz, hlt⟩ := natCast_add hs.ne_zero ht.ne_zero (mt (hs.cross_x ht).mp hx)
  have haz' : ((s.add t).z : ZMod p) = (x₂ - x₁) * (s.z * t.z) ^ 3 := by
    rw [haz, hs.x_eq, ht.x_eq]
    ring
  have hslope : curve.slope x₁ x₂ y₁ y₂ * (x₁ - x₂) = y₁ - y₂ := by
    rw [Affine.slope_of_X_ne hx, div_mul_cancel₀ _ (sub_ne_zero.mpr hx)]
  have hX : ((s.add t).x : ZMod p) = curve.addX x₁ x₂ (curve.slope x₁ x₂ y₁ y₂) * (s.add t).z ^ 2 := by
    rw [hax, haz', hs.x_eq, ht.x_eq, hs.y_eq, ht.y_eq, addX_eq]
    linear_combination ((s.z * t.z : ZMod p) ^ 6 * (y₂ - y₁ + curve.slope x₁ x₂ y₁ y₂ * (x₂ - x₁))) * hslope
  refine ⟨?_, hlt, hX, ?_⟩
  · rw [Ne, ← natCast_eq_zero_iff hlt, haz']
    exact mul_ne_zero (sub_ne_zero.mpr (Ne.symm hx)) (pow_ne_zero 3 (mul_ne_zero hs.natCast_ne_zero ht.natCast_ne_zero))
  · rw [hay, hX, haz', hs.x_eq, ht.x_eq, hs.y_eq, ht.y_eq, addY_eq]
    generalize curve.addX x₁ x₂ (curve.slope x₁ x₂ y₁ y₂) = x₃
    linear_combination ((s.z * t.z : ZMod p) ^ 9 * (x₂ - x₁) ^ 2 * (x₁ - x₃)) * hslope

end Add

/-! ## The points that triples stand for -/

def Represents (t : Jacobian) : curve.Point → Prop
  | .zero => t.z = 0
  | .some x y _ => t.HasCoordinates x y

theorem Represents.double {t : Jacobian} {a : curve.Point} (h : t.Represents a) : t.double.Represents (a + a) := by
  cases a with
  | zero =>
    have hdouble : t.double = t := if_pos h
    rw [hdouble]
    exact h
  | some x y hxy =>
    by_cases hy : y = 0
    · rw [Affine.Point.add_self_of_Y_eq (by rw [negY_eq, hy, neg_zero])]
      exact HasCoordinates.double_z_eq_zero h hy
    · have hne : y ≠ curve.negY x y := by
        rw [negY_eq, ← sub_ne_zero, show y - -y = 2 * y by ring]
        exact mul_ne_zero two_ne_zero hy
      rw [Affine.Point.add_self_of_Y_ne hne]
      exact HasCoordinates.double h hy

theorem Represents.add {s t : Jacobian} {a b : curve.Point} (hs : s.Represents a) (ht : t.Represents b) :
    (add s t).Represents (a + b) := by
  cases a with
  | zero =>
    have hadd : s.add t = t := if_pos hs
    rw [hadd]
    exact ht
  | some x₁ y₁ h₁ =>
    have hs' : s.HasCoordinates x₁ y₁ := hs
    cases b with
    | zero =>
      have hadd : s.add t = s := (if_neg hs'.ne_zero).trans (if_pos ht)
      rw [hadd]
      exact hs
    | some x₂ y₂ h₂ =>
      have ht' : t.HasCoordinates x₂ y₂ := ht
      by_cases hx : x₁ = x₂
      · rw [add_of_eq hs'.ne_zero ht'.ne_zero ((hs'.cross_x ht').mpr hx)]
        by_cases hy : y₁ = y₂
        · subst hx hy
          rw [if_pos ((hs'.cross_y ht').mpr rfl)]
          exact hs.double
        · have hopposite : y₁ = curve.negY x₂ y₂ := (Affine.Y_eq_of_X_eq h₁.1 h₂.1 hx).resolve_left hy
          rw [if_neg (mt (hs'.cross_y ht').mp hy), Affine.Point.add_of_Y_eq hx hopposite]
          exact rfl
      · rw [Affine.Point.add_of_X_ne hx]
        exact hs'.add ht' hx

theorem represents_infinity : infinity.Represents 0 := rfl

theorem Represents.scale {t : Jacobian} {a : curve.Point} (h : t.Represents a) (k : ℕ) :
    (scale k t).Represents (k • a) := by
  fun_induction Jacobian.scale k t with
  | case1 =>
    rw [zero_nsmul]
    exact represents_infinity
  | case2 k hk r twice hodd ih =>
    have hk' : k • a = (k / 2) • a + (k / 2) • a + a := by
      rw [← add_nsmul, ← succ_nsmul]
      congr 1
      omega
    rw [hk']
    exact ih.double.add h
  | case3 k hk r twice heven ih =>
    have hk' : k • a = (k / 2) • a + (k / 2) • a := by
      rw [← add_nsmul]
      congr 1
      omega
    rw [hk']
    exact ih.double

/-! ## Affine coordinates -/

/-- The coordinates are those of the point, whatever triple stands for it. -/
theorem Represents.affine?_some {t : Jacobian} {x y : ZMod p} {hxy : curve.Nonsingular x y}
    (h : t.Represents (.some x y hxy)) : t.affine? = some (x.val, y.val) := by
  have hcoordinates : t.HasCoordinates x y := h
  have hz := hcoordinates.natCast_ne_zero
  have hval : ∀ (a : ℕ) (v : ZMod p), (a : ZMod p) = v → a % p = v.val := by
    intro a v hv
    rw [← hv, ZMod.val_natCast]
  unfold affine?
  rw [if_neg hcoordinates.ne_zero]
  dsimp only
  rw [hval _ x, hval _ y]
  · simp only [Nat.cast_mul, ZMod.natCast_mod, natCast_inverse prime_p hz, hcoordinates.y_eq]
    field_simp
  · simp only [Nat.cast_mul, ZMod.natCast_mod, natCast_inverse prime_p hz, hcoordinates.x_eq]
    field_simp

end Jacobian

end N3.Curve

namespace N3.Point

open Curve WeierstrassCurve

/-! ## Keys as points -/

/-- The key in the group of the curve. -/
def toGroup (a : Point) : curve.Point := .mk (isPoint_iff.mp a.onCurve).2.2

theorem represents_toGroup (a : Point) : (⟨a.x, a.y, 1⟩ : Jacobian).Represents a.toGroup := by
  refine ⟨one_ne_zero, prime_p.one_lt, ?_, ?_⟩ <;> simp

theorem toGroup_ne_zero (a : Point) : a.toGroup ≠ 0 := Affine.Point.some_ne_zero _

/-- Any point but infinity is a key, and the triples for it have its coordinates. -/
theorem exists_toGroup_eq {a : curve.Point} (h : a ≠ 0) : ∃ key : Point, key.toGroup = a := by
  cases a with
  | zero => exact absurd rfl h
  | some x y hxy =>
    have hpoint : IsPoint x.val y.val := by
      rw [isPoint_iff, ZMod.natCast_zmod_val, ZMod.natCast_zmod_val]
      exact ⟨x.val_lt, y.val_lt, hxy.1⟩
    refine ⟨⟨x.val, y.val, hpoint⟩, ?_⟩
    simp [toGroup, Affine.Point.mk]

theorem affine?_of_represents {t : Jacobian} {a : Point} (h : t.Represents a.toGroup) :
    t.affine? = some (a.x, a.y) := by
  rw [h.affine?_some, ZMod.val_natCast_of_lt a.onCurve.1, ZMod.val_natCast_of_lt a.onCurve.2.1]

/-! ## The order of the base point -/

theorem represents_generator : generator.Represents base.toGroup := represents_toGroup base

theorem nsmul_toGroup_eq_zero {a : Point} {k : ℕ} (h : (Jacobian.scale k ⟨a.x, a.y, 1⟩).z = 0) :
    k • a.toGroup = 0 := by
  have hscale := (represents_toGroup a).scale k
  generalize k • a.toGroup = b at hscale
  cases b with
  | zero => rfl
  | some x y hxy => exact absurd h (Jacobian.HasCoordinates.ne_zero hscale)

theorem nsmul_base : n • base.toGroup = 0 := nsmul_toGroup_eq_zero (by decide +kernel)

theorem addOrderOf_base : addOrderOf base.toGroup = n := by
  have := Fact.mk prime_n
  exact addOrderOf_eq_prime nsmul_base (toGroup_ne_zero base)

theorem nsmul_base_eq_iff {k l : ℕ} : k • base.toGroup = l • base.toGroup ↔ (k : ZMod n) = l := by
  rw [nsmul_eq_nsmul_iff_modEq, addOrderOf_base, ZMod.natCast_eq_natCast_iff]

/-- A multiple of the base point that is not infinity is a key. -/
theorem exists_toGroup_eq_nsmul {k : ℕ} (hpos : 0 < k) (hlt : k < n) :
    ∃ key : Point, key.toGroup = k • base.toGroup := by
  refine exists_toGroup_eq ?_
  rw [← zero_nsmul base.toGroup, Ne, nsmul_base_eq_iff, Nat.cast_zero, ZMod.natCast_eq_zero_iff]
  exact Nat.not_dvd_of_pos_of_lt hpos hlt

end N3.Point
