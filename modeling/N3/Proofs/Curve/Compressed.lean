import Mathlib.FieldTheory.Finite.Basic
import N3.Curve.Point
import N3.Proofs.Bytes
import N3.Proofs.Curve.Prime

/-!
# The short form of a key

The short form keeps of `y` only whether it is odd. Since the modulus is an odd prime that leaves 3 on division by 4,
`sqrt?` gives `y` or its negation back from the square of `y` (`sqrt?_mul_self`), and those two differ in parity
unless they are zero. `Point.ofCompressed_compressed` is what follows for keys: the short form is read back, and so
determines the key (`Point.compressed_injective`).
-/

set_option autoImplicit false

namespace N3

namespace Curve

/-! ## Square roots -/

theorem p_pos : 0 < p := prime_p.pos

theorem powMod_lt (a e : ℕ) : powMod p a e < p := by
  rw [powMod_eq]
  exact Nat.mod_lt _ p_pos

theorem powMod_mul_self (y : ℕ) :
    (powMod p (y * y % p) ((p + 1) / 4) : ZMod p) = y ∨ (powMod p (y * y % p) ((p + 1) / 4) : ZMod p) = -y := by
  have := Fact.mk prime_p
  have hexp : 2 * ((p + 1) / 4) * 2 = p + 1 := by norm_num [p]
  have hcast : (powMod p (y * y % p) ((p + 1) / 4) : ZMod p) = (y : ZMod p) ^ (2 * ((p + 1) / 4)) := by
    rw [powMod_eq, ZMod.natCast_mod, Nat.cast_pow, ZMod.natCast_mod, Nat.cast_mul, ← sq, ← pow_mul]
  rw [hcast, ← sq_eq_sq_iff_eq_or_eq_neg, ← pow_mul, hexp, pow_succ, ZMod.pow_card, sq]

theorem sqrt?_mul_self {y : ℕ} (hy : y < p) : ∃ r, sqrt? (y * y % p) = some r ∧ (r = y ∨ r = (p - y) % p) := by
  have hroot := powMod_mul_self y
  have hlt := powMod_lt (y * y % p) ((p + 1) / 4)
  unfold sqrt?
  rw [Nat.mod_mod]
  generalize powMod p (y * y % p) ((p + 1) / 4) = r at hroot hlt
  refine ⟨r, if_pos ?_, ?_⟩
  · rw [← ZMod.natCast_eq_natCast_iff', Nat.cast_mul, Nat.cast_mul]
    rcases hroot with h | h
    · rw [h]
    · rw [h, neg_mul_neg]
  · rcases hroot with h | h
    · left
      rwa [ZMod.natCast_eq_natCast_iff', Nat.mod_eq_of_lt hlt, Nat.mod_eq_of_lt hy] at h
    · right
      have hneg : (r : ZMod p) = ((p - y : ℕ) : ZMod p) := by
        rw [h, Nat.cast_sub hy.le, ZMod.natCast_self, zero_sub]
      rwa [ZMod.natCast_eq_natCast_iff', Nat.mod_eq_of_lt hlt] at hneg

theorem sqrt?_lt {a r : ℕ} (h : sqrt? a = some r) : r < p := by
  unfold sqrt? at h
  dsimp only at h
  split at h
  · cases h
    exact powMod_lt _ _
  · cases h

end Curve

namespace Point

/-! ## Keys -/

theorem ofCoordinates?_self (a : Point) : ofCoordinates? a.x a.y = some a := dif_pos a.onCurve

/-- The modulus is odd, so that a number and its negation differ in parity. -/
theorem parity_sub {y : ℕ} (hy : y < Curve.p) : ((Curve.p - y) % 2 == 1) = !(y % 2 == 1) := by
  have hodd : Curve.p % 2 = 1 := by decide
  rcases Nat.mod_two_eq_zero_or_one y with h | h
  · rw [h, show (Curve.p - y) % 2 = 1 by omega]
    rfl
  · rw [h, show (Curve.p - y) % 2 = 0 by omega]
    rfl

/-- Of the two roots, the parity of `y` picks `y`. -/
theorem pick_root {y r : ℕ} (hy : y < Curve.p) (hr : r = y ∨ r = (Curve.p - y) % Curve.p) :
    (if (r % 2 == 1) == (y % 2 == 1) then r else (Curve.p - r) % Curve.p) = y := by
  rcases hr with rfl | rfl
  · rw [if_pos (beq_self_eq_true _)]
  · rcases Nat.eq_zero_or_pos y with rfl | hpos
    · rw [Nat.sub_zero, Nat.mod_self]
      rfl
    · have hparity : ((Curve.p - y) % 2 == 1) ≠ (y % 2 == 1) := by
        rw [parity_sub hy]
        exact Bool.not_ne_self _
      have hlt : Curve.p - y < Curve.p := Nat.sub_lt Curve.p_pos hpos
      rw [Nat.mod_eq_of_lt hlt, if_neg (by simpa using hparity), Nat.sub_sub_self hy.le, Nat.mod_eq_of_lt hy]

theorem ofParity?_self (a : Point) : ofParity? (a.y % 2 == 1) a.x = some a := by
  obtain ⟨-, hy, hside⟩ := a.onCurve
  obtain ⟨r, hsome, hr⟩ := Curve.sqrt?_mul_self hy
  unfold ofParity?
  rw [← hside, hsome, Option.bind_eq_bind, Option.bind_some, pick_root hy hr]
  exact ofCoordinates?_self a

theorem toNatBE_xBytes (a : Point) : Bytes.toNatBE a.xBytes = a.x :=
  Bytes.toNatBE_ofNatBE_of_lt (lt_trans a.onCurve.1 (by decide))

theorem ofCompressed_compressed (a : Point) : ofCompressed a.compressed.bytes = .ok a := by
  have hpoint := ofParity?_self a
  have hlength : a.xBytes.length = 32 := Bytes.length_ofNatBE 32 a.x
  unfold ofCompressed compressed
  rcases Nat.mod_two_eq_zero_or_one a.y with h | h
  · rw [h] at hpoint ⊢
    simp only [zero_ne_one, if_false, hlength, true_and, true_or, if_true, toNatBE_xBytes]
    rw [show ((0x02 : UInt8) == 0x03) = (0 == 1) from rfl, hpoint]
    rfl
  · rw [h] at hpoint ⊢
    simp only [if_true, hlength, true_and, or_true, toNatBE_xBytes]
    rw [show ((0x03 : UInt8) == 0x03) = (1 == 1) from rfl, hpoint]
    rfl

theorem compressed_injective {a b : Point} (h : a.compressed = b.compressed) : a = b := by
  have ha := ofCompressed_compressed a
  rw [h, ofCompressed_compressed b] at ha
  exact (Except.ok.inj ha).symm

end Point

end N3
