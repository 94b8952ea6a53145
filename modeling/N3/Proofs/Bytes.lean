import N3.Bytes

/-!
# Numbers as bytes

Reading a number back from the bytes that it was written as. An unsigned number comes back if it is below the
number of values that the width has, a signed one if its two's complement fits.
-/

set_option autoImplicit false

namespace N3.Bytes

theorem range_pos (n : Nat) : 0 < range n := by
  induction n with
  | zero => exact Nat.zero_lt_one
  | succ n ih => rw [range_succ]; omega

/-- A number is not the byte of a larger one. -/
theorem ofNat_ne_of_lt {v : Nat} {b : UInt8} (h : v < b.toNat) : UInt8.ofNat v ≠ b := by
  intro heq
  have hv : (UInt8.ofNat v).toNat = v := UInt8.toNat_ofNat_of_lt' (Nat.lt_trans h b.toNat_lt)
  rw [heq] at hv
  omega

/-! ## Unsigned numbers -/

theorem toNatLE_ofNatLE_of_lt {n v : Nat} (h : v < range n) : toNatLE (ofNatLE n v) = v := by
  rw [toNatLE_ofNatLE, Nat.mod_eq_of_lt h]

theorem ofNatLE_toNatLE (bs : Bytes) : ofNatLE bs.length (toNatLE bs) = bs := by
  induction bs with
  | nil => rfl
  | cons b bs ih =>
    have hb := b.toNat_lt
    have hbyte : UInt8.ofNat (b.toNat + 256 * toNatLE bs) = b := by
      apply UInt8.toNat_inj.mp
      rw [UInt8.toNat_ofNat']
      omega
    have hrest : (b.toNat + 256 * toNatLE bs) / 256 = toNatLE bs := by omega
    rw [toNatLE, List.length_cons, ofNatLE, hbyte, hrest, ih]

theorem toNatBE_reverse (bs : Bytes) : toNatBE bs.reverse = toNatLE bs := by
  rw [toNatBE, List.foldl_reverse]
  induction bs with
  | nil => rfl
  | cons b bs ih => rw [List.foldr_cons, ih, toNatLE, Nat.add_comm]

theorem toNatBE_ofNatBE_of_lt {n v : Nat} (h : v < range n) : toNatBE (ofNatBE n v) = v := by
  rw [ofNatBE, toNatBE_reverse, toNatLE_ofNatLE_of_lt h]

theorem ofNatBE_toNatBE (bs : Bytes) : ofNatBE bs.length (toNatBE bs) = bs := by
  have hreverse := ofNatLE_toNatLE bs.reverse
  rw [List.length_reverse, ← toNatBE_reverse, List.reverse_reverse] at hreverse
  rw [ofNatBE, hreverse, List.reverse_reverse]

/-! ## Signed numbers -/

theorem fits_iff {n : Nat} {v : Int} : fits n v = true ↔ -(range n : Int) ≤ 2 * v ∧ 2 * v < range n := by
  simp only [fits, Bool.and_eq_true, decide_eq_true_eq]

theorem fits_toInt (v : Int64) : fits 8 v.toInt = true := by
  have hlow := v.le_toInt
  have hhigh := v.toInt_lt
  rw [fits_iff, show range 8 = 2 ^ 64 from rfl]
  omega

theorem fits_toInt_int32 (v : Int32) : fits 4 v.toInt = true := by
  have hlow := v.le_toInt
  have hhigh := v.toInt_lt
  rw [fits_iff, show range 4 = 2 ^ 32 from rfl]
  omega

/-- The residue of a number that fits is the number itself, or lies one range above it if it is negative. -/
theorem toIntLE_ofIntLE {n : Nat} {v : Int} (h : fits n v = true) : toIntLE (ofIntLE n v) = v := by
  obtain ⟨hlow, hhigh⟩ := fits_iff.mp h
  have hpos := range_pos n
  have hnonneg : 0 ≤ v % (range n : Int) := Int.emod_nonneg v (by omega)
  have hlt : v % (range n : Int) < range n := Int.emod_lt_of_pos v (by omega)
  have hu : toNatLE (ofIntLE n v) = (v % (range n : Int)).toNat := toNatLE_ofNatLE_of_lt (by omega)
  rw [toIntLE, hu, length_ofIntLE]
  rcases Int.le_total 0 v with hv | hv
  · have hmod : v % (range n : Int) = v := Int.emod_eq_of_lt hv (by omega)
    rw [hmod, if_pos (by omega)]
    omega
  · by_cases hzero : v = 0
    · subst hzero
      simp [hpos]
    · have hmod : v % (range n : Int) = v + range n := by
        rw [← Int.add_emod_right]
        exact Int.emod_eq_of_lt (by omega) (by omega)
      rw [hmod, if_neg (by omega)]
      omega

end N3.Bytes
