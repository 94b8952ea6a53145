import Mathlib.Data.List.Basic
import Mathlib.Tactic.Ring
import N3.Proofs.Bytes

/-!
# Two's complements of every width

A number has one two's complement in each width that it fits, and the wider ones go on with the byte of its sign
(`toIntLE_extend`). Dropping such bytes for as long as the sign stays leaves the narrowest (`trim_spec`).
-/

set_option autoImplicit false

namespace N3.Bytes

/-! ## Widths -/

theorem range_le_range {m n : Nat} (h : m ≤ n) : range m ≤ range n := Nat.pow_le_pow_right (by decide) h

theorem fits_of_le {m n : Nat} {v : Int} (h : m ≤ n) (hv : fits m v = true) : fits n v = true := by
  have hrange := range_le_range h
  rw [fits_iff] at hv ⊢
  omega

theorem fits_toIntLE (bs : Bytes) : fits bs.length (toIntLE bs) = true := by
  have hlt := toNatLE_lt_range bs
  rw [fits_iff, toIntLE]
  split <;> omega

/-- Bytes are the two's complement of the number that they say. -/
theorem ofIntLE_toIntLE (bs : Bytes) : ofIntLE bs.length (toIntLE bs) = bs := by
  have hlt := toNatLE_lt_range bs
  have hresidue : (toIntLE bs % (range bs.length : Int)).toNat = toNatLE bs := by
    rw [toIntLE]
    split
    · rw [Int.emod_eq_of_lt (by omega) (by omega), Int.toNat_natCast]
    · rw [Int.sub_emod_right, Int.emod_eq_of_lt (by omega) (by omega), Int.toNat_natCast]
  rw [ofIntLE, hresidue, ofNatLE_toNatLE]

theorem exists_toIntLE {n : Nat} {v : Int} (h : fits n v = true) : ∃ bs : Bytes, bs.length = n ∧ toIntLE bs = v :=
  ⟨ofIntLE n v, length_ofIntLE n v, toIntLE_ofIntLE h⟩

/-! ## The last byte -/

theorem toNatLE_concat (bs : Bytes) (b : UInt8) : toNatLE (bs ++ [b]) = toNatLE bs + range bs.length * b.toNat := by
  induction bs with
  | nil => simp [toNatLE, range]
  | cons c bs ih =>
    rw [List.cons_append, toNatLE, ih, toNatLE, List.length_cons, range_succ]
    ring

/-- The number that a byte says as the last of several. -/
def signed (b : UInt8) : Int := if b.toNat < 0x80 then b.toNat else (b.toNat : Int) - 0x100

theorem toIntLE_concat (bs : Bytes) (b : UInt8) :
    toIntLE (bs ++ [b]) = toNatLE bs + range bs.length * signed b := by
  have hlt := toNatLE_lt_range bs
  have hrange : range (bs ++ [b]).length = range bs.length * 0x100 := by rw [List.length_append]; rfl
  rw [toIntLE, toNatLE_concat, hrange, signed]
  by_cases hb : b.toNat < 0x80
  · have hmul := Nat.mul_le_mul_left (range bs.length) (Nat.le_of_lt_succ hb)
    rw [if_pos hb, if_pos (by omega)]
    push_cast
    ring
  · have hmul := Nat.mul_le_mul_left (range bs.length) (Nat.not_lt.mp hb)
    rw [if_neg hb, if_neg (by omega)]
    push_cast
    ring

/-- The last byte has the sign. -/
theorem toIntLE_concat_neg_iff (bs : Bytes) (b : UInt8) : toIntLE (bs ++ [b]) < 0 ↔ signed b < 0 := by
  have hlt := toNatLE_lt_range bs
  rw [toIntLE_concat]
  constructor
  · intro h
    by_contra hb
    have hmul := Int.mul_nonneg (Int.natCast_nonneg (range bs.length)) (Int.not_lt.mp hb)
    omega
  · intro h
    have hmul := Int.mul_le_mul_of_nonneg_left (Int.le_sub_one_of_lt h) (Int.natCast_nonneg (range bs.length))
    omega

/-! ## The byte of a sign -/

/-- The byte that goes on with a sign. -/
def signByte (negative : Bool) : UInt8 := if negative then 0xFF else 0

theorem signed_signByte (negative : Bool) : signed (signByte negative) = if negative then -1 else 0 := by
  cases negative <;> rfl

section Extend

variable {bs : Bytes} {negative : Bool} (hbs : bs ≠ []) (hsign : toIntLE bs < 0 ↔ negative = true)
include hbs hsign

/-- One more byte of the sign does not change the number. -/
theorem toIntLE_concat_signByte : toIntLE (bs ++ [signByte negative]) = toIntLE bs := by
  obtain ⟨cs, b, rfl⟩ := List.eq_nil_or_concat' bs |>.resolve_left hbs
  rw [toIntLE_concat_neg_iff, signed] at hsign
  rw [toIntLE_concat, toNatLE_concat, toIntLE_concat cs, signed_signByte, List.length_append, List.length_singleton,
    range_succ, signed]
  by_cases hb : b.toNat < 0x80
  · rw [if_pos hb] at hsign ⊢
    rw [if_neg (hsign.not.mp (by omega))]
    push_cast
    ring
  · have hlt := b.toNat_lt
    rw [if_neg hb] at hsign ⊢
    rw [if_pos (hsign.mp (by omega))]
    push_cast
    ring

theorem toIntLE_extend (k : Nat) : toIntLE (bs ++ List.replicate k (signByte negative)) = toIntLE bs := by
  induction k with
  | zero => rw [List.replicate_zero, List.append_nil]
  | succ k ih =>
    have hone := toIntLE_concat_signByte (List.append_ne_nil_of_left_ne_nil hbs _) (by rwa [ih])
    rw [List.replicate_succ', ← List.append_assoc, hone, ih]

/-- So the two's complement of a wider width only goes on with the sign. -/
theorem ofIntLE_of_le {n : Nat} (h : bs.length ≤ n) :
    ofIntLE n (toIntLE bs) = bs ++ List.replicate (n - bs.length) (signByte negative) := by
  have hlength : (bs ++ List.replicate (n - bs.length) (signByte negative)).length = n := by
    rw [List.length_append, List.length_replicate]
    omega
  have hwhole := ofIntLE_toIntLE (bs ++ List.replicate (n - bs.length) (signByte negative))
  rwa [hlength, toIntLE_extend hbs hsign] at hwhole

end Extend

/-! ## The narrowest width -/

/-- Whether the byte can be the last of a number with the sign. -/
def agrees (negative : Bool) (b : UInt8) : Bool := (b &&& 0x80 == 0) == !negative

theorem agrees_iff (negative : Bool) (b : UInt8) : agrees negative b = true ↔ (signed b < 0 ↔ negative = true) := by
  have hall : ∀ negative, ∀ n < 0x100, agrees negative (UInt8.ofNat n) = true ↔
      (signed (UInt8.ofNat n) < 0 ↔ negative = true) := by
    decide +kernel
  have hb := hall negative b.toNat b.toNat_lt
  rwa [UInt8.ofNat_toNat] at hb

/-- Drops bytes of the sign, the last byte first, as long as one with that sign is left. -/
def dropSign (negative : Bool) : Bytes → Bytes
  | last :: previous :: rest =>
    if last = signByte negative ∧ agrees negative previous = true then dropSign negative (previous :: rest)
    else last :: previous :: rest
  | bs => bs

/-- The bytes without those at the end that only go on with the sign. -/
def trim (negative : Bool) (bs : Bytes) : Bytes := (dropSign negative bs.reverse).reverse

/-- A last byte that is not dropped is needed: a narrower two's complement would go on with the sign. -/
theorem not_fits_of_last {bs : Bytes} {previous last : UInt8} {negative : Bool}
    (hsign : toIntLE (bs ++ [previous] ++ [last]) < 0 ↔ negative = true)
    (h : ¬ (last = signByte negative ∧ agrees negative previous = true)) :
    ¬ fits (bs ++ [previous]).length (toIntLE (bs ++ [previous] ++ [last])) = true := by
  intro hfits
  obtain ⟨cs, hcs, hvalue⟩ := exists_toIntLE hfits
  have hne : cs ≠ [] := by
    rintro rfl
    rw [List.length_append] at hcs
    cases hcs
  have hlength : (bs ++ [previous] ++ [last]).length = cs.length + 1 := by rw [List.length_append, hcs]; rfl
  have hle : cs.length ≤ (bs ++ [previous] ++ [last]).length := by rw [hlength]; exact Nat.le_succ _
  have hwide := ofIntLE_of_le hne (by rwa [hvalue]) hle
  rw [hvalue, ofIntLE_toIntLE, hlength, Nat.add_sub_cancel_left] at hwide
  obtain ⟨hsame, hlast⟩ := List.append_inj hwide hcs.symm
  refine h ⟨List.singleton_inj.mp hlast, (agrees_iff negative previous).mpr ?_⟩
  rw [← toIntLE_concat_neg_iff bs, hsame, hvalue]
  exact hsign

/-- What is left says the same number, in the narrowest width that it fits. -/
theorem dropSign_spec (negative : Bool) (bs : Bytes) (hbs : bs ≠ [])
    (hsign : toIntLE bs.reverse < 0 ↔ negative = true) :
    dropSign negative bs ≠ [] ∧ toIntLE (dropSign negative bs).reverse = toIntLE bs.reverse ∧
      ∀ n, 0 < n → n < (dropSign negative bs).length → ¬ fits n (toIntLE bs.reverse) = true := by
  fun_induction dropSign negative bs with
  | case1 last previous rest h ih =>
    obtain ⟨rfl, hprevious⟩ := h
    have hinner : toIntLE (previous :: rest).reverse < 0 ↔ negative = true := by
      rw [List.reverse_cons, toIntLE_concat_neg_iff]
      exact (agrees_iff negative previous).mp hprevious
    have hsame := toIntLE_concat_signByte (List.reverse_ne_nil_iff.mpr (List.cons_ne_nil _ _)) hinner
    rw [List.reverse_cons, hsame]
    exact ih (List.cons_ne_nil _ _) hinner
  | case2 last previous rest h =>
    refine ⟨List.cons_ne_nil _ _, rfl, ?_⟩
    intro n _ hn hfits
    rw [List.reverse_cons, List.reverse_cons] at hsign hfits
    refine not_fits_of_last hsign h (fits_of_le ?_ hfits)
    rw [List.length_append, List.length_reverse, List.length_singleton]
    exact Nat.le_of_lt_succ hn
  | case3 bs h =>
    refine ⟨hbs, rfl, ?_⟩
    intro n hpos hn
    match bs with
    | [] => exact absurd rfl hbs
    | [_] => exact absurd hn (Nat.not_lt.mpr hpos)
    | last :: previous :: rest => exact absurd rfl (h last previous rest)

/-- What is left says the same number, and fits a width exactly if the number does. -/
theorem trim_spec {negative : Bool} {bs : Bytes} (hbs : bs ≠ []) (hsign : toIntLE bs < 0 ↔ negative = true) :
    trim negative bs ≠ [] ∧ toIntLE (trim negative bs) = toIntLE bs ∧
      ∀ n, 0 < n → (fits n (toIntLE bs) = true ↔ (trim negative bs).length ≤ n) := by
  obtain ⟨hne, hsame, hneeded⟩ :=
    dropSign_spec negative bs.reverse (List.reverse_ne_nil_iff.mpr hbs) (by rwa [List.reverse_reverse])
  rw [List.reverse_reverse] at hsame hneeded
  rw [trim]
  refine ⟨List.reverse_ne_nil_iff.mpr hne, hsame, fun n hn => ?_⟩
  rw [List.length_reverse]
  constructor
  · intro hfits
    by_contra hlength
    exact hneeded n hn (Nat.not_le.mp hlength) hfits
  · intro hlength
    have hfits := fits_toIntLE (dropSign negative bs.reverse).reverse
    rw [hsame, List.length_reverse] at hfits
    exact fits_of_le hlength hfits

end N3.Bytes
