/-!
# Bytes

A run of bytes is a list, and an unsigned number is read from one in either byte order. A signed number is
the two's complement of its width: `toIntLE` reads one of any width, and `ofIntLE` writes one of the width it
is given, which loses nothing exactly when `fits` holds.
-/

set_option autoImplicit false

namespace N3

abbrev Bytes := List UInt8

namespace Bytes

/-! ## Unsigned numbers -/

/-- The `n` low bytes of `v`, least significant first. -/
def ofNatLE : Nat → Nat → Bytes
  | 0, _ => []
  | n + 1, v => UInt8.ofNat v :: ofNatLE n (v / 256)

def toNatLE : Bytes → Nat
  | [] => 0
  | b :: bs => b.toNat + 256 * toNatLE bs

def ofNatBE (n v : Nat) : Bytes := (ofNatLE n v).reverse

def toNatBE (bs : Bytes) : Nat := bs.foldl (fun v b => 256 * v + b.toNat) 0

@[simp] theorem length_ofNatLE (n v : Nat) : (ofNatLE n v).length = n := by
  induction n generalizing v with
  | zero => rfl
  | succ n ih => simp [ofNatLE, ih]

@[simp] theorem length_ofNatBE (n v : Nat) : (ofNatBE n v).length = n := by
  simp [ofNatBE]

/-- How many values `n` bytes have. -/
def range (n : Nat) : Nat := Nat.pow 256 n

theorem range_succ (n : Nat) : range (n + 1) = range n * 256 := rfl

theorem toNatLE_ofNatLE (n v : Nat) : toNatLE (ofNatLE n v) = v % range n := by
  induction n generalizing v with
  | zero => exact (Nat.mod_one v).symm
  | succ n ih =>
    rw [ofNatLE, toNatLE, ih, range_succ, Nat.mul_comm (range n), Nat.mod_mul, UInt8.toNat_ofNat']

theorem toNatLE_lt_range (bs : Bytes) : toNatLE bs < range bs.length := by
  induction bs with
  | nil => exact Nat.zero_lt_one
  | cons b bs ih =>
    have := b.toNat_lt
    rw [toNatLE, List.length_cons, range_succ]
    omega

/-! ## Signed numbers -/

/-- Whether `v` has a two's complement of `n` bytes. -/
def fits (n : Nat) (v : Int) : Bool := -(range n : Int) ≤ 2 * v && 2 * v < range n

/-- The two's complement of `v` in `n` bytes, least significant first. -/
def ofIntLE (n : Nat) (v : Int) : Bytes := ofNatLE n (v % range n).toNat

/-- The number whose two's complement these bytes are, least significant first. No bytes read as zero. -/
def toIntLE (bs : Bytes) : Int :=
  let v := toNatLE bs
  if 2 * v < range bs.length then v else v - range bs.length

@[simp] theorem length_ofIntLE (n : Nat) (v : Int) : (ofIntLE n v).length = n := by
  simp [ofIntLE]

end Bytes

end N3
