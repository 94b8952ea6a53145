import N3.Bytes

/-!
# Byte strings of a fixed width

Hashes and signatures are byte strings whose length is part of what they are, so the length is part of the
type. Their order is that of the bytes from the first on.
-/

set_option autoImplicit false

namespace N3

structure FixedBytes (n : Nat) where
  bytes : Bytes
  length_eq : bytes.length = n
  deriving DecidableEq

/-- A hash of 20 bytes, the name of an account or contract. -/
abbrev Hash160 := FixedBytes 20

/-- A hash of 32 bytes, the name of a transaction or block. -/
abbrev Hash256 := FixedBytes 32

/-- A signature: two numbers of 32 bytes. -/
abbrev Signature := FixedBytes 64

namespace FixedBytes

variable {n : Nat}

@[ext] theorem ext {a b : FixedBytes n} (h : a.bytes = b.bytes) : a = b := by
  cases a; cases b; cases h; rfl

def ofBytes? (n : Nat) (bs : Bytes) : Option (FixedBytes n) :=
  if h : bs.length = n then some ⟨bs, h⟩ else none

def zero (n : Nat) : FixedBytes n := ⟨List.replicate n 0, List.length_replicate⟩

instance : Inhabited (FixedBytes n) := ⟨zero n⟩

def isZero (a : FixedBytes n) : Bool := a.bytes.all (· == 0)

/-- The order of two byte strings, decided at the first byte in which they differ. -/
def compareBytes : Bytes → Bytes → Ordering
  | [], [] => .eq
  | [], _ :: _ => .lt
  | _ :: _, [] => .gt
  | a :: as, b :: bs => (compare a b).then (compareBytes as bs)

instance : Ord (FixedBytes n) := ⟨fun a b => compareBytes a.bytes b.bytes⟩

@[simp] theorem ofBytes?_bytes (a : FixedBytes n) : ofBytes? n a.bytes = some a := by
  simp [ofBytes?, a.length_eq]

theorem ofBytes?_eq_some {bs : Bytes} {a : FixedBytes n} (h : ofBytes? n bs = some a) : a.bytes = bs := by
  unfold ofBytes? at h
  split at h
  · cases h; rfl
  · cases h

end FixedBytes

end N3
