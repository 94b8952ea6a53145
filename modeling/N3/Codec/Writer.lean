import N3.Bytes.Fixed

/-!
# Writing bytes

Numbers are written least significant byte first. A count takes the shortest of the forms of one, three, five and
nine bytes that hold it, and `countSize` says how long that form is.
-/

set_option autoImplicit false

namespace N3.Encode

def bool (v : Bool) : Bytes := [if v then 1 else 0]
def u16 (v : UInt16) : Bytes := Bytes.ofNatLE 2 v.toNat
def u32 (v : UInt32) : Bytes := Bytes.ofNatLE 4 v.toNat
def u64 (v : UInt64) : Bytes := Bytes.ofNatLE 8 v.toNat
def i32 (v : Int32) : Bytes := Bytes.ofIntLE 4 v.toInt
def i64 (v : Int64) : Bytes := Bytes.ofIntLE 8 v.toInt

/-! ## Counts and what they count -/

/-- The shortest form of a count. -/
def count (v : Nat) : Bytes :=
  if v < 0xFD then [UInt8.ofNat v]
  else if v ≤ 0xFFFF then 0xFD :: Bytes.ofNatLE 2 v
  else if v ≤ 0xFFFFFFFF then 0xFE :: Bytes.ofNatLE 4 v
  else 0xFF :: Bytes.ofNatLE 8 v

def counted (bs : Bytes) : Bytes := count bs.length ++ bs

/-- The UTF-8 form of a text, after its length in bytes. -/
def text (s : String) : Bytes := counted s.toUTF8.toList

def list {α : Type} (item : α → Bytes) (as : List α) : Bytes := count as.length ++ as.flatMap item

/-! ## Sizes -/

def countSize (v : Nat) : Nat :=
  if v < 0xFD then 1 else if v ≤ 0xFFFF then 3 else if v ≤ 0xFFFFFFFF then 5 else 9

def countedSize (n : Nat) : Nat := countSize n + n

def totalSize {α : Type} (size : α → Nat) : List α → Nat
  | [] => 0
  | a :: as => size a + totalSize size as

def listSize {α : Type} (size : α → Nat) (as : List α) : Nat := countSize as.length + totalSize size as

theorem length_count (v : Nat) : (count v).length = countSize v := by
  unfold count countSize
  split
  · rfl
  · split
    · simp
    · split <;> simp

theorem length_counted (bs : Bytes) : (counted bs).length = countedSize bs.length := by
  simp [counted, countedSize, length_count]

theorem length_flatMap {α : Type} {item : α → Bytes} {size : α → Nat} (as : List α)
    (h : ∀ a ∈ as, (item a).length = size a) : (as.flatMap item).length = totalSize size as := by
  induction as with
  | nil => rfl
  | cons a as ih =>
    rw [List.flatMap_cons, List.length_append, h a List.mem_cons_self,
      ih fun b hb => h b (List.mem_cons_of_mem a hb)]
    rfl

theorem length_list {α : Type} {item : α → Bytes} {size : α → Nat} (as : List α)
    (h : ∀ a ∈ as, (item a).length = size a) : (list item as).length = listSize size as := by
  unfold list listSize
  rw [List.length_append, length_count, length_flatMap as h]

end N3.Encode
