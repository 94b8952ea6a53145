import Mathlib.Data.List.Forall2
import N3.Proofs.Codec.Ensures
import N3.Proofs.Text.Hex

/-!
# Values one after the other

An `Item` is a value that can be written, and a `Request` asks for one: it says of which kind, and for a count, or what
comes with its count, how much is allowed. Whatever items are written, and whatever follows them, requests of their
kinds that allow as much read exactly these items, and stop behind the last (`readAll_encode`).

What a request allows is checked on the count alone, in whichever form it stands, before anything that it counts is
looked at (`count_eq_error`). Of these forms the one that is written is the shortest (`countSize_le_of_count`).
-/

set_option autoImplicit false

namespace N3

namespace Codec

inductive Item where
  | bool (v : Bool)
  | u8 (v : UInt8)
  | u16 (v : UInt16)
  | u32 (v : UInt32)
  | i32 (v : Int32)
  | u64 (v : UInt64)
  | i64 (v : Int64)
  /-- Bytes without their count. -/
  | bytes (bs : Bytes)
  | count (v : Nat)
  | counted (bs : Bytes)
  | text (s : String)
  | hashes {n : Nat} (hs : List (FixedBytes n))

inductive Request where
  | bool | u8 | u16 | u32 | i32 | u64 | i64
  | bytes (n : Nat)
  | count (max : Nat)
  | counted (max : Nat)
  | text (max : Nat)
  /-- Hashes of `n` bytes each. -/
  | hashes (n max : Nat)

namespace Item

def encode : Item → Bytes
  | bool v => Encode.bool v
  | u8 v => [v]
  | u16 v => Encode.u16 v
  | u32 v => Encode.u32 v
  | i32 v => Encode.i32 v
  | u64 v => Encode.u64 v
  | i64 v => Encode.i64 v
  | bytes bs => bs
  | count v => Encode.count v
  | counted bs => Encode.counted bs
  | text s => Encode.text s
  | hashes hs => Encode.list FixedBytes.bytes hs

/-- The count that is written of an item, if there is one. -/
def count? : Item → Option Nat
  | count v => some v
  | counted bs => some bs.length
  | text s => some s.toUTF8.size
  | hashes hs => some hs.length
  | _ => none

def IsCountable (i : Item) : Prop := ∀ v, i.count? = some v → v < UInt64.size

end Item

namespace Request

open Decoder (fixed)

def read : Request → Decoder DecodeError Item
  | bool => do return .bool (← Decoder.bool)
  | u8 => do return .u8 (← Decoder.byte)
  | u16 => do return .u16 (← Decoder.u16)
  | u32 => do return .u32 (← Decoder.u32)
  | i32 => do return .i32 (← Decoder.i32)
  | u64 => do return .u64 (← Decoder.u64)
  | i64 => do return .i64 (← Decoder.i64)
  | bytes n => do return .bytes (← Decoder.take n)
  | count max => do return .count (← Decoder.count max)
  | counted max => do return .counted (← Decoder.counted max)
  | text max => do return .text (← Decoder.text max)
  | hashes n max => do return .hashes (← Decoder.list max (fixed n))

/-- The items, one for each request. -/
def readAll : List Request → Decoder DecodeError (List Item)
  | [] => pure []
  | q :: qs => do
    let i ← q.read
    let is ← readAll qs
    return i :: is

/-- Whether the item is of the kind that is asked for, and its count no more than is allowed. -/
inductive Allows : Request → Item → Prop where
  | bool (v : Bool) : Allows .bool (.bool v)
  | u8 (v : UInt8) : Allows .u8 (.u8 v)
  | u16 (v : UInt16) : Allows .u16 (.u16 v)
  | u32 (v : UInt32) : Allows .u32 (.u32 v)
  | i32 (v : Int32) : Allows .i32 (.i32 v)
  | u64 (v : UInt64) : Allows .u64 (.u64 v)
  | i64 (v : Int64) : Allows .i64 (.i64 v)
  | bytes (bs : Bytes) : Allows (.bytes bs.length) (.bytes bs)
  | count {max v : Nat} (h : v ≤ max) : Allows (.count max) (.count v)
  | counted {max : Nat} {bs : Bytes} (h : bs.length ≤ max) : Allows (.counted max) (.counted bs)
  | text {max : Nat} {s : String} (h : s.toUTF8.size ≤ max) : Allows (.text max) (.text s)
  | hashes {n max : Nat} {hs : List (FixedBytes n)} (h : hs.length ≤ max) : Allows (.hashes n max) (.hashes hs)

end Request

end Codec

namespace Decoder

/-! ## Texts -/

theorem size_toUTF8 (s : String) : s.toUTF8.toList.length = s.toUTF8.size := by
  rw [Bytes.toList_eq]
  rfl

theorem textOfBytes?_toUTF8 (s : String) : textOfBytes? s.toUTF8.toList = some s := by
  have hvalid : s.toUTF8.IsValidUTF8 := s.isValidUTF8
  rw [textOfBytes?, Bytes.toList_eq]
  show String.fromUTF8? s.toUTF8 = some s
  rw [String.fromUTF8?, dif_pos hvalid]
  rfl

theorem reads_text {max : Nat} {s : String} (hv : s.toUTF8.size < UInt64.size) (h : s.toUTF8.size ≤ max) :
    (text max).Reads (Encode.text s) s := by
  rw [← size_toUTF8] at hv h
  rw [← List.append_nil (Encode.text s)]
  exact (reads_counted hv h).bind (reads_ofOption (textOfBytes?_toUTF8 s) _)

/-! ## Counts that are too large -/

/-- A count in any of its forms, as large as it may be. -/
def anyCount : Decoder DecodeError Nat := do countValue (← byte)

theorem count_eq_anyCount (max : Nat) : count max = anyCount >>= atMost max := by
  rw [count_eq, anyCount, bind_bind]

theorem anyCount_of_count {max v : Nat} {r r' : Reader} (h : count max r = (.ok v, r')) :
    anyCount r = (.ok v, r') := by
  rw [count_eq_anyCount, bind_apply] at h
  rcases hany : anyCount r with ⟨_ | w, r₁⟩
  · rw [hany] at h
    cases h
  · rw [hany] at h
    dsimp only [atMost] at h
    split at h
    · cases h
    · cases h
      rfl

/-- What is read as a count by a reader that allows so much is refused by one that does not. -/
theorem count_eq_error {bound max v : Nat} {r r' : Reader} (h : count bound r = (.ok v, r')) (hmax : max < v) :
    count max r = (.error (.format (.countAbove v max)), r') := by
  rw [count_eq_anyCount, bind_of_ok (anyCount_of_count h), atMost, if_pos hmax]
  rfl

/-- No form of a count is shorter than the one that is written. -/
theorem countSize_le_of_count {max v pos pos' : Nat} {form rest : Bytes} {marked marked' : Bytes × Nat}
    (h : count max ⟨form ++ rest, pos, marked⟩ = (.ok v, ⟨rest, pos', marked'⟩)) :
    Encode.countSize v ≤ form.length := by
  obtain ⟨n, hn, -, hsize, -⟩ := ensures_count max _ _ _ h
  dsimp only at hn
  rw [List.length_append] at hn
  omega

end Decoder

namespace Codec.Request

/-! ## One item -/

/-- A request reads the items that it allows from the front of anything. -/
theorem reads_read {q : Request} {i : Item} (h : q.Allows i) (hcount : i.IsCountable) : q.read.Reads i.encode i := by
  cases h with
  | bool v => exact (Decoder.reads_bool v).map Item.bool
  | u8 v => exact (Decoder.reads_byte v).map Item.u8
  | u16 v => exact (Decoder.reads_u16 v).map Item.u16
  | u32 v => exact (Decoder.reads_u32 v).map Item.u32
  | i32 v => exact (Decoder.reads_i32 v).map Item.i32
  | u64 v => exact (Decoder.reads_u64 v).map Item.u64
  | i64 v => exact (Decoder.reads_i64 v).map Item.i64
  | bytes bs => exact (Decoder.reads_take bs).map Item.bytes
  | count hmax => exact (Decoder.reads_count (hcount _ rfl) hmax).map Item.count
  | counted hmax => exact (Decoder.reads_counted (hcount _ rfl) hmax).map Item.counted
  | text hmax => exact (Decoder.reads_text (hcount _ rfl) hmax).map Item.text
  | hashes hmax =>
    exact (Decoder.reads_list (hcount _ rfl) hmax fun a _ => Decoder.reads_fixed a).map Item.hashes

/-! ## All of them -/

theorem reads_readAll {qs : List Request} {is : List Item} (h : List.Forall₂ Allows qs is)
    (hcount : ∀ i ∈ is, i.IsCountable) : (readAll qs).Reads (is.flatMap Item.encode) is := by
  induction h with
  | nil => exact Decoder.reads_pure []
  | @cons q i qs is hi _ ih =>
    obtain ⟨hfirst, hrest⟩ := List.forall_mem_cons.mp hcount
    exact (reads_read hi hfirst).bind (f := fun i => do return i :: (← readAll qs)) ((ih hrest).map (i :: ·))

/-- What was written is read back, up to where it ends, by requests that allow it. The form of a count has the size
that is foretold, and no form that is read as the same count is shorter; and a count that is not allowed is refused, in
whichever form it stands and whatever it counts. -/
theorem readAll_encode :
    (∀ qs is, List.Forall₂ Allows qs is → (∀ i ∈ is, i.IsCountable) → ∀ suffix pos marked,
      readAll qs ⟨is.flatMap Item.encode ++ suffix, pos, marked⟩ =
        (.ok is, ⟨suffix, pos + (is.flatMap Item.encode).length, marked⟩)) ∧
    (∀ v, (Encode.count v).length = Encode.countSize v) ∧
    (∀ max v form rest pos pos' marked marked',
      Decoder.count max ⟨form ++ rest, pos, marked⟩ = (.ok v, ⟨rest, pos', marked'⟩) →
        Encode.countSize v ≤ form.length) ∧
    ∀ bound max v r r', Decoder.count bound r = (.ok v, r') → max < v →
      let refused := DecodeError.format (.countAbove v max)
      Decoder.count max r = (.error refused, r') ∧ Decoder.counted max r = (.error refused, r') ∧
        Decoder.text max r = (.error refused, r') ∧
        ∀ (α : Type) (item : Decoder DecodeError α), Decoder.list max item r = (.error refused, r') := by
  refine ⟨fun _ _ h hcount => reads_readAll h hcount, Encode.length_count,
    fun _ _ _ _ _ _ _ _ h => Decoder.countSize_le_of_count h, fun bound max v r r' h hmax => ?_⟩
  have hcount := Decoder.count_eq_error h hmax
  have hcounted : Decoder.counted max r = _ := Decoder.bind_eq_of_error hcount
  exact ⟨hcount, hcounted, Decoder.bind_eq_of_error hcounted, fun _ _ => Decoder.bind_eq_of_error hcount⟩

/-- Two hashes behind a count of three bytes and a text of one letter and two bytes. -/
theorem readAll_encode_mixed :
    let is : List Item := [.i32 (-2), .count 253, .text "é", .hashes [FixedBytes.zero 20, FixedBytes.zero 20]]
    readAll [.i32, .count 253, .text 2, .hashes 20 2] ⟨is.flatMap Item.encode ++ [7], 0, ([], 0)⟩ =
        (.ok is, ⟨[7], 51, ([], 0)⟩) ∧
      Encode.countSize 253 ≤ [0xFE, 0xFD, 0x00, 0x00, 0x00].length ∧
      Decoder.count 252 ⟨Encode.count 253, 0, ([], 0)⟩ =
        (.error (.format (.countAbove 253 252)), ⟨[], 3, ([], 0)⟩) := by
  intro is
  obtain ⟨hreads, -, hshortest, hrefuses⟩ := readAll_encode
  have hcount : ∀ i ∈ is, i.IsCountable := by
    simp only [is, Item.IsCountable, Item.count?, List.forall_mem_cons, List.not_mem_nil, false_imp_iff, implies_true,
      and_true, Option.some.injEq, reduceCtorEq, forall_eq', true_and]
    decide
  have hlength : (is.flatMap Item.encode).length = 51 := by decide +kernel
  have hallowed : List.Forall₂ Allows [.i32, .count 253, .text 2, .hashes 20 2] is :=
    .cons (.i32 _) (.cons (.count (by decide)) (.cons (.text (by decide)) (.cons (.hashes (by decide)) .nil)))
  refine ⟨?_, ?_, ?_⟩
  · rw [hreads _ _ hallowed hcount [7] 0 ([], 0), hlength]
  · exact hshortest 253 253 [0xFE, 0xFD, 0x00, 0x00, 0x00] [] 0 5 ([], 0) ([], 0) rfl
  · exact (hrefuses 253 252 253 ⟨Encode.count 253, 0, ([], 0)⟩ ⟨[], 3, ([], 0)⟩ rfl (by decide)).1

end Codec.Request

end N3
