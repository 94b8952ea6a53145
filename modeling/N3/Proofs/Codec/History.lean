import N3.Proofs.Bytes.Signed
import N3.Proofs.Codec.Cursor

/-!
# Reads, marks and returns in any order

A history is a list of operations on a reader: reads of every kind, of which any may fail, marks, and returns to the
mark. Whatever the bytes and the history, the same operations by index are never out of range and lead to the same
place, which lies in the bytes as does the mark (`Cursor.run_eq`).

At such a place a read goes forward if it moves at all. One of a fixed size takes all its bytes or none
(`Read.IsFixed.allOrNothing`): if too few are left, the reader stays as it was.
-/

set_option autoImplicit false

namespace N3

theorem Bytes.ofNatLE_mod_range (n v : Nat) : ofNatLE n (v % range n) = ofNatLE n v := by
  have h := ofNatLE_toNatLE (ofNatLE n v)
  rwa [length_ofNatLE, toNatLE_ofNatLE] at h

theorem Bytes.ofIntLE_bmod_range (n : Nat) (v : Int) : ofIntLE n (v.bmod (range n)) = ofIntLE n v := by
  rw [ofIntLE, ofIntLE, Int.bmod_emod]

/-! ## Reads of a fixed size -/

namespace Decoder

variable {α : Type}

/-- `d` takes `n` bytes, those that `encode` writes of the value, or fails and leaves the reader alone. -/
def AllOrNothing (d : Decoder DecodeError α) (n : Nat) (encode : α → Bytes) : Prop :=
  ∀ r : Reader,
    if n ≤ r.rest.length then
      ∃ a, encode a = r.rest.take n ∧ d r = (.ok a, { r with rest := r.rest.drop n, pos := r.pos + n })
    else d r = (.error (.endOfData n r.rest.length), r)

theorem allOrNothing_take (n : Nat) : (take n).AllOrNothing n id := by
  intro r
  split
  · next h => exact ⟨r.rest.take n, rfl, take_of_le h⟩
  · next h => exact take_of_lt (Nat.not_le.mp h)

theorem allOrNothing_fixed (n : Nat) : (fixed n).AllOrNothing n FixedBytes.bytes := by
  intro r
  split
  · next h => exact ⟨_, rfl, fixed_of_le h⟩
  · next h => exact fixed_of_lt (Nat.not_le.mp h)

theorem allOrNothing_byte : byte.AllOrNothing 1 fun b => [b] := by
  intro r
  rcases hrest : r.rest with _ | ⟨b, rest⟩
  · exact byte_of_nil hrest
  · have hlength : 1 ≤ (b :: rest).length := Nat.le_add_left 1 rest.length
    rw [if_pos hlength]
    exact ⟨b, rfl, byte_of_cons hrest⟩

theorem AllOrNothing.map {β : Type} {d : Decoder DecodeError α} {n : Nat} {f : α → β} {encode : α → Bytes}
    {encode' : β → Bytes} (hd : d.AllOrNothing n encode)
    (h : ∀ a, (encode a).length = n → encode' (f a) = encode a) :
    (do return f (← d) : Decoder DecodeError β).AllOrNothing n encode' := by
  intro r
  have hr := hd r
  split at hr
  · next hn =>
    obtain ⟨a, ha, hread⟩ := hr
    have hlength : (encode a).length = n := by rw [ha, List.length_take_of_le hn]
    rw [if_pos hn]
    exact ⟨f a, (h a hlength).trans ha, bind_of_ok hread⟩
  · next hn =>
    rw [if_neg hn]
    exact bind_eq_of_error hr

theorem allOrNothing_natLE (n : Nat) : (natLE n).AllOrNothing n (Bytes.ofNatLE n) :=
  (allOrNothing_take n).map fun bs hlength => by
    rw [← hlength]
    exact Bytes.ofNatLE_toNatLE bs

theorem allOrNothing_intLE (n : Nat) : (intLE n).AllOrNothing n (Bytes.ofIntLE n) :=
  (allOrNothing_take n).map fun bs hlength => by
    rw [← hlength]
    exact Bytes.ofIntLE_toIntLE bs

theorem allOrNothing_u16 : u16.AllOrNothing 2 Encode.u16 :=
  (allOrNothing_natLE 2).map fun v _ => by
    rw [Encode.u16, UInt16.toNat_ofNat']
    exact Bytes.ofNatLE_mod_range 2 v

theorem allOrNothing_u32 : u32.AllOrNothing 4 Encode.u32 :=
  (allOrNothing_natLE 4).map fun v _ => by
    rw [Encode.u32, UInt32.toNat_ofNat']
    exact Bytes.ofNatLE_mod_range 4 v

theorem allOrNothing_u64 : u64.AllOrNothing 8 Encode.u64 :=
  (allOrNothing_natLE 8).map fun v _ => by
    rw [Encode.u64, UInt64.toNat_ofNat']
    exact Bytes.ofNatLE_mod_range 8 v

theorem allOrNothing_i32 : i32.AllOrNothing 4 Encode.i32 :=
  (allOrNothing_intLE 4).map fun v _ => by
    rw [Encode.i32, Int32.toInt_ofInt]
    exact Bytes.ofIntLE_bmod_range 4 v

theorem allOrNothing_i64 : i64.AllOrNothing 8 Encode.i64 :=
  (allOrNothing_intLE 8).map fun v _ => by
    rw [Encode.i64, Int64.toInt_ofInt]
    exact Bytes.ofIntLE_bmod_range 8 v

end Decoder

namespace Reader

/-! ## Reads -/

/-- The reads, by the type of what they read. -/
inductive Read : Type → Type 1 where
  | position : Read Nat
  | remaining : Read Nat
  | atEnd : Read Bool
  | peek : Read UInt8
  | bool : Read Bool
  | byte : Read UInt8
  | u16 : Read UInt16
  | u32 : Read UInt32
  | i32 : Read Int32
  | u64 : Read UInt64
  | i64 : Read Int64
  | fixed (n : Nat) : Read (FixedBytes n)
  | bytes (n : Nat) : Read Bytes
  | toEnd : Read Bytes
  | count (max : Nat) : Read Nat
  | counted (max : Nat) : Read Bytes
  | text (max : Nat) : Read String
  /-- A value that is read by a plan of its own. -/
  | value {α : Type} {d : Decoder DecodeError α} (p : Planned d) : Read α
  /-- At most `max` such values after their count. -/
  | list {α : Type} {d : Decoder DecodeError α} (max : Nat) (p : Planned d) : Read (List α)

namespace Read

variable {α : Type}

def decoder : Read α → Decoder DecodeError α
  | position => Decoder.position
  | remaining => fun r => (.ok r.remaining, r)
  | atEnd => Decoder.isAtEnd
  | peek => Decoder.peek
  | bool => Decoder.bool
  | byte => Decoder.byte
  | u16 => Decoder.u16
  | u32 => Decoder.u32
  | i32 => Decoder.i32
  | u64 => Decoder.u64
  | i64 => Decoder.i64
  | fixed n => Decoder.fixed n
  | bytes n => Decoder.take n
  | toEnd => Decoder.toEnd
  | count max => Decoder.count max
  | counted max => Decoder.counted max
  | text max => Decoder.text max
  | @value _ d _ => d
  | @list _ d max _ => Decoder.list max d

def planned : (q : Read α) → Planned q.decoder
  | position => .position
  | remaining => ⟨.access .remaining fun n => .done (.ok n), rfl⟩
  | atEnd => .isAtEnd
  | peek => .peek
  | bool => .bool
  | byte => .byte
  | u16 => .u16
  | u32 => .u32
  | i32 => .i32
  | u64 => .u64
  | i64 => .i64
  | fixed n => .fixed n
  | bytes n => .take n
  | toEnd => .toEnd
  | count max => .count max
  | counted max => .counted max
  | text max => .text max
  | value p => p
  | list max p => .list max p

def onCursor (q : Read α) (c : Cursor) : Option (Except DecodeError α × Cursor) := q.planned.plan.onCursor c

theorem onCursor_eq (q : Read α) {c : Cursor} (h : c.InBounds) :
    ∃ x k, c.pos + k ≤ c.bytes.length ∧ q.decoder c.reader = (x, (c.advance k).reader) ∧
      q.onCursor c = some (x, c.advance k) := by
  obtain ⟨x, k, hk, hreader, hcursor⟩ := q.planned.plan.onCursor_eq h
  rw [q.planned.run_eq] at hreader
  exact ⟨x, k, hk, hreader, hcursor⟩

/-- `q` takes `n` bytes, and `encode` writes them. -/
inductive IsFixed : {α : Type} → Read α → Nat → (α → Bytes) → Prop
  | byte : IsFixed .byte 1 fun b => [b]
  | u16 : IsFixed .u16 2 Encode.u16
  | u32 : IsFixed .u32 4 Encode.u32
  | i32 : IsFixed .i32 4 Encode.i32
  | u64 : IsFixed .u64 8 Encode.u64
  | i64 : IsFixed .i64 8 Encode.i64
  | fixed (n : Nat) : IsFixed (.fixed n) n FixedBytes.bytes
  | bytes (n : Nat) : IsFixed (.bytes n) n id

theorem IsFixed.allOrNothing {q : Read α} {n : Nat} {encode : α → Bytes} (hq : q.IsFixed n encode) :
    q.decoder.AllOrNothing n encode := by
  cases hq with
  | byte => exact Decoder.allOrNothing_byte
  | u16 => exact Decoder.allOrNothing_u16
  | u32 => exact Decoder.allOrNothing_u32
  | i32 => exact Decoder.allOrNothing_i32
  | u64 => exact Decoder.allOrNothing_u64
  | i64 => exact Decoder.allOrNothing_i64
  | fixed n => exact Decoder.allOrNothing_fixed n
  | bytes n => exact Decoder.allOrNothing_take n

end Read

/-! ## Histories -/

inductive Op : Type 1 where
  | mark
  | reset
  | read {α : Type} (q : Read α)

def Op.onReader : Op → Reader → Reader
  | mark, r => r.mark
  | reset, r => r.reset
  | read q, r => (q.decoder r).2

def Op.onCursor : Op → Cursor → Option Cursor
  | mark, c => some c.mark
  | reset, c => some c.reset
  | read q, c => (q.onCursor c).map Prod.snd

/-- The reader after the operations, whether or not the reads among them give a value. -/
def run (r : Reader) (ops : List Op) : Reader := ops.foldl (fun r o => o.onReader r) r

end Reader

open Reader

/-- The same operations by index, unless one of them is out of range. -/
def Cursor.run (c : Cursor) (ops : List Op) : Option Cursor := ops.foldlM (fun c o => o.onCursor c) c

/-- An operation goes the same way by index and stays in bounds, and only a mark moves the mark. -/
theorem Reader.Op.onCursor_eq (o : Op) {c : Cursor} (h : c.InBounds) :
    ∃ c', o.onCursor c = some c' ∧ o.onReader c.reader = c'.reader ∧ c'.InBounds ∧ c'.bytes = c.bytes ∧
      (o ≠ .mark → c'.marker = c.marker) := by
  cases o with
  | mark => exact ⟨c.mark, rfl, rfl, h.mark, rfl, fun hmark => absurd rfl hmark⟩
  | reset => exact ⟨c.reset, rfl, rfl, h.reset, rfl, fun _ => rfl⟩
  | read q =>
    obtain ⟨x, k, hk, hreader, hcursor⟩ := q.onCursor_eq h
    refine ⟨c.advance k, ?_, ?_, h.advance hk, rfl, fun _ => rfl⟩
    · rw [onCursor, hcursor, Option.map_some]
    · rw [onReader, hreader]

namespace Cursor

theorem run_cons (c : Cursor) (o : Op) (ops : List Op) : c.run (o :: ops) = (o.onCursor c).bind fun c' => c'.run ops :=
  rfl

theorem run_append (c : Cursor) (ops ops' : List Op) :
    c.run (ops ++ ops') = (c.run ops).bind fun c' => c'.run ops' :=
  List.foldlM_append

/-- A history goes the same way by index and stays in bounds, and without a mark the mark stays. -/
theorem run_eq (ops : List Op) {c : Cursor} (h : c.InBounds) :
    ∃ c', c.run ops = some c' ∧ c.reader.run ops = c'.reader ∧ c'.InBounds ∧ c'.bytes = c.bytes ∧
      (.mark ∉ ops → c'.marker = c.marker) := by
  induction ops generalizing c with
  | nil => exact ⟨c, rfl, rfl, h, rfl, fun _ => rfl⟩
  | cons o ops ih =>
    obtain ⟨c₁, hcursor₁, hreader₁, h₁, hbytes₁, hmarker₁⟩ := o.onCursor_eq h
    obtain ⟨c₂, hcursor₂, hreader₂, h₂, hbytes₂, hmarker₂⟩ := ih h₁
    refine ⟨c₂, ?_, ?_, h₂, hbytes₂.trans hbytes₁, ?_⟩
    · rw [run_cons, hcursor₁, Option.bind_some, hcursor₂]
    · rw [← hreader₂, ← hreader₁]
      rfl
    · intro hmark
      rw [List.mem_cons, not_or] at hmark
      rw [hmarker₂ hmark.2, hmarker₁ (Ne.symm hmark.1)]

/-- After a mark that no other follows, the marked place is where it was set. -/
theorem run_marker {before after : List Op} (hafter : .mark ∉ after) {c c' : Cursor} (h : c.InBounds)
    (hrun : c.run (before ++ .mark :: after) = some c') : c'.marker = (c.reader.run before).pos := by
  -- The history is cut at the mark: what comes before says where it is set, what comes after leaves it there.
  obtain ⟨c₁, hcursor₁, hreader₁, h₁, -, -⟩ := run_eq before h
  obtain ⟨c₂, hcursor₂, -, -, -, hmarker₂⟩ := run_eq after h₁.mark
  have hrun₂ : c.run (before ++ .mark :: after) = some c₂ := by
    rw [run_append, hcursor₁, Option.bind_some, run_cons]
    exact hcursor₂
  obtain rfl : c' = c₂ := Option.some.inj (hrun.symm.trans hrun₂)
  rw [hmarker₂ hafter, hreader₁]
  rfl

end Cursor

/-- Whatever was read, marked and gone back to before, nothing is out of range, neither then nor in the next read. The
next read goes forward if at all, and one of a fixed size takes just the bytes of its value, or finds too few and
stays; going back leads to the last mark, or to the start. -/
theorem Reader.run_start_inBounds (bs : Bytes) (ops : List Op) :
    ∃ c, (Cursor.start bs).run ops = some c ∧ (start bs).run ops = c.reader ∧ c.bytes = bs ∧ c.InBounds ∧
      (∀ {α : Type} (q : Read α), ∃ c', q.onCursor c = some ((q.decoder c.reader).1, c') ∧
        (q.decoder c.reader).2 = c'.reader ∧ c.pos ≤ c'.pos) ∧
      (∀ {α : Type} (q : Read α) (n : Nat) (encode : α → Bytes), q.IsFixed n encode →
        match q.decoder c.reader with
        | (.ok a, r) => r.pos = c.pos + n ∧ encode a = bs.extract c.pos r.pos
        | (.error _, r) => r = c.reader ∧ bs.length < c.pos + n) ∧
      (∀ before after, ops = before ++ .mark :: after → .mark ∉ after →
        c.reader.reset.pos = ((start bs).run before).pos) ∧
      (.mark ∉ ops → c.reader.reset.pos = 0) := by
  have hstart := Cursor.inBounds_start bs
  obtain ⟨c, hcursor, hreader, h, rfl, hmarker⟩ := Cursor.run_eq ops hstart
  refine ⟨c, hcursor, hreader, rfl, h, ?_, ?_, ?_, hmarker⟩
  · intro α q
    obtain ⟨x, k, -, hreader', hcursor'⟩ := q.onCursor_eq h
    rw [hreader']
    exact ⟨c.advance k, hcursor', rfl, Nat.le_add_right c.pos k⟩
  · intro α q n encode hq
    have hread := hq.allOrNothing c.reader
    split at hread
    · obtain ⟨a, ha, hread⟩ := hread
      rw [hread]
      refine ⟨rfl, ?_⟩
      rw [ha, List.extract_eq_take_drop]
      exact congrArg (List.take · _) (Nat.add_sub_cancel_left c.pos n).symm
    · next hfew =>
      rw [c.length_reader_rest] at hfew
      rw [hread]
      exact ⟨rfl, by have := h.pos_le; omega⟩
  · rintro before after rfl hafter
    exact Cursor.run_marker hafter hstart hcursor

/-- A word that is not there stays unread, and going back leads behind the first byte; without a mark, where a byte
that is no truth value was read, it leads to the start. -/
theorem Reader.run_start_inBounds_rewind :
    (∃ c, (Cursor.start [1, 2, 3, 4]).run [.read .byte, .mark, .read .u16] = some c ∧ c.pos = 3 ∧
      (Decoder.u32 c.reader).2 = c.reader ∧ c.reader.reset.pos = 1) ∧
    ∃ c, (Cursor.start [2]).run [.read .bool] = some c ∧ c.pos = 1 ∧ c.reader.reset.pos = 0 := by
  constructor
  · obtain ⟨c, hcursor, hreader, -, -, -, hfixed, hmark, -⟩ :=
      run_start_inBounds [1, 2, 3, 4] [.read .byte, .mark, .read .u16]
    have hpos : c.pos = 3 := congrArg pos hreader.symm
    have hreset := hmark [.read .byte] [.read .u16] rfl (by simp)
    refine ⟨c, hcursor, hpos, ?_, hreset⟩
    have hword := hfixed .u32 4 Encode.u32 .u32
    rw [← hreader] at hword ⊢
    exact hword.1
  · obtain ⟨c, hcursor, hreader, -, -, -, -, -, hstart⟩ := run_start_inBounds [2] [.read .bool]
    have hpos : c.pos = 1 := congrArg pos hreader.symm
    exact ⟨c, hcursor, hpos, hstart (by simp)⟩

end N3
