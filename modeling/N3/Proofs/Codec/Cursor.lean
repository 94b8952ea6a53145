import N3.Proofs.Codec.Reads

/-!
# Reading by index

A cursor is a place in bytes that stay whole, with a marked place beside it. What it reads is found by index, by range
and by a difference of lengths, and each of these answers `none` where it is out of range.

A plan says which accesses are made, each on what those before it answered; it neither marks nor goes back. It runs on
a reader, which cannot be out of range since it holds the bytes that are left, and on a cursor, which can. From a
cursor that is in bounds both answer the same, the cursor moves forward if at all, and it stays in bounds
(`Plan.onCursor_eq`).

`Planned d` is a plan that reads what the decoder `d` reads. There is one for each decoder of a byte, a word, a count
or what comes with a count, and sequencing leads from plans to plans.
-/

set_option autoImplicit false

namespace N3

/-- Two places in bytes, each given by the number of bytes before it. -/
structure Cursor where
  bytes : Bytes
  pos : Nat
  /-- The place to go back to. -/
  marker : Nat

namespace Cursor

def start (bs : Bytes) : Cursor := ⟨bs, 0, 0⟩

/-- Neither place is behind the end of the bytes. -/
structure InBounds (c : Cursor) : Prop where
  pos_le : c.pos ≤ c.bytes.length
  marker_le : c.marker ≤ c.bytes.length

/-- The reader with the same two places. -/
def reader (c : Cursor) : Reader := ⟨c.bytes.drop c.pos, c.pos, c.bytes.drop c.marker, c.marker⟩

def advance (c : Cursor) (k : Nat) : Cursor := { c with pos := c.pos + k }

def mark (c : Cursor) : Cursor := { c with marker := c.pos }

def reset (c : Cursor) : Cursor := { c with pos := c.marker }

theorem advance_advance (c : Cursor) (j k : Nat) : (c.advance j).advance k = c.advance (j + k) := by
  simp [advance, Nat.add_assoc]

theorem inBounds_start (bs : Bytes) : (start bs).InBounds := ⟨Nat.zero_le _, Nat.zero_le _⟩

theorem InBounds.advance {c : Cursor} (h : c.InBounds) {k : Nat} (hk : c.pos + k ≤ c.bytes.length) :
    (c.advance k).InBounds :=
  ⟨hk, h.marker_le⟩

theorem InBounds.mark {c : Cursor} (h : c.InBounds) : c.mark.InBounds := ⟨h.pos_le, h.pos_le⟩

theorem InBounds.reset {c : Cursor} (h : c.InBounds) : c.reset.InBounds := ⟨h.marker_le, h.marker_le⟩

theorem length_reader_rest (c : Cursor) : c.reader.rest.length = c.bytes.length - c.pos := List.length_drop

theorem reader_advance (c : Cursor) (k : Nat) :
    (c.advance k).reader = { c.reader with rest := c.reader.rest.drop k, pos := c.pos + k } := by
  simp [reader, advance]

/-! ## What may be out of range -/

/-- How many bytes are left, as a difference that cannot be negative. -/
def remaining? (c : Cursor) : Option Nat :=
  if c.pos ≤ c.bytes.length then some (c.bytes.length - c.pos) else none

def get? (c : Cursor) : Option UInt8 := c.bytes[c.pos]?

def slice? (c : Cursor) (n : Nat) : Option Bytes :=
  if c.pos + n ≤ c.bytes.length then some (c.bytes.extract c.pos (c.pos + n)) else none

/-- The `n` bytes from the place on, copied to where there is room for just as many. -/
def array? (c : Cursor) (n : Nat) : Option (FixedBytes n) :=
  (c.slice? n).bind fun front => if h : front.length = n then some ⟨front, h⟩ else none

/-- Moves over `n` bytes with what is read of them, if so many are left. -/
def guarded {α : Type} (c : Cursor) (n : Nat) (read : Option α) (k : Nat) : Option (Except DecodeError α × Cursor) :=
  c.remaining?.bind fun left =>
    if left < n then some (.error (.endOfData n left), c) else read.map fun a => (.ok a, c.advance k)

variable {α : Type} {c : Cursor}

theorem remaining?_eq (h : c.InBounds) : c.remaining? = some c.reader.rest.length := by
  rw [remaining?, if_pos h.pos_le, length_reader_rest]

theorem get?_eq {b : UInt8} {rest : Bytes} (h : c.reader.rest = b :: rest) : c.get? = some b := by
  have hdrop : (c.bytes.drop c.pos)[0]? = some b := by
    show c.reader.rest[0]? = some b
    rw [h]
    rfl
  rwa [List.getElem?_drop] at hdrop

theorem slice?_eq {n : Nat} (h : c.pos + n ≤ c.bytes.length) : c.slice? n = some (c.reader.rest.take n) := by
  rw [slice?, if_pos h, List.extract_eq_take_drop, Nat.add_sub_cancel_left]
  rfl

theorem array?_eq {n : Nat} (h : c.pos + n ≤ c.bytes.length) (hlength : (c.reader.rest.take n).length = n) :
    c.array? n = some ⟨c.reader.rest.take n, hlength⟩ := by
  rw [array?, slice?_eq h, Option.bind_some, dif_pos hlength]

theorem guarded_of_lt (h : c.InBounds) {n : Nat} (hn : c.reader.rest.length < n) (read : Option α) (k : Nat) :
    c.guarded n read k = some (.error (.endOfData n c.reader.rest.length), c) := by
  rw [guarded, remaining?_eq h, Option.bind_some, if_pos hn]

theorem guarded_of_le (h : c.InBounds) {n : Nat} (hn : n ≤ c.reader.rest.length) (a : α) (k : Nat) :
    c.guarded n (some a) k = some (.ok a, c.advance k) := by
  rw [guarded, remaining?_eq h, Option.bind_some, if_neg (Nat.not_lt.mpr hn), Option.map_some]

end Cursor

/-! ## One access -/

namespace Decoder

theorem byte_of_nil {r : Reader} (h : r.rest = []) : byte r = (.error (.endOfData 1 0), r) := by
  simp only [byte, h]

theorem byte_of_cons {r : Reader} {b : UInt8} {rest : Bytes} (h : r.rest = b :: rest) :
    byte r = (.ok b, { r with rest := rest, pos := r.pos + 1 }) := by
  simp only [byte, h]

theorem take_of_lt {r : Reader} {n : Nat} (h : r.rest.length < n) :
    take n r = (.error (.endOfData n r.rest.length), r) := by
  have hfront : (r.rest.take n).length = r.rest.length := by
    rw [List.length_take, Nat.min_eq_right (Nat.le_of_lt h)]
  simp only [take, List.splitAt_eq, hfront]
  rw [if_neg (Nat.ne_of_lt h)]

theorem take_of_le {r : Reader} {n : Nat} (h : n ≤ r.rest.length) :
    take n r = (.ok (r.rest.take n), { r with rest := r.rest.drop n, pos := r.pos + n }) := by
  have hfront : (r.rest.take n).length = n := List.length_take_of_le h
  simp only [take, List.splitAt_eq, hfront, if_true]

theorem fixed_of_lt {r : Reader} {n : Nat} (h : r.rest.length < n) :
    fixed n r = (.error (.endOfData n r.rest.length), r) := by
  have hfront : (r.rest.take n).length = r.rest.length := by
    rw [List.length_take, Nat.min_eq_right (Nat.le_of_lt h)]
  simp only [fixed, List.splitAt_eq, hfront]
  rw [dif_neg (Nat.ne_of_lt h)]

theorem fixed_of_le {r : Reader} {n : Nat} (h : n ≤ r.rest.length) :
    fixed n r = (.ok ⟨r.rest.take n, List.length_take_of_le h⟩, { r with rest := r.rest.drop n, pos := r.pos + n }) := by
  simp only [fixed, List.splitAt_eq]
  rw [dif_pos (List.length_take_of_le h)]

end Decoder

inductive Access : Type → Type 1 where
  | position : Access Nat
  | remaining : Access Nat
  | atEnd : Access Bool
  | peek : Access (Except DecodeError UInt8)
  | byte : Access (Except DecodeError UInt8)
  | take (n : Nat) : Access (Except DecodeError Bytes)
  | fixed (n : Nat) : Access (Except DecodeError (FixedBytes n))

namespace Access

variable {α : Type}

def onReader : Access α → Reader → α × Reader
  | position, r => (r.pos, r)
  | remaining, r => (r.remaining, r)
  | atEnd, r => (r.atEnd, r)
  | peek, r => Decoder.peek r
  | byte, r => Decoder.byte r
  | take n, r => Decoder.take n r
  | fixed n, r => Decoder.fixed n r

/-- The same access by index, which gives nothing where an index is out of range. -/
def onCursor : Access α → Cursor → Option (α × Cursor)
  | position, c => some (c.pos, c)
  | remaining, c => c.remaining?.map fun left => (left, c)
  | atEnd, c => some (decide (c.bytes.length ≤ c.pos), c)
  | peek, c => c.guarded 1 c.get? 0
  | byte, c => c.guarded 1 c.get? 1
  | take n, c => c.guarded n (c.slice? n) n
  | fixed n, c => c.guarded n (c.array? n) n

theorem atEnd_reader (c : Cursor) : c.reader.atEnd = decide (c.bytes.length ≤ c.pos) := by
  rw [Bool.eq_iff_iff, decide_eq_true_iff, Reader.atEnd, List.isEmpty_iff]
  exact List.drop_eq_nil_iff

/-- An access goes the same way on both: the guard of a read finds too few bytes exactly where the reader does. -/
theorem onCursor_eq (s : Access α) {c : Cursor} (h : c.InBounds) :
    ∃ a k, c.pos + k ≤ c.bytes.length ∧ s.onReader c.reader = (a, (c.advance k).reader) ∧
      s.onCursor c = some (a, c.advance k) := by
  have hrest := c.length_reader_rest
  have hpos := h.pos_le
  cases s with
  | position => exact ⟨c.pos, 0, hpos, rfl, rfl⟩
  | remaining =>
    refine ⟨c.reader.remaining, 0, hpos, rfl, ?_⟩
    rw [onCursor, Cursor.remaining?_eq h]
    rfl
  | atEnd =>
    refine ⟨c.reader.atEnd, 0, hpos, rfl, ?_⟩
    rw [onCursor, atEnd_reader]
    rfl
  | peek =>
    rcases hbytes : c.reader.rest with _ | ⟨b, rest⟩
    · refine ⟨.error (.endOfData 1 0), 0, hpos, ?_, ?_⟩
      · rw [onReader, Decoder.peek, Decoder.byte_of_nil hbytes]
        rfl
      · rw [onCursor, Cursor.guarded_of_lt h (by simp [hbytes]), hbytes]
        rfl
    · refine ⟨.ok b, 0, hpos, ?_, ?_⟩
      · rw [onReader, Decoder.peek, Decoder.byte_of_cons hbytes]
        rfl
      · rw [onCursor, Cursor.get?_eq hbytes, Cursor.guarded_of_le h (by simp [hbytes])]
  | byte =>
    rcases hbytes : c.reader.rest with _ | ⟨b, rest⟩
    · refine ⟨.error (.endOfData 1 0), 0, hpos, Decoder.byte_of_nil hbytes, ?_⟩
      rw [onCursor, Cursor.guarded_of_lt h (by simp [hbytes]), hbytes]
      rfl
    · have hlength : c.reader.rest.length = rest.length + 1 := by rw [hbytes, List.length_cons]
      refine ⟨.ok b, 1, by omega, ?_, ?_⟩
      · rw [onReader, Decoder.byte_of_cons hbytes, Cursor.reader_advance, hbytes]
        rfl
      · rw [onCursor, Cursor.get?_eq hbytes, Cursor.guarded_of_le h (by omega)]
  | take n =>
    by_cases hn : c.reader.rest.length < n
    · exact ⟨_, 0, hpos, Decoder.take_of_lt hn, Cursor.guarded_of_lt h hn _ n⟩
    · have hslice : c.pos + n ≤ c.bytes.length := by omega
      refine ⟨.ok (c.reader.rest.take n), n, hslice, ?_, ?_⟩
      · rw [onReader, Decoder.take_of_le (Nat.not_lt.mp hn), Cursor.reader_advance]
        rfl
      · rw [onCursor, Cursor.slice?_eq hslice, Cursor.guarded_of_le h (Nat.not_lt.mp hn)]
  | fixed n =>
    by_cases hn : c.reader.rest.length < n
    · exact ⟨_, 0, hpos, Decoder.fixed_of_lt hn, Cursor.guarded_of_lt h hn _ n⟩
    · have hslice : c.pos + n ≤ c.bytes.length := by omega
      have hlength : (c.reader.rest.take n).length = n := List.length_take_of_le (Nat.not_lt.mp hn)
      refine ⟨.ok ⟨c.reader.rest.take n, hlength⟩, n, hslice, ?_, ?_⟩
      · rw [onReader, Decoder.fixed_of_le (Nat.not_lt.mp hn), Cursor.reader_advance]
        rfl
      · rw [onCursor, Cursor.array?_eq hslice hlength, Cursor.guarded_of_le h (Nat.not_lt.mp hn)]

end Access

/-! ## Many accesses -/

/-- Accesses in a row, each chosen by the answers to those before it. -/
inductive Plan (β : Type) : Type 1 where
  | done (b : β)
  | access {α : Type} (s : Access α) (next : α → Plan β)

namespace Plan

variable {α β : Type}

def run : Plan β → Reader → β × Reader
  | done b, r => (b, r)
  | access s next, r => (next (s.onReader r).1).run (s.onReader r).2

def onCursor : Plan β → Cursor → Option (β × Cursor)
  | done b, c => some (b, c)
  | access s next, c => (s.onCursor c).bind fun answer => (next answer.1).onCursor answer.2

/-- The accesses of `p`, and those that its answer leads to. -/
def bind : Plan α → (α → Plan β) → Plan β
  | done a, f => f a
  | access s next, f => access s fun answer => (next answer).bind f

theorem run_bind (p : Plan α) (f : α → Plan β) (r : Reader) :
    (p.bind f).run r = (f (p.run r).1).run (p.run r).2 := by
  induction p generalizing r with
  | done a => rfl
  | access s next ih => exact ih (s.onReader r).1 (s.onReader r).2

/-- From a cursor in bounds no access of a plan is out of range, and the plan goes as on the reader. -/
theorem onCursor_eq (p : Plan β) {c : Cursor} (h : c.InBounds) :
    ∃ b k, c.pos + k ≤ c.bytes.length ∧ p.run c.reader = (b, (c.advance k).reader) ∧
      p.onCursor c = some (b, c.advance k) := by
  -- The first access leads to a cursor that is in bounds again, from where the rest of the plan goes on.
  induction p generalizing c with
  | done b => exact ⟨b, 0, h.pos_le, rfl, rfl⟩
  | access s next ih =>
    obtain ⟨a, j, hj, hreader, hcursor⟩ := s.onCursor_eq h
    obtain ⟨b, k, hk, hnext, hnext'⟩ := ih a (h.advance hj)
    refine ⟨b, j + k, ?_, ?_, ?_⟩
    · show c.pos + (j + k) ≤ c.bytes.length
      rw [← Nat.add_assoc]
      exact hk
    · rw [run, hreader, hnext, Cursor.advance_advance]
    · rw [onCursor, hcursor, Option.bind_some, hnext', Cursor.advance_advance]

end Plan

/-! ## The plans of the decoders -/

/-- A plan that reads what `d` reads. -/
structure Planned {ε α : Type} (d : Decoder ε α) where
  plan : Plan (Except ε α)
  run_eq : plan.run = d

namespace Planned

open Decoder

variable {ε α β : Type}

protected def copy {d d' : Decoder ε α} (h : d' = d) (p : Planned d) : Planned d' := ⟨p.plan, p.run_eq.trans h.symm⟩

/-! ### Sequencing -/

protected def ofExcept (x : Except ε α) : Planned (ofExcept x) := ⟨.done x, rfl⟩

protected def ofOption (o : Option α) (e : ε) : Planned (ofOption o e) := ⟨.done (o.elim (.error e) .ok), rfl⟩

protected def pure (a : α) : Planned (pure a : Decoder ε α) := ⟨.done (.ok a), rfl⟩

protected def fail (e : ε) : Planned (fail e : Decoder ε α) := ⟨.done (.error e), rfl⟩

protected def bind {d : Decoder ε α} {f : α → Decoder ε β} (p : Planned d) (q : ∀ a, Planned (f a)) :
    Planned (d >>= f) where
  plan := p.plan.bind fun
    | .ok a => (q a).plan
    | .error e => .done (.error e)
  run_eq := by
    funext r
    rw [Plan.run_bind, p.run_eq, bind_apply]
    rcases d r with ⟨e | a, r'⟩
    · rfl
    · exact congrFun (q a).run_eq r'

protected def map {d : Decoder ε α} (p : Planned d) (f : α → β) : Planned (do return f (← d)) :=
  p.bind fun a => .pure (f a)

protected def ite {t : Prop} [Decidable t] {d d' : Decoder ε α} (p : Planned d) (q : Planned d') :
    Planned (if t then d else d') :=
  if h : t then p.copy (if_pos h) else q.copy (if_neg h)

/-! ### Bytes and words -/

protected def position : Planned (position : Decoder ε Nat) := ⟨.access .position fun n => .done (.ok n), rfl⟩

protected def isAtEnd : Planned (isAtEnd : Decoder ε Bool) := ⟨.access .atEnd fun b => .done (.ok b), rfl⟩

protected def byte : Planned byte := ⟨.access .byte .done, rfl⟩

protected def peek : Planned peek := ⟨.access .peek .done, rfl⟩

protected def take (n : Nat) : Planned (take n) := ⟨.access (.take n) .done, rfl⟩

protected def fixed (n : Nat) : Planned (fixed n) := ⟨.access (.fixed n) .done, rfl⟩

protected def toEnd : Planned toEnd where
  plan := .access .remaining fun n => .access (.take n) .done
  run_eq := by
    funext r
    show take r.rest.length r = toEnd r
    rw [take_of_le (Nat.le_refl _), List.take_length, List.drop_length]
    rfl

protected def natLE (n : Nat) : Planned (natLE n) := (Planned.take n).map Bytes.toNatLE

protected def intLE (n : Nat) : Planned (intLE n) := (Planned.take n).map Bytes.toIntLE

protected def u16 : Planned u16 := (Planned.natLE 2).map UInt16.ofNat

protected def u32 : Planned u32 := (Planned.natLE 4).map UInt32.ofNat

protected def u64 : Planned u64 := (Planned.natLE 8).map UInt64.ofNat

protected def i32 : Planned i32 := (Planned.intLE 4).map Int32.ofInt

protected def i64 : Planned i64 := (Planned.intLE 8).map Int64.ofInt

protected def bool : Planned bool :=
  Planned.byte.bind fun b =>
    if h0 : b = 0 then (Planned.pure false).copy (by rw [h0]; rfl)
    else if h1 : b = 1 then (Planned.pure true).copy (by rw [h1]; rfl)
    else (Planned.fail (.format (.booleanByte b))).copy (by
      split
      · exact absurd rfl h0
      · exact absurd rfl h1
      · rfl)

/-! ### Counts and what they count -/

protected def countValue (b : UInt8) : Planned (countValue b) :=
  if h2 : b = 0xFD then (Planned.natLE 2).copy (by rw [h2]; rfl)
  else if h4 : b = 0xFE then (Planned.natLE 4).copy (by rw [h4]; rfl)
  else if h8 : b = 0xFF then (Planned.natLE 8).copy (by rw [h8]; rfl)
  else (Planned.pure b.toNat).copy (countValue_eq_pure h2 h4 h8)

protected def count (max : Nat) : Planned (count max) :=
  (Planned.byte.bind fun b => (Planned.countValue b).bind fun _ => .ite (.fail _) (.pure _)).copy (count_eq max)

protected def counted (max : Nat) : Planned (counted max) := (Planned.count max).bind Planned.take

protected def text (max : Nat) : Planned (text max) := (Planned.counted max).bind fun _ => .ofOption _ _

protected def times (n : Nat) {item : Decoder ε α} (p : Planned item) : Planned (times n item) :=
  match n with
  | 0 => .pure []
  | n + 1 => p.bind fun a => (Planned.times n p).map (a :: ·)

protected def list (max : Nat) {item : Decoder DecodeError α} (p : Planned item) : Planned (list max item) :=
  (Planned.count max).bind fun n => .times n p

end Planned

end N3
