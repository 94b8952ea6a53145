import N3.Codec.Error

/-!
# Reading bytes

A reader holds what is left of the bytes, how many came before, and one marked place to go back to. A decoder
takes a reader and returns a value or an error, and in either case the reader afterwards: a read of a fixed size
that fails leaves the reader alone, and a longer one leaves it where the part that failed began.

Counts are written in one, three, five or nine bytes. Reading accepts any of the forms for a count that it can
hold, and refuses a count above the largest the caller allows.
-/

set_option autoImplicit false

namespace N3

structure Reader where
  rest : Bytes
  /-- How many bytes come before the rest. -/
  pos : Nat
  /-- The rest and the position at the last mark. -/
  marked : Bytes × Nat
  deriving DecidableEq

namespace Reader

def start (bs : Bytes) : Reader := ⟨bs, 0, bs, 0⟩

def remaining (r : Reader) : Nat := r.rest.length

def atEnd (r : Reader) : Bool := r.rest.isEmpty

def mark (r : Reader) : Reader := { r with marked := (r.rest, r.pos) }

def reset (r : Reader) : Reader := { r with rest := r.marked.1, pos := r.marked.2 }

end Reader

/-- A way to read a value, or to fail, that says where it stopped. -/
def Decoder (ε α : Type) : Type := Reader → Except ε α × Reader

namespace Decoder

variable {ε ε' α β : Type}

instance : Monad (Decoder ε) where
  pure a := fun r => (.ok a, r)
  bind d f := fun r =>
    match d r with
    | (.ok a, r') => f a r'
    | (.error e, r') => (.error e, r')

def fail (e : ε) : Decoder ε α := fun r => (.error e, r)

/-- The same reads, with the error seen as part of a larger kind. -/
def mapError (f : ε → ε') (d : Decoder ε α) : Decoder ε' α := fun r =>
  match d r with
  | (.ok a, r') => (.ok a, r')
  | (.error e, r') => (.error (f e), r')

def ofOption (o : Option α) (e : ε) : Decoder ε α := fun r => (o.elim (.error e) .ok, r)

def ofExcept (x : Except ε α) : Decoder ε α := fun r => (x, r)

def position : Decoder ε Nat := fun r => (.ok r.pos, r)

def isAtEnd : Decoder ε Bool := fun r => (.ok r.atEnd, r)

/-! ## Bytes and words -/

def take (n : Nat) : Decoder DecodeError Bytes := fun r =>
  let (front, rest) := r.rest.splitAt n
  if front.length = n then (.ok front, { r with rest := rest, pos := r.pos + n })
  else (.error (.endOfData n front.length), r)

def byte : Decoder DecodeError UInt8 := fun r =>
  match r.rest with
  | b :: rest => (.ok b, { r with rest := rest, pos := r.pos + 1 })
  | [] => (.error (.endOfData 1 0), r)

def peek : Decoder DecodeError UInt8 := fun r => ((byte r).1, r)

def toEnd : Decoder DecodeError Bytes := fun r =>
  (.ok r.rest, { r with rest := [], pos := r.pos + r.rest.length })

def fixed (n : Nat) : Decoder DecodeError (FixedBytes n) := fun r =>
  let (front, rest) := r.rest.splitAt n
  if h : front.length = n then (.ok ⟨front, h⟩, { r with rest := rest, pos := r.pos + n })
  else (.error (.endOfData n front.length), r)

def natLE (n : Nat) : Decoder DecodeError Nat := do return Bytes.toNatLE (← take n)

def intLE (n : Nat) : Decoder DecodeError Int := do return Bytes.toIntLE (← take n)

def u16 : Decoder DecodeError UInt16 := do return UInt16.ofNat (← natLE 2)
def u32 : Decoder DecodeError UInt32 := do return UInt32.ofNat (← natLE 4)
def u64 : Decoder DecodeError UInt64 := do return UInt64.ofNat (← natLE 8)
def i32 : Decoder DecodeError Int32 := do return Int32.ofInt (← intLE 4)
def i64 : Decoder DecodeError Int64 := do return Int64.ofInt (← intLE 8)

def bool : Decoder DecodeError Bool := do
  match ← byte with
  | 0 => return false
  | 1 => return true
  | b => fail (.format (.booleanByte b))

/-! ## Counts and what they count -/

/-- A count of at most `max`, in any of its forms. -/
def count (max : Nat) : Decoder DecodeError Nat := do
  let value ←
    match ← byte with
    | 0xFD => natLE 2
    | 0xFE => natLE 4
    | 0xFF => natLE 8
    | b => pure b.toNat
  if max < value then fail (.format (.countAbove value max)) else return value

def counted (max : Nat) : Decoder DecodeError Bytes := do take (← count max)

def textOfBytes? (bs : Bytes) : Option String := String.fromUTF8? ⟨bs.toArray⟩

def text (max : Nat) : Decoder DecodeError String := do
  ofOption (textOfBytes? (← counted max)) (.format .notUtf8)

def times (n : Nat) (item : Decoder ε α) : Decoder ε (List α) :=
  match n with
  | 0 => pure []
  | n + 1 => do
    let a ← item
    let as ← times n item
    return a :: as

def list (max : Nat) (item : Decoder DecodeError α) : Decoder DecodeError (List α) := do
  times (← count max) item

/-! ## Whole values -/

/-- The value, if the bytes hold it and nothing more. -/
def parse (d : Decoder DecodeError α) (bs : Bytes) : Except DecodeError α :=
  match d (Reader.start bs) with
  | (.ok a, r) => if r.atEnd then .ok a else .error (.format (.trailing r.remaining))
  | (.error e, _) => .error e

end Decoder

end N3
