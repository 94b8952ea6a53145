import N3.Bytes

/-!
# Base64

The standard alphabet, three bytes to four characters, padded with `=` to a multiple of four. Reading is
strict, so that each run of bytes has one text: the padding must be there, nothing may follow it, and the bits
that the last character has to spare must be zero.
-/

set_option autoImplicit false

namespace N3.Base64

def char (v : Nat) : Char :=
  if v < 26 then Char.ofNat (0x41 + v)
  else if v < 52 then Char.ofNat (0x61 + (v - 26))
  else if v < 62 then Char.ofNat (0x30 + (v - 52))
  else if v = 62 then '+'
  else '/'

def value? (c : Char) : Option Nat :=
  if 'A' ≤ c ∧ c ≤ 'Z' then some (c.toNat - 0x41)
  else if 'a' ≤ c ∧ c ≤ 'z' then some (c.toNat - 0x61 + 26)
  else if '0' ≤ c ∧ c ≤ '9' then some (c.toNat - 0x30 + 52)
  else if c = '+' then some 62
  else if c = '/' then some 63
  else none

/-- Writes groups of three bytes; `acc` holds the characters so far, last first. -/
def encodeGroups (acc : List Char) : Bytes → List Char
  | a :: b :: c :: rest =>
    let v := a.toNat * 65536 + b.toNat * 256 + c.toNat
    encodeGroups (char (v % 64) :: char (v / 64 % 64) :: char (v / 4096 % 64) :: char (v / 262144) :: acc) rest
  | [a, b] =>
    let v := a.toNat * 256 + b.toNat
    ('=' :: char (v % 16 * 4) :: char (v / 16 % 64) :: char (v / 1024) :: acc).reverse
  | [a] => ('=' :: '=' :: char (a.toNat % 4 * 16) :: char (a.toNat / 4) :: acc).reverse
  | [] => acc.reverse

def encode (bs : Bytes) : String := String.ofList (encodeGroups [] bs)

/-- Reads groups of four characters; `acc` holds the bytes so far, last first. -/
def decodeGroups (acc : Bytes) : List Char → Option Bytes
  | [] => some acc.reverse
  | [a, b, '=', '='] => do
    let v := (← value? a) * 64 + (← value? b)
    if v % 16 = 0 then some (UInt8.ofNat (v / 16) :: acc).reverse else none
  | [a, b, c, '='] => do
    let v := (← value? a) * 4096 + (← value? b) * 64 + (← value? c)
    if v % 4 = 0 then some (UInt8.ofNat (v / 4) :: UInt8.ofNat (v / 1024) :: acc).reverse else none
  | a :: b :: c :: d :: rest =>
    match value? a, value? b, value? c, value? d with
    | some a, some b, some c, some d =>
      let v := a * 262144 + b * 4096 + c * 64 + d
      decodeGroups (UInt8.ofNat v :: UInt8.ofNat (v / 256) :: UInt8.ofNat (v / 65536) :: acc) rest
    | _, _, _, _ => none
  | _ => none

def decode? (s : String) : Option Bytes := decodeGroups [] s.toList

end N3.Base64
