import N3.Codec.Reader
import N3.Codec.Writer
import N3.Error
import N3.Hash
import N3.Limits
import N3.Vm.Push

/-!
# Verification scripts

The script that decides whether a witness is good names its account by its hash. Two templates are recognised: one
key and one signature, and `threshold` of several keys. The second is built from the keys in ascending order, so
that it does not depend on the order in which they are given. A script that is read keeps whatever order it has.
-/

set_option autoImplicit false

namespace N3

structure VerificationScript where
  bytes : Bytes := []
  deriving DecidableEq, Inhabited

namespace VerificationScript

/-! ## The templates -/

def ofKey (key : Point) : VerificationScript := ⟨Push.data key.compressed.bytes ++ Push.service .checkSig⟩

/-- The template over keys in the given order. -/
def multisig (threshold : Nat) (keys : List (FixedBytes 33)) : VerificationScript :=
  ⟨Push.nat threshold ++ keys.flatMap (fun k => Push.data k.bytes) ++ Push.nat keys.length ++
    Push.service .checkMultisig⟩

/-- The template over keys in ascending order, for a threshold that they can reach. -/
def ofKeys (keys : List Point) (threshold : Nat) : Except Error VerificationScript :=
  if threshold < 1 ∨ keys.length < threshold then
    .error (.ofScript (.argument (.thresholdOutOfRange keys.length threshold)))
  else if Limits.multisigKeys < keys.length then
    .error (.ofScript (.argument (.tooManyKeys Limits.multisigKeys keys.length)))
  else .ok (multisig threshold ((Point.sort keys).map Point.compressed))

/-- The name of the account whose witnesses carry this script. -/
def hash (v : VerificationScript) : Hash160 := Hash.hash160 v.bytes

/-! ## Recognising them -/

def singleKey? (v : VerificationScript) : Option Bytes :=
  match v.bytes with
  | op :: length :: rest =>
    let key := rest.take 33
    if v.bytes.length = 40 ∧ op = OpCode.PUSHDATA1.byte ∧ length = 33 ∧
        rest.drop 33 = OpCode.SYSCALL.byte :: Service.checkSig.hash then some key
    else none
  | _ => none

def isSingleSig (v : VerificationScript) : Bool := v.singleKey?.isSome

structure Multisig where
  threshold : Nat
  keys : List Bytes
  deriving DecidableEq

/-- Pushes of 33 bytes from the front of a script, up to the first byte of anything else, which there has to be. A
push of another length ends the reading for good. No push is empty, so that the number of bytes is fuel enough. -/
def readKeys : Nat → Bytes → Option (List Bytes × Bytes)
  | 0, _ => none
  | fuel + 1, bs =>
    match bs with
    | op :: rest =>
      if op = OpCode.PUSHDATA1.byte then do
        let length :: rest := rest | none
        if length ≠ 33 then none
        let (key, rest) ← Instruction.split? 33 rest
        let (keys, rest) ← readKeys fuel rest
        return (key :: keys, rest)
      else some ([], bs)
    | [] => none

/-- The integer that the first instruction pushes and the rest, if it is one and not negative. -/
def readNat? (bs : Bytes) : Option (Nat × Bytes) :=
  match Push.readInt (Reader.start bs) with
  | (.ok v, r) => if 0 ≤ v.toInt then some (v.toInt.toNat, r.rest) else none
  | (.error _, _) => none

/-- What the script says, if it is of the second template: the threshold, so many keys, their number, the call,
and no byte more. -/
def multisig? (v : VerificationScript) : Option Multisig := do
  let (threshold, rest) ← readNat? v.bytes
  if threshold < 1 ∨ Limits.multisigKeys < threshold then none
  let (keys, rest) ← readKeys rest.length rest
  if keys.length < threshold ∨ Limits.multisigKeys < keys.length then none
  let (count, rest) ← readNat? rest
  if count ≠ keys.length ∨ rest ≠ Push.service .checkMultisig then none
  return ⟨threshold, keys⟩

def isMultiSig (v : VerificationScript) : Bool := v.multisig?.isSome

/-! ## What they say -/

def noTemplate (what : String) : Error := .scriptFormat (.noTemplate what)

def threshold (v : VerificationScript) : Except Error Nat :=
  if v.isSingleSig then .ok 1
  else v.multisig?.elim (.error (noTemplate "signing threshold")) fun m => .ok m.threshold

/-- The number of keys. -/
def accounts (v : VerificationScript) : Except Error Nat :=
  if v.isSingleSig then .ok 1
  else v.multisig?.elim (.error (noTemplate "number of accounts")) fun m => .ok m.keys.length

/-- The keys in the order of the script. -/
def keys (v : VerificationScript) : Except Error (List Point) := do
  let found ←
    match v.singleKey? with
    | some key => pure [key]
    | none => v.multisig?.elim (throw (noTemplate "public keys")) fun m => pure m.keys
  found.mapM fun key => (Point.ofCompressed key).mapError Error.ofKey

/-! ## Wire form -/

def encode (v : VerificationScript) : Bytes := Encode.counted v.bytes

def size (v : VerificationScript) : Nat := Encode.countedSize v.bytes.length

def decode : Decoder DecodeError VerificationScript := do return ⟨← Decoder.counted Limits.witnessScriptSize⟩

end VerificationScript

end N3
