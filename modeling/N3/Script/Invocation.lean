import N3.Codec.Writer
import N3.Error
import N3.Limits
import N3.Parameter

/-!
# Invocation scripts

The script that runs before the verification script and pushes what that one looks at: signatures, or the
parameters of a contract's own check.
-/

set_option autoImplicit false

namespace N3

structure InvocationScript where
  bytes : Bytes := []
  deriving DecidableEq, Inhabited

namespace InvocationScript

def ofSignatures (signatures : List Signature) : InvocationScript := ⟨signatures.flatMap fun s => Push.data s.bytes⟩

def ofParameters (parameters : List Parameter) : Except Error InvocationScript :=
  match (Emission.sequence (parameters.map Parameter.push)).toExcept with
  | .ok bs => .ok ⟨bs⟩
  | .error e => .error (.ofScript e)

/-- The signatures that the rest of a script pushes; each takes some of the fuel. -/
def readSignatures : Nat → Decoder Error (List Signature)
  | 0 => pure []
  | fuel + 1 => do
    if ← Decoder.isAtEnd then return []
    let data ← Push.readData.mapError Error.ofScript
    let signature ← Decoder.ofOption (FixedBytes.ofBytes? 64 data) (.scriptFormat (.notASignature data.length))
    let signatures ← readSignatures fuel
    return signature :: signatures

/-- The signatures that the script pushes, if it pushes nothing else. No instruction is empty, so that the number of
bytes bounds the number of signatures. -/
def signatures (s : InvocationScript) : Except Error (List Signature) :=
  (readSignatures s.bytes.length (Reader.start s.bytes)).1

/-! ## Wire form -/

def encode (s : InvocationScript) : Bytes := Encode.counted s.bytes

def size (s : InvocationScript) : Nat := Encode.countedSize s.bytes.length

def decode : Decoder DecodeError InvocationScript := do return ⟨← Decoder.counted Limits.witnessScriptSize⟩

end InvocationScript

end N3
