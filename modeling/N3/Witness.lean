import N3.Script.Invocation
import N3.Script.Verification
import N3.Text.Base64

/-!
# Witnesses

A witness is an invocation script and the verification script of the account that it speaks for. For an account of
several keys it carries as many signatures as the script asks for, those of the smallest keys that signed.
-/

set_option autoImplicit false

namespace N3

/-- Signatures by key, the keys in ascending order and each of them once. -/
abbrev SignatureMap := List (Point × Signature)

namespace SignatureMap

/-- Adds the signature of a key, in place of an earlier one. -/
def insert (key : Point) (signature : Signature) : SignatureMap → SignatureMap
  | [] => [(key, signature)]
  | (k, s) :: rest =>
    match compare key k with
    | .lt => (key, signature) :: (k, s) :: rest
    | .eq => (key, signature) :: rest
    | .gt => (k, s) :: insert key signature rest

def ofList (entries : List (Point × Signature)) : SignatureMap :=
  entries.foldl (fun m e => insert e.1 e.2 m) []

end SignatureMap

structure Witness where
  invocation : InvocationScript := {}
  verification : VerificationScript := {}
  deriving DecidableEq, Inhabited

namespace Witness

def ofSignature (signature : Signature) (key : Point) : Witness :=
  ⟨.ofSignatures [signature], .ofKey key⟩

/-- The witness of a contract: the parameters of its own check, and no verification script. -/
def ofContract (parameters : List Parameter) : Except Error Witness := do
  return ⟨← InvocationScript.ofParameters parameters, {}⟩

/-- The witness of an account of several keys. A key that is not in the script is refused before too few signatures
are. -/
def ofSignatures (script : VerificationScript) (signatures : SignatureMap) : Except Error Witness := do
  let threshold ← script.threshold
  let keys ← script.keys
  match signatures.find? fun e => !keys.contains e.1 with
  | some (stranger, _) => throw (.invalidArgument (.stranger stranger))
  | none =>
    if signatures.length < threshold then
      throw (.invalidArgument (.tooFewSignatures signatures.length threshold))
    return ⟨.ofSignatures ((signatures.take threshold).map (·.2)), script⟩

def account (w : Witness) : Hash160 := w.verification.hash

def toJson (w : Witness) : Json :=
  .obj [("invocation", .str (Base64.encode w.invocation.bytes)),
    ("verification", .str (Base64.encode w.verification.bytes))]

/-! ## Wire form -/

def encode (w : Witness) : Bytes := w.invocation.encode ++ w.verification.encode

def size (w : Witness) : Nat := w.invocation.size + w.verification.size

def decode : Decoder DecodeError Witness := do
  let invocation ← InvocationScript.decode
  let verification ← VerificationScript.decode
  return ⟨invocation, verification⟩

end Witness

end N3
