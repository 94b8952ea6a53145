import N3.Curve.Signature
import N3.Script.Verification
import N3.Wallet.Error

/-!
# Key pairs

A secret key and the public key that belongs to it. The import format of wallets is a text: a version, the 32 bytes
of the secret key and a mark that its public key is used in the short form, in base 58 with a checksum.
-/

set_option autoImplicit false

namespace N3

structure KeyPair where
  secret : SecretKey
  key : Point
  publicKey_eq : secret.publicKey = .ok key

namespace KeyPair

def ofSecret (secret : SecretKey) : Except WalletError KeyPair :=
  match h : secret.publicKey with
  | .ok key => .ok ⟨secret, key, h⟩
  | .error e => .error (.key e)

def ofBytes (bs : Bytes) : Except WalletError KeyPair := do
  let some fixed := FixedBytes.ofBytes? 32 bs | throw (.keyLength bs.length)
  ofSecret (← (SecretKey.ofBytes fixed).mapError .key)

/-- The first pair among candidates for the secret key, as they come from a source of chance. -/
def ofCandidates : List (FixedBytes 32) → Except WalletError KeyPair
  | [] => .error (.key .scalarOutOfRange)
  | c :: cs =>
    match ofBytes c.bytes with
    | .ok pair => .ok pair
    | .error _ => ofCandidates cs

/-! ## The import format -/

def wifVersion : UInt8 := 0x80

/-- Marks the short form of the public key. -/
def wifFlag : UInt8 := 0x01

def toWif (pair : KeyPair) : String :=
  Base58.encodeChecked (wifVersion :: (pair.secret.bytes.bytes ++ [wifFlag]))

def ofWif (wif : String) : Except WalletError KeyPair := do
  let bs ← (Base58.decodeChecked wif).mapError .wifText
  if bs.length = 34 ∧ bs.head? = some wifVersion ∧ bs.getLast? = some wifFlag then
    ofBytes ((bs.drop 1).take 32)
  else throw .wifForm

/-! ## Accounts and signatures -/

def script (pair : KeyPair) : VerificationScript := .ofKey pair.key

def hash (pair : KeyPair) : Hash160 := pair.script.hash

def sign (pair : KeyPair) (message : Bytes) : Except WalletError Signature :=
  (Ecdsa.sign pair.secret message).mapError .key

end KeyPair

end N3
