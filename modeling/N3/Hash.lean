import N3.Hash.Sha256
import N3.Hash.Ripemd160

/-!
# Combined hashes

Two hashes in a row make the names of this ledger: RIPEMD-160 over SHA-256 names scripts, and SHA-256 twice
guards texts against typing errors. The keyed hash is HMAC over SHA-256.
-/

set_option autoImplicit false

namespace N3.Hash

def hash160 (message : Bytes) : Hash160 := Ripemd160.digest (Sha256.digest message).bytes

def hash256 (message : Bytes) : Hash256 := Sha256.digest (Sha256.digest message).bytes

/-- A key as one block of 64 bytes: a longer one is hashed first. -/
def keyBlock (key : Bytes) : Bytes :=
  let k := if 64 < key.length then (Sha256.digest key).bytes else key
  k ++ List.replicate (64 - k.length) 0

def hmac (key message : Bytes) : Hash256 :=
  let block := keyBlock key
  let inner := Sha256.digest (block.map (· ^^^ 0x36) ++ message)
  Sha256.digest (block.map (· ^^^ 0x5C) ++ inner.bytes)

end N3.Hash
