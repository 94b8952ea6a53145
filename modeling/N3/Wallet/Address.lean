import N3.Wallet.Error

/-!
# Addresses

An address is the name of an account as a text that is safe to type: a byte that marks it and the twenty bytes of
the hash, in base 58 with a checksum.
-/

set_option autoImplicit false

namespace N3.Address

def ofHash (hash : Hash160) : String := Base58.encodeChecked (WalletError.addressByte :: hash.bytes)

/-- Reads an address; its length is checked before its first byte. -/
def toHash (address : String) : Except WalletError Hash160 := do
  let bs ← (Base58.decodeChecked address).mapError (WalletError.addressText address)
  match bs with
  | version :: hash =>
    match FixedBytes.ofBytes? 20 hash with
    | some hash => if version = WalletError.addressByte then .ok hash else .error (.addressVersion address version)
    | none => .error (.addressLength address bs.length)
  | [] => .error (.addressLength address 0)

end N3.Address
