import N3.Error
import N3.Text.Base58

/-!
# Errors of wallets

A text or a run of bytes may be no key and no address, and an account may not be of the kind that is asked for.
Whatever else goes wrong is an error of the transaction model.
-/

set_option autoImplicit false

namespace N3

inductive WalletError where
  | keyLength (found : Nat)
  | key (cause : KeyError)
  | wifText (cause : Base58.Error)
  | wifForm
  | addressText (address : String) (cause : Base58.Error)
  | addressLength (address : String) (found : Nat)
  | addressVersion (address : String) (version : UInt8)
  | notMultisig (account : Hash160)
  | model (cause : Error)
  deriving DecidableEq

namespace WalletError

/-- The first byte of an address before its digits are turned to text. -/
def addressByte : UInt8 := 0x35

def message : WalletError → String
  | keyLength found => "invalid private key: expected 32 bytes, got " ++ toString found
  | key cause => "invalid private key: " ++ cause.message
  | wifText cause => "invalid WIF: " ++ cause.message
  | wifForm => "invalid WIF: expected a compressed WIF of 34 bytes with version 0x80"
  | addressText address cause => "invalid address: " ++ address ++ ": " ++ cause.message
  | addressLength address found =>
    "invalid address: " ++ address ++ ": expected 21 bytes, got " ++ toString found
  | addressVersion address version =>
    "invalid address: " ++ address ++ ": version " ++ Hex.ofByte version ++ " is not " ++ Hex.ofByte addressByte
  | notMultisig account => "account " ++ account.toText ++ " is not a multi-sig account"
  | model cause => cause.message

end WalletError

end N3
