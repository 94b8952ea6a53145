import N3.Transaction
import N3.Wallet.Address

/-!
# Transactions as JSON

The object in which a node shows a transaction: fees are texts, the sender is an address, and scripts are in base 64.
-/

set_option autoImplicit false

namespace N3.Transaction

def toJson (t : Transaction) : Json :=
  .obj [("hash", .str t.hash.toText), ("size", .nat t.size), ("version", .nat t.version.toNat),
    ("nonce", .nat t.nonce.toNat), ("sender", (t.sender?.map fun h => Json.str (Address.ofHash h)).getD .null),
    ("sysfee", .str (toString t.systemFee.toInt)), ("netfee", .str (toString t.networkFee.toInt)),
    ("validuntilblock", .nat t.validUntil.toNat), ("signers", .arr (t.signers.map Signer.toJson)),
    ("attributes", .arr (t.attributes.map Attribute.toJson)), ("script", .str (Base64.encode t.script)),
    ("witnesses", .arr (t.witnesses.map Witness.toJson))]

end N3.Transaction
