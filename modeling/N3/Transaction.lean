import N3.Signer
import N3.Transaction.Attribute
import N3.Witness

/-!
# Transactions

A transaction is a script to run, who signs for it, what it may cost and how long it counts. Its name is the hash of
everything but the witnesses, and a witness signs the number of the network and that hash, so that adding witnesses
changes neither.

Reading enforces what `validateLimits` checks, and the sizes of scripts besides. The list of witnesses may be left
out at the end of the bytes.
-/

set_option autoImplicit false

namespace N3

structure Transaction where
  version : UInt8 := 0
  nonce : UInt32 := 0
  /-- In the smallest unit of the fee token, as is the network fee. -/
  systemFee : Int64 := 0
  networkFee : Int64 := 0
  /-- The last block in which the transaction counts. -/
  validUntil : UInt32 := 0
  signers : List Signer := []
  attributes : List Attribute := []
  script : Bytes := []
  witnesses : List Witness := []
  deriving DecidableEq

namespace Transaction

/-! ## Wire form -/

/-- The wire form without the witnesses, over which the hash is taken. -/
def encodeUnsigned (t : Transaction) : Bytes :=
  t.version :: (Encode.u32 t.nonce ++ Encode.i64 t.systemFee ++ Encode.i64 t.networkFee ++ Encode.u32 t.validUntil ++
    Encode.list Signer.encode t.signers ++ Encode.list Attribute.encode t.attributes ++ Encode.counted t.script)

def encode (t : Transaction) : Bytes := t.encodeUnsigned ++ Encode.list Witness.encode t.witnesses

def unsignedSize (t : Transaction) : Nat :=
  Limits.transactionHeaderSize + Encode.listSize Signer.size t.signers +
    Encode.listSize Attribute.size t.attributes + Encode.countedSize t.script.length

def size (t : Transaction) : Nat := t.unsignedSize + Encode.listSize Witness.size t.witnesses

/-- The account of the first signer whose account an earlier one has; `seen` holds the accounts before it. -/
def firstRepeatedAccount? (seen : List Hash160) : List Signer → Option Hash160
  | [] => none
  | s :: ss => if seen.contains s.account then some s.account else firstRepeatedAccount? (s.account :: seen) ss

def decodeUnsigned : Decoder DecodeError Transaction := do
  let version ← Decoder.byte
  let nonce ← Decoder.u32
  let systemFee ← Decoder.i64
  let networkFee ← Decoder.i64
  let validUntil ← Decoder.u32
  let signers ← Decoder.list Limits.signersAndAttributes Signer.decode
  match firstRepeatedAccount? [] signers with
  | some account => Decoder.fail (.format (.duplicateSigner account))
  | none =>
    let attributes ← Decoder.list (Limits.signersAndAttributes - signers.length) Attribute.decode
    match Attribute.firstRepeated? [] attributes with
    | some kind => Decoder.fail (.format (.duplicateAttribute kind.name))
    | none =>
      let script ← Decoder.counted Limits.scriptSize
      return { version, nonce, systemFee, networkFee, validUntil, signers, attributes, script }

def decode : Decoder DecodeError Transaction := do
  let t ← decodeUnsigned
  if ← Decoder.isAtEnd then return t
  return { t with witnesses := ← Decoder.list Limits.signersAndAttributes Witness.decode }

def ofBytes (bs : Bytes) : Except DecodeError Transaction := Decoder.parse decode bs

def toHex (t : Transaction) : String := Hex.encode t.encode

/-- Reads the wire form in hexadecimal, with any number of leading `0x`. -/
def ofHex (text : String) : Except Error Transaction := do
  let bs ← (Hex.decode (String.ofList (Hex.dropMarks text.toList))).mapError fun e => .invalidArgument (.transactionHex e)
  (ofBytes bs).mapError Error.ofDecode

/-! ## Names and what is signed -/

def hash (t : Transaction) : Hash256 := Sha256.digest t.encodeUnsigned

/-- What every witness signs: the number of the network and the hash. -/
def signData (t : Transaction) (magic : UInt32) : Bytes := Encode.u32 magic ++ t.hash.bytes

/-- Who pays: the first signer that does nothing else, or else the first. -/
def sender? (t : Transaction) : Option Hash160 :=
  ((t.signers.find? fun s => s.scope == .none).or t.signers.head?).map Signer.account

/-! ## Limits -/

/-- Checks the number of signers and attributes, and that none is there twice that may not be. -/
def validateLimits (t : Transaction) : Except Error Unit :=
  let parts := t.signers.length + t.attributes.length
  if Limits.signersAndAttributes < parts then
    .error (.transactionConfiguration (.tooManyParts Limits.signersAndAttributes parts))
  else match firstRepeatedAccount? [] t.signers with
    | some account => .error (.transactionConfiguration (.duplicateSigner account))
    | none => match Attribute.firstRepeated? [] t.attributes with
      | some kind => .error (.transactionConfiguration (.duplicateAttribute kind.name))
      | none => .ok ()

/-! ## Text and JSON -/

def text (t : Transaction) : String :=
  "Transaction \x7b version: " ++ toString t.version.toNat ++ ", nonce: " ++ toString t.nonce.toNat ++
    ", system_fee: " ++ toString t.systemFee.toInt ++ ", network_fee: " ++ toString t.networkFee.toInt ++
    ", valid_until_block: " ++ toString t.validUntil.toNat ++ ", signers: " ++ toString t.signers.length ++
    ", script_len: " ++ toString t.script.length ++ " \x7d"

end Transaction

end N3
