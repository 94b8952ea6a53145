import N3.Codec.Reader
import N3.Codec.Writer
import N3.Json
import N3.Limits
import N3.Text.Base64

/-!
# Attributes

An attribute says more about a transaction: that it is urgent, that it answers an oracle's request, from which block
on it counts, or which other transaction it excludes. Only the last kind may occur more than once.
-/

set_option autoImplicit false

namespace N3

/-! ## How a request to an oracle ended -/

inductive OracleCode where
  | success | protocolNotSupported | consensusUnreachable | notFound | timeout | forbidden
  | responseTooLarge | insufficientFunds | contentTypeNotSupported | error
  deriving DecidableEq, Repr

namespace OracleCode

def byte : OracleCode → UInt8
  | success => 0x00
  | protocolNotSupported => 0x10
  | consensusUnreachable => 0x12
  | notFound => 0x14
  | timeout => 0x16
  | forbidden => 0x18
  | responseTooLarge => 0x1A
  | insufficientFunds => 0x1C
  | contentTypeNotSupported => 0x1F
  | error => 0xFF

def name : OracleCode → String
  | success => "Success"
  | protocolNotSupported => "ProtocolNotSupported"
  | consensusUnreachable => "ConsensusUnreachable"
  | notFound => "NotFound"
  | timeout => "Timeout"
  | forbidden => "Forbidden"
  | responseTooLarge => "ResponseTooLarge"
  | insufficientFunds => "InsufficientFunds"
  | contentTypeNotSupported => "ContentTypeNotSupported"
  | error => "Error"

def all : List OracleCode :=
  [success, protocolNotSupported, consensusUnreachable, notFound, timeout, forbidden,
   responseTooLarge, insufficientFunds, contentTypeNotSupported, error]

def ofByte? (b : UInt8) : Option OracleCode := all.find? fun c => c.byte == b

end OracleCode

/-! ## Attributes -/

inductive Attribute where
  | highPriority
  | oracleResponse (id : UInt64) (code : OracleCode) (result : Bytes)
  | notValidBefore (height : UInt32)
  | conflicts (hash : Hash256)
  deriving DecidableEq

namespace Attribute

inductive Kind where
  | highPriority | oracleResponse | notValidBefore | conflicts
  deriving DecidableEq, Repr

namespace Kind

def byte : Kind → UInt8
  | highPriority => 0x01
  | oracleResponse => 0x11
  | notValidBefore => 0x20
  | conflicts => 0x21

def name : Kind → String
  | highPriority => "HighPriority"
  | oracleResponse => "OracleResponse"
  | notValidBefore => "NotValidBefore"
  | conflicts => "Conflicts"

def ofByte? (b : UInt8) : Option Kind :=
  [highPriority, oracleResponse, notValidBefore, conflicts].find? fun k => k.byte == b

def allowsMultiple : Kind → Bool
  | conflicts => true
  | _ => false

end Kind

def kind : Attribute → Kind
  | highPriority => .highPriority
  | oracleResponse .. => .oracleResponse
  | notValidBefore _ => .notValidBefore
  | conflicts _ => .conflicts

/-- The kind of the first attribute that may not occur again and does; `seen` holds the kinds before it. -/
def firstRepeated? (seen : List Kind) : List Attribute → Option Kind
  | [] => none
  | a :: as =>
    if !a.kind.allowsMultiple && seen.contains a.kind then some a.kind
    else firstRepeated? (a.kind :: seen) as

/-! ## Wire form -/

def encode (a : Attribute) : Bytes :=
  a.kind.byte :: match a with
    | highPriority => []
    | oracleResponse id code result => Encode.u64 id ++ code.byte :: Encode.counted result
    | notValidBefore height => Encode.u32 height
    | conflicts hash => hash.bytes

def size : Attribute → Nat
  | highPriority => 1
  | oracleResponse _ _ result => 10 + Encode.countedSize result.length
  | notValidBefore _ => 5
  | conflicts _ => 33

def decode : Decoder DecodeError Attribute := do
  let b ← Decoder.byte
  match Kind.ofByte? b with
  | none => Decoder.fail (.format (.attributeKind b))
  | some .highPriority => return highPriority
  | some .oracleResponse =>
    let id ← Decoder.u64
    let c ← Decoder.byte
    let code ← Decoder.ofOption (OracleCode.ofByte? c) (.format (.oracleCode c))
    let result ← Decoder.counted Limits.oracleResultSize
    if code ≠ .success ∧ result ≠ [] then Decoder.fail (.data .failedOracleResult)
    else return oracleResponse id code result
  | some .notValidBefore => return notValidBefore (← Decoder.u32)
  | some .conflicts => return conflicts (← Decoder.fixed 32)

/-! ## JSON -/

def toJson (a : Attribute) : Json :=
  .obj (("type", .str a.kind.name) :: match a with
    | highPriority => []
    | oracleResponse id code result =>
      [("id", .nat id.toNat), ("code", .str code.name), ("result", .str (Base64.encode result))]
    | notValidBefore height => [("height", .nat height.toNat)]
    | conflicts hash => [("hash", .str hash.toText)])

end Attribute

end N3
