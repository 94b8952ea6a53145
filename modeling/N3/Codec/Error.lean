import N3.Bytes.HashText
import N3.Curve.Point

/-!
# Why bytes are refused

Bytes may end too soon, break the format, or follow the format and name something that does not exist. Each cause
keeps what it is about; the wording is in one function.
-/

set_option autoImplicit false

namespace N3

inductive ScopeFault where
  | unknownBits (byte : UInt8)
  | globalCombined
  deriving DecidableEq

def ScopeFault.message : ScopeFault → String
  | .unknownBits byte => "unknown witness scope bits in " ++ Hex.ofByte byte
  | .globalCombined => "the Global scope cannot be combined with other scopes"

/-- A breach of the format. -/
inductive FormatFault where
  | booleanByte (byte : UInt8)
  | countAbove (value max : Nat)
  | notUtf8
  | trailing (count : Nat)
  | scope (fault : ScopeFault)
  | conditionKind (byte : UInt8)
  | conditionTooDeep
  /-- More levels of the named connective than the wire allows. -/
  | connectiveTooDeep (name : String) (levels : Nat)
  | ruleAction (byte : UInt8)
  | duplicateSigner (account : Hash160)
  | attributeKind (byte : UInt8)
  | oracleCode (byte : UInt8)
  | duplicateAttribute (name : String)
  deriving DecidableEq

def FormatFault.message : FormatFault → String
  | .booleanByte byte => "invalid boolean value " ++ toString byte.toNat
  | .countAbove value max => "var-int " ++ toString value ++ " exceeds maximum " ++ toString max
  | .notUtf8 => "invalid UTF-8 sequence"
  | .trailing count => toString count ++ " trailing bytes after object"
  | .scope fault => "deserialization failed: " ++ fault.message
  | .conditionKind byte => "unknown witness condition type " ++ Hex.ofByte byte
  | .conditionTooDeep => "witness condition nested too deeply"
  | .connectiveTooDeep name levels => name ++ " conditions exceed the nesting depth of " ++ toString levels
  | .ruleAction byte => "invalid witness rule action " ++ toString byte.toNat
  | .duplicateSigner account => "duplicate signer " ++ account.toText
  | .attributeKind byte => "unknown transaction attribute type " ++ Hex.ofByte byte
  | .oracleCode byte => "unknown oracle response code " ++ Hex.ofByte byte
  | .duplicateAttribute name => "duplicate " ++ name ++ " attribute"

/-- A well-formed value that means nothing. -/
inductive DataFault where
  | badKey (cause : KeyError)
  | failedOracleResult
  deriving DecidableEq

def DataFault.message : DataFault → String
  | .badKey cause => cause.message
  | .failedOracleResult => "a failed oracle response cannot carry a result"

inductive DecodeError where
  | endOfData (needed available : Nat)
  | format (fault : FormatFault)
  | data (fault : DataFault)
  deriving DecidableEq

def DecodeError.message : DecodeError → String
  | .endOfData needed available =>
    "unexpected end of data: needed " ++ toString needed ++ " bytes, " ++ toString available ++ " available"
  | .format fault => "invalid format: " ++ fault.message
  | .data fault => "invalid data: " ++ fault.message

end N3
