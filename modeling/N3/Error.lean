import N3.Vm.Error

/-!
# Errors of the transaction model

An operation on transactions and their parts fails for one of seven reasons. Each reason has its causes, a cause
keeps what it is about, and the wording of all of them is here.
-/

set_option autoImplicit false

namespace N3

/-! ## Arguments -/

inductive ConditionFault where
  | typeMissing
  | unknownType (name : String)
  | fieldMissing (type key : String)
  | notAString (key : String)
  | expressionsNotArray
  | expressionNotBoolean
  deriving DecidableEq

def ConditionFault.message : ConditionFault → String
  | .typeMissing => "condition type missing"
  | .unknownType name => "unknown condition type '" ++ name ++ "'"
  | .fieldMissing type key => type ++ " condition missing '" ++ key ++ "'"
  | .notAString key => "'" ++ key ++ "' must be a string"
  | .expressionsNotArray => "'expressions' must be an array"
  | .expressionNotBoolean => "'expression' must be a boolean"

inductive ArgumentError where
  | hash (cause : HashError)
  | key (cause : KeyError)
  | script (cause : ScriptArgument)
  | signatureLength (found : Nat)
  | stranger (point : Point)
  | tooFewSignatures (given threshold : Nat)
  | unknownScope (name : String)
  | globalCombined
  | ruleAction (name : String)
  | condition (fault : ConditionFault)
  | ruleFieldMissing (field : String)
  | signerFieldMissing (field : String)
  | contractNotAString
  | groupNotAString
  | transactionHex (cause : Hex.Error)
  | noSuchSigner (account : Hash160)
  | quorumOutOfRange (threshold participants : Nat)
  deriving DecidableEq

def ArgumentError.message : ArgumentError → String
  | .hash cause => cause.message
  | .key cause => cause.message
  | .script cause => cause.message
  | .signatureLength found => "a signature must be 64 bytes, got " ++ toString found
  | .stranger point => "public key " ++ point.toHex ++ " is not part of the multi-sig verification script"
  | .tooFewSignatures given threshold =>
    "not enough signatures provided: " ++ toString given ++ " given, the signing threshold is " ++ toString threshold
  | .unknownScope name => "unknown witness scope '" ++ name ++ "'"
  | .globalCombined => ScopeFault.globalCombined.message
  | .ruleAction name => "invalid witness rule action '" ++ name ++ "'"
  | .condition fault => "invalid witness condition json: " ++ fault.message
  | .ruleFieldMissing field => "witness rule missing '" ++ field ++ "'"
  | .signerFieldMissing field => "signer missing '" ++ field ++ "'"
  | .contractNotAString => "allowed contract must be a string"
  | .groupNotAString => "allowed group must be a string"
  | .transactionHex cause => "invalid transaction hex: " ++ cause.message
  | .noSuchSigner account => "could not find a signer with script hash " ++ account.toText
  | .quorumOutOfRange threshold participants =>
    "signing threshold " ++ toString threshold ++ " is out of range for " ++ toString participants ++ " participants"

/-! ## Bytes -/

inductive DeserializationError where
  | decode (cause : DecodeError)
  | script (cause : ScriptError)
  | scope (fault : ScopeFault)
  deriving DecidableEq

def DeserializationError.message : DeserializationError → String
  | .decode cause => cause.message
  | .script cause => cause.message
  | .scope fault => fault.message

inductive ScriptFormatError where
  | notASignature (length : Nat)
  /-- The script is no template, so that the named thing cannot be told. -/
  | noTemplate (what : String)
  deriving DecidableEq

def ScriptFormatError.message : ScriptFormatError → String
  | .notASignature length =>
    "invocation script pushes " ++ toString length ++ " bytes where a signature was expected"
  | .noTemplate what =>
    "the verification script is neither single- nor multi-sig, no " ++ what ++ " can be determined"

/-! ## Signers and transactions -/

inductive SignerError where
  | invalidScopes (text : String)
  | globalRestricted (what : String)
  | noRoom (max : Nat) (what : String) (found : Nat)
  | conditionTooDeep (levels : Nat)
  | connectiveTooWide (max : Nat)
  deriving DecidableEq

def SignerError.message : SignerError → String
  | .invalidScopes text => "invalid witness scope combination: " ++ text
  | .globalRestricted what => "trying to set " ++ what ++ " on a Signer with global scope"
  | .noRoom max what found =>
    "a signer's scope can only contain " ++ toString max ++ " " ++ what ++ ", tried to hold " ++ toString found
  | .conditionTooDeep levels => "a witness condition can only be nested " ++ toString levels ++ " levels deep"
  | .connectiveTooWide max => "a composite condition can hold at most " ++ toString max ++ " expressions"

inductive TransactionError where
  | tooManyParts (max found : Nat)
  | duplicateSigner (account : Hash160)
  | duplicateAttribute (name : String)
  | repeatedAccount (account : Hash160)
  | noRoomForAttributes (max : Nat)
  | simulationFault (exception : String)
  | feeOverflow (kind : String)
  | notCommittee
  | witnessMismatch (signers witnesses : Nat)
  | tooLarge (max size : Nat)
  deriving DecidableEq

def TransactionError.message : TransactionError → String
  | .tooManyParts max found =>
    "a transaction can have at most " ++ toString max ++ " signers and attributes combined, got " ++ toString found
  | .duplicateSigner account => "duplicate signer " ++ account.toText
  | .duplicateAttribute name => "only one " ++ name ++ " attribute is allowed"
  | .repeatedAccount account =>
    "cannot add multiple signers concerning the same account " ++ account.toText
  | .noRoomForAttributes max =>
    "a transaction cannot have more than " ++ toString max ++ " attributes (including signers)"
  | .simulationFault exception => "The vm exited due to the following exception: " ++ exception
  | .feeOverflow kind => "the " ++ kind ++ " fee overflows"
  | .notCommittee =>
    "this transaction does not have a committee member as signer; only committee members can send transactions " ++
      "with high priority"
  | .witnessMismatch signers witnesses =>
    "the transaction does not have the same number of signers and witnesses (" ++ toString signers ++ " signers, " ++
      toString witnesses ++ " witnesses); for every signer there has to be one witness, even if that witness is empty"
  | .tooLarge max size =>
    "the transaction exceeds the maximum transaction size; the maximum size is " ++ toString max ++
      " bytes while the transaction has size " ++ toString size

/-! ## States -/

/-- What has to happen first. -/
inductive StateError where
  | noScriptToSimulate
  | noScript
  | noSigners
  | feeOnlySigner
  | supplierRegistered
  | handlerRegistered
  | noSender
  | noPrivateKey (address : String)
  | notSent
  deriving DecidableEq

def StateError.message : StateError → String
  | .noScriptToSimulate => "cannot make an 'invokescript' call without the script being configured"
  | .noScript => "cannot build a transaction without a script"
  | .noSigners =>
    "cannot create a transaction without signers; at least one signer with witness scope fee-only or higher is required"
  | .feeOnlySigner =>
    "this transaction contains a signer with fee-only witness scope that will cover the fees, so the order of the " ++
      "signers does not affect the payment of the fees"
  | .supplierRegistered =>
    "cannot handle a consumer for this case, since an error will be raised if the sender cannot cover the fees"
  | .handlerRegistered =>
    "cannot handle a supplier for this case, since a consumer will be executed if the sender cannot cover the fees"
  | .noSender => "the transaction has no sender"
  | .noPrivateKey address =>
    "cannot create transaction signature because account " ++ address ++ " does not hold a private key"
  | .notSent => "cannot get the application log before the transaction has been sent"

inductive UnsupportedError where
  /-- A multi-signature account has no single key to sign with. -/
  | multisigSigner (address : String)
  deriving DecidableEq

def UnsupportedError.message : UnsupportedError → String
  | .multisigSigner address =>
    "transactions with multi-sig signers cannot be signed automatically; add a multi-sig witness for " ++ address ++
      " to the unsigned transaction instead"

/-! ## All of them -/

inductive Error where
  | invalidArgument (cause : ArgumentError)
  | deserialization (cause : DeserializationError)
  | invalidState (cause : StateError)
  | scriptFormat (cause : ScriptFormatError)
  | signerConfiguration (cause : SignerError)
  | transactionConfiguration (cause : TransactionError)
  | unsupported (cause : UnsupportedError)
  deriving DecidableEq

namespace Error

def message : Error → String
  | invalidArgument cause => "invalid argument: " ++ cause.message
  | deserialization cause => "deserialization failed: " ++ cause.message
  | invalidState cause => "invalid state: " ++ cause.message
  | scriptFormat cause => "script format error: " ++ cause.message
  | signerConfiguration cause => "signer configuration error: " ++ cause.message
  | transactionConfiguration cause => "transaction configuration error: " ++ cause.message
  | unsupported cause => "unsupported operation: " ++ cause.message

def ofDecode (e : DecodeError) : Error := deserialization (.decode e)

def ofKey (e : KeyError) : Error := invalidArgument (.key e)

def ofHash (e : HashError) : Error := invalidArgument (.hash e)

/-- A bad argument of a script is a bad argument; all else is about bytes that do not fit. -/
def ofScript : ScriptError → Error
  | .argument cause => invalidArgument (.script cause)
  | e => deserialization (.script e)

end Error

end N3
