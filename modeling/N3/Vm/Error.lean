import N3.Codec.Error
import N3.Vm.OpCode

/-!
# Why a script cannot be read or built

Reading stops at a byte that is no operation, at an operand that the script cuts off, or at an instruction other
than the one that is wanted. Building stops at a value that no instruction can push and at a bad set of keys.
-/

set_option autoImplicit false

namespace N3

inductive ScriptArgument where
  | integerTooLarge (value : Int)
  | unpushable (kind : String)
  | thresholdOutOfRange (keys threshold : Nat)
  | tooManyKeys (max found : Nat)
  deriving DecidableEq

def ScriptArgument.message : ScriptArgument → String
  | .integerTooLarge value => "integer " ++ toString value ++ " does not fit in 256 bits"
  | .unpushable kind => "parameter type " ++ kind ++ " cannot be pushed to a script"
  | .thresholdOutOfRange keys threshold =>
    "signing threshold must be between 1 and " ++ toString keys ++ ", got " ++ toString threshold
  | .tooManyKeys max found =>
    "at most " ++ toString max ++ " public keys are allowed, got " ++ toString found

inductive Unexpected where
  | notData (found : OpCode)
  | notInteger (found : OpCode)
  | integerTooWide (value : Int)
  | notUtf8
  deriving DecidableEq

def Unexpected.message : Unexpected → String
  | .notData found => "expected PUSHDATA, found " ++ found.name
  | .notInteger found => "expected an integer push, found " ++ found.name
  | .integerTooWide value => "integer " ++ toString value ++ " does not fit in 64 bits"
  | .notUtf8 => "pushed data is not UTF-8"

inductive ScriptError where
  | unknownOpCode (offset : Nat) (byte : UInt8)
  | truncatedOperand (offset : Nat) (op : OpCode)
  | unexpected (cause : Unexpected)
  | argument (cause : ScriptArgument)
  | decode (cause : DecodeError)
  deriving DecidableEq

def ScriptError.message : ScriptError → String
  | .unknownOpCode offset byte => "unknown opcode " ++ Hex.ofByte byte ++ " at offset " ++ toString offset
  | .truncatedOperand offset op =>
    "operand of " ++ op.name ++ " at offset " ++ toString offset ++ " runs past the end of the script"
  | .unexpected cause => "unexpected instruction: " ++ cause.message
  | .argument cause => "invalid argument: " ++ cause.message
  | .decode cause => cause.message

end N3
