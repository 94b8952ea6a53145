import N3.Error
import N3.Parameter
import N3.Text.Blank
import N3.Text.Integer

/-!
# Values on the command line

Bytes are given in hexadecimal or in base 64, and parameters of a call as a type and a value with a colon between
them.
-/

set_option autoImplicit false

namespace N3.Cli

inductive ValueError where
  | notBytes (text : String)
  | untyped (text : String)
  | unknownType (name : String)
  | integer (text : String) (cause : Integer.Error)
  | boolean (text : String)
  | key (text : String) (cause : KeyError)
  | hash (cause : HashError)
  deriving DecidableEq

def ValueError.message : ValueError → String
  | .notBytes text => "'" ++ text ++ "' is neither hex nor base64"
  | .untyped text => "argument '" ++ text ++ "' is not of the form type:value"
  | .unknownType name => "unknown argument type '" ++ name ++ "'"
  | .integer text cause => "invalid integer '" ++ text ++ "': " ++ cause.message
  | .boolean text => "invalid boolean '" ++ text ++ "': provided string was not `true` or `false`"
  | .key text cause => "invalid public key '" ++ text ++ "': " ++ cause.message
  | .hash cause => Error.message (.ofHash cause)

/-- Reads hexadecimal with or without one `0x`, and base 64 if it is not that; blanks around it do not count. -/
def readBytes (text : String) : Except ValueError Bytes :=
  let trimmed := Blank.trim text.toList
  match Hex.decode (String.ofList (Hex.dropMark trimmed)) with
  | .ok bs => .ok bs
  | .error _ => (Base64.decode? (String.ofList trimmed)).elim (.error (.notBytes text)) .ok

def readTruth (text : String) : Except ValueError Bool :=
  if text = "true" then .ok true else if text = "false" then .ok false else .error (.boolean text)

def splitType? (text : String) : Option (String × String) :=
  let cs := text.toList
  match cs.dropWhile (· != ':') with
  | _ :: value => some (String.ofList (cs.takeWhile (· != ':')), String.ofList value)
  | [] => none

/-- Reads a parameter. The type is given in letters of either case. -/
def readParameter (text : String) : Except ValueError Parameter :=
  match splitType? text with
  | none => .error (.untyped text)
  | some (type, value) =>
    let type := String.ofList (type.toList.map Char.toLower)
    match type with
    | "int" | "integer" => ((Integer.parse value).mapError (.integer value)).map .integer
    | "bool" | "boolean" => (readTruth value).map .boolean
    | "str" | "string" => .ok (.string value)
    | "hash160" => ((FixedBytes.parse 20 value).mapError .hash).map .hash160
    | "hash256" => ((FixedBytes.parse 32 value).mapError .hash).map .hash256
    | "bytes" => (readBytes value).map .byteArray
    | "key" | "publickey" => ((Point.ofHex value).mapError (.key value)).map .publicKey
    | "null" | "any" => .ok .any
    | type => .error (.unknownType type)

end N3.Cli
