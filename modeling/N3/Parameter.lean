import N3.Json
import N3.Text.Base64
import N3.Vm.Push

/-!
# Parameters of a contract call

A parameter is a tree of typed values. It has two forms: a JSON object for a node that is asked to call the
contract, and instructions that push it, for a script that calls the contract itself. The values that only a
contract can produce have a JSON form and cannot be pushed.
-/

set_option autoImplicit false

namespace N3

inductive Parameter where
  | any
  | boolean (value : Bool)
  | integer (value : Int)
  | byteArray (bytes : Bytes)
  | string (value : String)
  | hash160 (hash : Hash160)
  | hash256 (hash : Hash256)
  | publicKey (key : Point)
  | signature (bytes : Bytes)
  | array (items : List Parameter)
  | map (entries : List (Parameter × Parameter))
  | interopInterface
  | void
  deriving Inhabited

namespace Parameter

def kind : Parameter → String × UInt8
  | any => ("Any", 0x00)
  | boolean _ => ("Boolean", 0x10)
  | integer _ => ("Integer", 0x11)
  | byteArray _ => ("ByteArray", 0x12)
  | string _ => ("String", 0x13)
  | hash160 _ => ("Hash160", 0x14)
  | hash256 _ => ("Hash256", 0x15)
  | publicKey _ => ("PublicKey", 0x16)
  | signature _ => ("Signature", 0x17)
  | array _ => ("Array", 0x20)
  | map _ => ("Map", 0x22)
  | interopInterface => ("InteropInterface", 0x30)
  | void => ("Void", 0xFF)

def typeName (p : Parameter) : String := p.kind.1

def typeByte (p : Parameter) : UInt8 := p.kind.2

/-! ## JSON -/

/-- The object of a parameter: its type and, where it has one, its value. -/
def object (p : Parameter) (value : Option Json) : Json :=
  .obj (("type", .str p.typeName) :: Json.field? "value" value)

mutual

def toJson (p : Parameter) : Json :=
  match p with
  | any | interopInterface | void => p.object none
  | boolean v => p.object (some (.bool v))
  | integer v => p.object (some (.str (toString v)))
  | byteArray bs | signature bs => p.object (some (.str (Base64.encode bs)))
  | string s => p.object (some (.str s))
  | hash160 h => p.object (some (.str h.toText))
  | hash256 h => p.object (some (.str h.toText))
  | publicKey k => p.object (some (.str k.toHex))
  | array items => p.object (some (.arr (itemsToJson items)))
  | map entries => p.object (some (.arr (entriesToJson entries)))

def itemsToJson : List Parameter → List Json
  | [] => []
  | p :: ps => p.toJson :: itemsToJson ps

def entriesToJson : List (Parameter × Parameter) → List Json
  | [] => []
  | (k, v) :: es => .obj [("key", k.toJson), ("value", v.toJson)] :: entriesToJson es

end

/-! ## Instructions -/

mutual

def push (p : Parameter) : Emission :=
  match p with
  | any => .ofBytes Push.null
  | boolean v => .ofBytes (Push.bool v)
  | integer v => Push.integer v
  | byteArray bs | signature bs => .ofBytes (Push.data bs)
  | string s => .ofBytes (Push.text s)
  | hash160 h => .ofBytes (Push.data h.bytes)
  | hash256 h => .ofBytes (Push.data h.bytes)
  | publicKey k => .ofBytes (Push.data k.compressed.bytes)
  | array items => Push.array (pushItems items)
  | map entries => Push.map (pushEntries entries)
  | interopInterface | void => .fail (.argument (.unpushable p.typeName))

def pushItems : List Parameter → List Emission
  | [] => []
  | p :: ps => p.push :: pushItems ps

def pushEntries : List (Parameter × Parameter) → List (Emission × Emission)
  | [] => []
  | (k, v) :: es => (k.push, v.push) :: pushEntries es

end

end Parameter

end N3
