import N3.Codec.Reader
import N3.Json.Record
import N3.Text.Base64
import N3.Text.Integer

/-!
# Items of a stack

What a script leaves behind, as a node shows it: the name of a type and, for most types, a value. The value is kept
as it is, and read as an integer, a truth value, bytes or a text only when it is asked for.
-/

set_option autoImplicit false

namespace N3.Rpc

open Json

structure StackItem where
  type : String
  value : Option Json := none

namespace StackItem

def integer (v : Int) : StackItem := ⟨"Integer", some (.str (toString v))⟩

def boolean (v : Bool) : StackItem := ⟨"Boolean", some (.bool v)⟩

def byteString (bs : Bytes) : StackItem := ⟨"ByteString", some (.str (Base64.encode bs))⟩

def toJson (item : StackItem) : Json := .obj (("type", .str item.type) :: field? "value" item.value)

def ofJson : Read StackItem :=
  readRecord ["type", "value"] fun fs => StackItem.mk <$> fs.need "type" readText <*> fs.option "value" readAny

/-! ## Reading the value -/

/-- A truth value, of whatever type. -/
def asBool? (item : StackItem) : Option Bool := item.value.bind Json.asBool?

def asBytes? (item : StackItem) : Option Bytes := do
  if item.type = "ByteString" ∨ item.type = "Buffer" then Base64.decode? (← (← item.value).asString?) else none

def asText? (item : StackItem) : Option String := item.asBytes?.bind Decoder.textOfBytes?

/-- An integer, which may also be a truth value or the bytes of one, least significant first. -/
def asInteger? (item : StackItem) : Option Int :=
  match item.type, item.value with
  | "Integer", some (.str s) => (Integer.parse s).toOption
  | "Integer", some j => j.asInt64?.map Int64.toInt
  | "Boolean", _ => item.asBool?.map fun b => if b then 1 else 0
  | "ByteString", _ | "Buffer", _ => item.asBytes?.map Bytes.toIntLE
  | _, _ => none

end StackItem

end N3.Rpc
