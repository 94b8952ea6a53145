import N3.Json.Record

/-!
# Requests and responses

A request carries a number, and the response to it carries the same number, if it carries one at all. A response
has a result or an error.
-/

set_option autoImplicit false

namespace N3.Rpc

open Json

structure NodeError where
  code : Int64
  message : String
  data : Option Json := none

namespace NodeError

def text (e : NodeError) : String := e.message ++ " (code " ++ toString e.code.toInt ++ ")"

def toJson (e : NodeError) : Json :=
  .obj ([("code", .int e.code.toInt), ("message", .str e.message)] ++ field? "data" e.data)

def ofJson : Read NodeError :=
  readRecord ["code", "message", "data"] fun fs =>
    NodeError.mk <$> fs.need "code" readInt64 <*> fs.need "message" readText <*> fs.option "data" readAny

end NodeError

structure Request where
  version : String := "2.0"
  method : String
  params : List Json
  id : UInt64

namespace Request

def toJson (q : Request) : Json :=
  .obj [("jsonrpc", .str q.version), ("method", .str q.method), ("params", .arr q.params), ("id", .nat q.id.toNat)]

def ofJson : Read Request :=
  readRecord ["jsonrpc", "method", "params", "id"] fun fs =>
    Request.mk <$> fs.need "jsonrpc" readText <*> fs.need "method" readText
      <*> fs.need "params" (readList readAny) <*> fs.need "id" readUInt64

end Request

structure Response where
  version : String := "2.0"
  id : Option UInt64
  result : Option Json := none
  error : Option NodeError := none

namespace Response

def success (id : UInt64) (result : Json) : Response := { id := some id, result := some result }

def failure (id : UInt64) (error : NodeError) : Response := { id := some id, error := some error }

/-- The number is written even if there is none. -/
def toJson (r : Response) : Json :=
  .obj ([("jsonrpc", .str r.version), ("id", (r.id.map fun i => Json.nat i.toNat).getD .null)] ++
    field? "result" r.result ++ field? "error" (r.error.map NodeError.toJson))

def ofJson : Read Response :=
  readRecord ["jsonrpc", "id", "result", "error"] fun fs =>
    Response.mk <$> fs.get "jsonrpc" readText "" <*> fs.option "id" readUInt64
      <*> fs.option "result" readAny <*> fs.option "error" NodeError.ofJson

end Response

end N3.Rpc
