import N3.Parameter
import N3.Rpc.Execution
import N3.Rpc.Session
import N3.Signer

/-!
# What a node can be asked

Each function makes one request. Bytes are sent in base 64, and signers and parameters in their JSON forms.
-/

set_option autoImplicit false

namespace N3.Rpc

def bytesToJson (bs : Bytes) : Json := .str (Base64.encode bs)

def signersToJson (signers : List Signer) : Json := .arr (signers.map Signer.toJson)

def blockCount : Session RpcError UInt32 := call "getblockcount" [] Json.readUInt32

/-- Simulates a script, as if its signers had given their witnesses. -/
def invokeScript (script : Bytes) (signers : List Signer) : Session RpcError InvokeResult :=
  call "invokescript" [bytesToJson script, signersToJson signers] InvokeResult.ofJson

def invokeFunction (contract : Hash160) (method : String) (parameters : List Parameter) (signers : List Signer) :
    Session RpcError InvokeResult :=
  call "invokefunction"
    [.str contract.toText, .str method, .arr (parameters.map Parameter.toJson), signersToJson signers]
    InvokeResult.ofJson

/-- What the node charges to carry a transaction, its witnesses included. -/
def networkFee (transaction : Bytes) : Session RpcError Int64 :=
  call "calculatenetworkfee" [bytesToJson transaction] readNetworkFee

def committee : Session RpcError (List Point) := do
  let texts ← call "getcommittee" [] (Json.readList Json.readText)
  Session.ofExcept (texts.mapM fun text =>
    (Point.ofHex text).mapError fun e => .invalidResponse (.badCommitteeKey text e))

def sendRawTransaction (transaction : Bytes) : Session RpcError Hash256 :=
  call "sendrawtransaction" [bytesToJson transaction] readSent

def applicationLog (transaction : Hash256) : Session RpcError ApplicationLog :=
  call "getapplicationlog" [.str transaction.toText] ApplicationLog.ofJson

end N3.Rpc
