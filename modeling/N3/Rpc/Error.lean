import N3.Rpc.Envelope

/-!
# Errors of calls

A call fails when there is no response, when the node answers with an error, and when the response is not one to the
request or holds something else than was asked for.
-/

set_option autoImplicit false

namespace N3.Rpc

inductive ResponseFault where
  /-- It is no response at all. -/
  | malformed
  | otherId (found sent : UInt64)
  | noResult (method : String)
  | badResult (method : String) (fault : JsonFault)
  | badCommitteeKey (text : String) (cause : KeyError)
  | badBalance (token : Hash160)

/-- The place of a wording that is left to the reader of JSON. -/
def decodeErrorText : String := "<decode error>"

def ResponseFault.message : ResponseFault → String
  | .malformed => "malformed JSON-RPC response: " ++ decodeErrorText
  | .otherId found sent =>
    "response id Some(" ++ toString found.toNat ++ ") does not match request id " ++ toString sent.toNat
  | .noResult method => method ++ ": no result returned"
  | .badResult method fault => method ++ ": " ++ fault.message?.getD decodeErrorText
  | .badCommitteeKey text cause => "getcommittee: invalid public key " ++ text ++ ": " ++ cause.message
  | .badBalance token => "balanceOf of " ++ token.toText ++ " did not return an integer"

inductive RpcError where
  /-- There was no response. -/
  | transport (text : String)
  /-- The node answered with an error. -/
  | node (error : NodeError)
  | invalidResponse (fault : ResponseFault)

def RpcError.message : RpcError → String
  | .transport text => "transport error: " ++ text
  | .node error => "rpc error: " ++ error.text
  | .invalidResponse fault => "invalid response: " ++ fault.message

end N3.Rpc
