import N3.Rpc.StackItem

/-!
# What became of a script

The results of running a script, in a simulation or in a block: how it ended, what it cost and what it left on the
stack. Amounts are written as texts, and may be read as numbers too.
-/

set_option autoImplicit false

namespace N3.Rpc

open Json

/-! ## Amounts -/

def amountToJson (v : Int64) : Json := .str (toString v.toInt)

/-- An amount, as a text or a number. -/
def readAmount : Read Int64 := fun j =>
  let v := match j with
    | .str s => Integer.parseInt64? s
    | j => j.asInt64?
  v.elim (.error (.amount j)) .ok

/-! ## How a script ended -/

inductive VmState where
  | none | halt | fault | breakpoint
  deriving DecidableEq, Repr

namespace VmState

def name : VmState → String
  | none => "NONE"
  | halt => "HALT"
  | fault => "FAULT"
  | breakpoint => "BREAK"

def names : List (String × VmState) := [none, halt, fault, breakpoint].map fun s => (s.name, s)

def ofJson : Read VmState := readName names

end VmState

/-! ## Simulations -/

structure InvokeResult where
  script : String := ""
  state : VmState
  gasConsumed : Int64
  stack : List StackItem := []
  exception : Option String := none
  session : Option String := none
  tx : Option String := none

namespace InvokeResult

def isFault (r : InvokeResult) : Bool := r.state == .fault

def toJson (r : InvokeResult) : Json :=
  .obj ([("script", .str r.script), ("state", .str r.state.name), ("gasconsumed", amountToJson r.gasConsumed),
      ("stack", .arr (r.stack.map StackItem.toJson))] ++
    field? "exception" (r.exception.map .str) ++ field? "session" (r.session.map .str) ++
    field? "tx" (r.tx.map .str))

def ofJson : Read InvokeResult :=
  readRecord ["script", "state", "gasconsumed", "stack", "exception", "session", "tx"] fun fs =>
    InvokeResult.mk <$> fs.get "script" readText "" <*> fs.need "state" VmState.ofJson
      <*> fs.need "gasconsumed" readAmount <*> fs.get "stack" (readList StackItem.ofJson) []
      <*> fs.option "exception" readText <*> fs.option "session" readText <*> fs.option "tx" readText

end InvokeResult

/-! ## Logs -/

structure Notification where
  contract : Hash160
  eventName : String
  /-- What the event carries. -/
  state : Json

namespace Notification

def toJson (n : Notification) : Json :=
  .obj [("contract", .str n.contract.toText), ("eventname", .str n.eventName), ("state", n.state)]

def ofJson : Read Notification :=
  readRecord ["contract", "eventname", "state"] fun fs =>
    Notification.mk <$> fs.need "contract" (readHash 20) <*> fs.need "eventname" readText <*> fs.need "state" readAny

end Notification

structure Execution where
  trigger : String
  state : VmState
  gasConsumed : Int64
  exception : Option String := none
  stack : List StackItem := []
  notifications : List Notification := []

namespace Execution

def toJson (e : Execution) : Json :=
  .obj ([("trigger", .str e.trigger), ("vmstate", .str e.state.name), ("gasconsumed", amountToJson e.gasConsumed)] ++
    field? "exception" (e.exception.map .str) ++
    [("stack", .arr (e.stack.map StackItem.toJson)), ("notifications", .arr (e.notifications.map Notification.toJson))])

def ofJson : Read Execution :=
  readRecord ["trigger", "vmstate", "gasconsumed", "exception", "stack", "notifications"] fun fs =>
    Execution.mk <$> fs.need "trigger" readText <*> fs.need "vmstate" VmState.ofJson
      <*> fs.need "gasconsumed" readAmount <*> fs.option "exception" readText
      <*> fs.get "stack" (readList StackItem.ofJson) [] <*> fs.get "notifications" (readList Notification.ofJson) []

/-- Whether the transaction itself ran, rather than the work of the block around it. -/
def isApplication (e : Execution) : Bool := e.trigger.toList.map Char.toLower == "application".toList

end Execution

structure ApplicationLog where
  transaction : Option Hash256 := none
  block : Option Hash256 := none
  executions : List Execution := []

namespace ApplicationLog

def toJson (l : ApplicationLog) : Json :=
  .obj (field? "txid" (l.transaction.map fun h => .str h.toText) ++
    field? "blockhash" (l.block.map fun h => .str h.toText) ++
    [("executions", .arr (l.executions.map Execution.toJson))])

def ofJson : Read ApplicationLog :=
  readRecord ["txid", "blockhash", "executions"] fun fs =>
    ApplicationLog.mk <$> fs.option "txid" (readHash 32) <*> fs.option "blockhash" (readHash 32)
      <*> fs.get "executions" (readList Execution.ofJson) []

def application? (l : ApplicationLog) : Option Execution := l.executions.find? Execution.isApplication

end ApplicationLog

/-! ## Answers about one transaction -/

def readNetworkFee : Read Int64 := readRecord ["networkfee"] fun fs => fs.need "networkfee" readAmount

def networkFeeToJson (fee : Int64) : Json := .obj [("networkfee", amountToJson fee)]

def readSent : Read Hash256 := readRecord ["hash"] fun fs => fs.need "hash" (readHash 32)

def sentToJson (hash : Hash256) : Json := .obj [("hash", .str hash.toText)]

end N3.Rpc
