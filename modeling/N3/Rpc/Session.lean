import N3.Rpc.Error
import N3.Settings

/-!
# Talking to a node

A node answers a request in view of all that it was asked before, so that any run of answers is some node's. What is
done against a node is a function of the client that does it and of the trace so far, and it gives the trace
afterwards whether it succeeds or not. One thing is done after the other, and so requests are numbered from one in the
order in which they are sent.
-/

set_option autoImplicit false

namespace N3.Rpc

/-! ## Nodes and traces -/

/-- What the answer to a request is, after earlier requests. -/
abbrev Node := List Request → Request → Except RpcError Response

structure Client where
  settings : Settings
  node : Node

structure Shortfall where
  fees : Int
  balance : Int
  deriving DecidableEq

/-- The requests and the reports of shortfalls so far, each in order. -/
structure Trace where
  requests : List Request := []
  shortfalls : List Shortfall := []

def Trace.nextId (t : Trace) : UInt64 := UInt64.ofNat (t.requests.length + 1)

def Session (ε α : Type) : Type := Client → Trace → Except ε α × Trace

namespace Session

variable {ε ε' α : Type}

instance : Monad (Session ε) where
  pure a := fun _ t => (.ok a, t)
  bind s f := fun c t =>
    match s c t with
    | (.ok a, t') => f a c t'
    | (.error e, t') => (.error e, t')

def fail (e : ε) : Session ε α := fun _ t => (.error e, t)

def ofExcept (x : Except ε α) : Session ε α := fun _ t => (x, t)

def mapError (f : ε → ε') (s : Session ε α) : Session ε' α := fun c t => ((s c t).1.mapError f, (s c t).2)

def settings : Session ε Settings := fun c t => (.ok c.settings, t)

def report (s : Shortfall) : Session ε Unit := fun _ t => (.ok (), { t with shortfalls := t.shortfalls ++ [s] })

end Session

/-! ## Calls -/

/-- What the answer to a request means. An error of the node comes first; a result counts if the response has no
number or that of the request, and if it can be read. -/
def Request.outcome {α : Type} (q : Request) (read : Json.Read α) : Except RpcError Response → Except RpcError α
  | .error e => .error e
  | .ok r =>
    match r.error with
    | some e => .error (.node e)
    | none =>
      match r.id.filter (· != q.id), r.result with
      | some id, _ => .error (.invalidResponse (.otherId id q.id))
      | none, none => .error (.invalidResponse (.noResult q.method))
      | none, some result => (read result).mapError fun e => .invalidResponse (.badResult q.method e)

def call {α : Type} (method : String) (params : List Json) (read : Json.Read α) : Session RpcError α := fun c t =>
  let q : Request := { method, params, id := t.nextId }
  (q.outcome read (c.node t.requests q), { t with requests := t.requests ++ [q] })

end N3.Rpc
