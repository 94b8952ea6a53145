import N3.Rpc.Method
import N3.Transaction
import N3.Wallet.Error

/-!
# Transactions on their way

A transaction that is built, gathers its witnesses, in the order of its signers, and is handed in once it has one
for each. It then remembers the number of blocks at that time; before that, nobody can ask what became of it.
-/

set_option autoImplicit false

namespace N3

inductive BuildError where
  | model (cause : Error)
  | wallet (cause : WalletError)
  | rpc (cause : Rpc.RpcError)
  /-- The one who pays cannot cover the fees, and the draft asked for an error in that case. -/
  | feeCoverage (reason : String)

def BuildError.message : BuildError → String
  | .model cause => cause.message
  | .wallet cause => cause.message
  | .rpc cause => cause.message
  | .feeCoverage reason => "the sender cannot cover the fees: " ++ reason

structure Pending where
  transaction : Transaction
  /-- The number of blocks right after the transaction was handed in. -/
  sentAt : Option UInt32 := none
  deriving DecidableEq

namespace Pending

open Rpc

/-- What every witness signs, on the client's network. -/
def signData (p : Pending) : Session BuildError Bytes := do return p.transaction.signData (← Session.settings).magic

/-! ## Witnesses -/

def addWitness (p : Pending) (w : Witness) : Pending :=
  { p with transaction := { p.transaction with witnesses := p.transaction.witnesses ++ [w] } }

def addMultisigWitness (p : Pending) (script : VerificationScript) (signatures : SignatureMap) : Except Error Pending := do
  return p.addWitness (← Witness.ofSignatures script signatures)

/-! ## Handing in -/

/-- Checks that there is one witness for each signer, and then the size. -/
def checkSend (p : Pending) : Except Error Unit :=
  let t := p.transaction
  if t.signers.length ≠ t.witnesses.length then
    .error (.transactionConfiguration (.witnessMismatch t.signers.length t.witnesses.length))
  else if Limits.transactionSize < t.size then
    .error (.transactionConfiguration (.tooLarge Limits.transactionSize t.size))
  else .ok ()

/-- Hands the transaction in and asks for the number of blocks. If one of the two fails, nothing is remembered. -/
def send (p : Pending) : Session BuildError (Hash256 × Pending) := do
  Session.ofExcept (p.checkSend.mapError .model)
  let hash ← (sendRawTransaction p.transaction.encode).mapError .rpc
  let blocks ← blockCount.mapError .rpc
  return (hash, { p with sentAt := some blocks })

def log (p : Pending) : Session BuildError ApplicationLog :=
  match p.sentAt with
  | none => Session.fail (.model (.invalidState .notSent))
  | some _ => (applicationLog p.transaction.hash).mapError .rpc

end Pending

end N3
