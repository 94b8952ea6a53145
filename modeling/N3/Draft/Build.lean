import N3.Draft
import N3.Draft.Placeholder
import N3.Pending

/-!
# From a draft to a transaction

Building asks the node, in this order and only if need be, for the number of blocks, for the committee, for a
simulation of the script, for the price of carrying the transaction, and for the balance of the one who pays. The
first error ends it, and a draft that cannot become a transaction is refused before anything is asked.
-/

set_option autoImplicit false

namespace N3.Draft

open Rpc

def simulate (d : Draft) : Session BuildError InvokeResult :=
  if d.script.isEmpty then Session.fail (.model (.invalidState .noScriptToSimulate))
  else (invokeScript d.script d.modelSigners).mapError .rpc

/-! ## The steps -/

/-- The transaction without what the node has to say, if it is within its limits. -/
def outline (d : Draft) : Except Error Transaction :=
  if d.script.isEmpty then .error (.invalidState .noScript)
  else if d.signers.isEmpty then .error (.invalidState .noSigners)
  else
    let t : Transaction :=
      { version := d.version, nonce := d.nonce, signers := d.modelSigners, attributes := d.attributes, script := d.script }
    do
      t.validateLimits
      return t

/-- The last of the next blocks in which a transaction counts, within 32 bits. -/
def lastBlock (blocks increment : UInt32) : UInt32 := UInt32.ofNat (min (blocks.toNat + increment.toNat) (UInt32.size - 1) - 1)

def resolveValidUntil (d : Draft) : Session BuildError UInt32 :=
  match d.validUntil with
  | some height => pure height
  | none => do
    let blocks ← blockCount.mapError .rpc
    return lastBlock blocks (← Session.settings).validityIncrement

def accountOf (key : Point) : Hash160 := (VerificationScript.ofKey key).hash

def quorumKeys (s : TransactionSigner) : Except Error (List Point) :=
  match s.source with
  | .account a =>
    match a.script? with
    | some script => if script.isMultiSig then script.keys else .ok []
    | none => .ok []
  | .contract .. => .ok []

/-- Whether some signer is an account of several keys, of which one is in the committee. The signers are looked at
in order, and no further than need be. -/
def anyQuorumMember (committee : List Hash160) : List TransactionSigner → Except Error Bool
  | [] => .ok false
  | s :: ss => do
    let keys ← quorumKeys s
    if keys.any fun k => committee.contains (accountOf k) then return true
    anyQuorumMember committee ss

/-- Whether a member of the committee signs, by itself or as one of several keys. -/
def isCommitteeSigned (d : Draft) (committee : List Point) : Except Error Bool :=
  let accounts := committee.map accountOf
  if d.signers.any fun s => accounts.contains s.hash then .ok true else anyQuorumMember accounts d.signers

/-- Only the committee may ask for high priority. -/
def checkPriority (d : Draft) : Session BuildError Unit :=
  if d.isHighPriority then do
    let keys ← committee.mapError .rpc
    let allowed ← Session.ofExcept ((d.isCommitteeSigned keys).mapError .model)
    if allowed then return ()
    Session.fail (.model (.transactionConfiguration .notCommittee))
  else pure ()

def addFee (kind : String) (fee extra : Int64) : Except Error Int64 :=
  let v := fee.toInt + extra.toInt
  if Bytes.fits 8 v then .ok (Int64.ofInt v) else .error (.transactionConfiguration (.feeOverflow kind))

/-- What the script consumed in the simulation, in which it must not fail unless the settings allow it. -/
def consumed (d : Draft) : Session BuildError Int64 := do
  let result ← (invokeScript d.script d.modelSigners).mapError .rpc
  let settings ← Session.settings
  if result.isFault && !settings.allowFault then
    Session.fail (.model (.transactionConfiguration (.simulationFault (result.exception.getD ""))))
  else return result.gasConsumed

/-- The transaction with placeholders for its witnesses, which is what the node is asked to price. -/
def priced (d : Draft) (t : Transaction) : Except Error Transaction := do
  return { t with witnesses := ← d.signers.mapM Placeholder.ofSigner }

def carriage (d : Draft) (t : Transaction) : Session BuildError Int64 := do
  let t ← Session.ofExcept ((d.priced t).mapError .model)
  (networkFee t.encode).mapError .rpc

def balanceOf (account : Hash160) : Session BuildError Int := do
  let settings ← Session.settings
  let token ← Session.ofExcept ((FixedBytes.parse 20 settings.feeToken).mapError fun e => .model (.ofHash e))
  let result ← (invokeFunction token "balanceOf" [.hash160 account] []).mapError .rpc
  match result.stack.head?.bind StackItem.asInteger? with
  | some balance => return balance
  | none => Session.fail (.rpc (.invalidResponse (.badBalance token)))

/-- What the transaction costs and what the balance of the one who pays does not cover, if there is such a thing. -/
def shortfall? (t : Transaction) : Session BuildError (Option Shortfall) := do
  match t.sender? with
  | none => Session.fail (.model (.invalidState .noSender))
  | some sender =>
    let fees := t.systemFee.toInt + t.networkFee.toInt
    let balance ← balanceOf sender
    return if balance < fees then some ⟨fees, balance⟩ else none

def checkBalance (d : Draft) (t : Transaction) : Session BuildError Unit :=
  match d.onShortfall with
  | .ignore => pure ()
  | .report => do
    match ← shortfall? t with
    | some s => Session.report s
    | none => return ()
  | .refuse reason => do
    match ← shortfall? t with
    | some _ => Session.fail (.feeCoverage reason)
    | none => return ()

/-! ## All of it -/

/-- The transaction without witnesses. -/
def build (d : Draft) : Session BuildError Transaction := do
  let t ← Session.ofExcept (d.outline.mapError .model)
  let validUntil ← d.resolveValidUntil
  let t := { t with validUntil }
  d.checkPriority
  let systemFee ← Session.ofExcept ((addFee "system" (← d.consumed) d.extraSystemFee).mapError .model)
  let t := { t with systemFee }
  let networkFee ← Session.ofExcept ((addFee "network" (← d.carriage t) d.extraNetworkFee).mapError .model)
  let t := { t with networkFee }
  d.checkBalance t
  return t

def buildUnsigned (d : Draft) : Session BuildError Pending := do return ⟨← d.build, none⟩

/-! ## Signing -/

def missingKey (a : Account) : Error := .invalidState (.noPrivateKey a.address)

/-- An account signs by itself if it has one key, and has it here. -/
def checkSigner (s : TransactionSigner) : Except Error Unit :=
  match s.source with
  | .contract .. => .ok ()
  | .account a =>
    if a.isMultisig then .error (.unsupported (.multisigSigner a.address))
    else if a.keyPair?.isNone then .error (missingKey a)
    else .ok ()

def witness (data : Bytes) (s : TransactionSigner) : Except BuildError Witness :=
  match s.source with
  | .contract _ parameters => (Witness.ofContract parameters).mapError .model
  | .account a =>
    match a.keyPair? with
    | none => .error (.model (missingKey a))
    | some pair => do
      let signature ← (pair.sign data).mapError .wallet
      return .ofSignature signature pair.key

/-- Builds the transaction and adds a witness for each signer, all of whom have to be able to sign. -/
def sign (d : Draft) : Session BuildError Pending := do
  Session.ofExcept ((d.signers.forM checkSigner).mapError .model)
  let p ← d.buildUnsigned
  let data ← p.signData
  let witnesses ← Session.ofExcept (d.signers.mapM (witness data))
  return witnesses.foldl Pending.addWitness p

def send (d : Draft) : Session BuildError Pending := do
  let p ← d.sign
  return (← p.send).2

end N3.Draft
