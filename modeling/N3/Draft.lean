import N3.Transaction
import N3.Wallet.TransactionSigner

/-!
# Drafts

A draft collects what a transaction is made from before its fees and its last block are known. Signers are distinct,
signers and attributes together are no more than a transaction can have, and a second mark of high priority changes
nothing.
-/

set_option autoImplicit false

namespace N3

/-- What happens when the balance of the one who pays does not cover the fees. -/
inductive ShortfallPolicy where
  /-- Nobody asks for the balance. -/
  | ignore
  /-- It is reported, and the transaction is built all the same. -/
  | report
  /-- There is no transaction, for the given reason. -/
  | refuse (reason : String)
  deriving DecidableEq

structure Draft where
  version : UInt8 := 0
  nonce : UInt32 := 0
  /-- The last block in which the transaction counts, if it is not left to the node. -/
  validUntil : Option UInt32 := none
  signers : List TransactionSigner := []
  attributes : List Attribute := []
  script : Bytes := []
  /-- What is added to the fee for carrying the transaction. -/
  extraNetworkFee : Int64 := 0
  /-- What is added to the fee for running the script. -/
  extraSystemFee : Int64 := 0
  onShortfall : ShortfallPolicy := .ignore

namespace Draft

def modelSigners (d : Draft) : List Signer := d.signers.map (·.signer)

def isHighPriority (d : Draft) : Bool := d.attributes.contains .highPriority

/-! ## Signers and attributes -/

def checkRoom (signers attributes : Nat) : Except Error Unit :=
  if Limits.signersAndAttributes < signers + attributes then
    .error (.transactionConfiguration (.noRoomForAttributes Limits.signersAndAttributes))
  else .ok ()

def withSigners (d : Draft) (signers : List TransactionSigner) : Except Error Draft :=
  match Transaction.firstRepeatedAccount? [] (signers.map (·.signer)) with
  | some account => .error (.transactionConfiguration (.repeatedAccount account))
  | none => do
    checkRoom signers.length d.attributes.length
    return { d with signers }

/-- Moves the signer of an account to the front, where it pays the fees. If some signer only pays fees, the order
does not matter, and is refused. -/
def withFirstSigner (d : Draft) (account : Hash160) : Except Error Draft :=
  if d.signers.any fun s => s.scope.isNone then .error (.invalidState .feeOnlySigner)
  else match d.signers.find? fun s => s.hash == account with
    | some s => .ok { d with signers := s :: d.signers.eraseP fun s => s.hash == account }
    | none => .error (.invalidArgument (.noSuchSigner account))

/-- The attributes with one more at the end, unless it marks the high priority that is marked already. -/
def addAttribute (attributes : List Attribute) (a : Attribute) : List Attribute :=
  if a = .highPriority ∧ attributes.contains .highPriority then attributes else attributes ++ [a]

def addAttributes (d : Draft) (attributes : List Attribute) : Except Error Draft := do
  checkRoom d.signers.length (d.attributes.length + attributes.length)
  return { d with attributes := attributes.foldl addAttribute d.attributes }

/-! ## Scripts -/

def withScript (d : Draft) (script : Bytes) : Draft := { d with script }

def extendScript (d : Draft) (script : Bytes) : Draft := { d with script := d.script ++ script }

/-! ## Shortfalls -/

/-- Asks for a report, unless an error is asked for already. -/
def reportShortfall (d : Draft) : Except Error Draft :=
  match d.onShortfall with
  | .refuse _ => .error (.invalidState .supplierRegistered)
  | _ => .ok { d with onShortfall := .report }

/-- Asks for an error, unless a report is asked for already. -/
def refuseShortfall (d : Draft) (reason : String) : Except Error Draft :=
  match d.onShortfall with
  | .report => .error (.invalidState .handlerRegistered)
  | _ => .ok { d with onShortfall := .refuse reason }

end Draft

end N3
