import N3.Wallet.Address
import N3.Wallet.KeyPair

/-!
# Accounts

What is known of an account is its key pair, its verification script, its name and how many signatures it needs, or
its name alone. What follows from that is never kept beside it: a key pair determines the script, a script the name
and the number of signatures, so that they cannot disagree.
-/

set_option autoImplicit false

namespace N3

/-! ## How many signatures -/

/-- How many signatures an account needs, and of how many keys. -/
structure Quorum where
  threshold : Nat
  participants : Nat
  deriving DecidableEq

def Quorum.IsReachable (q : Quorum) : Prop := 0 < q.threshold ∧ q.threshold ≤ q.participants

instance (q : Quorum) : Decidable q.IsReachable := inferInstanceAs (Decidable (_ ∧ _))

def VerificationScript.quorum? (v : VerificationScript) : Option Quorum :=
  v.multisig?.map fun m => ⟨m.threshold, m.keys.length⟩

/-! ## Accounts -/

inductive Knowledge where
  | keyPair (pair : KeyPair)
  | script (script : VerificationScript)
  | quorum (hash : Hash160) (quorum : Quorum) (reachable : quorum.IsReachable)
  | name (hash : Hash160)

structure Account where
  known : Knowledge
  label : Option String := none

namespace Account

def ofHash (hash : Hash160) : Account := { known := .name hash }

def ofKeyPair (pair : KeyPair) : Account := { known := .keyPair pair }

def ofWif (wif : String) : Except WalletError Account := return ofKeyPair (← KeyPair.ofWif wif)

def ofAddress (address : String) : Except WalletError Account := return ofHash (← Address.toHash address)

def ofScript (script : VerificationScript) : Account := { known := .script script }

def ofKeys (keys : List Point) (threshold : Nat) : Except WalletError Account := do
  return ofScript (← (VerificationScript.ofKeys keys threshold).mapError .model)

/-- An account of several keys, of which only their number is known. -/
def ofQuorum (hash : Hash160) (threshold participants : Nat) : Except WalletError Account :=
  let q : Quorum := ⟨threshold, participants⟩
  if h : q.IsReachable then .ok { known := .quorum hash q h }
  else .error (.model (.invalidArgument (.quorumOutOfRange threshold participants)))

def withLabel (a : Account) (label : String) : Account := { a with label := some label }

/-! ## What follows -/

def hash (a : Account) : Hash160 :=
  match a.known with
  | .keyPair pair => pair.hash
  | .script script => script.hash
  | .quorum hash _ _ | .name hash => hash

def keyPair? (a : Account) : Option KeyPair :=
  match a.known with
  | .keyPair pair => some pair
  | _ => none

def script? (a : Account) : Option VerificationScript :=
  match a.known with
  | .keyPair pair => some pair.script
  | .script script => some script
  | _ => none

/-- Present for accounts that are known to take several signatures. -/
def quorum? (a : Account) : Option Quorum :=
  match a.known with
  | .script script => script.quorum?
  | .quorum _ quorum _ => some quorum
  | _ => none

def address (a : Account) : String := Address.ofHash a.hash

def isMultisig (a : Account) : Bool := a.quorum?.isSome

def requireQuorum (a : Account) : Except WalletError Quorum := a.quorum?.elim (.error (.notMultisig a.hash)) .ok

def threshold (a : Account) : Except WalletError Nat := return (← a.requireQuorum).threshold

def participants (a : Account) : Except WalletError Nat := return (← a.requireQuorum).participants

def text (a : Account) : String :=
  match a.label with
  | some label => a.address ++ " (" ++ label ++ ")"
  | none => a.address

theorem hash_of_script? {a : Account} {v : VerificationScript} (h : a.script? = some v) : v.hash = a.hash := by
  obtain ⟨known, label⟩ := a
  cases known <;> cases h <;> rfl

end Account

end N3
