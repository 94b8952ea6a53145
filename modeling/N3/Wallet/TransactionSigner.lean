import N3.Parameter
import N3.Signer
import N3.Wallet.Account

/-!
# Who signs a transaction, and how

A signer of a transaction together with the source of its witness: an account, which signs, or a contract, whose own
check is called with parameters. The signer is always that of its source, and no restriction changes that.
-/

set_option autoImplicit false

namespace N3

/-- Where the witness of a signer comes from. -/
inductive WitnessSource where
  | account (account : Account)
  | contract (contract : Hash160) (parameters : List Parameter)

def WitnessSource.hash : WitnessSource → Hash160
  | account a => a.hash
  | contract c _ => c

structure TransactionSigner where
  signer : Signer
  source : WitnessSource
  account_eq : signer.account = source.hash

namespace TransactionSigner

/-! ## Making signers -/

def ofSource (source : WitnessSource) (scope : Scope) : Except WalletError TransactionSigner :=
  match h : Signer.ofScope source.hash scope with
  | .ok signer => .ok ⟨signer, source, Signer.account_ofScope h⟩
  | .error e => .error (.model e)

def ofAccount (account : Account) (scope : Scope) : Except WalletError TransactionSigner :=
  ofSource (.account account) scope

def calledByEntry (account : Account) : TransactionSigner := ⟨.calledByEntry account.hash, .account account, rfl⟩

def none (account : Account) : TransactionSigner := ⟨.none account.hash, .account account, rfl⟩

def global (account : Account) : TransactionSigner := ⟨.global account.hash, .account account, rfl⟩

def ofContract (contract : Hash160) (parameters : List Parameter) (scope : Scope) :
    Except WalletError TransactionSigner :=
  ofSource (.contract contract parameters) scope

def contractCalledByEntry (contract : Hash160) (parameters : List Parameter) : TransactionSigner :=
  ⟨.calledByEntry contract, .contract contract parameters, rfl⟩

/-! ## Restricting them -/

/-- The same source with a restricted form of the signer. -/
def restrict (s : TransactionSigner) (restricted : Except Error Signer)
    (account_eq : ∀ r, restricted = .ok r → r.account = s.signer.account) : Except WalletError TransactionSigner :=
  match restricted, account_eq with
  | .ok r, account_eq => .ok ⟨r, s.source, (account_eq r rfl).trans s.account_eq⟩
  | .error e, _ => .error (.model e)

def addContracts (s : TransactionSigner) (cs : List Hash160) : Except WalletError TransactionSigner :=
  s.restrict (s.signer.addContracts cs) fun _ => Signer.account_addContracts

def addGroups (s : TransactionSigner) (gs : List Point) : Except WalletError TransactionSigner :=
  s.restrict (s.signer.addGroups gs) fun _ => Signer.account_addGroups

def addRules (s : TransactionSigner) (rs : List Rule) : Except WalletError TransactionSigner :=
  s.restrict (s.signer.addRules rs) fun _ => Signer.account_addRules

def hash (s : TransactionSigner) : Hash160 := s.signer.account

def scope (s : TransactionSigner) : Scope := s.signer.scope

end TransactionSigner

end N3
