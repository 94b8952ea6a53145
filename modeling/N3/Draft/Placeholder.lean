import N3.Wallet.TransactionSigner
import N3.Witness

/-!
# Placeholders for witnesses

A node charges for every byte of a transaction, so it is asked for the price before there are signatures, of a
transaction with witnesses of the size that they will have. A placeholder has the right scripts where they are known,
and otherwise scripts of the same shape; its signatures are zero.
-/

set_option autoImplicit false

namespace N3.Placeholder

/-- Stands for any key, all of which have the same size. -/
def key : FixedBytes 33 := ⟨List.replicate 33 0x02, List.length_replicate⟩

def invocation (signatures : Nat) : InvocationScript := .ofSignatures (List.replicate signatures (FixedBytes.zero 64))

def singleScript : VerificationScript := ⟨Push.data key.bytes ++ Push.service .checkSig⟩

/-- Stands for the script of any keys, of which only their number is known. -/
def quorumScript (q : Quorum) : VerificationScript := .multisig q.threshold (List.replicate q.participants key)

/-- A witness of the size that the witness of an account will have. -/
def ofAccount (a : Account) : Except Error Witness :=
  match a.script?, a.quorum? with
  | some script, _ =>
    if script.isMultiSig then do return ⟨invocation (← script.threshold), script⟩
    else .ok ⟨invocation 1, script⟩
  | none, some q => .ok ⟨invocation q.threshold, quorumScript q⟩
  | none, none => .ok ⟨invocation 1, singleScript⟩

def ofSigner (s : TransactionSigner) : Except Error Witness :=
  match s.source with
  | .contract _ parameters => Witness.ofContract parameters
  | .account a => ofAccount a

end N3.Placeholder
