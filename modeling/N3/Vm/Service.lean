import N3.Hash.Sha256

/-!
# Services of the node

A script reaches outside the virtual machine through a service. The instruction that calls one carries the first
four bytes of the hash of the service's name.
-/

set_option autoImplicit false

namespace N3

inductive Service where
  | contractCall | checkSig | checkMultisig | iteratorNext | iteratorValue
  | checkWitness | getTime | log | notify
  deriving DecidableEq, Repr

namespace Service

def name : Service → String
  | contractCall => "System.Contract.Call"
  | checkSig => "System.Crypto.CheckSig"
  | checkMultisig => "System.Crypto.CheckMultisig"
  | iteratorNext => "System.Iterator.Next"
  | iteratorValue => "System.Iterator.Value"
  | checkWitness => "System.Runtime.CheckWitness"
  | getTime => "System.Runtime.GetTime"
  | log => "System.Runtime.Log"
  | notify => "System.Runtime.Notify"

/-- In the smallest unit of the fee token, before the node's factor. -/
def price : Service → Nat
  | contractCall => 32768
  | checkSig => 32768
  | checkMultisig => 0
  | iteratorNext => 32768
  | iteratorValue => 16
  | checkWitness => 1024
  | getTime => 8
  | log => 32768
  | notify => 32768

def all : List Service :=
  [contractCall, checkSig, checkMultisig, iteratorNext, iteratorValue, checkWitness, getTime, log, notify]

/-- The first four bytes of the hash of the name. -/
def hash (s : Service) : Bytes := (Sha256.digest s.name.toUTF8.toList).bytes.take 4

def hashes : List (Service × Bytes) := all.map fun s => (s, s.hash)

def ofHash? (hash : Bytes) : Option Service := (hashes.find? fun entry => entry.2 == hash).map (·.1)

def ofName? (name : String) : Option Service := all.find? fun s => s.name == name

theorem length_hash (s : Service) : s.hash.length = 4 := by
  simp [hash, (Sha256.digest _).length_eq]

end Service

end N3
