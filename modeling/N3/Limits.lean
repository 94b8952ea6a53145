/-!
# Limits of the protocol

The bounds that a node enforces on what it is sent, and the sizes of the things that are counted in bytes.
-/

set_option autoImplicit false

namespace N3.Limits

/-- Bytes of a transaction with its witnesses. -/
def transactionSize : Nat := 102400

/-- Signers and attributes of a transaction together, and its witnesses. -/
def signersAndAttributes : Nat := 16

def scriptSize : Nat := 65535

/-- Bytes of either script of a witness. -/
def witnessScriptSize : Nat := 1024

def oracleResultSize : Nat := 65535

def signerEntries : Nat := 16

def connectiveEntries : Nat := 16

/-- Levels of connectives of a condition. -/
def connectiveLevels : Nat := 2

/-- Levels of negations and connectives of a condition. -/
def conditionLevels : Nat := 16

def multisigKeys : Nat := 1024

/-- Bytes of a transaction before its signers. -/
def transactionHeaderSize : Nat := 25

end N3.Limits
