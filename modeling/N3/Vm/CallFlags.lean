/-!
# What a called contract may do

A call grants some of four permissions, one bit each; by default it grants all of them.
-/

set_option autoImplicit false

namespace N3

structure CallFlags where
  bits : UInt8
  deriving DecidableEq, Repr

namespace CallFlags

def readStates : CallFlags := ⟨0x01⟩
def writeStates : CallFlags := ⟨0x02⟩
def allowCall : CallFlags := ⟨0x04⟩
def allowNotify : CallFlags := ⟨0x08⟩

def union (a b : CallFlags) : CallFlags := ⟨a.bits ||| b.bits⟩

def all : CallFlags := ((readStates.union writeStates).union allowCall).union allowNotify

instance : Inhabited CallFlags := ⟨all⟩

def has (a b : CallFlags) : Bool := a.bits &&& b.bits == b.bits

/-- The permissions of these bits, if each bit stands for one. -/
def ofBits? (bits : UInt8) : Option CallFlags := if bits &&& ~~~ all.bits = 0 then some ⟨bits⟩ else none

end CallFlags

end N3
