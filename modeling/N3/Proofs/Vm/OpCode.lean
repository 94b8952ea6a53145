import Mathlib.Data.List.Pairwise
import N3.Vm.OpCode

/-!
# Operations and their bytes

The table of operations is in the order of their bytes (`bytes_ascending`), so that no two operations share a byte and
each is found by its own (`ofByte?_byte`).
-/

set_option autoImplicit false

namespace N3.OpCode

theorem mem_all (op : OpCode) : op ∈ all := by
  have hindex : all[op.ctorIdx]? = some op := by cases op <;> rfl
  exact List.mem_of_getElem? hindex

/-- Only neighbours are compared: comparing all pairs takes seconds. -/
theorem bytes_ascending : all.Pairwise fun a b => a.byte < b.byte := by
  have : IsTrans OpCode fun a b => a.byte < b.byte := ⟨fun _ _ _ => UInt8.lt_trans⟩
  rw [← List.isChain_iff_pairwise]
  decide +kernel

theorem byte_injective {a b : OpCode} (h : a.byte = b.byte) : a = b := by
  by_contra hne
  have hsymm : Std.Symm fun a b : OpCode => a.byte ≠ b.byte := ⟨fun _ _ => Ne.symm⟩
  have hpairs : all.Pairwise fun a b => a.byte ≠ b.byte := bytes_ascending.imp fun hlt => UInt8.ne_of_lt hlt
  exact hpairs.forall (mem_all a) (mem_all b) hne h

theorem byte_of_ofByte? {b : UInt8} {op : OpCode} (h : ofByte? b = some op) : op.byte = b := by
  unfold ofByte? at h
  have hbyte := List.find?_some h
  exact beq_iff_eq.mp hbyte

theorem ofByte?_byte (op : OpCode) : ofByte? op.byte = some op := by
  have hsome : (ofByte? op.byte).isSome := List.find?_isSome.mpr ⟨op, mem_all op, beq_self_eq_true _⟩
  obtain ⟨found, hfound⟩ := Option.isSome_iff_exists.mp hsome
  rw [hfound, byte_injective (byte_of_ofByte? hfound)]

end N3.OpCode
