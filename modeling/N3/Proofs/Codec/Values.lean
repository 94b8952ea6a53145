import N3.Proofs.Codec.Cursor
import N3.Proofs.Witness.Condition
import N3.Transaction

/-!
# The plans of values

Each value of a transaction has a plan, put together as its decoder is from those of its parts, so that nothing in a
transaction is read out of range (`Transaction.onCursor_start`). The plan of a condition is an induction over the
levels that may still be read.
-/

set_option autoImplicit false

namespace N3

namespace Condition

def plannedKey : Planned decodeKey := (Planned.take 33).bind fun _ => .ofExcept _

/-- The plan of a condition whose parts, if it has any, have plans. -/
def plannedBody (nesting levels : Nat) (negated : ∀ n < nesting, Planned (decodeAt n levels))
    (connected : ∀ n < nesting, ∀ l < levels, Planned (decodeAt n l)) (k : Kind) :
    Planned (decodeBody nesting levels k) :=
  match k with
  | .boolean => Planned.bool.map boolean
  | .scriptHash => (Planned.fixed 20).map scriptHash
  | .group => plannedKey.map group
  | .calledByEntry => .pure calledByEntry
  | .calledByContract => (Planned.fixed 20).map calledByContract
  | .calledByGroup => plannedKey.map calledByGroup
  | .not =>
    match nesting with
    | 0 => .fail _
    | n + 1 => (negated n n.lt_succ_self).map not
  | .and =>
    match nesting with
    | 0 => .fail _
    | n + 1 =>
      match levels with
      | 0 => .fail _
      | l + 1 => (Planned.list _ (connected n n.lt_succ_self l l.lt_succ_self)).map and
  | .or =>
    match nesting with
    | 0 => .fail _
    | n + 1 =>
      match levels with
      | 0 => .fail _
      | l + 1 => (Planned.list _ (connected n n.lt_succ_self l l.lt_succ_self)).map or

def plannedAt (nesting levels : Nat) : Planned (decodeAt nesting levels) :=
  .copy (decodeAt_eq nesting levels) <| Planned.byte.bind fun b =>
    match Kind.ofByte? b with
    | none => .fail _
    | some k => plannedBody nesting levels (fun n _ => plannedAt n levels) (fun n _ l _ => plannedAt n l) k

def planned : Planned decode := plannedAt _ _

end Condition

def Rule.planned : Planned Rule.decode :=
  Planned.byte.bind fun _ => (Planned.ofOption _ _).bind fun allow => Condition.planned.map (Rule.mk allow)

namespace Signer

def plannedFlagged {α : Type} (scope flag : Scope) {item : Decoder DecodeError α} (p : Planned item) :
    Planned (flagged scope flag item) :=
  .ite (.list _ p) (.pure [])

def planned : Planned decode :=
  (Planned.fixed 20).bind fun account => Planned.byte.bind fun _ => (Planned.ofExcept _).bind fun scope =>
    (plannedFlagged scope .customContracts (.fixed 20)).bind fun contracts =>
      (plannedFlagged scope .customGroups Condition.plannedKey).bind fun groups =>
        (plannedFlagged scope .witnessRules Rule.planned).map (Signer.mk account scope contracts groups)

end Signer

def Attribute.planned : Planned Attribute.decode :=
  Planned.byte.bind fun b =>
    match Attribute.Kind.ofByte? b with
    | none => .fail _
    | some .highPriority => .pure _
    | some .oracleResponse =>
      Planned.u64.bind fun _ => Planned.byte.bind fun _ => (Planned.ofOption _ _).bind fun _ =>
        (Planned.counted _).bind fun _ => .ite (.fail _) (.pure _)
    | some .notValidBefore => Planned.u32.map _
    | some .conflicts => (Planned.fixed 32).map _

def Witness.planned : Planned Witness.decode :=
  ((Planned.counted _).map InvocationScript.mk).bind fun invocation =>
    ((Planned.counted _).map VerificationScript.mk).map (Witness.mk invocation)

namespace Transaction

def plannedUnsigned : Planned decodeUnsigned :=
  Planned.byte.bind fun _ => Planned.u32.bind fun _ => Planned.i64.bind fun _ => Planned.i64.bind fun _ =>
    Planned.u32.bind fun _ => (Planned.list _ Signer.planned).bind fun signers =>
      match firstRepeatedAccount? [] signers with
      | some _ => .fail _
      | none => (Planned.list _ Attribute.planned).bind fun attributes =>
        match Attribute.firstRepeated? [] attributes with
        | some _ => .fail _
        | none => (Planned.counted _).map _

def planned : Planned decode :=
  plannedUnsigned.bind fun _ => Planned.isAtEnd.bind fun
    | true => .pure _
    | false => (Planned.list _ Witness.planned).map _

/-- Reading a transaction from any bytes makes no access out of range, and reads by index what the decoder reads. -/
theorem onCursor_start (bs : Bytes) :
    ∃ x k, k ≤ bs.length ∧ decode (Reader.start bs) = (x, ⟨bs.drop k, k, bs, 0⟩) ∧
      planned.plan.onCursor (Cursor.start bs) = some (x, ⟨bs, k, 0⟩) := by
  obtain ⟨x, k, hk, hreader, hcursor⟩ := planned.plan.onCursor_eq (Cursor.inBounds_start bs)
  have hplace : (Cursor.start bs).advance k = ⟨bs, k, 0⟩ := by rw [Cursor.advance, Cursor.start, Nat.zero_add]
  rw [planned.run_eq, hplace] at hreader
  rw [hplace] at hcursor
  exact ⟨x, k, Nat.zero_add k ▸ hk, hreader, hcursor⟩

end Transaction

end N3
