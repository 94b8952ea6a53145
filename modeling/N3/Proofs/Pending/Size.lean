import N3.Proofs.Pending

/-!
# Sizes

Everything that is sent can tell how long its wire form is without writing it, from the sizes of its parts, whether it
is within the limits or not. The check before a transaction is handed in looks at that number alone, and so refuses
exactly the transactions of which there are too many bytes (`size_exact`).
-/

set_option autoImplicit false

namespace N3

theorem InvocationScript.length_encode (s : InvocationScript) : s.encode.length = s.size := Encode.length_counted s.bytes

theorem VerificationScript.length_encode (v : VerificationScript) : v.encode.length = v.size :=
  Encode.length_counted v.bytes

namespace Pending

open Rpc

/-! ## The check of the size -/

def tooLarge (p : Pending) : Error :=
  .transactionConfiguration (.tooLarge Limits.transactionSize p.transaction.encode.length)

/-- The check goes by the bytes themselves. -/
theorem checkSend_eq (p : Pending) :
    p.checkSend =
      if p.transaction.signers.length ≠ p.transaction.witnesses.length then
        .error (.transactionConfiguration
          (.witnessMismatch p.transaction.signers.length p.transaction.witnesses.length))
      else if Limits.transactionSize < p.transaction.encode.length then .error p.tooLarge
      else .ok () := by
  rw [tooLarge, Transaction.length_encode]
  rfl

/-- Nothing is asked when the check fails. -/
theorem send_of_tooLarge {p : Pending} (hcount : p.transaction.signers.length = p.transaction.witnesses.length)
    (hsize : Limits.transactionSize < p.transaction.encode.length) (c : Client) (tr : Trace) :
    p.send c tr = (.error (.model p.tooLarge), tr) := by
  have hcheck : p.checkSend = .error p.tooLarge := by rw [checkSend_eq, if_neg (not_not.mpr hcount), if_pos hsize]
  exact send_of_checkSend hcheck c tr

theorem send_of_mismatch {p : Pending} (hcount : p.transaction.signers.length ≠ p.transaction.witnesses.length)
    (c : Client) (tr : Trace) :
    p.send c tr = (.error (.model (.transactionConfiguration
      (.witnessMismatch p.transaction.signers.length p.transaction.witnesses.length))), tr) := by
  have hcheck := checkSend_eq p
  rw [if_pos hcount] at hcheck
  exact send_of_checkSend hcheck c tr

/-- Handing in begins with the transaction itself. -/
def IsSubmitted (p : Pending) (c : Client) (tr : Trace) : Prop :=
  ∃ later, (p.send c tr).2.requests = tr.requests ++ p.submission tr :: later

theorem isSubmitted_of_le {p : Pending} (hcount : p.transaction.signers.length = p.transaction.witnesses.length)
    (hsize : p.transaction.encode.length ≤ Limits.transactionSize) (c : Client) (tr : Trace) :
    p.IsSubmitted c tr := by
  have hcheck : p.checkSend = .ok () := by
    rw [checkSend_eq, if_neg (not_not.mpr hcount), if_neg (Nat.not_lt.mpr hsize)]
  obtain ⟨later, hrequests, -⟩ := send_requests hcheck c tr
  exact ⟨later, hrequests⟩

/-- What leaves the trace as it is hands nothing in. -/
theorem not_isSubmitted {p : Pending} {c : Client} {tr : Trace} {x : Except BuildError (Hash256 × Pending)}
    (h : p.send c tr = (x, tr)) : ¬ p.IsSubmitted c tr := by
  rintro ⟨later, hrequests⟩
  rw [h] at hrequests
  exact List.cons_ne_nil _ _ (List.self_eq_append_right.mp hrequests)

/-- A transaction is refused for its size exactly if it has a witness for each signer and too many bytes. -/
theorem send_eq_tooLarge_iff (p : Pending) (c : Client) (tr : Trace) :
    p.send c tr = (.error (.model p.tooLarge), tr) ↔
      p.transaction.signers.length = p.transaction.witnesses.length ∧
        Limits.transactionSize < p.transaction.encode.length := by
  constructor
  · intro h
    by_cases hcount : p.transaction.signers.length = p.transaction.witnesses.length
    · refine ⟨hcount, Nat.not_le.mp ?_⟩
      intro hsize
      exact not_isSubmitted h (isSubmitted_of_le hcount hsize c tr)
    · rw [send_of_mismatch hcount] at h
      cases h
  · rintro ⟨hcount, hsize⟩
    exact send_of_tooLarge hcount hsize c tr

theorem isSubmitted_iff (p : Pending) (c : Client) (tr : Trace) :
    p.IsSubmitted c tr ↔
      p.transaction.signers.length = p.transaction.witnesses.length ∧
        p.transaction.encode.length ≤ Limits.transactionSize := by
  constructor
  · intro h
    by_cases hcount : p.transaction.signers.length = p.transaction.witnesses.length
    · refine ⟨hcount, Nat.not_lt.mp ?_⟩
      intro hsize
      exact not_isSubmitted (send_of_tooLarge hcount hsize c tr) h
    · exact absurd h (not_isSubmitted (send_of_mismatch hcount c tr))
  · rintro ⟨hcount, hsize⟩
    exact isSubmitted_of_le hcount hsize c tr

/-! ## All sizes -/

/-- The size of everything that is sent is the number of bytes that are written for it, also beyond the limits. So a
transaction with a witness for each signer is refused for its size if its bytes are too many, without a request, and is
handed in if they are not. -/
theorem size_exact :
    (∀ h : Hash160, h.bytes.length = 20) ∧ (∀ h : Hash256, h.bytes.length = 32) ∧
      (∀ c : Condition, c.encode.length = c.size) ∧ (∀ r : Rule, r.encode.length = r.size) ∧
      (∀ s : Signer, s.encode.length = s.size) ∧ (∀ a : Attribute, a.encode.length = a.size) ∧
      (∀ s : InvocationScript, s.encode.length = s.size) ∧ (∀ v : VerificationScript, v.encode.length = v.size) ∧
      (∀ w : Witness, w.encode.length = w.size) ∧ (∀ t : Transaction, t.encode.length = t.size) ∧
      ∀ (p : Pending) (c : Client) (tr : Trace),
        (p.send c tr = (.error (.model p.tooLarge), tr) ↔
          p.transaction.signers.length = p.transaction.witnesses.length ∧
            Limits.transactionSize < p.transaction.encode.length) ∧
        (p.IsSubmitted c tr ↔
          p.transaction.signers.length = p.transaction.witnesses.length ∧
            p.transaction.encode.length ≤ Limits.transactionSize) :=
  ⟨FixedBytes.length_eq, FixedBytes.length_eq, Condition.length_encode, Rule.length_encode, Signer.length_encode,
    Attribute.length_encode, InvocationScript.length_encode, VerificationScript.length_encode, Witness.length_encode,
    Transaction.length_encode, fun p c tr => ⟨send_eq_tooLarge_iff p c tr, isSubmitted_iff p c tr⟩⟩

end Pending

end N3
