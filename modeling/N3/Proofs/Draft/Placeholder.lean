import N3.Draft.Placeholder
import N3.Proofs.Witness
import N3.Proofs.Witness.Multisig

/-!
# The size of a placeholder

The size of a witness depends on the number of its signatures and on the size of its script, and the size of a template
on its threshold and the number of its keys. So a placeholder has the size of every witness that can take its place
(`length_encode_ofSignatures`), also for an account of which only these two numbers are known.
-/

set_option autoImplicit false

namespace N3

/-! ## Accounts and their scripts -/

namespace Account

theorem script?_of_keyPair? {a : Account} {pair : KeyPair} (h : a.keyPair? = some pair) :
    a.script? = some pair.script := by
  obtain ⟨known, label⟩ := a
  cases known <;> cases h
  rfl

/-- Whether the script can be that of an account of several keys: it is the one that is known, or else a template with
the known threshold, over as many keys as are known to be in it. -/
def Admits (a : Account) (script : VerificationScript) : Prop :=
  match a.script? with
  | some known => script = known
  | none => ∃ q keys, a.quorum? = some q ∧ keys.length = q.participants ∧
      VerificationScript.ofKeys keys q.threshold = .ok script

end Account

theorem VerificationScript.exists_threshold {v : VerificationScript} (h : v.isMultiSig = true) :
    ∃ k, v.threshold = .ok k := by
  unfold threshold
  by_cases hsingle : v.isSingleSig = true
  · rw [if_pos hsingle]
    exact ⟨1, rfl⟩
  · obtain ⟨m, hm⟩ := Option.isSome_iff_exists.mp h
    rw [if_neg hsingle, hm]
    exact ⟨m.threshold, rfl⟩

theorem Witness.length_encode_congr {w w' : Witness}
    (hinvocation : w.invocation.bytes.length = w'.invocation.bytes.length)
    (hverification : w.verification.bytes.length = w'.verification.bytes.length) :
    w.encode.length = w'.encode.length := by
  rw [length_encode, length_encode, size, size, InvocationScript.size, InvocationScript.size, VerificationScript.size,
    VerificationScript.size, hinvocation, hverification]

namespace Placeholder

/-! ## One key -/

/-- The placeholder of an account of one key is its witness with a signature of zeros. -/
theorem ofAccount_of_keyPair? {a : Account} {pair : KeyPair} (h : a.keyPair? = some pair) :
    ofAccount a = .ok (.ofSignature (FixedBytes.zero 64) pair.key) := by
  unfold ofAccount
  rw [Account.script?_of_keyPair? h]
  dsimp only
  rw [KeyPair.script, VerificationScript.isMultiSig_ofKey, if_neg Bool.false_ne_true]
  rfl

/-! ## Several keys -/

theorem length_invocation (k : Nat) : (invocation k).bytes.length = 66 * k := by
  rw [invocation, InvocationScript.length_ofSignatures, List.length_replicate]

/-- The size of a template depends on its threshold and the number of its keys alone. -/
theorem length_quorumScript {q : Quorum} {keys : List (FixedBytes 33)} (h : keys.length = q.participants) :
    (VerificationScript.multisig q.threshold keys).bytes.length = (quorumScript q).bytes.length := by
  rw [quorumScript, VerificationScript.bytes_multisig, VerificationScript.bytes_multisig]
  simp only [List.length_append, VerificationScript.length_pushes, List.length_replicate, h]

theorem ofAccount_of_isMultiSig {a : Account} {script : VerificationScript} {k : Nat} (h : a.script? = some script)
    (hscript : script.isMultiSig = true) (hk : script.threshold = .ok k) :
    ofAccount a = .ok ⟨invocation k, script⟩ := by
  unfold ofAccount
  rw [h]
  dsimp only
  rw [if_pos hscript, hk]
  rfl

theorem ofAccount_of_quorum? {a : Account} {q : Quorum} (h : a.script? = none) (hq : a.quorum? = some q) :
    ofAccount a = .ok ⟨invocation q.threshold, quorumScript q⟩ := by
  unfold ofAccount
  rw [h, hq]

theorem script?_or_quorum? {a : Account} (h : a.isMultisig = true) :
    (∃ script, a.script? = some script ∧ script.isMultiSig = true) ∨
      ∃ q, a.script? = none ∧ a.quorum? = some q := by
  obtain ⟨known, label⟩ := a
  cases known with
  | keyPair pair => cases h
  | name hash => cases h
  | quorum hash q hq => exact .inr ⟨q, rfl, rfl⟩
  | script script =>
    refine .inl ⟨script, rfl, ?_⟩
    simpa [Account.isMultisig, Account.quorum?, VerificationScript.quorum?, VerificationScript.isMultiSig] using h

/-- A witness has as many signatures as its script asks for, whoever signs. -/
theorem length_encode_of_threshold {script script' : VerificationScript} {k : Nat} {m : SignatureMap} {w : Witness}
    (hk : script.threshold = .ok k) (hlength : script.bytes.length = script'.bytes.length)
    (hw : Witness.ofSignatures script m = .ok w) :
    w.encode.length = (Witness.mk (invocation k) script').encode.length := by
  obtain ⟨k', keys, hk', -, -, hmany, rfl⟩ := Witness.ofSignatures_eq_ok_iff.mp hw
  obtain rfl : k = k' := Except.ok.inj (hk.symm.trans hk')
  refine Witness.length_encode_congr ?_ hlength
  rw [InvocationScript.length_ofSignatures, length_invocation, List.length_map, List.length_take_of_le hmany]

/-- The placeholder of an account of several keys has the size of each of its witnesses. -/
theorem length_encode_ofSignatures {a : Account} (h : a.isMultisig = true) :
    ∃ placeholder, ofAccount a = .ok placeholder ∧ ∀ script m w, a.Admits script →
      Witness.ofSignatures script m = .ok w → w.encode.length = placeholder.encode.length := by
  rcases script?_or_quorum? h with ⟨script, hscript, hmultisig⟩ | ⟨q, hscript, hq⟩
  · obtain ⟨k, hk⟩ := VerificationScript.exists_threshold hmultisig
    refine ⟨_, ofAccount_of_isMultiSig hscript hmultisig hk, ?_⟩
    intro script' m w hadmits hw
    unfold Account.Admits at hadmits
    rw [hscript] at hadmits
    subst hadmits
    exact length_encode_of_threshold hk rfl hw
  · refine ⟨_, ofAccount_of_quorum? hscript hq, ?_⟩
    intro script' m w hadmits hw
    unfold Account.Admits at hadmits
    rw [hscript] at hadmits
    obtain ⟨q', keys, hq', hkeys, hmade⟩ := hadmits
    obtain rfl : q = q' := Option.some.inj (hq.symm.trans hq')
    have hk := VerificationScript.threshold_ofKeys hmade
    obtain ⟨-, rfl⟩ := VerificationScript.ofKeys_eq_ok_iff.mp hmade
    have hlength := (VerificationScript.length_sorted keys).trans hkeys
    exact length_encode_of_threshold hk (length_quorumScript hlength) hw

end Placeholder

end N3
