import N3.Proofs.Curve.Signature
import N3.Proofs.Draft.Placeholder
import N3.Proofs.Pending

/-!
# What signing adds

A draft that is signed is the transaction that would be built without signing, with one witness for each signer, in
the order of the signers (`sign_answers`). Witnesses are no part of what is signed, so that each signature is one of the
transaction that has it.
-/

set_option autoImplicit false

namespace N3.Draft

open Rpc Session

variable {d : Draft} {c : Client} {tr tr' : Trace}

/-! ## The witness of a signer -/

/-- What makes a witness that of a signer over some bytes. For a contract it is that of its parameters. For an account
its script names the account, and it has one signature, made with the key of the account, which verifies. -/
def Answers (data : Bytes) (s : TransactionSigner) (w : Witness) : Prop :=
  match s.source with
  | .contract _ parameters => Witness.ofContract parameters = .ok w
  | .account a => ∃ pair signature, a.keyPair? = some pair ∧ w.verification.hash = s.signer.account ∧
      w.invocation.signatures = .ok [signature] ∧ Ecdsa.sign pair.secret data = .ok signature ∧
      Ecdsa.verify pair.key data signature.bytes = true

theorem witness_account {data : Bytes} {s : TransactionSigner} {a : Account} {w : Witness}
    (hs : s.source = .account a) (h : witness data s = .ok w) :
    ∃ pair signature, a.keyPair? = some pair ∧ Ecdsa.sign pair.secret data = .ok signature ∧
      w = .ofSignature signature pair.key := by
  unfold witness at h
  rw [hs] at h
  dsimp only at h
  split at h
  · cases h
  · next pair hpair =>
    obtain ⟨signature, hsign, hw⟩ := Outcome.bind_eq_ok.mp h
    cases hw
    exact ⟨pair, signature, hpair, Outcome.mapError_eq_ok.mp (Outcome.mapError_eq_ok.mp hsign), rfl⟩

theorem answers_of_witness {data : Bytes} {s : TransactionSigner} {w : Witness} (h : witness data s = .ok w) :
    Answers data s w := by
  unfold Answers
  split
  · next hs =>
    rw [witness, hs] at h
    exact Outcome.mapError_eq_ok.mp h
  · next a hs =>
    obtain ⟨pair, signature, hpair, hsign, rfl⟩ := witness_account hs h
    have hhash : pair.script.hash = s.signer.account := by
      rw [Account.hash_of_script? (Account.script?_of_keyPair? hpair), s.account_eq, hs]
      rfl
    exact ⟨pair, signature, hpair, hhash, InvocationScript.signatures_ofSignatures [signature], hsign,
      Ecdsa.verify_sign pair.publicKey_eq hsign⟩

/-! ## The signed transaction -/

/-- A signed transaction has one witness for each signer, in their order, each of which answers for its signer over the
bytes that are signed for this transaction. It is what would be built without signing, but for the witnesses, and these
change neither its hash nor what is signed. -/
theorem sign_answers {p : Pending} (h : d.sign.Gives c tr p tr') :
    p.transaction.signers = d.modelSigners ∧ p.transaction.witnesses.length = p.transaction.signers.length ∧
      List.Forall₂ (Answers (p.transaction.signData c.settings.magic)) d.signers p.transaction.witnesses ∧
      ∃ q, d.buildUnsigned.Gives c tr q tr' ∧ q.transaction.witnesses = [] ∧
        p.transaction = { q.transaction with witnesses := p.transaction.witnesses } ∧
        p.transaction.hash = q.transaction.hash ∧
        ∀ magic, p.transaction.signData magic = q.transaction.signData magic := by
  obtain ⟨q, witnesses, -, hbuild, hwitnesses, rfl⟩ := sign_gives h
  obtain ⟨⟨validUntil, systemFee, networkFee, hq⟩, -⟩ := build_gives (buildUnsigned_gives hbuild)
  have hnone : q.transaction.witnesses = [] := by rw [hq, filled]
  have hsigners : q.transaction.signers = d.modelSigners := by rw [hq, filled]
  have hp := addWitnesses_transaction q witnesses
  rw [hnone, List.nil_append] at hp
  have hhash : (List.foldl Pending.addWitness q witnesses).transaction.hash = q.transaction.hash := by
    rw [hp]
    rfl
  have hdata : ∀ magic, (List.foldl Pending.addWitness q witnesses).transaction.signData magic =
      q.transaction.signData magic := by
    intro magic
    rw [Transaction.signData, hhash]
    rfl
  have hanswers : List.Forall₂ (Answers (q.transaction.signData c.settings.magic)) d.signers witnesses :=
    hwitnesses.imp fun s w => answers_of_witness
  refine ⟨?_, ?_, ?_, q, hbuild, hnone, ?_, hhash, hdata⟩
  · rw [hp]
    exact hsigners
  · rw [hp]
    dsimp only
    rw [hsigners, modelSigners, List.length_map, hanswers.length_eq]
  · rw [hdata, hp]
    exact hanswers
  · rw [hp]

/-- Signing succeeds if all signers are able to sign, building succeeds, and there is a witness for each signer. -/
theorem fst_sign {q : Pending} {witnesses : List Witness} (hable : d.signers.forM checkSigner = .ok ())
    (hbuild : (d.buildUnsigned c tr).1 = .ok q)
    (hwitnesses : d.signers.mapM (witness (q.transaction.signData c.settings.magic)) = .ok witnesses) :
    (d.sign c tr).1 = .ok (List.foldl Pending.addWitness q witnesses) := by
  unfold sign
  rw [hable]
  refine (Session.fst_bind (a := ()) rfl).trans ((Session.fst_bind hbuild).trans ?_)
  exact (Session.fst_bind rfl).trans (Session.fst_bind hwitnesses)

/-! ## A draft that an account and a contract sign -/

def basePair : KeyPair :=
  ⟨⟨1, by decide, by decide⟩, .base, SecretKey.publicKey_of_toGroup_eq (one_nsmul Point.base.toGroup).symm⟩

def pairDraft : Draft :=
  { validUntil := some 1, script := [0x40],
    signers := [.calledByEntry (.ofKeyPair basePair), .contractCalledByEntry (FixedBytes.zero 20) []] }

theorem outline_pairDraft : pairDraft.outline = .ok (pairDraft.filled 0 0 0) := by
  have hlimits : (pairDraft.filled 0 0 0).validateLimits = .ok () := by
    rw [Transaction.validateLimits_eq_ok]
    exact ⟨by decide, by decide +kernel, by decide⟩
  unfold outline
  rw [if_neg (by decide), if_neg (by decide)]
  exact Outcome.bind_unit_eq_ok.mpr ⟨hlimits, rfl⟩

theorem placeholders_pairDraft : pairDraft.signers.mapM Placeholder.ofSigner =
    .ok [.ofSignature (FixedBytes.zero 64) basePair.key, ⟨{}, {}⟩] := by
  have haccount : Placeholder.ofSigner (.calledByEntry (.ofKeyPair basePair)) =
      .ok (.ofSignature (FixedBytes.zero 64) basePair.key) :=
    Placeholder.ofAccount_of_keyPair? (a := .ofKeyPair basePair) rfl
  rw [Outcome.mapM_eq_ok]
  exact .cons haccount (.cons rfl .nil)

theorem exists_sign_basePair : ∃ signature, Ecdsa.sign basePair.secret
    ((pairDraft.filled 1 0 0).signData Pending.terseClient.settings.magic) = .ok signature := by
  have hsome : (Ecdsa.sign basePair.secret
      ((pairDraft.filled 1 0 0).signData Pending.terseClient.settings.magic)).toOption.isSome = true := by
    decide +kernel
  cases h : Ecdsa.sign basePair.secret ((pairDraft.filled 1 0 0).signData Pending.terseClient.settings.magic) with
  | ok signature => exact ⟨signature, rfl⟩
  | error e =>
    rw [h] at hsome
    cases hsome

theorem exists_sign_pairDraft : ∃ p, (pairDraft.sign Pending.terseClient {}).1 = .ok p := by
  obtain ⟨signature, hsignature⟩ := exists_sign_basePair
  have hbuild : (pairDraft.buildUnsigned Pending.terseClient {}).1 = .ok ⟨pairDraft.filled 1 0 0, none⟩ :=
    Pending.fst_buildUnsigned_terse rfl rfl rfl rfl rfl outline_pairDraft placeholders_pairDraft
  have haccount : witness ((pairDraft.filled 1 0 0).signData Pending.terseClient.settings.magic)
      (.calledByEntry (.ofKeyPair basePair)) = .ok (.ofSignature signature basePair.key) := by
    show ((Except.mapError WalletError.key (Ecdsa.sign basePair.secret _)).mapError BuildError.wallet >>= _) = _
    rw [hsignature]
    rfl
  have hwitnesses : pairDraft.signers.mapM
      (witness ((pairDraft.filled 1 0 0).signData Pending.terseClient.settings.magic)) =
        .ok [.ofSignature signature basePair.key, ⟨{}, {}⟩] := by
    rw [Outcome.mapM_eq_ok]
    exact .cons haccount (.cons rfl .nil)
  exact ⟨_, fst_sign rfl hbuild hwitnesses⟩

theorem sign_answers_pair : ∃ p q : Pending, (pairDraft.sign Pending.terseClient {}).1 = .ok p ∧
    (pairDraft.buildUnsigned Pending.terseClient {}).1 = .ok q ∧ p.transaction.hash = q.transaction.hash ∧
    p.transaction.witnesses.length = 2 ∧
    List.Forall₂ (Answers (p.transaction.signData Pending.terseClient.settings.magic))
      [.calledByEntry (.ofKeyPair basePair), .contractCalledByEntry (FixedBytes.zero 20) []]
      p.transaction.witnesses := by
  obtain ⟨p, hp⟩ := exists_sign_pairDraft
  obtain ⟨hsigners, hlength, hanswers, q, hbuild, -, -, hhash, -⟩ := sign_answers (gives_of_ok hp)
  rw [hsigners] at hlength
  exact ⟨p, q, hp, congrArg Prod.fst hbuild, hhash, hlength, hanswers⟩

end N3.Draft
