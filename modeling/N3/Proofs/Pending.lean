import N3.Proofs.Draft
import N3.Proofs.Transaction.RoundTrip

/-!
# What is handed in

Building and handing in check the limits on signers, attributes and witnesses and the size of the whole, on every way
to a transaction that is handed in (`Reachable.withinLimits`). They check neither the length of a script nor what
attributes hold, which reading does. So `submitted_bytes` says exactly when a node can read what it is handed, and
`submitted_unreadable` is a transaction that it cannot read.
-/

set_option autoImplicit false

namespace N3

/-! ## Signers with their accounts -/

namespace TransactionSigner

/-- A signer of a draft that was made in one of the ways there are. -/
inductive Reachable : TransactionSigner → Prop where
  | ofAccount {a : Account} {scope : Scope} {s : TransactionSigner} (h : ofAccount a scope = .ok s) : Reachable s
  | ofContract {contract : Hash160} {ps : List Parameter} {scope : Scope} {s : TransactionSigner}
      (h : ofContract contract ps scope = .ok s) : Reachable s
  | none (a : Account) : Reachable (none a)
  | calledByEntry (a : Account) : Reachable (calledByEntry a)
  | global (a : Account) : Reachable (global a)
  | contractCalledByEntry (contract : Hash160) (ps : List Parameter) : Reachable (contractCalledByEntry contract ps)
  | addContracts {s t : TransactionSigner} {cs : List Hash160} (hs : Reachable s) (h : s.addContracts cs = .ok t) :
      Reachable t
  | addGroups {s t : TransactionSigner} {gs : List Point} (hs : Reachable s) (h : s.addGroups gs = .ok t) : Reachable t
  | addRules {s t : TransactionSigner} {rs : List Rule} (hs : Reachable s) (h : s.addRules rs = .ok t) : Reachable t

theorem ofSource_eq_ok {source : WitnessSource} {scope : Scope} {s : TransactionSigner}
    (h : ofSource source scope = .ok s) : Signer.ofScope source.hash scope = .ok s.signer := by
  unfold ofSource at h
  split at h
  · next signer hsigner =>
    cases h
    exact hsigner
  · cases h

theorem restrict_eq_ok {s t : TransactionSigner} {restricted : Except Error Signer}
    {account_eq : ∀ r, restricted = .ok r → r.account = s.signer.account}
    (h : s.restrict restricted account_eq = .ok t) : restricted = .ok t.signer := by
  unfold restrict at h
  split at h
  · cases h
    rfl
  · cases h

theorem Reachable.signer {s : TransactionSigner} (h : s.Reachable) : s.signer.Reachable := by
  induction h with
  | ofAccount h => exact .ofScope (ofSource_eq_ok h)
  | ofContract h => exact .ofScope (ofSource_eq_ok h)
  | none a => exact .none _
  | calledByEntry a => exact .calledByEntry _
  | global a => exact .global _
  | contractCalledByEntry contract ps => exact .calledByEntry _
  | addContracts _ h ih => exact .addContracts ih (restrict_eq_ok h)
  | addGroups _ h ih => exact .addGroups ih (restrict_eq_ok h)
  | addRules _ h ih => exact .addRules ih (restrict_eq_ok h)

end TransactionSigner

/-- The witness of a contract whose check takes one parameter. -/
theorem Witness.ofContract_byteArray (bs : Bytes) :
    Witness.ofContract [.byteArray bs] = .ok ⟨⟨Push.data bs⟩, {}⟩ := by
  have hscript : Emission.sequence [Parameter.push (.byteArray bs)] = .ofBytes (Push.data bs) := by
    rw [Parameter.push]
    show Emission.ofBytes (Push.data bs ++ []) = _
    rw [List.append_nil]
  unfold ofContract InvocationScript.ofParameters
  rw [List.map_singleton, hscript]
  rfl

namespace Pending

open Rpc

/-! ## Every transaction that is handed in -/

/-- A transaction that a draft became, with witnesses added and handed in before or not. -/
inductive Reachable : Pending → Prop where
  | unsigned {d : Draft} {c : Client} {tr : Trace} {p : Pending} (hsigners : ∀ s ∈ d.signers, s.Reachable)
      (h : (d.buildUnsigned c tr).1 = .ok p) : Reachable p
  | signed {d : Draft} {c : Client} {tr : Trace} {p : Pending} (hsigners : ∀ s ∈ d.signers, s.Reachable)
      (h : (d.sign c tr).1 = .ok p) : Reachable p
  | addSignature {p : Pending} (hp : Reachable p) (signature : Signature) (key : Point) :
      Reachable (p.addWitness (.ofSignature signature key))
  | addContract {p : Pending} {ps : List Parameter} {w : Witness} (hp : Reachable p)
      (h : Witness.ofContract ps = .ok w) : Reachable (p.addWitness w)
  | addMultisig {p q : Pending} {script : VerificationScript} {signatures : SignatureMap} (hp : Reachable p)
      (h : p.addMultisigWitness script signatures = .ok q) : Reachable q
  | sent {p q : Pending} {hash : Hash256} {c : Client} {tr : Trace} (hp : Reachable p)
      (h : (p.send c tr).1 = .ok (hash, q)) : Reachable q

/-- What is checked on every way, whatever witnesses are added. -/
structure WithinLimits (p : Pending) : Prop where
  limits : p.transaction.validateLimits = .ok ()
  signers : ∀ s ∈ p.transaction.signers, s.WellFormed

theorem WithinLimits.addWitness {p : Pending} (h : p.WithinLimits) (w : Witness) : (p.addWitness w).WithinLimits where
  limits := h.limits
  signers := h.signers

theorem WithinLimits.addWitnesses {p : Pending} (h : p.WithinLimits) (ws : List Witness) :
    (List.foldl Pending.addWitness p ws).WithinLimits := by
  induction ws generalizing p with
  | nil => exact h
  | cons w ws ih => exact ih (h.addWitness w)

theorem withinLimits_of_build {d : Draft} {c : Client} {tr tr' : Trace} {p : Pending}
    (hsigners : ∀ s ∈ d.signers, s.Reachable) (h : d.buildUnsigned.Gives c tr p tr') : p.WithinLimits := by
  obtain ⟨⟨validUntil, systemFee, networkFee, heq⟩, hlimits⟩ := Draft.build_gives (Draft.buildUnsigned_gives h)
  refine ⟨hlimits, ?_⟩
  intro s hs
  rw [heq] at hs
  obtain ⟨s', hs', rfl⟩ := List.mem_map.mp hs
  exact (hsigners s' hs').signer.wellFormed

/-! ## Handing in -/

theorem send_of_checkSend {p : Pending} {e : Error} (h : p.checkSend = .error e) (c : Client) (tr : Trace) :
    p.send c tr = (.error (.model e), tr) := by
  unfold send
  rw [h]
  rfl

def submission (p : Pending) (tr : Trace) : Request :=
  { method := "sendrawtransaction", params := [bytesToJson p.transaction.encode], id := tr.nextId }

def blockCountRequest (tr : Trace) : Request := { method := "getblockcount", params := [], id := tr.nextId }

/-- Whatever the node answers, the transaction is handed in once, and nothing but the number of blocks is asked for
after that. -/
theorem send_requests {p : Pending} (h : p.checkSend = .ok ()) (c : Client) (tr : Trace) :
    ∃ later, (p.send c tr).2.requests = tr.requests ++ p.submission tr :: later ∧
      ∀ q ∈ later, q.method = "getblockcount" := by
  unfold send
  rw [h, Session.bind_apply]
  dsimp only [Session.ofExcept, Except.mapError]
  rw [Session.bind_apply]
  rcases hsent : ((sendRawTransaction p.transaction.encode).mapError BuildError.rpc) c tr with ⟨x, tr₁⟩
  have htrace : tr₁.requests = tr.requests ++ [p.submission tr] := by
    rw [← (Prod.mk.inj hsent).2]
    rfl
  cases x with
  | error e => exact ⟨[], htrace, fun q hq => absurd hq List.not_mem_nil⟩
  | ok hash =>
    dsimp only
    rw [Session.bind_apply]
    rcases hblocks : (blockCount.mapError BuildError.rpc) c tr₁ with ⟨y, tr₂⟩
    have hrequests : tr₂.requests = tr.requests ++ p.submission tr :: [blockCountRequest tr₁] := by
      rw [← (Prod.mk.inj hblocks).2, ← List.singleton_append, ← List.append_assoc, ← htrace]
      rfl
    have hlater : ∀ q ∈ [blockCountRequest tr₁], q.method = "getblockcount" := by
      intro q hq
      rw [List.mem_singleton.mp hq]
      rfl
    refine ⟨[blockCountRequest tr₁], ?_, hlater⟩
    cases y with
    | error e => exact hrequests
    | ok blocks => exact hrequests

theorem send_gives {p q : Pending} {hash : Hash256} {c : Client} {tr tr' : Trace}
    (h : p.send.Gives c tr (hash, q) tr') : q.transaction = p.transaction := by
  unfold send at h
  obtain ⟨_, _, _, hsent⟩ := Session.gives_bind h
  obtain ⟨_, _, _, hblocks⟩ := Session.gives_bind hsent
  obtain ⟨_, _, _, hend⟩ := Session.gives_bind hblocks
  obtain ⟨heq, -⟩ := Session.gives_pure hend
  cases heq
  rfl

theorem checkSend_eq_ok {p : Pending} (h : p.checkSend = .ok ()) :
    p.transaction.signers.length = p.transaction.witnesses.length ∧ p.transaction.size ≤ Limits.transactionSize := by
  unfold checkSend at h
  dsimp only at h
  split at h
  · cases h
  · next hcount =>
    split at h
    · cases h
    · next hsize => exact ⟨not_not.mp hcount, Nat.not_lt.mp hsize⟩

/-- What is true of every transaction on its way. -/
theorem Reachable.withinLimits {p : Pending} (h : p.Reachable) : p.WithinLimits := by
  induction h with
  | unsigned hsigners h => exact withinLimits_of_build hsigners (Session.gives_of_ok h)
  | signed hsigners h =>
    obtain ⟨q, witnesses, -, hbuild, -, rfl⟩ := Draft.sign_gives (Session.gives_of_ok h)
    exact (withinLimits_of_build hsigners hbuild).addWitnesses witnesses
  | addSignature _ signature key ih => exact ih.addWitness _
  | addContract _ _ ih => exact ih.addWitness _
  | addMultisig _ h ih =>
    obtain ⟨w, _, hq⟩ := Outcome.bind_eq_ok.mp h
    cases hq
    exact ih.addWitness w
  | sent _ h ih =>
    have heq := send_gives (Session.gives_of_ok h)
    exact ⟨heq ▸ ih.limits, heq ▸ ih.signers⟩

/-- What remains to be satisfied by a transaction that passes all checks on its way. -/
theorem isReadable_iff {p : Pending} (hp : p.WithinLimits) (h : p.checkSend = .ok ()) :
    p.transaction.IsReadable ↔ p.transaction.script.length ≤ Limits.scriptSize ∧
      (∀ a ∈ p.transaction.attributes, a.IsReadable) ∧ ∀ w ∈ p.transaction.witnesses, w.IsReadable := by
  have hparts := ((p.transaction.validateLimits_eq_ok).mp hp.limits).1
  have hcount := (checkSend_eq_ok h).1
  constructor
  · intro hread
    exact ⟨hread.script_length, hread.attributes, hread.witnesses⟩
  · rintro ⟨hscript, hattributes, hwitnesses⟩
    exact ⟨⟨hp.limits, hattributes, hscript⟩, by omega, hwitnesses⟩

/-- The bytes that are handed in are those of the transaction, and can be read exactly if its script has at most 65535
bytes, each script of its witnesses at most 1024, and if each result of an oracle may be read. Nothing checks these
three before the transaction is handed in. -/
theorem submitted_bytes (p : Pending) (hp : p.Reachable) (c : Client) (tr : Trace) :
    ∃ new, (p.send c tr).2.requests = tr.requests ++ new ∧
      ∀ q ∈ new, q.method = "sendrawtransaction" →
        q.params = [bytesToJson p.transaction.encode] ∧
          (Transaction.ofBytes p.transaction.encode = .ok p.transaction ↔
            p.transaction.script.length ≤ Limits.scriptSize ∧ (∀ a ∈ p.transaction.attributes, a.IsReadable) ∧
              ∀ w ∈ p.transaction.witnesses, w.IsReadable) := by
  rcases hcheck : p.checkSend with e | u
  · refine ⟨[], ?_, fun q hq => absurd hq List.not_mem_nil⟩
    rw [send_of_checkSend hcheck, List.append_nil]
  · obtain ⟨later, hrequests, hlater⟩ := send_requests hcheck c tr
    refine ⟨_, hrequests, ?_⟩
    intro q hq hmethod
    rcases List.mem_cons.mp hq with rfl | hq
    · refine ⟨rfl, ?_⟩
      rw [Transaction.ofBytes_encode_iff hp.withinLimits.signers, isReadable_iff hp.withinLimits hcheck]
    · rw [hlater q hq] at hmethod
      exact absurd hmethod (by decide)

/-! ## A transaction that cannot be read -/

/-- A node that answers the questions of a builder, and leaves the numbers of its responses out. -/
def terseNode : Node := fun _ q => .ok {
  id := none,
  result := some <|
    if q.method = "invokescript" then .obj [("state", .str "HALT"), ("gasconsumed", .str "0")]
    else .obj [("networkfee", .str "0")] }

def terseClient : Client := ⟨{}, terseNode⟩

theorem addFee_zero (kind : String) : Draft.addFee kind 0 0 = .ok 0 := by
  have hfits : Bytes.fits 8 ((0 : Int64).toInt + (0 : Int64).toInt) = true := by decide +kernel
  unfold Draft.addFee
  rw [if_pos hfits]
  rfl

/-- Against that node a draft becomes what it is, if it leaves nothing to the node but what the node charges. -/
theorem fst_buildUnsigned_terse {d : Draft} {height : UInt32} {placeholders : List Witness}
    (hheight : d.validUntil = some height) (hpriority : d.isHighPriority = false) (hpolicy : d.onShortfall = .ignore)
    (hsystem : d.extraSystemFee = 0) (hnetwork : d.extraNetworkFee = 0) (houtline : d.outline = .ok (d.filled 0 0 0))
    (hplaceholders : d.signers.mapM Placeholder.ofSigner = .ok placeholders) :
    (d.buildUnsigned terseClient {}).1 = .ok ⟨d.filled height 0 0, none⟩ := by
  have hvalid : ∀ tr, (d.resolveValidUntil terseClient tr).1 = .ok height := by
    intro tr
    rw [Draft.resolveValidUntil, hheight]
    rfl
  have hcheck : ∀ tr, (d.checkPriority terseClient tr).1 = .ok () := by
    intro tr
    rw [Draft.checkPriority, hpriority]
    rfl
  have hcarriage : ∀ tr, (d.carriage (d.filled height 0 0) terseClient tr).1 = .ok 0 := by
    intro tr
    rw [Draft.carriage, Draft.priced, hplaceholders]
    rfl
  have hbalance : ∀ tr, (d.checkBalance (d.filled height 0 0) terseClient tr).1 = .ok () := by
    intro tr
    rw [Draft.checkBalance, hpolicy]
    rfl
  have hsum : Draft.addFee "system" 0 d.extraSystemFee = .ok 0 := by rw [hsystem, addFee_zero]
  have hsum' : Draft.addFee "network" 0 d.extraNetworkFee = .ok 0 := by rw [hnetwork, addFee_zero]
  exact Draft.fst_buildUnsigned houtline hvalid hcheck (fun _ => rfl) hsum hcarriage hsum' hbalance {}

/-- A draft that a contract signs. -/
def contractDraft : Draft :=
  { validUntil := some 1, signers := [.contractCalledByEntry (FixedBytes.zero 20) []], script := [0x40] }

theorem fst_buildUnsigned_contractDraft :
    (contractDraft.buildUnsigned terseClient {}).1 = .ok ⟨contractDraft.filled 1 0 0, none⟩ :=
  fst_buildUnsigned_terse rfl rfl rfl rfl rfl rfl rfl

/-- The fewest bytes that are too many for the parameter of a contract. -/
def longParameter : Bytes := List.replicate 1022 0

/-- A transaction with a witness of its contract that is too long. -/
def oversized : Pending := addWitness ⟨contractDraft.filled 1 0 0, none⟩ ⟨⟨Push.data longParameter⟩, {}⟩

theorem reachable_oversized : oversized.Reachable := by
  have hsigners : ∀ s ∈ contractDraft.signers, s.Reachable := by
    intro s hs
    rw [List.mem_singleton.mp hs]
    exact .contractCalledByEntry _ _
  exact .addContract (.unsigned hsigners fst_buildUnsigned_contractDraft) (Witness.ofContract_byteArray longParameter)

theorem checkSend_oversized : oversized.checkSend = .ok () := by
  have hsize : ¬ Limits.transactionSize < oversized.transaction.size := by decide +kernel
  unfold checkSend
  dsimp only
  rw [if_neg (by decide), if_neg hsize]

theorem not_isReadable_oversized : Transaction.ofBytes oversized.transaction.encode ≠ .ok oversized.transaction := by
  intro h
  have hread := (Transaction.ofBytes_encode_iff reachable_oversized.withinLimits.signers).mp h
  have hlength : (Push.data longParameter).length ≤ Limits.witnessScriptSize := (hread.witnesses _ List.mem_cons_self).1
  revert hlength
  decide +kernel

theorem submitted_unreadable :
    oversized.Reachable ∧ ∃ q ∈ (oversized.send terseClient {}).2.requests,
      q.method = "sendrawtransaction" ∧ q.params = [bytesToJson oversized.transaction.encode] ∧
        Transaction.ofBytes oversized.transaction.encode ≠ .ok oversized.transaction := by
  obtain ⟨later, hrequests, -⟩ := send_requests checkSend_oversized terseClient {}
  refine ⟨reachable_oversized, oversized.submission {}, ?_, rfl, rfl, not_isReadable_oversized⟩
  rw [hrequests]
  exact List.mem_append_right _ List.mem_cons_self

theorem submitted_bytes_oversized :
    oversized.Reachable ∧ ∀ q ∈ (oversized.send terseClient {}).2.requests, q.method = "sendrawtransaction" →
      q.params = [bytesToJson oversized.transaction.encode] := by
  obtain ⟨new, hrequests, hnew⟩ := submitted_bytes oversized reachable_oversized terseClient {}
  refine ⟨reachable_oversized, ?_⟩
  intro q hq hmethod
  rw [hrequests] at hq
  exact (hnew q hq hmethod).1

end Pending

end N3
