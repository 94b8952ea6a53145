import N3.Draft.Build
import N3.Proofs.Rpc.Requests

/-!
# What is built

Whatever a node answers, a transaction that is built has the parts of its draft and no witness, and is within the
limits; the node decides its last block and its fees alone (`build_gives`). Each step of building asks with one method
of its own. A transaction that is signed is one that is built, with a witness for each signer (`sign_gives`).
-/

set_option autoImplicit false

namespace N3.Draft

open Rpc Session

variable {d : Draft} {c : Client} {tr tr' : Trace}

/-! ## What each step asks -/

theorem asksOnly_resolveValidUntil : d.resolveValidUntil.AsksOnly fun q => q.method = "getblockcount" := by
  unfold resolveValidUntil
  split
  · exact asksOnly_pure _
  · exact (asksOnly_blockCount.mapError _).bind fun _ => asksOnly_settings.bind fun _ => asksOnly_pure _

theorem asksOnly_checkPriority : d.checkPriority.AsksOnly fun q => q.method = "getcommittee" := by
  unfold checkPriority
  split
  · refine (asksOnly_committee.mapError _).bind fun keys => (asksOnly_ofExcept _).bind fun allowed => ?_
    cases allowed
    · exact asksOnly_fail _
    · exact asksOnly_pure _
  · exact asksOnly_pure _

theorem asksOnly_consumed : d.consumed.AsksOnly fun q => q.method = "invokescript" := by
  unfold consumed
  refine ((asksOnly_invokeScript _ _).mapError _).bind fun result => asksOnly_settings.bind fun settings => ?_
  split
  · exact asksOnly_fail _
  · exact asksOnly_pure _

theorem asksOnly_carriage (t : Transaction) : (d.carriage t).AsksOnly fun q => q.method = "calculatenetworkfee" :=
  AsksOnly.bind (asksOnly_ofExcept _) fun _ => asksOnly_call.mapError _

theorem asksOnly_balanceOf (account : Hash160) :
    (balanceOf account).AsksOnly fun q => q.method = "invokefunction" := by
  unfold balanceOf
  refine asksOnly_settings.bind fun settings => (asksOnly_ofExcept _).bind fun token => ?_
  refine ((asksOnly_invokeFunction _ _ _ _).mapError _).bind fun result => ?_
  split
  · exact asksOnly_pure _
  · exact asksOnly_fail _

theorem asksOnly_shortfall? (t : Transaction) : (shortfall? t).AsksOnly fun q => q.method = "invokefunction" := by
  unfold shortfall?
  split
  · exact asksOnly_fail _
  · exact (asksOnly_balanceOf _).bind fun _ => asksOnly_pure _

theorem asksOnly_checkBalance (t : Transaction) :
    (d.checkBalance t).AsksOnly fun q => q.method = "invokefunction" := by
  unfold checkBalance
  split
  · exact asksOnly_pure _
  · refine (asksOnly_shortfall? t).bind fun s => ?_
    cases s
    · exact asksOnly_pure _
    · exact asksOnly_report _
  · refine (asksOnly_shortfall? t).bind fun s => ?_
    cases s
    · exact asksOnly_pure _
    · exact asksOnly_fail _

/-! ## What is built -/

/-- What building leaves open. -/
def filled (d : Draft) (validUntil : UInt32) (systemFee networkFee : Int64) : Transaction :=
  { version := d.version, nonce := d.nonce, systemFee, networkFee, validUntil, signers := d.modelSigners,
    attributes := d.attributes, script := d.script }

theorem outline_eq_ok {t : Transaction} (h : d.outline = .ok t) :
    t = d.filled 0 0 0 ∧ t.validateLimits = .ok () := by
  unfold outline at h
  split at h
  · cases h
  · split at h
    · cases h
    · obtain ⟨hlimits, ht⟩ := Outcome.bind_unit_eq_ok.mp h
      cases ht
      exact ⟨rfl, hlimits⟩

/-- The limits are those of the draft: neither the last block nor the fees have any. -/
theorem validateLimits_filled (d : Draft) (validUntil : UInt32) (systemFee networkFee : Int64) :
    (d.filled validUntil systemFee networkFee).validateLimits = (d.filled 0 0 0).validateLimits := rfl

/-- What each step of building gave, and the trace after it. -/
theorem build_steps {t : Transaction} (h : d.build.Gives c tr t tr') :
    ∃ validUntil gas systemFee price networkFee tr₁ tr₂ tr₃ tr₄, t = d.filled validUntil systemFee networkFee ∧
      (d.filled 0 0 0).validateLimits = .ok () ∧ d.resolveValidUntil.Gives c tr validUntil tr₁ ∧
      d.checkPriority.Gives c tr₁ () tr₂ ∧ d.consumed.Gives c tr₂ gas tr₃ ∧
      addFee "system" gas d.extraSystemFee = .ok systemFee ∧
      (d.carriage (d.filled validUntil systemFee 0)).Gives c tr₃ price tr₄ ∧
      addFee "network" price d.extraNetworkFee = .ok networkFee ∧ (d.checkBalance t).Gives c tr₄ () tr' := by
  unfold build at h
  obtain ⟨t₀, _, houtline, h₁⟩ := gives_bind h
  obtain ⟨hvalue, rfl⟩ := gives_ofExcept houtline
  obtain ⟨rfl, hlimits⟩ := outline_eq_ok (Outcome.mapError_eq_ok.mp hvalue)
  obtain ⟨validUntil, tr₁, hvalid, h₂⟩ := gives_bind h₁
  obtain ⟨_, tr₂, hpriority, h₃⟩ := gives_bind h₂
  obtain ⟨gas, tr₃, hconsumed, h₄⟩ := gives_bind h₃
  obtain ⟨systemFee, _, hsystem, h₅⟩ := gives_bind h₄
  obtain ⟨hsystem', rfl⟩ := gives_ofExcept hsystem
  obtain ⟨price, tr₄, hcarriage, h₆⟩ := gives_bind h₅
  obtain ⟨networkFee, _, hnetwork, h₇⟩ := gives_bind h₆
  obtain ⟨hnetwork', rfl⟩ := gives_ofExcept hnetwork
  obtain ⟨_, _, hbalance, hend⟩ := gives_bind h₇
  obtain ⟨rfl, rfl⟩ := gives_pure hend
  exact ⟨validUntil, gas, systemFee, price, networkFee, _, _, _, _, rfl, hlimits, hvalid, hpriority, hconsumed,
    Outcome.mapError_eq_ok.mp hsystem', hcarriage, Outcome.mapError_eq_ok.mp hnetwork', hbalance⟩

theorem build_gives {t : Transaction} (h : d.build.Gives c tr t tr') :
    (∃ validUntil systemFee networkFee, t = d.filled validUntil systemFee networkFee) ∧
      t.validateLimits = .ok () := by
  obtain ⟨validUntil, _, systemFee, _, networkFee, _, _, _, _, rfl, hlimits, -⟩ := build_steps h
  exact ⟨⟨validUntil, systemFee, networkFee, rfl⟩,
    (validateLimits_filled d validUntil systemFee networkFee).trans hlimits⟩

theorem buildUnsigned_gives {p : Pending} (h : d.buildUnsigned.Gives c tr p tr') :
    d.build.Gives c tr p.transaction tr' := by
  unfold buildUnsigned at h
  obtain ⟨t, t₁, hbuild, h⟩ := gives_bind h
  obtain ⟨rfl, rfl⟩ := gives_pure h
  exact hbuild

/-- A draft is built if each step gives a value. -/
theorem fst_buildUnsigned {validUntil : UInt32} {gas systemFee price networkFee : Int64}
    (houtline : d.outline = .ok (d.filled 0 0 0)) (hvalid : ∀ tr, (d.resolveValidUntil c tr).1 = .ok validUntil)
    (hpriority : ∀ tr, (d.checkPriority c tr).1 = .ok ()) (hconsumed : ∀ tr, (d.consumed c tr).1 = .ok gas)
    (hsystem : addFee "system" gas d.extraSystemFee = .ok systemFee)
    (hcarriage : ∀ tr, (d.carriage (d.filled validUntil systemFee 0) c tr).1 = .ok price)
    (hnetwork : addFee "network" price d.extraNetworkFee = .ok networkFee)
    (hbalance : ∀ tr, (d.checkBalance (d.filled validUntil systemFee networkFee) c tr).1 = .ok ()) (tr : Trace) :
    (d.buildUnsigned c tr).1 = .ok ⟨d.filled validUntil systemFee networkFee, none⟩ := by
  have hbuild : (d.build c tr).1 = .ok (d.filled validUntil systemFee networkFee) := by
    unfold build
    rw [houtline]
    refine (Session.fst_bind (a := d.filled 0 0 0) rfl).trans ((Session.fst_bind (hvalid _)).trans ?_)
    refine (Session.fst_bind (hpriority _)).trans ((Session.fst_bind (hconsumed _)).trans ?_)
    rw [hsystem]
    refine (Session.fst_bind (a := systemFee) rfl).trans ((Session.fst_bind (hcarriage _)).trans ?_)
    rw [hnetwork]
    exact (Session.fst_bind (a := networkFee) rfl).trans ((Session.fst_bind (hbalance _)).trans rfl)
  exact (Session.fst_bind hbuild).trans rfl

/-! ## What is signed -/

theorem signData_gives {p : Pending} {data : Bytes} (h : p.signData.Gives c tr data tr') :
    data = p.transaction.signData c.settings.magic ∧ tr' = tr := by
  cases h
  exact ⟨rfl, rfl⟩

theorem addWitnesses_transaction (p : Pending) (ws : List Witness) :
    (List.foldl Pending.addWitness p ws).transaction =
      { p.transaction with witnesses := p.transaction.witnesses ++ ws } := by
  induction ws generalizing p with
  | nil => rw [List.foldl_nil, List.append_nil]
  | cons w ws ih =>
    rw [List.foldl_cons, ih, Pending.addWitness]
    dsimp only
    rw [List.append_assoc, List.singleton_append]

/-- What is signed is what would be built without signing, with one witness added for each signer, over the bytes that
it has before. All signers are able to sign. -/
theorem sign_gives {p : Pending} (h : d.sign.Gives c tr p tr') :
    ∃ q witnesses, (∀ s ∈ d.signers, checkSigner s = .ok ()) ∧ d.buildUnsigned.Gives c tr q tr' ∧
      List.Forall₂ (fun s w => witness (q.transaction.signData c.settings.magic) s = .ok w) d.signers witnesses ∧
      p = List.foldl Pending.addWitness q witnesses := by
  unfold sign at h
  obtain ⟨_, tr₀, hcheck, hsign⟩ := gives_bind h
  obtain ⟨hable, rfl⟩ := gives_ofExcept hcheck
  obtain ⟨q, tr₁, hbuild, hsigned⟩ := gives_bind hsign
  obtain ⟨_, tr₂, hdata, hadd⟩ := gives_bind hsigned
  obtain ⟨rfl, rfl⟩ := signData_gives hdata
  obtain ⟨witnesses, tr₃, hwitnesses, hend⟩ := gives_bind hadd
  obtain ⟨hmade, rfl⟩ := gives_ofExcept hwitnesses
  obtain ⟨rfl, rfl⟩ := gives_pure hend
  exact ⟨q, witnesses, Outcome.forM_eq_ok.mp (Outcome.mapError_eq_ok.mp hable), hbuild, Outcome.mapM_eq_ok.mp hmade,
    rfl⟩

end N3.Draft
