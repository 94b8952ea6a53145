import N3.Proofs.Draft.Fees

/-!
# Who may ask for high priority

A transaction of high priority is one that the committee backs (`highPriority_committee`): some key of the committee has
a signer for its account, or is listed by a signer that is an account of several keys. The committee is the one that the
node gave for this transaction. Keys are compared by their accounts.
-/

set_option autoImplicit false

namespace N3.Draft

open Rpc Session

variable {d : Draft} {c : Client} {tr tr₁ tr' : Trace} {key : Point}

/-! ## Members among the signers -/

/-- The script of the signer is one of several keys, and lists a key with the same account. -/
def Lists (s : TransactionSigner) (key : Point) : Prop :=
  ∃ a script keys k, s.source = .account a ∧ a.script? = some script ∧ script.isMultiSig = true ∧
    script.keys = .ok keys ∧ k ∈ keys ∧ accountOf k = accountOf key

theorem lists_of_quorumKeys {s : TransactionSigner} {keys : List Point} {k : Point} (h : quorumKeys s = .ok keys)
    (hk : k ∈ keys) (heq : accountOf k = accountOf key) : Lists s key := by
  unfold quorumKeys at h
  split at h
  · next a hsource =>
    split at h
    · next script hscript =>
      split at h
      · next hmulti => exact ⟨a, script, keys, k, hsource, hscript, hmulti, h, hk, heq⟩
      · cases h
        cases hk
    · cases h
      cases hk
  · cases h
    cases hk

/-- The search ends at a signer that lists a member, if it ends well. -/
theorem exists_lists {committee : List Point} {ss : List TransactionSigner}
    (h : anyQuorumMember (committee.map accountOf) ss = .ok true) : ∃ key ∈ committee, ∃ s ∈ ss, Lists s key := by
  induction ss with
  | nil => cases h
  | cons s ss ih =>
    unfold anyQuorumMember at h
    obtain ⟨keys, hkeys, hnext⟩ := Outcome.bind_eq_ok.mp h
    split at hnext
    · next hany =>
      obtain ⟨k, hk, hcontains⟩ := List.any_eq_true.mp hany
      obtain ⟨key, hkey, heq⟩ := List.mem_map.mp (List.contains_iff_mem.mp hcontains)
      exact ⟨key, hkey, s, List.mem_cons_self, lists_of_quorumKeys hkeys hk heq.symm⟩
    · obtain ⟨key, hkey, s', hs', hlists⟩ := ih hnext
      exact ⟨key, hkey, s', List.mem_cons_of_mem _ hs', hlists⟩

/-- Whether some signer is the account of the key, or lists it. -/
def IsBackedBy (d : Draft) (key : Point) : Prop :=
  (∃ s ∈ d.signers, s.signer.account = accountOf key) ∨ ∃ s ∈ d.signers, Lists s key

theorem any_account_iff {committee : List Point} {ss : List TransactionSigner} :
    (ss.any fun s => (committee.map accountOf).contains s.hash) = true ↔
      ∃ key ∈ committee, ∃ s ∈ ss, s.signer.account = accountOf key := by
  constructor
  · intro hany
    obtain ⟨s, hs, hcontains⟩ := List.any_eq_true.mp hany
    obtain ⟨key, hkey, heq⟩ := List.mem_map.mp (List.contains_iff_mem.mp hcontains)
    exact ⟨key, hkey, s, hs, heq.symm⟩
  · rintro ⟨key, hkey, s, hs, heq⟩
    exact List.any_eq_true.mpr ⟨s, hs, List.contains_iff_mem.mpr (List.mem_map.mpr ⟨key, hkey, heq.symm⟩)⟩

theorem exists_isBackedBy {committee : List Point} (h : d.isCommitteeSigned committee = .ok true) :
    ∃ key ∈ committee, d.IsBackedBy key := by
  unfold isCommitteeSigned at h
  dsimp only at h
  split at h
  · next hany =>
    obtain ⟨key, hkey, hsigner⟩ := any_account_iff.mp hany
    exact ⟨key, hkey, .inl hsigner⟩
  · obtain ⟨key, hkey, hlists⟩ := exists_lists h
    exact ⟨key, hkey, .inr hlists⟩

/-- No script is looked at if some signer is the account of a member. -/
theorem isCommitteeSigned_of_account {committee : List Point}
    (h : ∃ key ∈ committee, ∃ s ∈ d.signers, s.signer.account = accountOf key) :
    d.isCommitteeSigned committee = .ok true :=
  if_pos (any_account_iff.mpr h)

/-! ## The check -/

/-- The node gave the committee, and one of its keys backs the draft. -/
def IsBacked (d : Draft) (c : Client) (tr tr' : Trace) : Prop :=
  ∃ texts keys key, Answered c tr tr' "getcommittee" [] (Json.readList Json.readText) texts ∧
    committeeKeys texts = .ok keys ∧ key ∈ keys ∧ d.IsBackedBy key

theorem IsBacked.after (h : tr.Extends (·.method ≠ "getcommittee") tr₁) (h' : d.IsBacked c tr₁ tr') :
    d.IsBacked c tr tr' := by
  obtain ⟨texts, keys, key, htexts, hkeys⟩ := h'
  exact ⟨texts, keys, key, htexts.after h, hkeys⟩

theorem IsBacked.before (h : d.IsBacked c tr tr₁) (h' : tr₁.Extends (·.method ≠ "getcommittee") tr') :
    d.IsBacked c tr tr' := by
  obtain ⟨texts, keys, key, htexts, hkeys⟩ := h
  exact ⟨texts, keys, key, htexts.before h', hkeys⟩

theorem checkPriority_gives (hpriority : d.isHighPriority = true) (h : d.checkPriority.Gives c tr () tr') :
    d.IsBacked c tr tr' := by
  unfold checkPriority at h
  rw [if_pos hpriority, committee_eq, mapError_bind, Session.bind_bind] at h
  obtain ⟨texts, tr₁, htexts, hread⟩ := gives_bind h
  obtain ⟨keys, tr₂, hkeys, hchecked⟩ := gives_bind hread
  obtain ⟨hvalue, rfl⟩ := gives_ofExcept (gives_mapError hkeys)
  obtain ⟨allowed, tr₃, hallowed, hend⟩ := gives_bind hchecked
  obtain ⟨hsigned, rfl⟩ := gives_ofExcept hallowed
  cases allowed with
  | false => cases hend
  | true =>
    obtain ⟨-, rfl⟩ := gives_pure hend
    obtain ⟨key, hkey, hbacked⟩ := exists_isBackedBy (Outcome.mapError_eq_ok.mp hsigned)
    exact ⟨texts, keys, key, .of_call (gives_mapError htexts), hvalue, hkey, hbacked⟩

/-! ## What is built, signed and handed in -/

theorem isBacked_of_build {t : Transaction} (h : d.build.Gives c tr t tr')
    (hpriority : .highPriority ∈ t.attributes) : t.signers = d.modelSigners ∧ d.IsBacked c tr tr' := by
  obtain ⟨validUntil, gas, systemFee, price, networkFee, tr₁, tr₂, tr₃, tr₄, rfl, -, hvalid, hchecked, hconsumed, -,
    hcarriage, -, hbalance⟩ := build_steps h
  have hbefore : tr.Extends (·.method ≠ "getcommittee") tr₁ :=
    asksOnly_resolveValidUntil.extends_ne (by decide) hvalid
  have hafter : tr₂.Extends (·.method ≠ "getcommittee") tr' :=
    (asksOnly_consumed.extends_ne (by decide) hconsumed).trans <|
      ((asksOnly_carriage _).extends_ne (by decide) hcarriage).trans <|
        (asksOnly_checkBalance _).extends_ne (by decide) hbalance
  have hcheck := checkPriority_gives (List.contains_iff_mem.mpr hpriority) hchecked
  exact ⟨rfl, (hcheck.before hafter).after hbefore⟩

/-- What is signed is built, with the same signers and attributes. -/
theorem isBacked_of_sign {p : Pending} (h : d.sign.Gives c tr p tr')
    (hpriority : .highPriority ∈ p.transaction.attributes) :
    p.transaction.signers = d.modelSigners ∧ d.IsBacked c tr tr' := by
  obtain ⟨q, witnesses, -, hbuild, -, rfl⟩ := sign_gives h
  rw [addWitnesses_transaction] at hpriority ⊢
  exact isBacked_of_build (t := q.transaction) (buildUnsigned_gives hbuild) hpriority

theorem asksOnly_handIn (p : Pending) : p.send.AsksOnly (·.method ≠ "getcommittee") := by
  have hother {method : String} (hne : method ≠ "getcommittee") (q : Request) (hq : q.method = method) :
      q.method ≠ "getcommittee" := hq ▸ hne
  unfold Pending.send
  refine (asksOnly_ofExcept _).bind fun _ => ?_
  refine ((asksOnly_call.mono (hother (by decide))).mapError _).bind fun _ => ?_
  exact ((asksOnly_blockCount.mono (hother (by decide))).mapError _).bind fun _ => asksOnly_pure _

/-- What is handed in is signed, and the committee is not asked for in between. -/
theorem sign_of_send {p : Pending} (h : d.send.Gives c tr p tr') :
    ∃ q tr₁, d.sign.Gives c tr q tr₁ ∧ p.transaction = q.transaction ∧
      tr₁.Extends (·.method ≠ "getcommittee") tr' := by
  unfold send at h
  obtain ⟨q, tr₁, hsign, hsent⟩ := gives_bind h
  obtain ⟨⟨hash, p'⟩, tr₂, hhanded, hend⟩ := gives_bind hsent
  obtain ⟨rfl, rfl⟩ := gives_pure hend
  exact ⟨q, tr₁, hsign, Pending.send_gives hhanded, (asksOnly_handIn q).extends hhanded⟩

/-! ## The committee and high priority -/

/-- On every way to a transaction of high priority the node gave the committee, and one of its keys backs the draft: a
signer is the account of the key, or its script is one of several keys and lists a key with that account. The check is
passed by every draft with a signer of the first kind. -/
theorem highPriority_committee :
    (∀ (d : Draft) (c : Client) (tr tr' : Trace) (p : Pending),
      d.buildUnsigned.Gives c tr p tr' ∨ d.sign.Gives c tr p tr' ∨ d.send.Gives c tr p tr' →
        .highPriority ∈ p.transaction.attributes →
          p.transaction.signers = d.modelSigners ∧ d.IsBacked c tr tr') ∧
      ∀ (d : Draft) (c : Client) (tr : Trace) (keys : List Point), (committee c tr).1 = .ok keys →
        (∃ key ∈ keys, ∃ s ∈ d.signers, s.signer.account = accountOf key) → (d.checkPriority c tr).1 = .ok () := by
  constructor
  · rintro d c tr tr' p (h | h | h) hpriority
    · exact isBacked_of_build (buildUnsigned_gives h) hpriority
    · exact isBacked_of_sign h hpriority
    · obtain ⟨q, tr₁, hsign, htransaction, hrest⟩ := sign_of_send h
      rw [htransaction] at hpriority ⊢
      obtain ⟨hsigners, hbacked⟩ := isBacked_of_sign hsign hpriority
      exact ⟨hsigners, hbacked.before hrest⟩
  · intro d c tr keys hkeys haccount
    unfold checkPriority
    split
    · have hcommittee : ((committee.mapError BuildError.rpc) c tr).1 = .ok keys :=
        congrArg (Except.mapError BuildError.rpc) hkeys
      rw [Session.fst_bind hcommittee, isCommitteeSigned_of_account haccount]
      rfl
    · rfl

theorem fst_committee_small (tr : Trace) : (committee smallClient tr).1 = .ok [.base] := by
  have htexts : committeeKeys [Point.base.toHex] = .ok [.base] := by
    rw [committeeKeys, Outcome.mapM_eq_ok]
    exact .cons (by rw [Point.ofHex_toHex]; rfl) .nil
  rw [committee_eq]
  exact (Session.fst_bind (a := [Point.base.toHex]) rfl).trans htexts

theorem highPriority_committee_base :
    (∃ p, ((openDraft (accountOf .base) [.highPriority]).buildUnsigned smallClient {}).1 = .ok p ∧
      .highPriority ∈ p.transaction.attributes ∧
      (openDraft (accountOf .base) [.highPriority]).IsBacked smallClient {}
        ((openDraft (accountOf .base) [.highPriority]).buildUnsigned smallClient {}).2) ∧
    ((openDraft (accountOf .base) [.highPriority]).checkPriority smallClient {}).1 = .ok () := by
  have hcheck : ∀ tr, ((openDraft (accountOf .base) [.highPriority]).checkPriority smallClient tr).1 = .ok () := by
    intro tr
    refine highPriority_committee.2 _ _ tr _ (fst_committee_small tr) ?_
    exact ⟨.base, List.mem_cons_self, _, List.mem_cons_self, rfl⟩
  have hbuilt := fst_buildUnsigned_openDraft rfl hcheck {}
  refine ⟨⟨_, hbuilt, List.mem_cons_self, ?_⟩, hcheck {}⟩
  exact (highPriority_committee.1 _ _ _ _ _ (.inl (gives_of_ok hbuilt)) List.mem_cons_self).2

end N3.Draft
