import N3.Proofs.Draft.Order
import N3.Proofs.Draft.Price
import N3.Proofs.Rpc.Answers
import N3.Proofs.Text.Hex

/-!
# What a transaction costs

Fees, the last block and what the one who pays has come from four answers (`Explains`). The sums are those of integers:
one that does not fit 64 bits is an error. The balance is that of the one who pays for the transaction as it is built.
-/

set_option autoImplicit false

namespace N3.Draft

open Rpc Session

variable {d : Draft} {c : Client} {tr tr₁ tr' : Trace}

/-! ## Sums -/

theorem fits_eight_iff {v : Int} : Bytes.fits 8 v = true ↔ -2 ^ 63 ≤ v ∧ v < 2 ^ 63 := by
  rw [Bytes.fits_iff, show Bytes.range 8 = 2 ^ 64 from rfl]
  omega

theorem addFee_eq_ok_iff {kind : String} {fee extra v : Int64} :
    addFee kind fee extra = .ok v ↔ v.toInt = fee.toInt + extra.toInt := by
  unfold addFee
  dsimp only
  split
  · next hfits =>
    obtain ⟨hlow, hhigh⟩ := fits_eight_iff.mp hfits
    have hsum : (Int64.ofInt (fee.toInt + extra.toInt)).toInt = fee.toInt + extra.toInt :=
      Int64.toInt_ofInt_of_le hlow hhigh
    rw [Except.ok.injEq, ← Int64.toInt_inj, hsum]
    exact eq_comm
  · next hover =>
    refine ⟨nofun, fun heq => absurd ?_ hover⟩
    rw [← heq]
    exact Bytes.fits_toInt v

theorem addFee_eq_error_iff {kind : String} {fee extra : Int64} :
    addFee kind fee extra = .error (.transactionConfiguration (.feeOverflow kind)) ↔
      fee.toInt + extra.toInt < -2 ^ 63 ∨ 2 ^ 63 ≤ fee.toInt + extra.toInt := by
  have hfits := fits_eight_iff (v := fee.toInt + extra.toInt)
  unfold addFee
  dsimp only
  split
  · next h =>
    obtain ⟨hlow, hhigh⟩ := hfits.mp h
    exact ⟨nofun, fun hover => by omega⟩
  · next h =>
    refine ⟨fun _ => ?_, fun _ => rfl⟩
    rw [hfits] at h
    omega

/-- The last block, counted without bounds as long as the number of blocks that it is counted to fits. -/
theorem toNat_lastBlock {blocks increment : UInt32} (hpos : 1 ≤ blocks.toNat + increment.toNat)
    (hfits : blocks.toNat + increment.toNat < 2 ^ 32) :
    (lastBlock blocks increment).toNat = blocks.toNat + increment.toNat - 1 := by
  have hsize : UInt32.size = 2 ^ 32 := rfl
  have hmin : min (blocks.toNat + increment.toNat) (UInt32.size - 1) = blocks.toNat + increment.toNat := by omega
  have hlt : blocks.toNat + increment.toNat - 1 < UInt32.size := by omega
  rw [lastBlock, hmin, UInt32.toNat_ofNat_of_lt' hlt]

/-! ## The answer to each step -/

/-- The last block is the one that is set, or else counted from the number of blocks so far. -/
def Expires (d : Draft) (c : Client) (tr tr' : Trace) (last : UInt32) : Prop :=
  match d.validUntil with
  | some height => last = height
  | none => ∃ blocks, Answered c tr tr' "getblockcount" [] Json.readUInt32 blocks ∧
      (1 ≤ blocks.toNat + c.settings.validityIncrement.toNat →
        blocks.toNat + c.settings.validityIncrement.toNat < 2 ^ 32 →
          last.toNat = blocks.toNat + c.settings.validityIncrement.toNat - 1)

theorem resolveValidUntil_gives {last : UInt32} (h : d.resolveValidUntil.Gives c tr last tr') :
    d.Expires c tr tr' last := by
  unfold resolveValidUntil at h
  unfold Expires
  cases hset : d.validUntil with
  | some height =>
    rw [hset] at h
    exact (gives_pure h).1
  | none =>
    rw [hset] at h
    obtain ⟨blocks, tr₁, hblocks, hcounted⟩ := gives_bind h
    obtain ⟨settings, tr₂, hsettings, hlast⟩ := gives_bind hcounted
    cases hsettings
    obtain ⟨rfl, rfl⟩ := gives_pure hlast
    exact ⟨blocks, .of_call (gives_mapError hblocks), toNat_lastBlock⟩

theorem Expires.before {last : UInt32} (h : d.Expires c tr tr₁ last)
    (h' : tr₁.Extends (·.method ≠ "getblockcount") tr') : d.Expires c tr tr' last := by
  unfold Expires at h ⊢
  split at h
  · exact h
  · obtain ⟨blocks, hblocks, hlast⟩ := h
    exact ⟨blocks, hblocks.before h', hlast⟩

theorem consumed_gives {gas : Int64} (h : d.consumed.Gives c tr gas tr') :
    ∃ result, Answered c tr tr' "invokescript" [bytesToJson d.script, signersToJson d.modelSigners] InvokeResult.ofJson
        result ∧ (result.isFault = true → c.settings.allowFault = true) ∧ gas = result.gasConsumed := by
  unfold consumed at h
  obtain ⟨result, tr₁, hresult, hchecked⟩ := gives_bind h
  obtain ⟨settings, tr₂, hsettings, hend⟩ := gives_bind hchecked
  cases hsettings
  split at hend
  · cases hend
  · next hpass =>
    obtain ⟨rfl, rfl⟩ := gives_pure hend
    refine ⟨result, .of_call (gives_mapError hresult), fun hfault => ?_, rfl⟩
    rw [hfault, Bool.true_and, Bool.not_eq_true, Bool.not_eq_false'] at hpass
    exact hpass

theorem carriage_answered {t : Transaction} {price : Int64} (h : (d.carriage t).Gives c tr price tr') :
    ∃ placeholders, d.signers.mapM Placeholder.ofSigner = .ok placeholders ∧
      Answered c tr tr' "calculatenetworkfee" [bytesToJson { t with witnesses := placeholders }.encode] readNetworkFee
        price := by
  obtain ⟨placeholders, hplaceholders, hasked⟩ := networkFee_gives h
  exact ⟨placeholders, hplaceholders, .of_call hasked⟩

/-! ## The balance -/

def Reported (c : Client) (tr tr' : Trace) (account : Hash160) (balance : Int) : Prop :=
  ∃ token result, FixedBytes.parse 20 c.settings.feeToken = .ok token ∧
    Answered c tr tr' "invokefunction"
      [.str token.toText, .str "balanceOf", .arr [(Parameter.hash160 account).toJson], .arr []] InvokeResult.ofJson
      result ∧
    result.stack.head?.bind StackItem.asInteger? = some balance

theorem balanceOf_gives {account : Hash160} {balance : Int} (h : (balanceOf account).Gives c tr balance tr') :
    Reported c tr tr' account balance ∧ tr'.shortfalls = tr.shortfalls := by
  unfold balanceOf at h
  obtain ⟨settings, tr₁, hsettings, hparsed⟩ := gives_bind h
  cases hsettings
  obtain ⟨token, tr₂, htoken, hasked⟩ := gives_bind hparsed
  obtain ⟨hvalue, rfl⟩ := gives_ofExcept htoken
  obtain ⟨result, tr₃, hresult, hend⟩ := gives_bind hasked
  split at hend
  · next hbalance =>
    obtain ⟨rfl, rfl⟩ := gives_pure hend
    refine ⟨⟨token, result, Outcome.mapError_eq_ok.mp hvalue, .of_call (gives_mapError hresult), hbalance⟩, ?_⟩
    exact (isQuiet_call.mapError _).gives hresult
  · cases hend

def fees (t : Transaction) : Int := t.systemFee.toInt + t.networkFee.toInt

/-- The balance of the one who pays for the transaction. -/
def PayerHas (c : Client) (tr tr' : Trace) (t : Transaction) (balance : Int) : Prop :=
  ∃ sender, t.sender? = some sender ∧ Reported c tr tr' sender balance

theorem PayerHas.after {t : Transaction} {balance : Int} (h : tr.Extends (·.method ≠ "invokefunction") tr₁)
    (h' : PayerHas c tr₁ tr' t balance) : PayerHas c tr tr' t balance := by
  obtain ⟨sender, hsender, token, result, htoken, hresult, hbalance⟩ := h'
  exact ⟨sender, hsender, token, result, htoken, hresult.after h, hbalance⟩

theorem shortfall?_gives {t : Transaction} {s : Option Shortfall} (h : (shortfall? t).Gives c tr s tr') :
    ∃ balance, PayerHas c tr tr' t balance ∧ s = (if balance < fees t then some ⟨fees t, balance⟩ else none) ∧
      tr'.shortfalls = tr.shortfalls := by
  unfold shortfall? at h
  split at h
  · cases h
  · next sender hsender =>
    obtain ⟨balance, tr₁, hbalance, hend⟩ := gives_bind h
    obtain ⟨rfl, rfl⟩ := gives_pure hend
    obtain ⟨hreported, hquiet⟩ := balanceOf_gives hbalance
    exact ⟨balance, ⟨sender, hsender, hreported⟩, rfl, hquiet⟩

/-- What was done about the balance, by the policy of the draft. -/
def Settled (d : Draft) (c : Client) (tr tr' : Trace) (t : Transaction) : Prop :=
  match d.onShortfall with
  | .ignore => tr'.shortfalls = tr.shortfalls
  | .report => ∃ balance, PayerHas c tr tr' t balance ∧
      tr'.shortfalls = tr.shortfalls ++ if balance < fees t then [⟨fees t, balance⟩] else []
  | .refuse _ => ∃ balance, PayerHas c tr tr' t balance ∧ fees t ≤ balance ∧ tr'.shortfalls = tr.shortfalls

theorem checkBalance_gives {t : Transaction} (h : (d.checkBalance t).Gives c tr () tr') : d.Settled c tr tr' t := by
  unfold checkBalance at h
  unfold Settled
  cases hpolicy : d.onShortfall with
  | ignore =>
    rw [hpolicy] at h
    obtain ⟨-, rfl⟩ := gives_pure h
    rfl
  | report =>
    rw [hpolicy] at h
    obtain ⟨s, tr₁, hs, hend⟩ := gives_bind h
    obtain ⟨balance, hbalance, hshort, hquiet⟩ := shortfall?_gives hs
    refine ⟨balance, ?_⟩
    rw [← hquiet]
    split at hshort
    · next hlt =>
      subst hshort
      cases hend
      exact ⟨hbalance, by rw [if_pos hlt]⟩
    · next hle =>
      subst hshort
      obtain ⟨-, rfl⟩ := gives_pure hend
      exact ⟨hbalance, by rw [if_neg hle, List.append_nil]⟩
  | refuse reason =>
    rw [hpolicy] at h
    obtain ⟨s, tr₁, hs, hend⟩ := gives_bind h
    obtain ⟨balance, hbalance, hshort, hquiet⟩ := shortfall?_gives hs
    split at hshort
    · subst hshort
      cases hend
    · next hle =>
      subst hshort
      obtain ⟨-, rfl⟩ := gives_pure hend
      exact ⟨balance, hbalance, Int.not_lt.mp hle, hquiet⟩

theorem Settled.after {t : Transaction} (h : tr.Extends (·.method ≠ "invokefunction") tr₁)
    (hquiet : tr₁.shortfalls = tr.shortfalls) (h' : d.Settled c tr₁ tr' t) : d.Settled c tr tr' t := by
  unfold Settled at h' ⊢
  rw [hquiet] at h'
  split at h'
  · exact h'
  · obtain ⟨balance, hbalance, hreports⟩ := h'
    exact ⟨balance, hbalance.after h, hreports⟩
  · obtain ⟨balance, hbalance, hcovered, hreports⟩ := h'
    exact ⟨balance, hbalance.after h, hcovered, hreports⟩

/-! ## What has no part in a step -/

theorem isQuiet_resolveValidUntil : d.resolveValidUntil.IsQuiet := by
  unfold resolveValidUntil
  split
  · exact isQuiet_pure _
  · exact (isQuiet_call.mapError _).bind fun _ => isQuiet_settings.bind fun _ => isQuiet_pure _

theorem isQuiet_checkPriority : d.checkPriority.IsQuiet := by
  unfold checkPriority
  split
  · refine IsQuiet.bind (IsQuiet.mapError (isQuiet_call.bind fun _ => isQuiet_ofExcept _) _) fun keys => ?_
    refine (isQuiet_ofExcept _).bind fun allowed => ?_
    cases allowed
    · exact isQuiet_fail _
    · exact isQuiet_pure _
  · exact isQuiet_pure _

theorem isQuiet_consumed : d.consumed.IsQuiet := by
  unfold consumed
  refine (isQuiet_call.mapError _).bind fun result => isQuiet_settings.bind fun settings => ?_
  split
  · exact isQuiet_fail _
  · exact isQuiet_pure _

theorem isQuiet_carriage (t : Transaction) : (d.carriage t).IsQuiet :=
  (isQuiet_ofExcept _).bind fun _ => isQuiet_call.mapError _

/-! ## A transaction and its answers -/

/-- How a transaction comes from its draft and from the answers between two traces. -/
structure Explains (d : Draft) (c : Client) (tr tr' : Trace) (t : Transaction) : Prop where
  version : t.version = d.version
  nonce : t.nonce = d.nonce
  signers : t.signers = d.modelSigners
  attributes : t.attributes = d.attributes
  script : t.script = d.script
  witnesses : t.witnesses = []
  validUntil : d.Expires c tr tr' t.validUntil
  systemFee : ∃ result, Answered c tr tr' "invokescript" [bytesToJson d.script, signersToJson d.modelSigners]
      InvokeResult.ofJson result ∧ t.systemFee.toInt = result.gasConsumed.toInt + d.extraSystemFee.toInt
  networkFee : ∃ placeholders price, d.signers.mapM Placeholder.ofSigner = .ok placeholders ∧
    Answered c tr tr' "calculatenetworkfee"
      [bytesToJson { t with networkFee := 0, witnesses := placeholders }.encode] readNetworkFee price ∧
    t.networkFee.toInt = price.toInt + d.extraNetworkFee.toInt
  balance : d.Settled c tr tr' t

theorem explains_of_build {t : Transaction} (h : d.build.Gives c tr t tr') : d.Explains c tr tr' t := by
  obtain ⟨validUntil, gas, systemFee, price, networkFee, tr₁, tr₂, tr₃, tr₄, rfl, -, hvalid, hpriority, hconsumed,
    hsystem, hcarriage, hnetwork, hbalance⟩ := build_steps h
  obtain ⟨result, hresult, -, rfl⟩ := consumed_gives hconsumed
  obtain ⟨placeholders, hplaceholders, hprice⟩ := carriage_answered hcarriage
  have hquiet : tr₄.shortfalls = tr.shortfalls :=
    ((isQuiet_carriage _).gives hcarriage).trans <| (isQuiet_consumed.gives hconsumed).trans <|
      (isQuiet_checkPriority.gives hpriority).trans (isQuiet_resolveValidUntil.gives hvalid)
  -- a step asks with its own method alone, so that none answers for another
  have h₁ {method : String} (hne : "getblockcount" ≠ method) := asksOnly_resolveValidUntil.extends_ne hne hvalid
  have h₂ {method : String} (hne : "getcommittee" ≠ method) := asksOnly_checkPriority.extends_ne hne hpriority
  have h₃ {method : String} (hne : "invokescript" ≠ method) := asksOnly_consumed.extends_ne hne hconsumed
  have h₄ {method : String} (hne : "calculatenetworkfee" ≠ method) := (asksOnly_carriage _).extends_ne hne hcarriage
  have h₅ {method : String} (hne : "invokefunction" ≠ method) := (asksOnly_checkBalance _).extends_ne hne hbalance
  refine ⟨rfl, rfl, rfl, rfl, rfl, rfl, ?_, ⟨result, ?_, addFee_eq_ok_iff.mp hsystem⟩,
    ⟨placeholders, price, hplaceholders, ?_, addFee_eq_ok_iff.mp hnetwork⟩, ?_⟩
  · refine (resolveValidUntil_gives hvalid).before ?_
    exact (h₂ (by decide)).trans ((h₃ (by decide)).trans ((h₄ (by decide)).trans (h₅ (by decide))))
  · refine (hresult.before ((h₄ (by decide)).trans (h₅ (by decide)))).after ?_
    exact (h₁ (by decide)).trans (h₂ (by decide))
  · refine (hprice.before (h₅ (by decide))).after ?_
    exact (h₁ (by decide)).trans ((h₂ (by decide)).trans (h₃ (by decide)))
  · refine (checkBalance_gives hbalance).after ?_ hquiet
    exact (h₁ (by decide)).trans ((h₂ (by decide)).trans ((h₃ (by decide)).trans (h₄ (by decide))))

theorem Follows.eq_error {α β : Type} {s : Session BuildError α} {plan : List Question} (h : d.Follows s plan)
    {k : Question} {params : List Json} {read : Json.Read β} {b : β} {e : BuildError}
    (hanswered : Answered c tr (s c tr).2 k.method params read b)
    (hstop : ∀ q answer, q.outcome read answer = .ok b → d.Stops c.settings q answer k e) :
    (s c tr).1 = .error e := by
  obtain ⟨asked, hasked⟩ := h c tr
  obtain ⟨before, q, after, hrequests, hmethod, -, -, hanswer⟩ := hanswered
  have hsplit := List.append_cancel_left (hasked.requests.symm.trans hrequests)
  obtain ⟨front, rest, rfl, hfront, hrest⟩ := List.map_eq_append_iff.mp hsplit
  obtain ⟨⟨k', q'⟩, back, rfl, rfl, -⟩ := List.map_eq_cons_iff.mp hrest
  subst hfront
  obtain rfl : k' = k := (Question.method_inj _ _).mp <|
    (hasked.form _ (List.mem_append_right _ List.mem_cons_self)).1.symm.trans hmethod
  exact (hasked.last front k' q' back rfl e (hstop q' _ hanswer)).2

/-! ## A node and a draft that leaves all it can to it -/

/-- A node with ten blocks and a committee of one key, whose answers about amounts are ten, five and twelve. -/
def smallNode : Node := fun _ q => .ok {
  id := none
  result := some <| match q.method with
    | "getblockcount" => .nat 10
    | "getcommittee" => .arr [.str Point.base.toHex]
    | "invokescript" => .obj [("state", .str "HALT"), ("gasconsumed", .str "10")]
    | "calculatenetworkfee" => .obj [("networkfee", .str "5")]
    | _ => .obj [("state", .str "HALT"), ("gasconsumed", .str "0"),
        ("stack", .arr [.obj [("type", .str "Integer"), ("value", .nat 12)]])] }

def smallClient : Client := ⟨{}, smallNode⟩

def openDraft (account : Hash160) (attributes : List Attribute) : Draft :=
  { signers := [.contractCalledByEntry account []], attributes, script := [0x40], extraSystemFee := 2,
    extraNetworkFee := 3, onShortfall := .report }

/-- The same with other amounts added to the fees, and with a last block. -/
def openDraftAdding (extraSystemFee extraNetworkFee : Int64) : Draft :=
  { openDraft (FixedBytes.zero 20) [] with validUntil := some 1, extraSystemFee, extraNetworkFee }

theorem exists_parse_feeToken : ∃ token, FixedBytes.parse 20 smallClient.settings.feeToken = .ok token := by
  have hsome : (FixedBytes.parse 20 smallClient.settings.feeToken).toOption.isSome = true := by decide +kernel
  cases h : FixedBytes.parse 20 smallClient.settings.feeToken with
  | ok token => exact ⟨token, rfl⟩
  | error e =>
    rw [h] at hsome
    cases hsome

theorem fst_balanceOf_small (account : Hash160) (tr : Trace) : (balanceOf account smallClient tr).1 = .ok 12 := by
  obtain ⟨token, htoken⟩ := exists_parse_feeToken
  unfold balanceOf
  rw [Session.fst_bind (a := smallClient.settings) rfl, htoken]
  rfl

/-- Against that node the draft becomes a transaction that costs twenty. -/
theorem fst_buildUnsigned_openDraft {account : Hash160} {attributes : List Attribute}
    (houtline : (openDraft account attributes).outline = .ok ((openDraft account attributes).filled 0 0 0))
    (hpriority : ∀ tr, ((openDraft account attributes).checkPriority smallClient tr).1 = .ok ()) (tr : Trace) :
    ((openDraft account attributes).buildUnsigned smallClient tr).1 =
      .ok ⟨(openDraft account attributes).filled 5769 12 8, none⟩ := by
  have hbalance : ∀ tr, ((openDraft account attributes).checkBalance
      ((openDraft account attributes).filled 5769 12 8) smallClient tr).1 = .ok () := by
    intro tr
    have hshort : ((shortfall? ((openDraft account attributes).filled 5769 12 8)) smallClient tr).1 =
        .ok (some ⟨20, 12⟩) := (Session.fst_bind (fst_balanceOf_small account tr)).trans rfl
    exact (Session.fst_bind hshort).trans rfl
  exact fst_buildUnsigned houtline (fun _ => rfl) hpriority (fun _ => rfl) (addFee_eq_ok_iff.mpr rfl) (fun _ => rfl)
    (addFee_eq_ok_iff.mpr rfl) hbalance tr

theorem eq_of_payerHas_small {tr tr' : Trace} {t : Transaction} {balance : Int}
    (h : PayerHas smallClient tr tr' t balance) : balance = 12 := by
  obtain ⟨_, _, _, result, _, ⟨_, q, _, -, hmethod, -, -, hanswer⟩, hbalance⟩ := h
  have hsmall : q.outcome InvokeResult.ofJson (smallNode [] q) = .ok result := hanswer
  unfold smallNode at hsmall
  rw [hmethod] at hsmall
  cases hsmall
  exact (Option.some.inj hbalance).symm

/-! ## What a transaction comes from -/

/-- A transaction that is built has the parts of its draft and no witness. Its fees are what the simulation consumed and
what the node charges, each with what the draft adds to it; a sum that does not fit 64 bits is an error. The last block
is the one that is set, or is counted from the number of blocks so far. The balance of the one who pays for this very
transaction is what decides on a report, or on whether there is a transaction at all. -/
theorem buildUnsigned_fees (d : Draft) (c : Client) (tr : Trace) :
    (∀ p tr', d.buildUnsigned.Gives c tr p tr' → d.Explains c tr tr' p.transaction) ∧
      (∀ params result, Answered c tr (d.buildUnsigned c tr).2 "invokescript" params InvokeResult.ofJson result →
        (result.isFault = true → c.settings.allowFault = true) →
        result.gasConsumed.toInt + d.extraSystemFee.toInt < -2 ^ 63 ∨
          2 ^ 63 ≤ result.gasConsumed.toInt + d.extraSystemFee.toInt →
        (d.buildUnsigned c tr).1 = .error (.model (.transactionConfiguration (.feeOverflow "system")))) ∧
      ∀ params price, Answered c tr (d.buildUnsigned c tr).2 "calculatenetworkfee" params readNetworkFee price →
        price.toInt + d.extraNetworkFee.toInt < -2 ^ 63 ∨ 2 ^ 63 ≤ price.toInt + d.extraNetworkFee.toInt →
        (d.buildUnsigned c tr).1 = .error (.model (.transactionConfiguration (.feeOverflow "network"))) := by
  refine ⟨fun p tr' h => explains_of_build (buildUnsigned_gives h), ?_, ?_⟩
  · intro params result hanswered hallow hover
    refine follows_buildUnsigned.eq_error (k := .simulation) hanswered fun q answer hanswer => ?_
    exact .systemFee hanswer hallow (addFee_eq_error_iff.mpr hover)
  · intro params price hanswered hover
    refine follows_buildUnsigned.eq_error (k := .price) hanswered fun q answer hanswer => ?_
    exact .networkFee hanswer (addFee_eq_error_iff.mpr hover)

theorem buildUnsigned_fees_openDraft :
    (∃ p, ((openDraft (FixedBytes.zero 20) []).buildUnsigned smallClient {}).1 = .ok p ∧
      p.transaction.validUntil = 5769 ∧ p.transaction.systemFee = 12 ∧ p.transaction.networkFee = 8 ∧
      ((openDraft (FixedBytes.zero 20) []).buildUnsigned smallClient {}).2.shortfalls = [⟨20, 12⟩]) ∧
    ((openDraftAdding Int64.maxValue 0).buildUnsigned smallClient {}).1 =
      .error (.model (.transactionConfiguration (.feeOverflow "system"))) ∧
    ((openDraftAdding 0 Int64.maxValue).buildUnsigned smallClient {}).1 =
      .error (.model (.transactionConfiguration (.feeOverflow "network"))) := by
  refine ⟨⟨_, fst_buildUnsigned_openDraft rfl (fun _ => rfl) {}, rfl, rfl, rfl, ?_⟩, ?_, ?_⟩
  · have hbuilt : ((openDraft (FixedBytes.zero 20) []).buildUnsigned smallClient {}).1 = .ok _ :=
      fst_buildUnsigned_openDraft rfl (fun _ => rfl) {}
    obtain ⟨balance, hbalance, hreports⟩ := ((buildUnsigned_fees _ _ _).1 _ _ (gives_of_ok hbuilt)).balance
    obtain rfl := eq_of_payerHas_small hbalance
    exact hreports
  · refine (buildUnsigned_fees _ _ _).2.1 _ { state := .halt, gasConsumed := 10 } ⟨[], _, [], rfl, rfl, rfl, ?_, rfl⟩
      nofun (.inr (by decide))
    exact fun r hr => absurd hr List.not_mem_nil
  · refine (buildUnsigned_fees _ _ _).2.2 _ 5 ⟨[_], _, [], rfl, rfl, rfl, ?_, rfl⟩ (.inr (by decide))
    intro r hr
    rw [List.mem_singleton.mp hr]
    decide

end N3.Draft
