import N3.Proofs.Draft.Questions
import N3.Proofs.Pending

/-!
# The order of what is asked

Each step of a draft asks one question of its own, or none if the draft settles it. So whatever the node answers, what
is asked on the way to a transaction that is handed in begins one list (`Draft.questions`), which the draft alone
decides, and the first answer that stops the draft ends it (`send_order`). Drafts that can be seen to fail ask nothing.
-/

set_option autoImplicit false

namespace N3.Draft

open Rpc Session

variable {d : Draft} {c : Client} {tr tr' : Trace}

/-! ## The steps of building -/

def heightQuestions (d : Draft) : List Question := if d.validUntil.isNone then [.height] else []

def priorityQuestions (d : Draft) : List Question := if d.isHighPriority then [.committee] else []

def balanceQuestions (d : Draft) : List Question := if d.onShortfall = .ignore then [] else [.balance]

theorem follows_resolveValidUntil : d.Follows d.resolveValidUntil d.heightQuestions := by
  unfold resolveValidUntil heightQuestions
  cases d.validUntil with
  | some height => exact follows_nothing (asksOnly_pure _)
  | none =>
    refine follows_call (k := .height) rfl (fun _ => asksOnly_settings.bind fun _ => asksOnly_pure _) ?_
    rintro c tr q answer e ⟨h⟩
    exact .inl ⟨_, h, rfl⟩

theorem follows_checkPriority : d.Follows d.checkPriority d.priorityQuestions := by
  unfold checkPriority priorityQuestions
  split
  · rw [committee_eq, mapError_bind, Session.bind_bind]
    refine follows_call (k := .committee) rfl (fun texts => ?_) ?_
    · refine ((asksOnly_ofExcept _).mapError _).bind fun keys => (asksOnly_ofExcept _).bind fun allowed => ?_
      cases allowed
      · exact asksOnly_fail _
      · exact asksOnly_pure _
    · rintro c tr q answer e ⟨h⟩
      unfold Question.Fails at h
      dsimp only at h
      cases hanswer : q.outcome (Json.readList Json.readText) answer with
      | error y =>
        rw [hanswer] at h
        cases h
        exact .inl ⟨_, rfl, rfl⟩
      | ok texts =>
        rw [hanswer] at h
        refine .inr ⟨texts, rfl, fst_bind_error ?_⟩
        exact congrArg (Except.mapError BuildError.rpc) h
  · exact follows_nothing (asksOnly_pure _)

/-- The fee for running the script, with what the draft adds to it. -/
theorem follows_systemFee :
    d.Follows (d.consumed >>= fun gas => ofExcept ((addFee "system" gas d.extraSystemFee).mapError .model))
      [.simulation] := by
  rw [consumed, Session.bind_bind]
  refine follows_call (k := .simulation) rfl (fun result => ?_) ?_
  · refine AsksOnly.bind (asksOnly_settings.bind fun settings => ?_) fun gas => asksOnly_ofExcept _
    split
    · exact asksOnly_fail _
    · exact asksOnly_pure _
  · intro c tr q answer e he
    cases he with
    | failed h => exact .inl ⟨_, h, rfl⟩
    | fault h hfault hallow =>
      refine .inr ⟨_, h, fst_bind_error ((fst_bind (a := c.settings) rfl).trans ?_)⟩
      rw [hfault, hallow]
      rfl
    | @systemFee result e h hallow hfee =>
      have hpass : ¬ (result.isFault && !c.settings.allowFault) = true := by
        rw [Bool.and_eq_true, Bool.not_eq_true']
        rintro ⟨hfault, hforbid⟩
        rw [hallow hfault] at hforbid
        cases hforbid
      refine .inr ⟨_, h, (fst_bind (a := result.gasConsumed) ((fst_bind (a := c.settings) rfl).trans ?_)).trans ?_⟩
      · rw [if_neg hpass]
        rfl
      · exact congrArg (Except.mapError BuildError.model) hfee

theorem follows_networkFee (t : Transaction) :
    d.Follows (d.carriage t >>= fun price => ofExcept ((addFee "network" price d.extraNetworkFee).mapError .model))
      [.price] := by
  rw [carriage, Session.bind_bind]
  refine .after_nothing (asksOnly_ofExcept _) fun t => ?_
  refine follows_call (k := .price) ⟨t, rfl⟩ (fun price => asksOnly_ofExcept _) ?_
  intro c tr q answer e he
  cases he with
  | failed h => exact .inl ⟨_, h, rfl⟩
  | networkFee h hfee =>
    exact .inr ⟨_, h, congrArg (Except.mapError BuildError.model) hfee⟩

theorem follows_balanceOf (account : Hash160) : d.Follows (balanceOf account) [.balance] := by
  intro c tr
  unfold balanceOf
  rw [bind_apply]
  -- the error that follows from the answer names the token, so that it matters which one it is
  cases htoken : FixedBytes.parse 20 c.settings.feeToken with
  | error e =>
    dsimp only [settings]
    rw [htoken]
    exact follows_fail _ _ c tr
  | ok token =>
    dsimp only [settings]
    rw [htoken]
    refine exists_asks_call (k := .balance) ⟨token, account, rfl⟩ (fun result => ?_) ?_ tr
    · split
      · exact asksOnly_pure _
      · exact asksOnly_fail _
    · rintro tr q answer e ⟨h⟩
      rcases h with h | ⟨token', result, htoken', hresult, hbalance, rfl⟩
      · exact .inl ⟨_, h, rfl⟩
      · rw [htoken] at htoken'
        cases htoken'
        refine .inr ⟨result, hresult, ?_⟩
        rw [hbalance]
        rfl

theorem follows_shortfall? (t : Transaction) : d.Follows (shortfall? t) [.balance] := by
  unfold shortfall?
  split
  · exact follows_fail _ _
  · exact (follows_balanceOf _).bind_nothing fun balance => asksOnly_pure _

theorem follows_checkBalance (t : Transaction) : d.Follows (d.checkBalance t) d.balanceQuestions := by
  unfold checkBalance balanceQuestions
  cases d.onShortfall with
  | ignore => exact follows_nothing (asksOnly_pure _)
  | report =>
    refine (follows_shortfall? t).bind_nothing fun s => ?_
    cases s
    · exact asksOnly_pure _
    · exact asksOnly_report _
  | refuse reason =>
    refine (follows_shortfall? t).bind_nothing fun s => ?_
    cases s
    · exact asksOnly_pure _
    · exact asksOnly_fail _

/-! ## Building, signing and handing in -/

def buildQuestions (d : Draft) : List Question :=
  d.heightQuestions ++ d.priorityQuestions ++ [.simulation, .price] ++ d.balanceQuestions

theorem follows_build : d.Follows d.build d.buildQuestions := by
  have hplan : d.buildQuestions =
      d.heightQuestions ++ (d.priorityQuestions ++ ([.simulation] ++ ([.price] ++ d.balanceQuestions))) := by
    simp only [buildQuestions, List.append_assoc, List.cons_append, List.nil_append]
  rw [hplan]
  unfold build
  refine .after_nothing (asksOnly_ofExcept _) fun t => ?_
  refine follows_resolveValidUntil.bind fun validUntil => follows_checkPriority.bind fun _ => ?_
  refine follows_systemFee.bind_bind fun systemFee => (follows_networkFee _).bind_bind fun networkFee => ?_
  exact (follows_checkBalance _).bind_nothing fun _ => asksOnly_pure _

theorem follows_buildUnsigned : d.Follows d.buildUnsigned d.buildQuestions :=
  follows_build.bind_nothing fun _ => asksOnly_pure _

theorem follows_sign : d.Follows d.sign d.buildQuestions := by
  unfold sign
  refine .after_nothing (asksOnly_ofExcept _) fun _ => follows_buildUnsigned.bind_nothing fun p => ?_
  refine AsksOnly.bind (asksOnly_settings.bind fun _ => asksOnly_pure _) fun data => ?_
  exact (asksOnly_ofExcept _).bind fun _ => asksOnly_pure _

theorem follows_handIn (p : Pending) : d.Follows p.send [.submission, .height] := by
  unfold Pending.send
  refine .after_nothing (asksOnly_ofExcept _) fun _ => ?_
  have hsubmission : d.Follows ((sendRawTransaction p.transaction.encode).mapError BuildError.rpc) [.submission] := by
    refine follows_question (k := .submission) ⟨p.transaction, rfl⟩ ?_
    rintro settings q answer e ⟨h⟩
    exact ⟨_, h, rfl⟩
  show d.Follows _ ([.submission] ++ [.height])
  refine hsubmission.bind fun hash => ?_
  refine follows_call (k := .height) rfl (fun _ => asksOnly_pure _) ?_
  rintro c tr q answer e ⟨h⟩
  exact .inl ⟨_, h, rfl⟩

/-! ## Drafts that are refused at once -/

/-- Whether a draft is refused before anything is asked. -/
def IsRefused (d : Draft) : Prop :=
  d.script = [] ∨ d.signers = [] ∨ (d.filled 0 0 0).validateLimits ≠ .ok () ∨
    ∃ s ∈ d.signers, ∃ a, s.source = .account a ∧ (a.isMultisig = true ∨ a.keyPair? = none)

theorem checkSigner_eq_ok {s : TransactionSigner} {a : Account} (hs : s.source = .account a)
    (h : checkSigner s = .ok ()) : a.isMultisig = false ∧ a.keyPair? ≠ none := by
  unfold checkSigner at h
  rw [hs] at h
  dsimp only at h
  split at h
  · cases h
  · next hmultisig =>
    split at h
    · cases h
    · next hkey => exact ⟨Bool.eq_false_iff.mpr hmultisig, fun hnone => hkey (Option.isNone_iff_eq_none.mpr hnone)⟩

theorem ne_nil_of_outline {t : Transaction} (h : d.outline = .ok t) : d.script ≠ [] ∧ d.signers ≠ [] := by
  unfold outline at h
  split at h
  · cases h
  · next hscript =>
    split at h
    · cases h
    · next hsigners => exact ⟨fun hnil => hscript (by rw [hnil]; rfl), fun hnil => hsigners (by rw [hnil]; rfl)⟩

/-- A draft that passes the checks at the start is not refused. -/
theorem not_isRefused {t : Transaction} (hable : d.signers.forM checkSigner = .ok ()) (h : d.outline = .ok t) :
    ¬ d.IsRefused := by
  obtain ⟨hscript, hsigners⟩ := ne_nil_of_outline h
  obtain ⟨rfl, hlimits⟩ := outline_eq_ok h
  rintro (hnil | hnil | hover | ⟨s, hs, a, ha, hunable⟩)
  · exact hscript hnil
  · exact hsigners hnil
  · exact hover hlimits
  · obtain ⟨hmultisig, hkey⟩ := checkSigner_eq_ok ha (Outcome.forM_eq_ok.mp hable s hs)
    rcases hunable with hunable | hunable
    · rw [hmultisig] at hunable
      cases hunable
    · exact hkey hunable

theorem sign_of_isRefused (h : d.IsRefused) (c : Client) (tr : Trace) : ∃ e, d.sign c tr = (.error e, tr) := by
  cases hable : d.signers.forM checkSigner with
  | error e =>
    refine ⟨.model e, ?_⟩
    unfold sign
    rw [hable]
    rfl
  | ok u =>
    cases houtline : d.outline with
    | error e =>
      refine ⟨.model e, ?_⟩
      unfold sign buildUnsigned build
      rw [hable, houtline]
      rfl
    | ok t => exact absurd h (not_isRefused hable houtline)

/-- A draft that is not refused passes the checks at the start. -/
theorem checks_of_not_isRefused (h : ¬ d.IsRefused) :
    d.signers.forM checkSigner = .ok () ∧ d.outline = .ok (d.filled 0 0 0) := by
  simp only [IsRefused, not_or, not_exists, not_and, not_not] at h
  obtain ⟨hscript, hsigners, hlimits, hable⟩ := h
  constructor
  · refine Outcome.forM_eq_ok.mpr fun s hs => ?_
    unfold checkSigner
    split
    · rfl
    · next a ha =>
      obtain ⟨hmultisig, hkey⟩ := hable s hs a ha
      rw [if_neg hmultisig, if_neg fun hnone => hkey (Option.isNone_iff_eq_none.mp hnone)]
  · unfold outline
    rw [if_neg fun hnil => hscript (List.isEmpty_iff.mp hnil), if_neg fun hnil => hsigners (List.isEmpty_iff.mp hnil)]
    exact Outcome.bind_unit_eq_ok.mpr ⟨hlimits, rfl⟩

theorem isAsking_or_gives_resolveValidUntil :
    d.resolveValidUntil.IsAsking ∨ ∀ c tr, ∃ height, (d.resolveValidUntil c tr).1 = .ok height := by
  unfold resolveValidUntil
  cases d.validUntil with
  | some height => exact .inr fun _ _ => ⟨height, rfl⟩
  | none =>
    refine .inl ((isAsking_call.mapError _).bind fun _ => ?_)
    exact asksOnly_settings.bind fun _ => asksOnly_pure _

theorem isAsking_or_gives_checkPriority :
    d.checkPriority.IsAsking ∨ ∀ c tr, ∃ u, (d.checkPriority c tr).1 = .ok u := by
  unfold checkPriority
  split
  · refine .inl ((isAsking_committee.mapError _).bind fun keys => ?_)
    refine (asksOnly_ofExcept _).bind fun allowed => ?_
    cases allowed
    · exact asksOnly_fail _
    · exact asksOnly_pure _
  · exact .inr fun _ _ => ⟨(), rfl⟩

theorem isAsking_consumed : d.consumed.IsAsking := by
  unfold consumed
  refine (isAsking_call.mapError _).bind fun result => asksOnly_settings.bind fun settings => ?_
  split
  · exact asksOnly_fail _
  · exact asksOnly_pure _

/-- Whatever has to be asked before it, the script is simulated. -/
theorem isAsking_build (h : d.outline = .ok (d.filled 0 0 0)) : d.build.IsAsking := by
  unfold build
  rw [h]
  refine IsAsking.after (asksOnly_ofExcept _) (.inr fun _ _ => ⟨_, rfl⟩) fun t => ?_
  refine IsAsking.after asksOnly_resolveValidUntil.any isAsking_or_gives_resolveValidUntil fun validUntil => ?_
  refine IsAsking.after asksOnly_checkPriority.any isAsking_or_gives_checkPriority fun _ => ?_
  refine isAsking_consumed.bind fun gas => (asksOnly_ofExcept _).bind fun systemFee => ?_
  refine (asksOnly_carriage _).any.bind fun price => (asksOnly_ofExcept _).bind fun networkFee => ?_
  exact (asksOnly_checkBalance _).any.bind fun _ => asksOnly_pure _

theorem isAsking_send (h : ¬ d.IsRefused) : d.send.IsAsking := by
  obtain ⟨hable, houtline⟩ := checks_of_not_isRefused h
  have hsign : d.sign.IsAsking := by
    unfold sign
    rw [hable]
    refine IsAsking.after (asksOnly_ofExcept _) (.inr fun _ _ => ⟨(), rfl⟩) fun _ => ?_
    refine ((isAsking_build houtline).bind fun _ => asksOnly_pure _).bind fun p => ?_
    refine AsksOnly.bind (asksOnly_settings.bind fun _ => asksOnly_pure _) fun data => ?_
    exact (asksOnly_ofExcept _).bind fun _ => asksOnly_pure _
  exact hsign.bind fun p => ((follows_handIn (d := d) p).bind_nothing fun _ => asksOnly_pure _).asksOnly

/-! ## All of it -/

/-- All that is asked, from the draft to the number of blocks once it was handed in. -/
def questions (d : Draft) : List Question := d.buildQuestions ++ [.submission, .height]

theorem submission_not_mem_buildQuestions : Question.submission ∉ d.buildQuestions := by
  unfold buildQuestions heightQuestions priorityQuestions balanceQuestions
  split <;> split <;> split <;> simp

theorem count_submission_questions : d.questions.count .submission = 1 := by
  rw [questions, List.count_append, List.count_eq_zero.mpr submission_not_mem_buildQuestions]
  rfl

/-- Only a transaction that passes the checks is handed in, and as it is. -/
theorem eq_submission_of_asks {p : Pending} {α : Type} {x : Except BuildError α} {plan : List Question}
    {asked : List (Question × Request)} (h : Asks d c tr (p.send c tr).2 x plan asked) {q : Request}
    (hq : (.submission, q) ∈ asked) : q = p.submission tr ∧ p.checkSend = .ok () := by
  have hmem : q ∈ asked.map Prod.snd := List.mem_map_of_mem hq
  have hrequests := h.requests
  cases hcheck : p.checkSend with
  | error e =>
    rw [Pending.send_of_checkSend hcheck] at hrequests
    rw [List.self_eq_append_right.mp hrequests] at hmem
    exact absurd hmem List.not_mem_nil
  | ok u =>
    obtain ⟨later, hsent, hlater⟩ := Pending.send_requests hcheck c tr
    rw [← List.append_cancel_left (hsent.symm.trans hrequests)] at hmem
    rcases List.mem_cons.mp hmem with rfl | hmem
    · exact ⟨rfl, rfl⟩
    · have hmethod := hlater q hmem
      rw [(h.form _ hq).1] at hmethod
      cases (Question.method_inj .submission .height).mp hmethod

/-- Handing in asks by the plan, and hands in the transaction that was signed. -/
theorem exists_asks_send (d : Draft) (c : Client) (tr : Trace) :
    ∃ asked, Asks d c tr (d.send c tr).2 (d.send c tr).1 d.questions asked ∧
      ∀ q, (.submission, q) ∈ asked → ∃ p, (d.sign c tr).1 = .ok p ∧
        q.params = [bytesToJson p.transaction.encode] ∧ p.checkSend = .ok () := by
  obtain ⟨asked, hasked⟩ := follows_sign (d := d) c tr
  unfold send
  rw [bind_apply]
  rcases hsign : d.sign c tr with ⟨x, tr₁⟩
  rw [hsign] at hasked
  have hbefore : ∀ q, (Question.submission, q) ∉ asked := by
    intro q hq
    exact submission_not_mem_buildQuestions (hasked.order.subset (List.mem_map_of_mem hq))
  cases x with
  | error e => exact ⟨asked, hasked.of_error, fun q hq => absurd hq (hbefore q)⟩
  | ok p =>
    obtain ⟨asked', hasked'⟩ := (follows_handIn (d := d) p).bind_nothing (fun sent => asksOnly_pure sent.2) c tr₁
    refine ⟨asked ++ asked', hasked.append hasked', ?_⟩
    intro q hq
    rw [snd_bind_pure] at hasked'
    obtain ⟨rfl, hcheck⟩ := eq_submission_of_asks hasked' ((List.mem_append.mp hq).resolve_left (hbefore q))
    exact ⟨p, rfl, rfl, hcheck⟩

/-- Nothing is asked exactly if the draft is refused. -/
theorem eq_nil_iff_isRefused {asked : List (Question × Request)}
    (h : (d.send c tr).2.requests = tr.requests ++ asked.map Prod.snd) : asked = [] ↔ d.IsRefused := by
  constructor
  · intro hnil
    by_contra hrefused
    have hlength := isAsking_send hrefused c tr
    rw [h, hnil, List.map_nil, List.append_nil] at hlength
    exact Nat.lt_irrefl _ hlength
  · intro hrefused
    obtain ⟨e, hsign⟩ := sign_of_isRefused hrefused c tr
    unfold send at h
    rw [bind_apply, hsign] at h
    exact List.map_eq_nil_iff.mp (List.self_eq_append_right.mp h)

theorem countP_submission_le_one {α : Type} {x : Except BuildError α} {asked : List (Question × Request)}
    (h : Asks d c tr tr' x d.questions asked) :
    (asked.map Prod.snd).countP (fun q => q.method == "sendrawtransaction") ≤ 1 := by
  have hcount : (asked.map Prod.snd).countP (fun q => q.method == "sendrawtransaction") =
      (asked.map Prod.fst).count .submission := by
    rw [List.count, List.countP_map, List.countP_map]
    refine List.countP_congr fun e he => ?_
    simp only [Function.comp_apply, beq_iff_eq, (h.form e he).1]
    exact Question.method_inj e.1 .submission
  rw [hcount, ← count_submission_questions (d := d)]
  exact h.order.sublist.count_le _

/-- Whatever a draft is and whatever the node answers, what is asked begins the list of its questions, and is all of it
if the transaction is handed in. The first answer that fails is the last one, and its error is the result; so is a
simulation in which the script fails, unless the settings allow it. Nothing is asked exactly if the draft is refused. A
transaction is handed in once at most, and is the one that was signed, with a witness for each signer. -/
theorem send_order (d : Draft) (c : Client) (tr : Trace) :
    ∃ asked : List (Question × Request), (d.send c tr).2.requests = tr.requests ++ asked.map Prod.snd ∧
      (∀ e ∈ asked, e.2.method = e.1.method ∧ e.1.Carries d e.2.params) ∧ asked.map Prod.fst <+: d.questions ∧
      (∀ p, (d.send c tr).1 = .ok p → asked.map Prod.fst = d.questions) ∧
      (∀ before k q after e, asked = before ++ (k, q) :: after →
        k.Fails c.settings q (c.node (tr.requests ++ before.map Prod.snd) q) e →
          after = [] ∧ (d.send c tr).1 = .error (.rpc e)) ∧
      (asked = [] ↔ d.IsRefused) ∧
      (asked.map Prod.snd).countP (fun q => q.method == "sendrawtransaction") ≤ 1 ∧
      (∀ before q after result, asked = before ++ (.simulation, q) :: after →
        q.outcome InvokeResult.ofJson (c.node (tr.requests ++ before.map Prod.snd) q) = .ok result →
          result.isFault = true → c.settings.allowFault = false → after = []) ∧
      ∀ q, (.submission, q) ∈ asked → ∃ p, (d.sign c tr).1 = .ok p ∧
        q.params = [bytesToJson p.transaction.encode] ∧
        p.transaction.witnesses.length = p.transaction.signers.length := by
  obtain ⟨asked, hasked, hsubmission⟩ := exists_asks_send d c tr
  refine ⟨asked, hasked.requests, hasked.form, hasked.order, hasked.complete, ?_,
    eq_nil_iff_isRefused hasked.requests, countP_submission_le_one hasked, ?_, ?_⟩
  · intro before k q after e hsplit hfails
    exact hasked.last before k q after hsplit _ (.failed hfails)
  · intro before q after result hsplit hresult hfault hallow
    exact (hasked.last before _ q after hsplit _ (.fault hresult hfault hallow)).1
  · intro q hq
    obtain ⟨p, hp, hparams, hcheck⟩ := hsubmission q hq
    exact ⟨p, hp, hparams, (Pending.checkSend_eq_ok hcheck).1.symm⟩

/-- All that a draft can ask. -/
example : questions { attributes := [.highPriority], onShortfall := .report } =
    [.height, .committee, .simulation, .price, .balance, .submission, .height] := by
  decide

end N3.Draft
