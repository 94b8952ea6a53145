import N3.Proofs.Draft.Questions
import N3.Proofs.Pending
import N3.Proofs.Text.Hex

/-!
# What is remembered of handing in

A node that takes a transaction is asked for the number of blocks right after that, and it is the answer to this second
question that is remembered. So after any steps a transaction remembers the last number of blocks that it was told
(`sentAt_run`), and remembers nothing if it was told none, although the node may have taken it (`sentAt_uncounted`). A
step asks nothing, asks something else, or hands in and then asks for the number of blocks (`Turn`); a run is a sequence
of turns.
-/

set_option autoImplicit false

namespace N3

/-! ## Requests with their answers -/

namespace Rpc

structure Exchange where
  request : Request
  answer : Except RpcError Response

namespace Exchange

def outcome {α : Type} (e : Exchange) (read : Json.Read α) : Except RpcError α := e.request.outcome read e.answer

def IsAccepted (e : Exchange) : Prop :=
  e.request.method = "sendrawtransaction" ∧ ∃ hash, e.outcome readSent = .ok hash

def blocks? (e : Exchange) : Option UInt32 :=
  if e.request.method = "getblockcount" then (e.outcome Json.readUInt32).toOption else none

/-- The requests with the answers of a node that was asked others before. -/
def ofRequests (node : Node) (earlier : List Request) : List Request → List Exchange
  | [] => []
  | q :: qs => ⟨q, node earlier q⟩ :: ofRequests node (earlier ++ [q]) qs

theorem ofRequests_append (node : Node) (earlier qs qs' : List Request) :
    ofRequests node earlier (qs ++ qs') = ofRequests node earlier qs ++ ofRequests node (earlier ++ qs) qs' := by
  induction qs generalizing earlier with
  | nil => rw [List.append_nil, List.nil_append, ofRequests, List.nil_append]
  | cons q qs ih =>
    rw [List.cons_append, ofRequests, ofRequests, ih, List.append_assoc, List.singleton_append]
    rfl

theorem blocks?_of_eq {e : Exchange} (h : e.request.method = "getblockcount") :
    e.blocks? = (e.outcome Json.readUInt32).toOption := if_pos h

theorem blocks?_of_ne {e : Exchange} (h : e.request.method ≠ "getblockcount") : e.blocks? = none := if_neg h

theorem IsAccepted.blocks? {e : Exchange} (h : e.IsAccepted) : e.blocks? = none := by
  refine blocks?_of_ne ?_
  rw [h.1]
  decide

end Exchange

/-- What the node was asked between two traces, and what it answered. -/
def Exchanged (c : Client) (t t' : Trace) (es : List Exchange) : Prop :=
  ∃ new, t'.requests = t.requests ++ new ∧ es = Exchange.ofRequests c.node t.requests new

namespace Exchanged

variable {c : Client} {t t₁ t' : Trace} {es es' : List Exchange}

theorem refl (c : Client) (t : Trace) : Exchanged c t t [] := ⟨[], (List.append_nil _).symm, rfl⟩

theorem trans (h : Exchanged c t t₁ es) (h' : Exchanged c t₁ t' es') : Exchanged c t t' (es ++ es') := by
  obtain ⟨new, hnew, rfl⟩ := h
  obtain ⟨new', hnew', rfl⟩ := h'
  refine ⟨new ++ new', by rw [hnew', hnew, List.append_assoc], ?_⟩
  rw [hnew, ← Exchange.ofRequests_append]

end Exchanged

end Rpc

namespace Pending

open Rpc

/-! ## Steps -/

inductive Step where
  | addWitness (w : Witness)
  | addMultisigWitness (script : VerificationScript) (signatures : SignatureMap)
  | signData
  | send
  | log

/-- The transaction and the trace after a step. A step that fails leaves the transaction as it was. -/
def Step.run (c : Client) (s : Step) (p : Pending) (tr : Trace) : Pending × Trace :=
  match s with
  | addWitness w => (p.addWitness w, tr)
  | addMultisigWitness script signatures =>
    match p.addMultisigWitness script signatures with
    | .ok q => (q, tr)
    | .error _ => (p, tr)
  | signData => (p, (p.signData c tr).2)
  | send =>
    match p.send c tr with
    | (.ok (_, q), tr') => (q, tr')
    | (.error _, tr') => (p, tr')
  | log => (p, (p.log c tr).2)

def runAll (c : Client) : List Step → Pending → Trace → Pending × Trace
  | [], p, tr => (p, tr)
  | s :: steps, p, tr => runAll c steps (s.run c p tr).1 (s.run c p tr).2

/-! ## Turns -/

/-- What one step asks, and what it changes in what is remembered. -/
inductive Turn (before : Option UInt32) : List Exchange → Option UInt32 → Prop where
  | quiet : Turn before [] before
  | other {e : Exchange} (hcount : e.request.method ≠ "getblockcount") (haccepted : ¬ e.IsAccepted) :
      Turn before [e] before
  | taken {e f : Exchange} (haccepted : e.IsAccepted) (hcount : f.request.method = "getblockcount") :
      Turn before [e, f] (f.blocks?.or before)

namespace Turn

variable {before after : Option UInt32} {es earlier later : List Exchange}

/-- Only an answer to the question for the number of blocks changes what is remembered. -/
theorem eq_getLast? (h : Turn before es after) : after = (es.filterMap Exchange.blocks?).getLast?.or before := by
  cases h with
  | quiet => rfl
  | other hcount =>
    rw [List.filterMap_cons_none (Exchange.blocks?_of_ne hcount)]
    rfl
  | @taken e f haccepted =>
    rw [List.filterMap_cons_none haccepted.blocks?]
    cases hblocks : f.blocks? with
    | none =>
      rw [List.filterMap_cons_none hblocks]
      rfl
    | some n =>
      rw [List.filterMap_cons_some hblocks]
      rfl

theorem next_of_isAccepted (h : Turn before es after) {e : Exchange} (hes : es = earlier ++ e :: later)
    (haccepted : e.IsAccepted) : ∃ f later', later = f :: later' ∧ f.request.method = "getblockcount" := by
  cases h with
  | quiet => exact absurd hes (List.append_ne_nil_of_right_ne_nil _ (List.cons_ne_nil _ _)).symm
  | other _ hrefused =>
    obtain ⟨-, rfl, -⟩ := Lists.eq_of_singleton_eq hes
    exact absurd haccepted hrefused
  | taken _ hcount =>
    rcases List.cons_eq_append_iff.mp hes with ⟨-, hfirst⟩ | ⟨earlier', -, hsecond⟩
    · cases hfirst
      exact ⟨_, [], rfl, hcount⟩
    · obtain ⟨-, rfl, -⟩ := Lists.eq_of_singleton_eq hsecond
      exact absurd (haccepted.1.symm.trans hcount) (by decide)

theorem previous_of_blocks? (h : Turn before es after) {f : Exchange} (hes : es = earlier ++ f :: later)
    (hblocks : f.blocks? ≠ none) : ∃ earlier' e, earlier = earlier' ++ [e] ∧ e.IsAccepted := by
  cases h with
  | quiet => exact absurd hes (List.append_ne_nil_of_right_ne_nil _ (List.cons_ne_nil _ _)).symm
  | other hcount =>
    obtain ⟨-, rfl, -⟩ := Lists.eq_of_singleton_eq hes
    exact absurd (Exchange.blocks?_of_ne hcount) hblocks
  | taken haccepted =>
    rcases List.cons_eq_append_iff.mp hes with ⟨-, hfirst⟩ | ⟨earlier', rfl, hsecond⟩
    · cases hfirst
      exact absurd haccepted.blocks? hblocks
    · obtain ⟨rfl, -, -⟩ := Lists.eq_of_singleton_eq hsecond
      exact ⟨[], _, rfl, haccepted⟩

end Turn

/-- The trace after one more request. -/
def asked (tr : Trace) (q : Request) : Trace := { tr with requests := tr.requests ++ [q] }

theorem exchanged_asked (c : Client) (tr : Trace) (q : Request) :
    Exchanged c tr (asked tr q) [⟨q, c.node tr.requests q⟩] := ⟨[q], rfl, rfl⟩

def handIn (p : Pending) (c : Client) (tr : Trace) : Exchange :=
  ⟨p.submission tr, c.node tr.requests (p.submission tr)⟩

def count (c : Client) (tr : Trace) : Exchange := ⟨blockCountRequest tr, c.node tr.requests (blockCountRequest tr)⟩

/-- Handing in makes at most two requests, and goes by their answers. -/
theorem send_eq {p : Pending} (h : p.checkSend = .ok ()) (c : Client) (tr : Trace) :
    p.send c tr =
      let tr₁ := asked tr (p.submission tr)
      let tr₂ := asked tr₁ (blockCountRequest tr₁)
      match (p.handIn c tr).outcome readSent, (count c tr₁).outcome Json.readUInt32 with
      | .error e, _ => (.error (.rpc e), tr₁)
      | .ok _, .error e => (.error (.rpc e), tr₂)
      | .ok hash, .ok n => (.ok (hash, { p with sentAt := some n }), tr₂) := by
  have hhandIn : (sendRawTransaction p.transaction.encode).mapError BuildError.rpc c tr =
      (((p.handIn c tr).outcome readSent).mapError BuildError.rpc, asked tr (p.submission tr)) := rfl
  have hcount : ∀ tr₁, blockCount.mapError BuildError.rpc c tr₁ =
      (((count c tr₁).outcome Json.readUInt32).mapError BuildError.rpc, asked tr₁ (blockCountRequest tr₁)) :=
    fun _ => rfl
  unfold send
  rw [h, Session.bind_apply]
  dsimp only [Session.ofExcept, Except.mapError]
  rw [Session.bind_apply, hhandIn]
  cases (p.handIn c tr).outcome readSent with
  | error e => rfl
  | ok hash =>
    dsimp only [Except.mapError]
    rw [Session.bind_apply, hcount]
    cases (count c (asked tr (p.submission tr))).outcome Json.readUInt32 with
    | error e => rfl
    | ok n => rfl

theorem exists_turn_send (p : Pending) (c : Client) (tr : Trace) :
    ∃ es, Exchanged c tr (Step.send.run c p tr).2 es ∧ Turn p.sentAt es (Step.send.run c p tr).1.sentAt := by
  rcases hcheck : p.checkSend with e | u
  · refine ⟨[], ?_, ?_⟩ <;> rw [Step.run, send_of_checkSend hcheck]
    · exact .refl c tr
    · exact .quiet
  have hfirst := exchanged_asked c tr (p.submission tr)
  have hboth := hfirst.trans (exchanged_asked c _ (blockCountRequest (asked tr (p.submission tr))))
  have hsend := send_eq hcheck c tr
  dsimp only at hsend
  cases htaken : (p.handIn c tr).outcome readSent with
  | error e =>
    rw [htaken] at hsend
    rw [Step.run, hsend]
    refine ⟨_, hfirst, .other (show "sendrawtransaction" ≠ "getblockcount" by decide) ?_⟩
    rintro ⟨-, hash, hhash⟩
    cases htaken.symm.trans hhash
  | ok hash =>
    have hturn : Turn p.sentAt [p.handIn c tr, count c (asked tr (p.submission tr))] _ := .taken ⟨rfl, hash, htaken⟩ rfl
    rw [Exchange.blocks?_of_eq rfl] at hturn
    cases htold : (count c (asked tr (p.submission tr))).outcome Json.readUInt32 with
    | error e =>
      rw [htaken, htold] at hsend
      rw [htold] at hturn
      rw [Step.run, hsend]
      exact ⟨_, hboth, hturn⟩
    | ok n =>
      rw [htaken, htold] at hsend
      rw [htold] at hturn
      rw [Step.run, hsend]
      exact ⟨_, hboth, hturn⟩

theorem exists_turn (s : Step) (p : Pending) (c : Client) (tr : Trace) :
    ∃ es, Exchanged c tr (s.run c p tr).2 es ∧ Turn p.sentAt es (s.run c p tr).1.sentAt := by
  cases s with
  | addWitness w => exact ⟨[], .refl c tr, .quiet⟩
  | addMultisigWitness script signatures =>
    refine ⟨[], ?_⟩
    unfold Step.run
    dsimp only
    split
    · next q hq =>
      obtain ⟨w, -, hq⟩ := Outcome.bind_eq_ok.mp hq
      cases hq
      exact ⟨.refl c tr, .quiet⟩
    · exact ⟨.refl c tr, .quiet⟩
  | signData => exact ⟨[], .refl c tr, .quiet⟩
  | send => exact exists_turn_send p c tr
  | log =>
    unfold Step.run log
    cases hsent : p.sentAt with
    | none => exact ⟨[], .refl c tr, .quiet⟩
    | some n =>
      refine ⟨_, exchanged_asked c tr _, .other (show "getapplicationlog" ≠ "getblockcount" by decide) ?_⟩
      rintro ⟨hmethod, -⟩
      exact absurd hmethod (show "getapplicationlog" ≠ "sendrawtransaction" by decide)

/-! ## Runs -/

inductive Turns : Option UInt32 → List Exchange → Option UInt32 → Prop where
  | nil (before : Option UInt32) : Turns before [] before
  | cons {before between after : Option UInt32} {es es' : List Exchange} (h : Turn before es between)
      (h' : Turns between es' after) : Turns before (es ++ es') after

theorem exists_turns (c : Client) (steps : List Step) (p : Pending) (tr : Trace) :
    ∃ es, Exchanged c tr (runAll c steps p tr).2 es ∧ Turns p.sentAt es (runAll c steps p tr).1.sentAt := by
  induction steps generalizing p tr with
  | nil => exact ⟨[], .refl c tr, .nil _⟩
  | cons s steps ih =>
    obtain ⟨es, hes, hturn⟩ := exists_turn s p c tr
    obtain ⟨es', hes', hturns⟩ := ih (s.run c p tr).1 (s.run c p tr).2
    exact ⟨es ++ es', hes.trans hes', .cons hturn hturns⟩

namespace Turns

variable {before after : Option UInt32} {es : List Exchange}

/-- What is remembered is the last number that was told. -/
theorem eq_getLast? (h : Turns before es after) :
    after = (es.filterMap Exchange.blocks?).getLast?.or before := by
  induction h with
  | nil before => rfl
  | @cons before between after es es' hturn _ ih =>
    rw [ih, List.filterMap_append, List.getLast?_append, Option.or_assoc]
    congr 1
    exact hturn.eq_getLast?

/-- A transaction that is taken is followed by the question for the number of blocks. -/
theorem next_of_isAccepted (h : Turns before es after) {earlier later : List Exchange} {e : Exchange}
    (hes : es = earlier ++ e :: later) (haccepted : e.IsAccepted) :
    ∃ f later', later = f :: later' ∧ f.request.method = "getblockcount" := by
  induction h generalizing earlier with
  | nil => exact absurd hes.symm (List.append_ne_nil_of_right_ne_nil _ (List.cons_ne_nil _ _))
  | cons hturn _ ih =>
    rcases Lists.append_eq_append_cons hes with ⟨rest, hfirst⟩ | ⟨earlier', rfl, hsecond⟩
    · obtain ⟨f, rest', rfl, hcount⟩ := hturn.next_of_isAccepted hfirst haccepted
      rw [hfirst, List.append_assoc, List.append_right_inj] at hes
      cases hes
      exact ⟨f, _, rfl, hcount⟩
    · exact ih hsecond

/-- A number of blocks is told after a transaction that was taken. -/
theorem previous_of_blocks? (h : Turns before es after) {earlier later : List Exchange} {f : Exchange}
    (hes : es = earlier ++ f :: later) (hblocks : f.blocks? ≠ none) :
    ∃ earlier' e, earlier = earlier' ++ [e] ∧ e.IsAccepted := by
  induction h generalizing earlier with
  | nil => exact absurd hes.symm (List.append_ne_nil_of_right_ne_nil _ (List.cons_ne_nil _ _))
  | @cons _ _ _ first _ hturn _ ih =>
    rcases Lists.append_eq_append_cons hes with ⟨rest, hfirst⟩ | ⟨earlier', rfl, hsecond⟩
    · exact hturn.previous_of_blocks? hfirst hblocks
    · obtain ⟨earlier, e, rfl, haccepted⟩ := ih hsecond
      exact ⟨first ++ earlier, e, (List.append_assoc _ _ _).symm, haccepted⟩

end Turns

/-- The log of a transaction is refused as not sent exactly while nothing is remembered. -/
theorem log_eq_notSent_iff (p : Pending) (c : Client) (tr : Trace) :
    (p.log c tr).1 = .error (.model (.invalidState .notSent)) ↔ p.sentAt = none := by
  unfold log
  cases p.sentAt with
  | none => exact ⟨fun _ => rfl, fun _ => rfl⟩
  | some n =>
    refine ⟨fun h => ?_, nofun⟩
    have hrpc : ((applicationLog p.transaction.hash c tr).1).mapError BuildError.rpc =
        .error (.model (.invalidState .notSent)) := h
    cases hlog : (applicationLog p.transaction.hash c tr).1 <;> rw [hlog] at hrpc <;> cases hrpc

/-- Something is remembered exactly if some transaction was taken and the question right after that, which is always
asked, was answered. It is then the last such answer, so that nothing is forgotten; and only then the log is not refused
as that of a transaction that was not sent. -/
theorem sentAt_run (t : Transaction) (c : Client) (tr : Trace) (steps : List Step) :
    ∃ es, Exchanged c tr (runAll c steps ⟨t, none⟩ tr).2 es ∧
      (runAll c steps ⟨t, none⟩ tr).1.sentAt = (es.filterMap Exchange.blocks?).getLast? ∧
      ((runAll c steps ⟨t, none⟩ tr).1.sentAt ≠ none ↔
        ∃ earlier e f later, es = earlier ++ e :: f :: later ∧ e.IsAccepted ∧ f.blocks? ≠ none) ∧
      (∀ earlier e later, es = earlier ++ e :: later → e.IsAccepted →
        ∃ f later', later = f :: later' ∧ f.request.method = "getblockcount") ∧
      ∀ tr', ((runAll c steps ⟨t, none⟩ tr).1.log c tr').1 = .error (.model (.invalidState .notSent)) ↔
        (runAll c steps ⟨t, none⟩ tr).1.sentAt = none := by
  obtain ⟨es, hes, hturns⟩ := exists_turns c steps ⟨t, none⟩ tr
  have hlast := hturns.eq_getLast?
  rw [Option.or_none] at hlast
  refine ⟨es, hes, hlast, ?_, fun _ _ _ => hturns.next_of_isAccepted, log_eq_notSent_iff _ c⟩
  rw [hlast, Ne, List.getLast?_eq_none_iff, List.filterMap_eq_nil_iff, not_forall₂]
  constructor
  · rintro ⟨f, hf, hblocks⟩
    obtain ⟨earlier, later, rfl⟩ := List.append_of_mem hf
    obtain ⟨earlier, e, rfl, haccepted⟩ := hturns.previous_of_blocks? rfl hblocks
    exact ⟨earlier, e, f, later, List.append_assoc _ _ _, haccepted, hblocks⟩
  · rintro ⟨earlier, e, f, later, rfl, -, hblocks⟩
    exact ⟨f, List.mem_append_right _ (List.mem_cons_of_mem _ List.mem_cons_self), hblocks⟩

/-! ## A transaction that is taken and not remembered -/

theorem readSent_sentToJson (hash : Hash256) : readSent (sentToJson hash) = .ok hash := by
  have hhash : Json.readHash 32 (.str hash.toText) = .ok hash := by
    show (FixedBytes.parse 32 hash.toText).mapError _ = _
    rw [FixedBytes.parse_toText]
    rfl
  have hneed : Json.Fields.need ⟨[("hash", 0, .str hash.toText)], 1, false⟩ "hash" (Json.readHash 32) = .value hash := by
    unfold Json.Fields.need
    rw [List.lookup_cons_self]
    dsimp only
    rw [hhash]
    rfl
  have hfields : Json.fields ["hash"] (sentToJson hash) = some ⟨[("hash", 0, .str hash.toText)], 1, false⟩ := rfl
  rw [readSent, Json.readRecord, hfields]
  dsimp only
  rw [hneed]
  rfl

/-- A node that takes a transaction and is then out of reach. -/
def fickleNode (hash : Hash256) : Node := fun _ q =>
  if q.method = "sendrawtransaction" then .ok { id := none, result := some (sentToJson hash) }
  else .error (.transport "connection reset")

def witnessed : Pending := addWitness ⟨contractDraft.filled 1 0 0, none⟩ ⟨⟨[]⟩, {}⟩

theorem reachable_witnessed : witnessed.Reachable := by
  have hsigners : ∀ s ∈ contractDraft.signers, s.Reachable := by
    intro s hs
    rw [List.mem_singleton.mp hs]
    exact .contractCalledByEntry _ _
  exact .addContract (.unsigned hsigners fst_buildUnsigned_contractDraft) (show Witness.ofContract [] = .ok _ from rfl)

theorem checkSend_witnessed : witnessed.checkSend = .ok () := by
  have hsize : ¬ Limits.transactionSize < witnessed.transaction.size := by decide +kernel
  unfold checkSend
  dsimp only
  rw [if_neg (by decide), if_neg hsize]

theorem sentAt_uncounted :
    witnessed.Reachable ∧ ∃ (c : Client) (e f : Exchange),
      Exchanged c {} (runAll c [.send] witnessed {}).2 [e, f] ∧ e.IsAccepted ∧
        (runAll c [.send] witnessed {}).1.sentAt = none ∧
          ((runAll c [.send] witnessed {}).1.log c {}).1 = .error (.model (.invalidState .notSent)) := by
  let c : Client := ⟨{}, fickleNode witnessed.transaction.hash⟩
  have htaken : (witnessed.handIn c {}).outcome readSent = .ok witnessed.transaction.hash := by
    show (readSent (sentToJson witnessed.transaction.hash)).mapError _ = _
    rw [readSent_sentToJson]
    rfl
  have hlost : (count c (asked {} (witnessed.submission {}))).outcome Json.readUInt32 =
      .error (.transport "connection reset") := rfl
  have hsend := send_eq checkSend_witnessed c {}
  dsimp only at hsend
  rw [htaken, hlost] at hsend
  refine ⟨reachable_witnessed, c, witnessed.handIn c {}, count c (asked {} (witnessed.submission {})), ?_⟩
  rw [runAll, runAll, Step.run, hsend]
  exact ⟨(exchanged_asked c {} _).trans (exchanged_asked c _ _), ⟨rfl, _, htaken⟩, rfl, rfl⟩

end Pending

end N3
