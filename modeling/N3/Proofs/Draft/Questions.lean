import N3.Proofs.Draft
import N3.Proofs.Lists

/-!
# Questions in order

A session that follows a plan asks its questions in their order, and all of them if it succeeds (`Follows`). Some
answers stop a draft, with an error of their own; such an answer is the last one there is. A sequence of sessions
follows the plans of its parts one after the other (`Follows.bind`).
-/

set_option autoImplicit false

namespace N3.Draft

open Rpc Session

/-! ## Questions -/

/-- What a node is asked on the way from a draft to a transaction that is handed in. -/
inductive Question where
  | height | committee | simulation | price | balance | submission
  deriving DecidableEq

def committeeKeys (texts : List String) : Except RpcError (List Point) :=
  texts.mapM fun text => (Point.ofHex text).mapError fun e => .invalidResponse (.badCommitteeKey text e)

theorem committee_eq :
    committee = call "getcommittee" [] (Json.readList Json.readText) >>= fun texts => ofExcept (committeeKeys texts) :=
  rfl

namespace Question

def method : Question → String
  | height => "getblockcount"
  | committee => "getcommittee"
  | simulation => "invokescript"
  | price => "calculatenetworkfee"
  | balance => "invokefunction"
  | submission => "sendrawtransaction"

theorem method_inj (k k' : Question) : k.method = k'.method ↔ k = k' := by
  refine ⟨fun h => ?_, congrArg method⟩
  cases k <;> cases k' <;> first | rfl | exact absurd h (by decide)

/-- Whether a draft asks the question with these parameters. -/
def Carries (d : Draft) (k : Question) (params : List Json) : Prop :=
  match k with
  | height | committee => params = []
  | simulation => params = [bytesToJson d.script, signersToJson d.modelSigners]
  | price | submission => ∃ t : Transaction, params = [bytesToJson t.encode]
  | balance => ∃ token account : Hash160,
      params = [.str token.toText, .str "balanceOf", .arr [(Parameter.hash160 account).toJson], .arr []]

/-- The answer is an error, or is no answer to the question. -/
def Fails (settings : Settings) (k : Question) (q : Request) (answer : Except RpcError Response) (e : RpcError) : Prop :=
  match k with
  | height => q.outcome Json.readUInt32 answer = .error e
  | committee => q.outcome (Json.readList Json.readText) answer >>= committeeKeys = .error e
  | simulation => q.outcome InvokeResult.ofJson answer = .error e
  | price => q.outcome readNetworkFee answer = .error e
  | balance => q.outcome InvokeResult.ofJson answer = .error e ∨
      ∃ token result, FixedBytes.parse 20 settings.feeToken = .ok token ∧
        q.outcome InvokeResult.ofJson answer = .ok result ∧ result.stack.head?.bind StackItem.asInteger? = none ∧
        e = .invalidResponse (.badBalance token)
  | submission => q.outcome readSent answer = .error e

end Question

/-- The answers that stop a draft, and the error that follows. Besides those that fail, these are a simulation in which
the script fails although it must not, and amounts that leave no room for what the draft adds to them. -/
inductive Stops (d : Draft) (settings : Settings) (q : Request) (answer : Except RpcError Response) :
    Question → BuildError → Prop where
  | failed {k : Question} {e : RpcError} (h : k.Fails settings q answer e) : Stops d settings q answer k (.rpc e)
  | fault {result : InvokeResult} (h : q.outcome InvokeResult.ofJson answer = .ok result)
      (hfault : result.isFault = true) (hallow : settings.allowFault = false) :
      Stops d settings q answer .simulation
        (.model (.transactionConfiguration (.simulationFault (result.exception.getD ""))))
  | systemFee {result : InvokeResult} {e : Error} (h : q.outcome InvokeResult.ofJson answer = .ok result)
      (hallow : result.isFault = true → settings.allowFault = true)
      (hfee : addFee "system" result.gasConsumed d.extraSystemFee = .error e) :
      Stops d settings q answer .simulation (.model e)
  | networkFee {price : Int64} {e : Error} (h : q.outcome readNetworkFee answer = .ok price)
      (hfee : addFee "network" price d.extraNetworkFee = .error e) : Stops d settings q answer .price (.model e)

/-! ## Runs -/

variable {d : Draft} {c : Client} {tr tr₁ tr' : Trace} {α β γ : Type} {plan plan' : List Question}
  {asked asked' : List (Question × Request)}

/-- What was asked from one trace to another, with the result `x`, by something that had a plan. -/
structure Asks (d : Draft) (c : Client) (tr tr' : Trace) (x : Except BuildError α) (plan : List Question)
    (asked : List (Question × Request)) : Prop where
  requests : tr'.requests = tr.requests ++ asked.map Prod.snd
  order : asked.map Prod.fst <+: plan
  complete : ∀ a, x = .ok a → asked.map Prod.fst = plan
  form : ∀ e ∈ asked, e.2.method = e.1.method ∧ e.1.Carries d e.2.params
  last : ∀ before k q after, asked = before ++ (k, q) :: after →
    ∀ e, d.Stops c.settings q (c.node (tr.requests ++ before.map Prod.snd) q) k e → after = [] ∧ x = .error e

namespace Asks

theorem nothing {x : Except BuildError α} (htrace : tr'.requests = tr.requests) : Asks d c tr tr' x [] [] where
  requests := by rw [htrace, List.map_nil, List.append_nil]
  order := List.prefix_rfl
  complete _ _ := rfl
  form _ h := absurd h List.not_mem_nil
  last before k q after h := absurd h.symm (List.append_ne_nil_of_right_ne_nil _ (List.cons_ne_nil _ _))

theorem one {x : Except BuildError α} {k : Question} {q : Request} (htrace : tr'.requests = tr.requests ++ [q])
    (hmethod : q.method = k.method) (hparams : k.Carries d q.params)
    (hstop : ∀ e, d.Stops c.settings q (c.node tr.requests q) k e → x = .error e) :
    Asks d c tr tr' x [k] [(k, q)] where
  requests := htrace
  order := List.prefix_rfl
  complete _ _ := rfl
  form _ h := List.mem_singleton.mp h ▸ ⟨hmethod, hparams⟩
  last before k' q' after h e he := by
    obtain ⟨rfl, hrest⟩ := List.append_eq_singleton_iff.mp h.symm |>.resolve_right fun h => nomatch h.2
    cases hrest
    rw [List.map_nil, List.append_nil] at he
    exact ⟨rfl, hstop e he⟩

/-- An error leaves the rest of a plan open. -/
theorem of_error {e : BuildError} (h : Asks d c tr tr' (.error e : Except BuildError α) plan asked) :
    Asks d c tr tr' (.error e : Except BuildError β) (plan ++ plan') asked where
  requests := h.requests
  order := h.order.trans (List.prefix_append _ _)
  complete _ hx := nomatch hx
  form := h.form
  last before k q after hsplit e' he' := by
    obtain ⟨hafter, he⟩ := h.last before k q after hsplit e' he'
    exact ⟨hafter, congrArg Except.error (Except.error.inj he)⟩

theorem append {a : α} {x : Except BuildError β} (h : Asks d c tr tr₁ (.ok a) plan asked)
    (h' : Asks d c tr₁ tr' x plan' asked') : Asks d c tr tr' x (plan ++ plan') (asked ++ asked') where
  requests := by rw [h'.requests, h.requests, List.map_append, List.append_assoc]
  order := by
    rw [List.map_append, h.complete a rfl]
    exact (List.prefix_append_right_inj plan).mpr h'.order
  complete b hx := by rw [List.map_append, h.complete a rfl, h'.complete b hx]
  form e he := (List.mem_append.mp he).elim (h.form e) (h'.form e)
  last before k q after hsplit e he := by
    rcases Lists.append_eq_append_cons hsplit with ⟨after', hfirst⟩ | ⟨before', rfl, hsecond⟩
    · rw [hfirst] at hsplit
      exact nomatch (h.last before k q after' hfirst e he).2
    · rw [List.map_append, ← List.append_assoc, ← h.requests] at he
      exact h'.last before' k q after hsecond e he

end Asks

/-! ## Plans -/

/-- Whatever the node answers, the session asks by the plan. -/
def Follows (d : Draft) (s : Session BuildError α) (plan : List Question) : Prop :=
  ∀ c tr, ∃ asked, Asks d c tr (s c tr).2 (s c tr).1 plan asked

theorem Follows.asksOnly {s : Session BuildError α} (h : d.Follows s plan) : s.AsksOnly fun _ => True := by
  intro c tr
  obtain ⟨asked, hasked⟩ := h c tr
  exact ⟨_, hasked.requests, fun _ _ => trivial⟩

theorem Follows.bind {s : Session BuildError α} {f : α → Session BuildError β} (hs : d.Follows s plan)
    (hf : ∀ a, d.Follows (f a) plan') : d.Follows (s >>= f) (plan ++ plan') := by
  intro c tr
  obtain ⟨asked, hasked⟩ := hs c tr
  rw [bind_apply]
  rcases hrun : s c tr with ⟨x, tr₁⟩
  rw [hrun] at hasked
  cases x with
  | error e => exact ⟨asked, hasked.of_error⟩
  | ok a =>
    obtain ⟨asked', hasked'⟩ := hf a c tr₁
    exact ⟨asked ++ asked', hasked.append hasked'⟩

/-- The same, where the first session is itself a sequence. -/
theorem Follows.bind_bind {s : Session BuildError α} {f : α → Session BuildError β} {g : β → Session BuildError γ}
    (hs : d.Follows (s >>= f) plan) (hg : ∀ b, d.Follows (g b) plan') :
    d.Follows (s >>= fun a => f a >>= g) (plan ++ plan') := by
  rw [← Session.bind_bind]
  exact hs.bind hg

/-- What asks nothing follows no plan. -/
theorem follows_nothing {s : Session BuildError α} (hs : s.AsksOnly fun _ => False) : d.Follows s [] :=
  fun c tr => ⟨[], .nothing (hs.requests_eq c tr)⟩

/-- What fails without a question leaves any plan open. -/
theorem follows_fail (e : BuildError) (plan : List Question) : d.Follows (fail e : Session BuildError α) plan := by
  intro c tr
  have hnothing : Asks d c tr tr (.error e : Except BuildError α) [] [] := .nothing rfl
  have h : Asks d c tr tr (.error e : Except BuildError α) ([] ++ plan) [] := hnothing.of_error
  exact ⟨[], h⟩

theorem Follows.bind_nothing {s : Session BuildError α} {f : α → Session BuildError β} (hs : d.Follows s plan)
    (hf : ∀ a, (f a).AsksOnly fun _ => False) : d.Follows (s >>= f) plan := by
  have h := hs.bind fun a => follows_nothing (hf a)
  rwa [List.append_nil] at h

theorem Follows.after_nothing {s : Session BuildError α} {f : α → Session BuildError β}
    (hs : s.AsksOnly fun _ => False) (hf : ∀ a, d.Follows (f a) plan) : d.Follows (s >>= f) plan :=
  (follows_nothing hs).bind hf

/-- One question, and what is made of the answer: an answer that stops the draft has to be an error, or to be made
one by what follows. -/
theorem exists_asks_call {k : Question} {params : List Json} {read : Json.Read α} {f : α → Session BuildError β}
    (hparams : k.Carries d params) (hf : ∀ a, (f a).AsksOnly fun _ => False)
    (hstop : ∀ (tr : Trace) (q : Request) (answer : Except RpcError Response) (e : BuildError),
      d.Stops c.settings q answer k e →
        (∃ x, q.outcome read answer = .error x ∧ e = .rpc x) ∨
          ∃ a, q.outcome read answer = .ok a ∧ (f a c tr).1 = .error e) (tr : Trace) :
    ∃ asked, Asks d c tr (((call k.method params read).mapError .rpc >>= f) c tr).2
      (((call k.method params read).mapError .rpc >>= f) c tr).1 [k] asked := by
  let q : Request := { method := k.method, params, id := tr.nextId }
  let tr₁ : Trace := { tr with requests := tr.requests ++ [q] }
  have hcall : (call k.method params read).mapError .rpc c tr =
      ((q.outcome read (c.node tr.requests q)).mapError BuildError.rpc, tr₁) := rfl
  rw [bind_apply, hcall]
  refine ⟨[(k, q)], ?_⟩
  cases hanswer : q.outcome read (c.node tr.requests q) with
  | error x =>
    refine .one rfl rfl hparams fun e he => ?_
    rcases hstop tr₁ q _ e he with ⟨x', hx', rfl⟩ | ⟨a, ha, -⟩
    · rw [hanswer] at hx'
      cases hx'
      rfl
    · rw [hanswer] at ha
      cases ha
  | ok a =>
    refine .one ((hf a).requests_eq c tr₁) rfl hparams fun e he => ?_
    rcases hstop tr₁ q _ e he with ⟨x, hx, -⟩ | ⟨a', ha', herror⟩
    · rw [hanswer] at hx
      cases hx
    · rw [hanswer] at ha'
      cases ha'
      exact herror

theorem follows_call {k : Question} {params : List Json} {read : Json.Read α} {f : α → Session BuildError β}
    (hparams : k.Carries d params) (hf : ∀ a, (f a).AsksOnly fun _ => False)
    (hstop : ∀ (c : Client) (tr : Trace) (q : Request) (answer : Except RpcError Response) (e : BuildError),
      d.Stops c.settings q answer k e →
        (∃ x, q.outcome read answer = .error x ∧ e = .rpc x) ∨
          ∃ a, q.outcome read answer = .ok a ∧ (f a c tr).1 = .error e) :
    d.Follows ((call k.method params read).mapError .rpc >>= f) [k] :=
  fun c tr => exists_asks_call hparams hf (hstop c) tr

theorem follows_question {k : Question} {params : List Json} {read : Json.Read α} (hparams : k.Carries d params)
    (hstop : ∀ (settings : Settings) (q : Request) (answer : Except RpcError Response) (e : BuildError),
      d.Stops settings q answer k e → ∃ x, q.outcome read answer = .error x ∧ e = .rpc x) :
    d.Follows ((call k.method params read).mapError .rpc) [k] := by
  rw [← Session.bind_pure (Session.mapError _ _)]
  exact follows_call hparams asksOnly_pure fun c _ q answer e he => .inl (hstop c.settings q answer e he)

end N3.Draft
