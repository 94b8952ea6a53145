import Mathlib.Data.List.Induction
import Mathlib.Data.List.Nodup
import N3.Proofs.Rpc.Requests

/-!
# Calls that overlap

A client may make a call while others are not done. A call first draws a number, then hands over its request, and then
waits for an answer; between these three steps others may take theirs, in any order (`Traffic.step`). Calls are numbered
in the order in which they draw, and so no two of them alike. Each sends one request at most, but a request may overtake
one with a smaller number. Only where no call draws while another has yet to send do the requests go out in the order of
their numbers, as they do where each call sends as soon as it has drawn (`Traffic.InTurn`).

What becomes of a call is decided by the first answer to its own request, and by no other. Nothing but a response without
a number or with that of the request gives a value. A response with another number is a mismatch if it holds no error of
the node; if it holds one, the call fails with that error instead (`Request.outcome_otherId`).

A method of the node that is not interrupted is a call of this kind, with its three steps in a row
(`Traffic.exists_call_of_isMethod`).
-/

set_option autoImplicit false

namespace N3.Rpc

/-! ## Calls as data -/

/-- What a call asks for, how it reads the result, and what it makes of it. -/
structure Call (α : Type) where
  Result : Type
  method : String
  params : List Json
  read : Json.Read Result
  finish : Result → Except RpcError α

namespace Call

variable {α : Type} (a : Call α)

def ofRead {α : Type} (method : String) (params : List Json) (read : Json.Read α) : Call α :=
  { Result := α, method, params, read, finish := .ok }

def request (id : UInt64) : Request := { method := a.method, params := a.params, id }

/-- What comes of the call if its request has this number and is answered so. -/
def outcome (id : UInt64) (x : Except RpcError Response) : Except RpcError α :=
  (a.request id).outcome a.read x >>= a.finish

/-- The call with nothing in between. -/
def session : Session RpcError α := do
  let result ← call a.method a.params a.read
  Session.ofExcept (a.finish result)

theorem session_apply (c : Client) (t : Trace) :
    a.session c t = (a.outcome t.nextId (c.node t.requests (a.request t.nextId)),
      { t with requests := t.requests ++ [a.request t.nextId] }) := by
  have hcall : call a.method a.params a.read c t =
      ((a.request t.nextId).outcome a.read (c.node t.requests (a.request t.nextId)),
        { t with requests := t.requests ++ [a.request t.nextId] }) := rfl
  rw [session, Session.bind_apply, hcall, outcome]
  cases (a.request t.nextId).outcome a.read (c.node t.requests (a.request t.nextId)) <;> rfl

end Call

/-! ## What an answer decides -/

namespace Request

variable {α : Type} {q : Request} {read : Json.Read α}

theorem exists_of_outcome_eq_ok {x : Except RpcError Response} {v : α} (h : q.outcome read x = .ok v) :
    ∃ r, x = .ok r ∧ r.error = none ∧ ∀ i, r.id = some i → i = q.id := by
  unfold outcome at h
  split at h
  · cases h
  · next r =>
    split at h
    · cases h
    · next herror =>
      refine ⟨r, rfl, herror, fun i hi => ?_⟩
      by_contra hne
      rw [hi, Option.filter_some, if_pos (bne_iff_ne.mpr hne)] at h
      cases h

/-- The error that the node has put into a response is looked at before its number. -/
theorem outcome_otherId {r : Response} {i : UInt64} (hi : r.id = some i) (hne : i ≠ q.id) :
    q.outcome read (.ok r) = .error (r.error.elim (.invalidResponse (.otherId i q.id)) .node) := by
  unfold outcome
  dsimp only
  cases r.error with
  | some e => rfl
  | none =>
    rw [hi, Option.filter_some, if_pos (bne_iff_ne.mpr hne)]
    rfl

end Request

namespace Call

variable {α : Type} {a : Call α} {id : UInt64}

theorem exists_of_outcome_eq_ok {x : Except RpcError Response} {v : α} (h : a.outcome id x = .ok v) :
    ∃ r, x = .ok r ∧ r.error = none ∧ ∀ i, r.id = some i → i = id := by
  obtain ⟨result, hresult, -⟩ := Outcome.bind_eq_ok.mp h
  exact Request.exists_of_outcome_eq_ok hresult

theorem outcome_otherId {r : Response} {i : UInt64} (hi : r.id = some i) (hne : i ≠ id) :
    a.outcome id (.ok r) = .error (r.error.elim (.invalidResponse (.otherId i id)) .node) := by
  rw [outcome, Request.outcome_otherId hi hne]
  rfl

end Call

/-! ## Traffic -/

inductive Stage (α : Type) where
  | drawn
  | sent
  | done (outcome : Except RpcError α)

/-- A call with the number that it has drawn. -/
structure Flight where
  {α : Type}
  call : Call α
  id : UInt64
  stage : Stage α := .drawn

namespace Flight

def request (f : Flight) : Request := f.call.request f.id

def isSent (f : Flight) : Bool :=
  match f.stage with
  | .drawn => false
  | .sent | .done _ => true

/-- Hands over the request, unless that was done before. -/
def send (f : Flight) : Flight :=
  match f.stage with
  | .drawn => { f with stage := .sent }
  | .sent | .done _ => f

/-- Takes an answer. Before the request is sent there is none, and only the first counts. -/
def settle (x : Except RpcError Response) (f : Flight) : Flight :=
  match f.stage with
  | .sent => { f with stage := .done (f.call.outcome f.id x) }
  | .drawn | .done _ => f

@[simp] theorem request_send (f : Flight) : f.send.request = f.request := by
  unfold send
  split <;> rfl

@[simp] theorem isSent_send (f : Flight) : f.send.isSent = true := by
  unfold send
  split <;> simp [isSent, *]

@[simp] theorem request_settle (x : Except RpcError Response) (f : Flight) : (f.settle x).request = f.request := by
  unfold settle
  split <;> rfl

@[simp] theorem isSent_settle (x : Except RpcError Response) (f : Flight) : (f.settle x).isSent = f.isSent := by
  unfold settle
  split <;> simp [isSent, *]

end Flight

/-- A call draws a number; a call hands over its request; an answer to a request comes in, or the news that there is
none. Calls are counted from zero, in the order in which they draw. -/
inductive Event where
  | draw {α : Type} (call : Call α)
  | send (flight : Nat)
  | answer (flight : Nat) (x : Except RpcError Response)

namespace Event

def isDraw : Event → Bool
  | draw _ => true
  | send _ | answer _ _ => false

/-- What the event brings to the flight of this index. -/
def act (k : Nat) (f : Flight) : Event → Flight
  | draw _ => f
  | send i => if i = k then f.send else f
  | answer i x => if i = k then f.settle x else f

def answerTo? (k : Nat) : Event → Option (Except RpcError Response)
  | draw _ | send _ => none
  | answer i x => if i = k then some x else none

end Event

namespace Event

variable {k : Nat} {f : Flight} {e : Event}

theorem request_act : (e.act k f).request = f.request := by
  cases e with
  | draw call => rfl
  | send i => rw [act]; split <;> simp
  | answer i x => rw [act]; split <;> simp

theorem id_act : (e.act k f).id = f.id := congrArg Request.id request_act

theorem isSent_act : (e.act k f).isSent = true ↔ f.isSent = true ∨ e = .send k := by
  cases e with
  | draw call => simp [act]
  | send i =>
    rw [act]
    by_cases hi : i = k
    · simp [hi]
    · simp [hi]
  | answer i x => rw [act]; split <;> simp

end Event

def draws (events : List Event) : Nat := events.countP Event.isDraw

def firstAnswer? (k : Nat) (events : List Event) : Option (Except RpcError Response) :=
  events.findSome? (Event.answerTo? k)

/-- What is shared by the calls of one client. -/
structure Traffic where
  /-- The number that is drawn next. -/
  nextId : UInt64 := 1
  flights : List Flight := []
  /-- The requests in the order in which they were sent, each with the index of its flight. -/
  sent : List (Nat × Request) := []

namespace Traffic

/-- The flight of this index, if it has drawn and not sent. -/
def waiting? (s : Traffic) (i : Nat) : Option Flight := s.flights[i]?.filter fun f => !f.isSent

def step (s : Traffic) : Event → Traffic
  | .draw call => { s with nextId := s.nextId + 1, flights := s.flights ++ [{ call, id := s.nextId }] }
  | .send i =>
    { s with flights := s.flights.modify i Flight.send
             sent := s.sent ++ ((s.waiting? i).map fun f => (i, f.request)).toList }
  | .answer i x => { s with flights := s.flights.modify i (Flight.settle x) }

def run (events : List Event) : Traffic := events.foldl step {}

/-- Whenever a call draws, those before it have sent their requests. -/
def InTurn (s : Traffic) : List Event → Prop
  | [] => True
  | e :: es => (e.isDraw = true → ∀ f ∈ s.flights, f.isSent = true) ∧ InTurn (s.step e) es

/-! ## One step -/

theorem waiting?_eq_some {s : Traffic} {i : Nat} {f : Flight} :
    s.waiting? i = some f ↔ s.flights[i]? = some f ∧ f.isSent = false := by
  simp [waiting?]

theorem getElem?_step {s : Traffic} {k : Nat} {f : Flight} (hf : s.flights[k]? = some f) (e : Event) :
    (s.step e).flights[k]? = some (e.act k f) := by
  cases e with
  | draw call =>
    rw [Event.act, ← hf]
    exact List.getElem?_append_left (List.getElem?_eq_some_iff.mp hf).1
  | send i =>
    show (s.flights.modify i _)[k]? = _
    rw [List.getElem?_modify, hf]
    rfl
  | answer i x =>
    show (s.flights.modify i _)[k]? = _
    rw [List.getElem?_modify, hf]
    rfl

theorem length_step (s : Traffic) (e : Event) :
    (s.step e).flights.length = s.flights.length + if e.isDraw then 1 else 0 := by
  cases e with
  | draw call => exact List.length_append
  | send i => exact List.length_modify ..
  | answer i x => exact List.length_modify ..

theorem eq_of_getElem?_step {s : Traffic} {e : Event} {k : Nat} {f : Flight} (hf : (s.step e).flights[k]? = some f) :
    (∃ g, s.flights[k]? = some g ∧ f = e.act k g) ∨
      (k = s.flights.length ∧ f.id = s.nextId ∧ f.isSent = false) := by
  by_cases hk : k < s.flights.length
  · left
    have hstep := getElem?_step (List.getElem?_eq_getElem hk) e
    exact ⟨s.flights[k], List.getElem?_eq_getElem hk, Option.some.inj (hf.symm.trans hstep)⟩
  · right
    have hlength := (List.getElem?_eq_some_iff.mp hf).1
    rw [length_step] at hlength
    cases e with
    | draw call =>
      obtain rfl : k = s.flights.length := by simp [Event.isDraw] at hlength; omega
      have hnew : (s.step (.draw call)).flights[s.flights.length]? = some { call, id := s.nextId } :=
        List.getElem?_concat_length
      obtain rfl := Option.some.inj (hf.symm.trans hnew)
      exact ⟨rfl, rfl, rfl⟩
    | send i => simp [Event.isDraw] at hlength; omega
    | answer i x => simp [Event.isDraw] at hlength; omega

theorem length_run (events : List Event) : (run events).flights.length = draws events := by
  induction events using List.reverseRecOn with
  | nil => rfl
  | append_singleton events e ih =>
    show ((events ++ [e]).foldl step {}).flights.length = _
    rw [List.foldl_append, draws, List.countP_append, List.countP_singleton, ← draws, ← ih]
    exact length_step _ e

/-! ## Numbers and requests -/

/-- Calls are numbered as they draw, and each that has sent has one request. -/
structure IsMatched (s : Traffic) : Prop where
  nextId : s.nextId = UInt64.ofNat (s.flights.length + 1)
  id : ∀ {k : Nat} {f : Flight}, s.flights[k]? = some f → f.id = UInt64.ofNat (k + 1)
  nodup : (s.sent.map Prod.fst).Nodup
  flight : ∀ {k : Nat} {q : Request}, (k, q) ∈ s.sent → ∃ f, s.flights[k]? = some f ∧ f.isSent = true ∧ q = f.request
  request : ∀ {k : Nat} {f : Flight}, s.flights[k]? = some f → f.isSent = true → (k, f.request) ∈ s.sent

namespace IsMatched

variable {s : Traffic}

theorem not_mem_sent (h : s.IsMatched) {i : Nat} {f : Flight} (hf : s.waiting? i = some f) :
    i ∉ s.sent.map Prod.fst := by
  obtain ⟨hf, hwaiting⟩ := waiting?_eq_some.mp hf
  rintro hmem
  obtain ⟨⟨i, q⟩, hq, rfl⟩ := List.mem_map.mp hmem
  obtain ⟨g, hg, hsent, -⟩ := h.flight hq
  obtain rfl : f = g := Option.some.inj (hf.symm.trans hg)
  rw [hwaiting] at hsent
  cases hsent

theorem nextId_step (h : s.IsMatched) (e : Event) :
    (s.step e).nextId = UInt64.ofNat ((s.step e).flights.length + 1) := by
  rw [length_step]
  cases e with
  | draw call =>
    show s.nextId + 1 = _
    rw [h.nextId]
    exact (UInt64.ofNat_add ..).symm
  | send i => exact h.nextId
  | answer i x => exact h.nextId

theorem nodup_step (h : s.IsMatched) (e : Event) : ((s.step e).sent.map Prod.fst).Nodup := by
  cases e with
  | draw call => exact h.nodup
  | send i =>
    show ((s.sent ++ _).map Prod.fst).Nodup
    rcases hwaiting : s.waiting? i with _ | f
    · simpa using h.nodup
    · rw [List.map_append, Option.map_some, Option.toList_some, List.map_singleton, ← List.concat_eq_append]
      exact List.Nodup.concat (h.not_mem_sent hwaiting) h.nodup
  | answer i x => exact h.nodup

/-- What was sent before stays, and what is new is the request of a flight that has waited. -/
theorem mem_sent_step {e : Event} {k : Nat} {q : Request} :
    (k, q) ∈ (s.step e).sent ↔ (k, q) ∈ s.sent ∨ e = .send k ∧ ∃ f, s.waiting? k = some f ∧ q = f.request := by
  cases e with
  | draw call => simp [Traffic.step]
  | send i =>
    show (k, q) ∈ s.sent ++ _ ↔ _
    rw [List.mem_append]
    apply or_congr Iff.rfl
    rcases hwaiting : s.waiting? i with _ | f
    · simp
      rintro rfl f hf
      rw [hwaiting] at hf
      cases hf
    · simp
      constructor
      · rintro ⟨rfl, rfl⟩
        exact ⟨rfl, f, hwaiting, rfl⟩
      · rintro ⟨rfl, g, hg, rfl⟩
        rw [hwaiting] at hg
        exact ⟨rfl, by rw [Option.some.inj hg]⟩
  | answer i x => simp [Traffic.step]

theorem flight_step (h : s.IsMatched) {e : Event} {k : Nat} {q : Request} (hq : (k, q) ∈ (s.step e).sent) :
    ∃ f, (s.step e).flights[k]? = some f ∧ f.isSent = true ∧ q = f.request := by
  rcases mem_sent_step.mp hq with hold | ⟨rfl, f, hwaiting, rfl⟩
  · obtain ⟨f, hf, hsent, rfl⟩ := h.flight hold
    exact ⟨_, getElem?_step hf e, Event.isSent_act.mpr (.inl hsent), Event.request_act.symm⟩
  · obtain ⟨hf, -⟩ := waiting?_eq_some.mp hwaiting
    exact ⟨_, getElem?_step hf _, Event.isSent_act.mpr (.inr rfl), Event.request_act.symm⟩

theorem request_step (h : s.IsMatched) {e : Event} {k : Nat} {f : Flight} (hf : (s.step e).flights[k]? = some f)
    (hsent : f.isSent = true) : (k, f.request) ∈ (s.step e).sent := by
  rw [mem_sent_step]
  rcases eq_of_getElem?_step hf with ⟨g, hg, rfl⟩ | ⟨-, -, hdrawn⟩
  · rw [Event.request_act]
    by_cases hbefore : g.isSent = true
    · exact .inl (h.request hg hbefore)
    · have hsend := (Event.isSent_act.mp hsent).resolve_left hbefore
      exact .inr ⟨hsend, g, waiting?_eq_some.mpr ⟨hg, by simpa using hbefore⟩, rfl⟩
  · rw [hdrawn] at hsent
    cases hsent

theorem id_step (h : s.IsMatched) {e : Event} {k : Nat} {f : Flight} (hf : (s.step e).flights[k]? = some f) :
    f.id = UInt64.ofNat (k + 1) := by
  rcases eq_of_getElem?_step hf with ⟨g, hg, rfl⟩ | ⟨rfl, hid, -⟩
  · rw [Event.id_act, h.id hg]
  · rw [hid, h.nextId]

theorem step (h : s.IsMatched) (e : Event) : (s.step e).IsMatched :=
  ⟨h.nextId_step e, h.id_step, h.nodup_step e, h.flight_step, h.request_step⟩

end IsMatched

theorem isMatched_foldl {s : Traffic} (h : s.IsMatched) (events : List Event) : (events.foldl step s).IsMatched := by
  induction events generalizing s with
  | nil => exact h
  | cons e events ih => exact ih (h.step e)

theorem isMatched_empty : IsMatched {} := by
  constructor <;> simp

theorem isMatched_run (events : List Event) : (run events).IsMatched := isMatched_foldl isMatched_empty events

/-- As long as there are no more calls than numbers, no two have the same. -/
theorem IsMatched.nodup_ids {s : Traffic} (h : s.IsMatched) (hsize : s.flights.length ≤ UInt64.size) :
    (s.flights.map Flight.id).Nodup := by
  rw [List.Nodup, List.pairwise_iff_getElem]
  intro j k hj hk hlt heq
  rw [List.length_map] at hj hk
  rw [List.getElem_map, List.getElem_map, h.id (List.getElem?_eq_getElem hj), h.id (List.getElem?_eq_getElem hk)] at heq
  have hnat := congrArg UInt64.toNat heq
  rw [UInt64.toNat_ofNat', UInt64.toNat_ofNat'] at hnat
  simp only [UInt64.size] at hsize
  omega

/-! ## Requests in turn -/

/-- The requests went out in the order of the calls, and no more than one call has yet to send. -/
structure IsOrdered (s : Traffic) : Prop where
  order : s.sent.map Prod.fst = List.range s.sent.length
  length_le : s.flights.length ≤ s.sent.length + 1

namespace IsOrdered

variable {s : Traffic}

theorem lt_of_isSent (h : s.IsOrdered) (hs : s.IsMatched) {k : Nat} {f : Flight} (hf : s.flights[k]? = some f)
    (hsent : f.isSent = true) : k < s.sent.length := by
  have hmem : k ∈ s.sent.map Prod.fst := List.mem_map.mpr ⟨_, hs.request hf hsent, rfl⟩
  rwa [h.order, List.mem_range] at hmem

theorem step (h : s.IsOrdered) (hs : s.IsMatched) {e : Event}
    (hturn : e.isDraw = true → ∀ f ∈ s.flights, f.isSent = true) : (s.step e).IsOrdered := by
  have hlength := length_step s e
  cases e with
  | draw call =>
    refine ⟨h.order, ?_⟩
    -- The last flight has sent, so that there are as many requests as flights.
    have hall : s.flights.length ≤ s.sent.length := by
      apply Nat.le_of_not_lt
      intro hlt
      have hlast := h.lt_of_isSent hs (List.getElem?_eq_getElem hlt) (hturn rfl _ (List.getElem_mem hlt))
      omega
    rw [hlength]
    exact Nat.add_le_add_right hall 1
  | send i =>
    rcases hwaiting : s.waiting? i with _ | f
    · have hsame : (s.step (.send i)).sent = s.sent := by simp [Traffic.step, hwaiting]
      constructor
      · rw [hsame, h.order]
      · rw [hlength, hsame]
        exact h.length_le
    · have hnew := hs.not_mem_sent hwaiting
      have hlt := (List.getElem?_eq_some_iff.mp (waiting?_eq_some.mp hwaiting).1).1
      rw [h.order, List.mem_range] at hnew
      obtain rfl : i = s.sent.length := by have := h.length_le; omega
      have hsent : (s.step (.send s.sent.length)).sent = s.sent ++ [(s.sent.length, f.request)] := by
        simp [Traffic.step, hwaiting]
      constructor
      · rw [hsent, List.map_append, h.order, List.length_append]
        exact List.range_succ.symm
      · rw [hlength, hsent, List.length_append]
        exact Nat.le_succ_of_le h.length_le
  | answer i x =>
    constructor
    · exact h.order
    · rw [hlength]
      exact h.length_le

end IsOrdered

theorem isOrdered_foldl {s : Traffic} {events : List Event} (h : s.IsOrdered) (hs : s.IsMatched)
    (hturn : s.InTurn events) : (events.foldl step s).IsOrdered := by
  induction events generalizing s with
  | nil => exact h
  | cons e events ih => exact ih (h.step hs hturn.1) (hs.step e) hturn.2

theorem isOrdered_run {events : List Event} (hturn : InTurn {} events) : (run events).IsOrdered :=
  isOrdered_foldl ⟨rfl, Nat.zero_le _⟩ isMatched_empty hturn

/-! ## Outcomes -/

theorem getElem?_foldl {s : Traffic} {k : Nat} {f : Flight} (hf : s.flights[k]? = some f) (events : List Event) :
    (events.foldl step s).flights[k]? = some (events.foldl (Event.act k) f) := by
  induction events generalizing s f with
  | nil => exact hf
  | cons e events ih => exact ih (getElem?_step hf e)

section Stage

variable {α : Type} {call : Call α} {id : UInt64} {k : Nat}

theorem foldl_act_drawn {events : List Event} (hsend : .send k ∉ events) :
    events.foldl (Event.act k) { call, id } = { call, id } := by
  induction events with
  | nil => rfl
  | cons e events ih =>
    rw [List.mem_cons, not_or] at hsend
    have hstay : e.act k { call, id } = { call, id } := by
      cases e with
      | draw call => rfl
      | send i =>
        rw [Event.act, if_neg]
        rintro rfl
        exact hsend.1 rfl
      | answer i x => rw [Event.act]; split <;> rfl
    rw [List.foldl_cons, hstay, ih hsend.2]

theorem foldl_act_done (outcome : Except RpcError α) (events : List Event) :
    events.foldl (Event.act k) { call, id, stage := .done outcome } = { call, id, stage := .done outcome } := by
  apply List.foldl_fixed'
  intro e
  cases e with
  | draw call => rfl
  | send i => rw [Event.act]; split <;> rfl
  | answer i x => rw [Event.act]; split <;> rfl

/-- A call that has sent is decided by the first answer to it. -/
theorem foldl_act_sent (events : List Event) :
    events.foldl (Event.act k) { call, id, stage := .sent } =
      { call, id, stage := (firstAnswer? k events).elim .sent fun x => .done (call.outcome id x) } := by
  induction events with
  | nil => rfl
  | cons e events ih =>
    rw [List.foldl_cons, firstAnswer?, List.findSome?_cons, ← firstAnswer?]
    cases e with
    | draw call => exact ih
    | send i =>
      rw [Event.act]
      split <;> exact ih
    | answer i x =>
      rw [Event.act, Event.answerTo?]
      by_cases hi : i = k
      · rw [if_pos hi, if_pos hi]
        exact foldl_act_done (call.outcome id x) events
      · rw [if_neg hi, if_neg hi]
        exact ih

end Stage

/-- What a call comes to is what the events after its drawing make of it. -/
theorem getElem?_run {α : Type} (before after : List Event) (call : Call α) :
    (run (before ++ .draw call :: after)).flights[draws before]? =
      some (after.foldl (Event.act (draws before)) { call, id := UInt64.ofNat (draws before + 1) }) := by
  have hlength := length_run before
  have hdrawn : ((run before).step (.draw call)).flights[draws before]? =
      some { call, id := UInt64.ofNat (draws before + 1) } := by
    show ((run before).flights ++ [_])[draws before]? = _
    rw [(isMatched_run before).nextId, hlength, ← hlength, List.getElem?_concat_length]
  rw [run, List.foldl_append]
  exact getElem?_foldl hdrawn after

/-- Whatever calls are made, and in whatever order they draw, send and are answered, there is one number for each, no two
the same, and one request for each that has sent, with its number. The requests go out in the order of the numbers if no
call draws while another has yet to send. What becomes of a call is decided by the first answer after its request, and by
no other. It is a value only if that is a response without an error, and with no number or that of the request. A response
with another number is a mismatch, unless it holds an error of the node: then that is what the call fails with. -/
theorem run_calls (events : List Event) :
    (run events).flights.length = draws events ∧
    (∀ k f, (run events).flights[k]? = some f → f.id = UInt64.ofNat (k + 1)) ∧
    (draws events ≤ UInt64.size → ((run events).flights.map Flight.id).Nodup) ∧
    ((run events).sent.map Prod.fst).Nodup ∧
    (∀ k q, (k, q) ∈ (run events).sent ↔
      ∃ f, (run events).flights[k]? = some f ∧ f.isSent = true ∧ f.request = q) ∧
    (InTurn {} events → ∀ k i q, (run events).sent[k]? = some (i, q) → i = k ∧ q.id = UInt64.ofNat (k + 1)) ∧
    ∀ before after α (call : Call α), events = before ++ .draw call :: after →
      (.send (draws before) ∉ after →
        (run events).flights[draws before]? = some { call, id := UInt64.ofNat (draws before + 1) }) ∧
      ∀ between rest, after = between ++ .send (draws before) :: rest → .send (draws before) ∉ between →
        ∃ q stage, q = call.request (UInt64.ofNat (draws before + 1)) ∧ (draws before, q) ∈ (run events).sent ∧
          (run events).flights[draws before]? = some { call, id := q.id, stage } ∧
          stage = (firstAnswer? (draws before) rest).elim .sent (fun x => .done (call.outcome q.id x)) ∧
          (∀ v, stage = .done (.ok v) → ∃ r, firstAnswer? (draws before) rest = some (.ok r) ∧ r.error = none ∧
            ∀ i, r.id = some i → i = q.id) ∧
          ∀ r i, firstAnswer? (draws before) rest = some (.ok r) → r.id = some i → i ≠ q.id →
            stage = .done (.error (r.error.elim (.invalidResponse (.otherId i q.id)) .node)) := by
  have hmatched := isMatched_run events
  refine ⟨length_run events, fun k f => hmatched.id, fun hsize => hmatched.nodup_ids ?_, hmatched.nodup, ?_, ?_, ?_⟩
  · rwa [length_run]
  · intro k q
    constructor
    · intro hq
      obtain ⟨f, hf, hsent, rfl⟩ := hmatched.flight hq
      exact ⟨f, hf, hsent, rfl⟩
    · rintro ⟨f, hf, hsent, rfl⟩
      exact hmatched.request hf hsent
  · intro hturn k i q hq
    obtain rfl : i = k := by
      have horder : ((run events).sent.map Prod.fst)[k]? = _ := congrArg (·[k]?) (isOrdered_run hturn).order
      rw [List.getElem?_map, hq, List.getElem?_range (List.getElem?_eq_some_iff.mp hq).1] at horder
      exact Option.some.inj horder
    obtain ⟨f, hf, -, rfl⟩ := hmatched.flight (List.mem_of_getElem? hq)
    exact ⟨rfl, hmatched.id hf⟩
  · rintro before after α call rfl
    have hflight := getElem?_run before after call
    constructor
    · intro hsend
      rw [hflight, foldl_act_drawn hsend]
    · rintro between rest rfl hsend
      -- The call waits until it sends, and from then on for its answer.
      have hstage := hflight
      rw [List.foldl_append, foldl_act_drawn hsend, List.foldl_cons, Event.act, if_pos rfl] at hstage
      rw [show Flight.send { call, id := UInt64.ofNat (draws before + 1) } =
        { call, id := UInt64.ofNat (draws before + 1), stage := .sent } from rfl, foldl_act_sent] at hstage
      refine ⟨_, _, rfl, ?_, hstage, rfl, ?_, ?_⟩
      · apply hmatched.request hstage
        cases firstAnswer? (draws before) rest <;> rfl
      · intro v hv
        rcases hx : firstAnswer? (draws before) rest with _ | x
        · rw [hx] at hv
          cases hv
        · rw [hx] at hv
          obtain ⟨r, rfl, herror, hid⟩ := Call.exists_of_outcome_eq_ok (Stage.done.inj hv)
          exact ⟨r, rfl, herror, hid⟩
      · intro r i hr hi hne
        rw [hr]
        exact congrArg Stage.done (Call.outcome_otherId hi hne)

/-- Two calls in turn, of which the second is answered first. -/
theorem run_calls_in_turn :
    let call := Call.ofRead "getblockcount" [] Json.readUInt32
    let events := [.draw call, .send 0, .draw call, .send 1, .answer 1 (.ok (.success 2 (.nat 7))),
      .answer 0 (.error (.transport "timeout"))]
    InTurn {} events ∧ ((run events).flights.map Flight.id).Nodup ∧
      (∀ i q, (run events).sent[1]? = some (i, q) → i = 1 ∧ q.id = 2) ∧
      (run events).flights[1]? = some { call, id := 2, stage := .done (.ok 7) } := by
  intro call events
  have hturn : InTurn {} events := by simp [events, InTurn, step, Event.isDraw, Flight.isSent, Flight.send]
  obtain ⟨-, -, hnodup, -, -, horder, hcalls⟩ := run_calls events
  refine ⟨hturn, hnodup (by decide), horder hturn 1, ?_⟩
  obtain ⟨q, stage, rfl, -, hflight, rfl, -, -⟩ :=
    (hcalls [.draw call, .send 0] _ _ call rfl).2 [] [.answer 1 _, .answer 0 _] rfl List.not_mem_nil
  exact hflight

/-- A request may overtake one with a smaller number. -/
example (call : Call Nat) :
    (run [.draw call, .draw call, .send 1, .send 0]).sent.map (fun e => e.2.id) = [2, 1] := rfl

/-- Of two calls the first gets no answer. An error that bears its number comes to the second, and decides it. -/
theorem run_stale :
    ∃ f, (run [.draw (.ofRead "getblockcount" [] Json.readUInt32), .send 0, .answer 0 (.error (.transport "timeout")),
        .draw (.ofRead "getblockcount" [] Json.readUInt32), .send 1,
        .answer 1 (.ok (.failure 1 { code := -500, message := "stale" }))]).flights[1]? = some f ∧
      f.id = 2 ∧ f.stage = .done (.error (.node { code := -500, message := "stale" })) := by
  exact ⟨_, rfl, rfl, rfl⟩

end Traffic

/-! ## Methods of the node -/

inductive IsMethod : {α : Type} → Session RpcError α → Prop where
  | blockCount : IsMethod blockCount
  | invokeScript (script : Bytes) (signers : List Signer) : IsMethod (invokeScript script signers)
  | invokeFunction (contract : Hash160) (method : String) (parameters : List Parameter) (signers : List Signer) :
    IsMethod (invokeFunction contract method parameters signers)
  | networkFee (transaction : Bytes) : IsMethod (networkFee transaction)
  | committee : IsMethod committee
  | sendRawTransaction (transaction : Bytes) : IsMethod (sendRawTransaction transaction)
  | applicationLog (transaction : Hash256) : IsMethod (applicationLog transaction)

theorem Call.session_ofRead {α : Type} (method : String) (params : List Json) (read : Json.Read α) :
    (Call.ofRead method params read).session = Rpc.call method params read := Session.bind_pure _

theorem IsMethod.exists_call {α : Type} {m : Session RpcError α} (h : IsMethod m) : ∃ a : Call α, a.session = m := by
  cases h with
  | committee =>
    -- The keys are read after the result.
    exact ⟨{ Result := List String, method := "getcommittee", params := [], read := Json.readList Json.readText
             finish := _ }, rfl⟩
  | _ => exact ⟨_, Call.session_ofRead ..⟩

namespace Traffic

/-- The trace has the requests of the traffic, and the next number. -/
def Shows (s : Traffic) (t : Trace) : Prop := s.sent.map Prod.snd = t.requests ∧ s.nextId = t.nextId

theorem shows_session {α : Type} (a : Call α) (c : Client) {s : Traffic} {t : Trace} (h : s.Shows t) :
    let k := s.flights.length
    let s' := [.draw a, .send k, .answer k (c.node t.requests (a.request t.nextId))].foldl step s
    s'.Shows (a.session c t).2 ∧
      s'.flights[k]? = some { call := a, id := t.nextId, stage := .done (a.session c t).1 } := by
  obtain ⟨hrequests, hid⟩ := h
  have hdrawn : (s.step (.draw a)).flights[s.flights.length]? = some { call := a, id := t.nextId } := by
    rw [← hid]
    exact List.getElem?_concat_length
  have hwaiting : (s.step (.draw a)).waiting? s.flights.length = some { call := a, id := t.nextId } :=
    waiting?_eq_some.mpr ⟨hdrawn, rfl⟩
  intro k s'
  rw [a.session_apply]
  refine ⟨⟨?_, ?_⟩, ?_⟩
  · show ((s.sent ++ (((s.step (.draw a)).waiting? k).map _).toList).map Prod.snd) = _
    rw [hwaiting, List.map_append, hrequests]
    rfl
  · show s.nextId + 1 = Trace.nextId _
    rw [hid, Trace.nextId, Trace.nextId, List.length_append]
    exact (UInt64.ofNat_add ..).symm
  · apply (getElem?_foldl hdrawn [.send k, .answer k (c.node t.requests (a.request t.nextId))]).trans
    simp [k, Event.act, Flight.send, Flight.settle]

/-- A method of the node that nothing interrupts is a call that draws, sends and is answered. -/
theorem exists_call_of_isMethod {α : Type} {m : Session RpcError α} (h : IsMethod m) (c : Client) {s : Traffic}
    {t : Trace} (hs : s.Shows t) :
    ∃ a : Call α, a.session = m ∧
      let k := s.flights.length
      let s' := [.draw a, .send k, .answer k (c.node t.requests (a.request t.nextId))].foldl step s
      s'.Shows (m c t).2 ∧ s'.flights[k]? = some { call := a, id := t.nextId, stage := .done (m c t).1 } := by
  obtain ⟨a, rfl⟩ := h.exists_call
  exact ⟨a, rfl, shows_session a c hs⟩

end Traffic

end N3.Rpc
