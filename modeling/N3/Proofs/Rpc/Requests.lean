import N3.Proofs.Rpc.Session
import N3.Rpc.Method

/-!
# The requests of a session

A session adds requests to a trace and takes none away. `AsksOnly` says of all of them what they satisfy, whatever the
node answers and whether the session succeeds or not; it goes through a sequence step by step. `IsAsking` says that there
is at least one, for which some step has to ask that is surely reached.
-/

set_option autoImplicit false

namespace N3.Rpc

variable {P : Request → Prop}

/-- The requests of the second trace are those of the first, and then some that all satisfy `P`. -/
def Trace.Extends (P : Request → Prop) (t t' : Trace) : Prop :=
  ∃ new, t'.requests = t.requests ++ new ∧ ∀ q ∈ new, P q

namespace Trace.Extends

theorem of_eq {t t' : Trace} (h : t'.requests = t.requests) : Extends P t t' :=
  ⟨[], by rw [h, List.append_nil], fun _ hq => absurd hq List.not_mem_nil⟩

theorem trans {t t' t'' : Trace} (h : Extends P t t') (h' : Extends P t' t'') : Extends P t t'' := by
  obtain ⟨new, hnew, hP⟩ := h
  obtain ⟨new', hnew', hP'⟩ := h'
  refine ⟨new ++ new', by rw [hnew', hnew, List.append_assoc], ?_⟩
  intro q hq
  exact (List.mem_append.mp hq).elim (hP q) (hP' q)

end Trace.Extends

namespace Session

variable {ε ε' α β : Type}

/-- Every request of the session satisfies `P`. -/
def AsksOnly (P : Request → Prop) (s : Session ε α) : Prop := ∀ c t, Trace.Extends P t (s c t).2

theorem AsksOnly.extends {s : Session ε α} (h : s.AsksOnly P) {c : Client} {t t' : Trace} {a : α}
    (hs : s.Gives c t a t') : t.Extends P t' := by
  have htrace := h c t
  rwa [hs] at htrace

theorem requests_call {method : String} {params : List Json} {read : Json.Read α} {c : Client} {t t' : Trace} {a : α}
    (h : (call method params read).Gives c t a t') :
    t'.requests = t.requests ++ [{ method, params, id := t.nextId }] := by
  rw [← (Prod.mk.inj h).2]

theorem AsksOnly.mono {Q : Request → Prop} {s : Session ε α} (h : s.AsksOnly P) (hPQ : ∀ q, P q → Q q) :
    s.AsksOnly Q := by
  intro c t
  obtain ⟨new, hnew, hP⟩ := h c t
  exact ⟨new, hnew, fun q hq => hPQ q (hP q hq)⟩

/-- What asks with one method does not ask with another. -/
theorem AsksOnly.extends_ne {s : Session ε α} {method other : String} {c : Client} {t t' : Trace} {a : α}
    (h : s.AsksOnly fun q => q.method = method) (hne : method ≠ other) (hs : s.Gives c t a t') :
    t.Extends (fun q => q.method ≠ other) t' := by
  have hother : ∀ q : Request, q.method = method → q.method ≠ other := by
    intro q hq
    rwa [hq]
  exact (h.mono hother).extends hs

theorem AsksOnly.any {s : Session ε α} (h : s.AsksOnly P) : s.AsksOnly fun _ => True := h.mono fun _ _ => trivial

/-- What asks nothing leaves the requests as they are. -/
theorem AsksOnly.requests_eq {s : Session ε α} (h : s.AsksOnly fun _ => False) (c : Client) (t : Trace) :
    (s c t).2.requests = t.requests := by
  obtain ⟨new, hnew, hfalse⟩ := h c t
  rwa [List.eq_nil_iff_forall_not_mem.mpr hfalse, List.append_nil] at hnew

theorem asksOnly_pure (a : α) : AsksOnly P (pure a : Session ε α) := fun _ _ => .of_eq rfl

theorem asksOnly_fail (e : ε) : AsksOnly P (fail e : Session ε α) := fun _ _ => .of_eq rfl

theorem asksOnly_ofExcept (x : Except ε α) : AsksOnly P (ofExcept x) := fun _ _ => .of_eq rfl

theorem asksOnly_settings : AsksOnly P (settings : Session ε Settings) := fun _ _ => .of_eq rfl

theorem asksOnly_report (s : Shortfall) : AsksOnly P (report s : Session ε Unit) := fun _ _ => .of_eq rfl

theorem asksOnly_call {method : String} {params : List Json} {read : Json.Read α} :
    AsksOnly (fun q => q.method = method) (call method params read) := fun _ t =>
  ⟨[{ method, params, id := t.nextId }], rfl, fun _ hq => List.mem_singleton.mp hq ▸ rfl⟩

theorem AsksOnly.mapError {s : Session ε α} (h : s.AsksOnly P) (f : ε → ε') : (s.mapError f).AsksOnly P := h

theorem AsksOnly.bind {s : Session ε α} {f : α → Session ε β} (hs : s.AsksOnly P) (hf : ∀ a, (f a).AsksOnly P) :
    (s >>= f).AsksOnly P := by
  intro c t
  have hfirst := hs c t
  rw [bind_apply]
  rcases h : s c t with ⟨x, t₁⟩
  rw [h] at hfirst
  cases x with
  | error e => exact hfirst
  | ok a => exact hfirst.trans (hf a c t₁)

/-! ## Sessions that ask -/

/-- Whatever the node answers, the session makes a request. -/
def IsAsking (s : Session ε α) : Prop := ∀ c t, t.requests.length < (s c t).2.requests.length

theorem isAsking_call {method : String} {params : List Json} {read : Json.Read α} :
    (call method params read).IsAsking := by
  intro c t
  show t.requests.length < (t.requests ++ [_]).length
  rw [List.length_append]
  exact Nat.lt_succ_self _

theorem IsAsking.mapError {s : Session ε α} (h : s.IsAsking) (f : ε → ε') : (s.mapError f).IsAsking := h

/-- What follows takes no request away. -/
theorem IsAsking.bind {s : Session ε α} {f : α → Session ε β} (hs : s.IsAsking)
    (hf : ∀ a, (f a).AsksOnly fun _ => True) : (s >>= f).IsAsking := by
  intro c t
  have hfirst := hs c t
  rw [bind_apply]
  rcases h : s c t with ⟨x, t₁⟩
  rw [h] at hfirst
  cases x with
  | error e => exact hfirst
  | ok a =>
    obtain ⟨new, hnew, -⟩ := hf a c t₁
    dsimp only at hfirst ⊢
    rw [hnew, List.length_append]
    omega

theorem IsAsking.after {s : Session ε α} {f : α → Session ε β} (hs : s.AsksOnly fun _ => True)
    (hgives : s.IsAsking ∨ ∀ c t, ∃ a, (s c t).1 = .ok a) (hf : ∀ a, (f a).IsAsking) : (s >>= f).IsAsking := by
  intro c t
  obtain ⟨new, hnew, -⟩ := hs c t
  rw [bind_apply]
  rcases h : s c t with ⟨x, t₁⟩
  rw [h] at hnew
  dsimp only at hnew
  cases x with
  | error e =>
    rcases hgives with hasking | hgives
    · have hfirst := hasking c t
      rwa [h] at hfirst
    · obtain ⟨a, ha⟩ := hgives c t
      rw [h] at ha
      cases ha
  | ok a =>
    have hnext := hf a c t₁
    rw [hnew, List.length_append] at hnext
    exact Nat.lt_of_le_of_lt (Nat.le_add_right _ _) hnext

end Session

/-! ## Methods -/

open Session

theorem asksOnly_blockCount : blockCount.AsksOnly fun q => q.method = "getblockcount" := asksOnly_call

theorem asksOnly_invokeScript (script : Bytes) (signers : List Signer) :
    (invokeScript script signers).AsksOnly fun q => q.method = "invokescript" := asksOnly_call

theorem asksOnly_invokeFunction (contract : Hash160) (method : String) (parameters : List Parameter)
    (signers : List Signer) :
    (invokeFunction contract method parameters signers).AsksOnly fun q => q.method = "invokefunction" := asksOnly_call

theorem asksOnly_committee : committee.AsksOnly fun q => q.method = "getcommittee" :=
  asksOnly_call.bind fun _ => asksOnly_ofExcept _

theorem isAsking_committee : committee.IsAsking := isAsking_call.bind fun _ => asksOnly_ofExcept _

end N3.Rpc
