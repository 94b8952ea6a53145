import N3.Proofs.Rpc.Requests

/-!
# The answers in a trace

What a session makes of answers is read off its trace. `Answered` finds the one request that was made with a method, and
what its answer reads as. Whatever asks with other methods keeps it, before that request and after it.
-/

set_option autoImplicit false

namespace N3.Rpc

variable {ε ε' α β : Type} {c : Client} {t t₁ t' : Trace} {method : String} {params : List Json} {read : Json.Read α}
  {a : α}

/-- Between two traces one request alone was made with the method. It had these parameters, and its answer reads as
`a`. -/
def Answered (c : Client) (t t' : Trace) (method : String) (params : List Json) (read : Json.Read α) (a : α) : Prop :=
  ∃ before q after, t'.requests = t.requests ++ (before ++ q :: after) ∧ q.method = method ∧ q.params = params ∧
    (∀ r ∈ before ++ after, r.method ≠ method) ∧ q.outcome read (c.node (t.requests ++ before) q) = .ok a

namespace Answered

theorem of_call (h : (call method params read).Gives c t a t') : Answered c t t' method params read a := by
  refine ⟨[], _, [], Session.requests_call h, rfl, rfl, fun r hr => absurd hr List.not_mem_nil, ?_⟩
  rw [List.append_nil]
  exact (Prod.mk.inj h).1

theorem after (h : t.Extends (·.method ≠ method) t₁) (h' : Answered c t₁ t' method params read a) :
    Answered c t t' method params read a := by
  obtain ⟨new, hnew, hother⟩ := h
  obtain ⟨before, q, after, hrequests, hmethod, hparams, honly, hanswer⟩ := h'
  refine ⟨new ++ before, q, after, ?_, hmethod, hparams, ?_, ?_⟩
  · rw [hrequests, hnew, List.append_assoc, List.append_assoc]
  · intro r hr
    rw [List.append_assoc] at hr
    exact (List.mem_append.mp hr).elim (hother r) (honly r)
  · rwa [← List.append_assoc, ← hnew]

theorem before (h : Answered c t t₁ method params read a) (h' : t₁.Extends (·.method ≠ method) t') :
    Answered c t t' method params read a := by
  obtain ⟨new, hnew, hother⟩ := h'
  obtain ⟨before, q, after, hrequests, hmethod, hparams, honly, hanswer⟩ := h
  refine ⟨before, q, after ++ new, ?_, hmethod, hparams, ?_, hanswer⟩
  · rw [hnew, hrequests]
    simp only [List.append_assoc, List.cons_append]
  · intro r hr
    rw [← List.append_assoc] at hr
    exact (List.mem_append.mp hr).elim (honly r) (hother r)

end Answered

namespace Session

/-! ## Reports -/

/-- Whatever the node answers, the session reports nothing. -/
def IsQuiet (s : Session ε α) : Prop := ∀ c t, (s c t).2.shortfalls = t.shortfalls

theorem IsQuiet.gives {s : Session ε α} (h : s.IsQuiet) (hs : s.Gives c t a t') : t'.shortfalls = t.shortfalls := by
  have hquiet := h c t
  rwa [hs] at hquiet

theorem isQuiet_pure (a : α) : (pure a : Session ε α).IsQuiet := fun _ _ => rfl

theorem isQuiet_fail (e : ε) : (fail e : Session ε α).IsQuiet := fun _ _ => rfl

theorem isQuiet_ofExcept (x : Except ε α) : (ofExcept x).IsQuiet := fun _ _ => rfl

theorem isQuiet_settings : (settings : Session ε Settings).IsQuiet := fun _ _ => rfl

theorem isQuiet_call : (call method params read).IsQuiet := fun _ _ => rfl

theorem IsQuiet.mapError {s : Session ε α} (h : s.IsQuiet) (f : ε → ε') : (s.mapError f).IsQuiet := h

theorem IsQuiet.bind {s : Session ε α} {f : α → Session ε β} (hs : s.IsQuiet) (hf : ∀ a, (f a).IsQuiet) :
    (s >>= f).IsQuiet := by
  intro c t
  have hfirst := hs c t
  rw [bind_apply]
  rcases h : s c t with ⟨x, t₁⟩
  rw [h] at hfirst
  cases x with
  | error e => exact hfirst
  | ok a => exact (hf a c t₁).trans hfirst

end Session

end N3.Rpc
