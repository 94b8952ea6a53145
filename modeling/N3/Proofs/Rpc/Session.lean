import N3.Proofs.Outcome
import N3.Rpc.Method

/-!
# Sessions that succeed

What is known when a session gives a value (`Gives`): each step of it gave one, from the trace that the step before
left.
-/

set_option autoImplicit false

namespace N3.Rpc.Session

variable {ε ε' α β : Type} {c : Client} {t t' : Trace}

/-- Against the client and after the trace, the session gives `a` and leaves `t'`. -/
def Gives (s : Session ε α) (c : Client) (t : Trace) (a : α) (t' : Trace) : Prop := s c t = (.ok a, t')

theorem bind_apply (s : Session ε α) (f : α → Session ε β) (c : Client) (t : Trace) :
    (s >>= f) c t = match s c t with
      | (.ok a, t') => f a c t'
      | (.error e, t') => (.error e, t') := rfl

theorem bind_bind {γ : Type} (s : Session ε α) (f : α → Session ε β) (g : β → Session ε γ) :
    (s >>= f) >>= g = s >>= fun a => f a >>= g := by
  funext c t
  rw [bind_apply, bind_apply, bind_apply]
  rcases s c t with ⟨x, t₁⟩
  cases x <;> rfl

theorem bind_pure (s : Session ε α) : s >>= pure = s := by
  funext c t
  rw [bind_apply]
  rcases s c t with ⟨x, t₁⟩
  cases x <;> rfl

theorem snd_bind_pure (s : Session ε α) (f : α → β) : ((s >>= fun a => pure (f a)) c t).2 = (s c t).2 := by
  rw [bind_apply]
  rcases s c t with ⟨x, t₁⟩
  cases x <;> rfl

theorem mapError_bind (s : Session ε α) (f : α → Session ε β) (g : ε → ε') :
    (s >>= f).mapError g = s.mapError g >>= fun a => (f a).mapError g := by
  funext c t
  rw [bind_apply, mapError, mapError, bind_apply]
  rcases s c t with ⟨x, t₁⟩
  cases x <;> rfl

theorem gives_bind {s : Session ε α} {f : α → Session ε β} {b : β} (h : (s >>= f).Gives c t b t') :
    ∃ a t₁, s.Gives c t a t₁ ∧ (f a).Gives c t₁ b t' := by
  unfold Gives at h
  rw [bind_apply] at h
  rcases hs : s c t with ⟨x, t₁⟩
  rw [hs] at h
  cases x with
  | error e => cases h
  | ok a => exact ⟨a, t₁, hs, h⟩

theorem gives_pure {a b : α} (h : (pure a : Session ε α).Gives c t b t') : b = a ∧ t' = t := by
  cases h
  exact ⟨rfl, rfl⟩

theorem gives_ofExcept {x : Except ε α} {a : α} (h : (ofExcept x).Gives c t a t') : x = .ok a ∧ t' = t := by
  obtain ⟨hx, ht⟩ := Prod.mk.inj h
  exact ⟨hx, ht.symm⟩

theorem gives_mapError {s : Session ε α} {f : ε → ε'} {a : α} (h : (s.mapError f).Gives c t a t') :
    s.Gives c t a t' := by
  obtain ⟨hvalue, htrace⟩ := Prod.mk.inj h
  exact Prod.ext (Outcome.mapError_eq_ok.mp hvalue) htrace

theorem gives_of_ok {s : Session ε α} {a : α} (h : (s c t).1 = .ok a) : s.Gives c t a (s c t).2 := Prod.ext h rfl

/-- The value of a sequence, if its first step gives one. -/
theorem fst_bind {s : Session ε α} {f : α → Session ε β} {a : α} (hs : (s c t).1 = .ok a) :
    ((s >>= f) c t).1 = (f a c (s c t).2).1 := by
  rw [bind_apply]
  rcases h : s c t with ⟨x, t'⟩
  rw [h] at hs
  subst hs
  rfl

theorem fst_bind_error {s : Session ε α} {f : α → Session ε β} {e : ε} (hs : (s c t).1 = .error e) :
    ((s >>= f) c t).1 = .error e := by
  rw [bind_apply]
  rcases h : s c t with ⟨x, t'⟩
  rw [h] at hs
  subst hs
  rfl

end N3.Rpc.Session
