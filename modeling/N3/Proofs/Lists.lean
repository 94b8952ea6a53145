import Mathlib.Data.List.Forall2

/-!
# Lists

An entry's place in a list that is put together from two, the entry that a search finds, and lists whose entries go
with each other one by one.
-/

set_option autoImplicit false

namespace N3.Lists

variable {α β : Type}

/-! ## Places -/

theorem append_eq_append_cons {as bs before after : List α} {a : α} (h : as ++ bs = before ++ a :: after) :
    (∃ after', as = before ++ a :: after') ∨ ∃ before', before = as ++ before' ∧ bs = before' ++ a :: after := by
  rcases List.append_eq_append_iff.mp h with ⟨before', hbefore, hbs⟩ | ⟨rest, has, hrest⟩
  · exact .inr ⟨before', hbefore, hbs⟩
  · cases rest with
    | nil => exact .inr ⟨[], by rw [has, List.append_nil, List.append_nil], hrest.symm⟩
    | cons b rest =>
      cases hrest
      exact .inl ⟨rest, has⟩

theorem eq_of_singleton_eq {earlier later : List α} {a b : α} (h : [a] = earlier ++ b :: later) :
    earlier = [] ∧ b = a ∧ later = [] := by
  obtain ⟨rfl, hlast⟩ := List.append_eq_singleton_iff.mp h.symm |>.resolve_right nofun
  cases hlast
  exact ⟨rfl, rfl, rfl⟩

/-- The first entry with a property, and what is left without it. -/
theorem find?_eraseP_append_cons {p : α → Bool} {front back : List α} {a : α}
    (hfront : ∀ b ∈ front, p b = false) (ha : p a = true) :
    (front ++ a :: back).find? p = some a ∧ (front ++ a :: back).eraseP p = front ++ back := by
  have hnot : ∀ b ∈ front, ¬ p b = true := fun b hb => ne_true_of_eq_false (hfront b hb)
  constructor
  · refine List.find?_eq_some_iff_append.mpr ⟨ha, front, back, rfl, ?_⟩
    intro b hb
    rw [hfront b hb]
    rfl
  · rw [List.eraseP_append_right _ hnot, List.eraseP_cons_of_pos ha]

/-! ## Entry by entry -/

/-- Lists are the same if what each entry of one gives determines it. -/
theorem eq_of_map_eq {f : α → β} {as bs : List α} (h : as.map f = bs.map f)
    (hf : ∀ a ∈ as, ∀ b, f a = f b → a = b) : as = bs := by
  induction as generalizing bs with
  | nil => exact (List.map_eq_nil_iff.mp h.symm).symm
  | cons a as ih =>
    obtain ⟨b, bs, rfl, hhead, htail⟩ := List.map_eq_cons_iff.mp h.symm
    obtain ⟨ha, has⟩ := List.forall_mem_cons.mp hf
    rw [ha b hhead.symm, ih htail.symm has]

section Forall₂

variable {γ : Type} {R : α → β → Prop} {S : α → γ → Prop} {T : β → γ → Prop}

/-- Two lists that go with a third one go with each other. -/
theorem forall₂_of_common {as : List α} {bs : List β} {cs : List γ} (h : ∀ a b c, R a b → S a c → T b c)
    (hbs : List.Forall₂ R as bs) (hcs : List.Forall₂ S as cs) : List.Forall₂ T bs cs := by
  induction hbs generalizing cs with
  | nil =>
    cases hcs
    exact .nil
  | cons hb _ ih =>
    cases hcs with
    | cons hc hcs => exact .cons (h _ _ _ hb hc) (ih hcs)

theorem getElem?_of_forall₂ {as : List α} {bs : List β} (h : List.Forall₂ R as bs) {i : Nat} {b : β}
    (hb : bs[i]? = some b) : ∃ a, as[i]? = some a ∧ R a b := by
  induction h generalizing i with
  | nil => cases hb
  | @cons a b' as bs hab _ ih =>
    cases i with
    | zero =>
      cases hb
      exact ⟨a, rfl, hab⟩
    | succ i => exact ih hb

end Forall₂

end N3.Lists
