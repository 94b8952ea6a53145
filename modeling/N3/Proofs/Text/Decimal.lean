/-!
# Decimal texts

The digits of a number say which it is, and none of them is the sign that stands before them in the text of a negative
one. So an integer is determined by its text (`toString_injective`). The standard library has this as `Int.repr_inj`, in a
part that only an import of all of Mathlib brings in.
-/

set_option autoImplicit false

namespace N3.Decimal

theorem repr_injective {m n : Nat} (h : m.repr = n.repr) : m = n := by
  have hdigits : Nat.toDigits 10 m = Nat.toDigits 10 n := String.ofList_injective h
  rw [← Nat.ofDigitChars_ten_toDigits (n := m), hdigits, Nat.ofDigitChars_ten_toDigits]

theorem repr_ne_negative (m n : Nat) : m.repr ≠ "-" ++ n.repr := by
  intro h
  have hsign : '-' ∈ m.repr.toList := by
    rw [h, String.toList_append]
    exact List.mem_append_left _ (by decide)
  rw [Nat.toList_repr] at hsign
  exact absurd (Nat.isDigit_of_mem_toDigits (by decide) (by decide) hsign) (by decide)

theorem toString_injective {v w : Int} (h : toString v = toString w) : v = w := by
  cases v with
  | ofNat m =>
    cases w with
    | ofNat n => rw [repr_injective h]
    | negSucc n => exact absurd h (repr_ne_negative m (n + 1))
  | negSucc m =>
    cases w with
    | ofNat n => exact absurd h.symm (repr_ne_negative n (m + 1))
    | negSucc n =>
      have hsucc : m + 1 = n + 1 := repr_injective ((String.append_right_inj "-").mp h)
      rw [Nat.add_right_cancel hsucc]

end N3.Decimal
