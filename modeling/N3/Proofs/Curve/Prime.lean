import Mathlib.NumberTheory.LucasPrimality
import Mathlib.Tactic.NormNum.Prime
import N3.Curve.Arithmetic

/-!
# The modulus and the order are prime

Lucas's test proves a number prime from an element whose order is one less than it, which takes the prime factors of
that order. `prime_of_powMod` is the test in terms of `powMod`, so that the kernel evaluates the powers on numerals;
`prime_p` applies it to the modulus of the curve and `prime_n` to the order of its group, and before that to those
factors that are too long for trial division.
-/

set_option autoImplicit false

namespace N3.Curve

theorem powMod_eq (m a e : ℕ) : powMod m a e = a ^ e % m := by
  fun_induction powMod m a e with
  | case1 a => rw [pow_zero]
  | case2 a e he r hodd ih =>
    have hexp : e = 2 * (e / 2) + 1 := by omega
    have hr : r = (a * a) ^ (e / 2) % m := ih.trans (Nat.pow_mod (a * a) (e / 2) m).symm
    conv_rhs => rw [hexp, pow_succ, pow_mul, sq]
    rw [hr, Nat.mul_comm, Nat.mod_mul_mod]
  | case3 a e he r heven ih =>
    have hexp : e = 2 * (e / 2) := by omega
    have hr : r = (a * a) ^ (e / 2) % m := ih.trans (Nat.pow_mod (a * a) (e / 2) m).symm
    conv_rhs => rw [hexp, pow_mul, sq]
    exact hr

theorem natCast_pow_eq_one_iff {n : ℕ} (hn : 1 < n) (a e : ℕ) : (a : ZMod n) ^ e = 1 ↔ powMod n a e = 1 := by
  rw [powMod_eq, ← Nat.cast_pow, ← Nat.cast_one, ZMod.natCast_eq_natCast_iff', Nat.mod_eq_of_lt hn]

/-- Lucas's test, with the prime factors of `n - 1` given. -/
theorem prime_of_powMod {n : ℕ} (a : ℕ) (factors : List ℕ) (hprime : ∀ q ∈ factors, q.Prime)
    (hprod : factors.prod = n - 1) (hfull : powMod n a (n - 1) = 1)
    (hpart : ∀ q ∈ factors, powMod n a ((n - 1) / q) ≠ 1) : n.Prime := by
  have hn : 1 < n := by
    have hne : factors.prod ≠ 0 := List.prod_ne_zero fun h => Nat.not_prime_zero (hprime 0 h)
    omega
  refine lucas_primality n (a : ZMod n) ((natCast_pow_eq_one_iff hn a _).mpr hfull) fun q hq hdvd => ?_
  have hmem : q ∈ factors := by
    rw [← hprod, Prime.dvd_prod_iff hq.prime] at hdvd
    obtain ⟨f, hf, hqf⟩ := hdvd
    rwa [(Nat.prime_dvd_prime_iff_eq hq (hprime f hf)).mp hqf]
  exact fun h => hpart q hmem ((natCast_pow_eq_one_iff hn a _).mp h)

theorem prime_p : p.Prime := by
  -- A factor that is proved above by the same test is put in by name: `norm_num` alone would divide by all numbers up
  -- to its root.
  have h₁ : Nat.Prime 204061199 :=
    prime_of_powMod 11 [2, 11, 23, 107, 3769] (by norm_num) (by norm_num) (by decide +kernel) (by decide +kernel)
  have h₂ : Nat.Prime 34282281433 :=
    prime_of_powMod 17 [2, 2, 2, 3, 7, 204061199] (by simp only [List.forall_mem_cons, h₁]; norm_num) (by norm_num)
      (by decide +kernel) (by decide +kernel)
  have h₃ : Nat.Prime 66417393611 :=
    prime_of_powMod 6 [2, 5, 53, 173, 197, 3677] (by norm_num) (by norm_num) (by decide +kernel) (by decide +kernel)
  have h₄ : Nat.Prime 11290956913871 :=
    prime_of_powMod 13 [2, 5, 17, 66417393611] (by simp only [List.forall_mem_cons, h₃]; norm_num) (by norm_num)
      (by decide +kernel) (by decide +kernel)
  have h₅ : Nat.Prime 46076956964474543 :=
    prime_of_powMod 5 [2, 23, 18169, 78283, 704251] (by norm_num) (by norm_num) (by decide +kernel)
      (by decide +kernel)
  have h₆ : Nat.Prime 774023187263532362759620327192479577272145303 :=
    prime_of_powMod 3 [2, 3, 3, 2411, 34282281433, 11290956913871, 46076956964474543]
      (by simp only [List.forall_mem_cons, h₂, h₄, h₅]; norm_num) (by norm_num) (by decide +kernel)
      (by decide +kernel)
  have h₇ : Nat.Prime 835945042244614951780389953367877943453916927241 :=
    prime_of_powMod 11 [2, 2, 2, 3, 3, 3, 5, 774023187263532362759620327192479577272145303]
      (by simp only [List.forall_mem_cons, h₆]; norm_num) (by norm_num) (by decide +kernel) (by decide +kernel)
  exact prime_of_powMod 6
    [2, 3, 5, 5, 17, 257, 641, 1531, 65537, 490463, 6700417, 835945042244614951780389953367877943453916927241]
    (by simp only [List.forall_mem_cons, h₇]; norm_num) (by norm_num [p]) (by decide +kernel) (by decide +kernel)

theorem prime_n : n.Prime := by
  have h₁ : Nat.Prime 187019741 :=
    prime_of_powMod 2 [2, 2, 5, 9350987] (by norm_num) (by norm_num) (by decide +kernel) (by decide +kernel)
  have h₂ : Nat.Prime 311245691 :=
    prime_of_powMod 2 [2, 5, 7, 17, 29, 29, 311] (by norm_num) (by norm_num) (by decide +kernel) (by decide +kernel)
  have h₃ : Nat.Prime 622491383 :=
    prime_of_powMod 5 [2, 311245691] (by simp only [List.forall_mem_cons, h₂]; norm_num) (by norm_num)
      (by decide +kernel) (by decide +kernel)
  have h₄ : Nat.Prime 1002328039319 :=
    prime_of_powMod 19 [2, 126241, 3969899] (by norm_num) (by norm_num) (by decide +kernel) (by decide +kernel)
  have h₅ : Nat.Prime 191039911 :=
    prime_of_powMod 3 [2, 3, 5, 41, 155317] (by norm_num) (by norm_num) (by decide +kernel) (by decide +kernel)
  have h₆ : Nat.Prime 208150935158385979 :=
    prime_of_powMod 2 [2, 3, 11, 43, 127, 3023, 191039911] (by simp only [List.forall_mem_cons, h₅]; norm_num)
      (by norm_num) (by decide +kernel) (by decide +kernel)
  have h₇ : Nat.Prime 2624747550333869278416773953 :=
    prime_of_powMod 7 [2, 2, 2, 2, 2, 2, 3, 3, 1297, 16879, 208150935158385979]
      (by simp only [List.forall_mem_cons, h₆]; norm_num) (by norm_num) (by decide +kernel) (by decide +kernel)
  exact prime_of_powMod 7
    [2, 2, 2, 2, 3, 71, 131, 373, 3407, 17449, 38189, 187019741, 622491383, 1002328039319, 2624747550333869278416773953]
    (by simp only [List.forall_mem_cons, h₁, h₃, h₄, h₇]; norm_num) (by norm_num [n]) (by decide +kernel)
    (by decide +kernel)

end N3.Curve
