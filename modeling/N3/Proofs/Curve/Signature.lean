import N3.Curve.Signature
import N3.Proofs.Bytes
import N3.Proofs.Curve.Compressed
import N3.Proofs.Curve.Group

/-!
# Signatures verify

Every secret key has a public key, which is that multiple of the base point (`SecretKey.exists_publicKey_eq`). With `z`
the challenge and `s = (z + r d) / k`, the point `(z / s) G + (r / s) (d G)` is `k G` again, whose `x` gave `r`. So
whatever is signed with a secret key verifies under its public key (`Ecdsa.verify_sign`).
-/

set_option autoImplicit false

namespace N3

open Curve

/-! ## Public keys -/

namespace SecretKey

theorem publicKey_of_toGroup_eq {k : SecretKey} {key : Point} (h : key.toGroup = k.scalar • Point.base.toGroup) :
    k.publicKey = .ok key := by
  have hscale := Point.represents_generator.scale k.scalar
  rw [← h] at hscale
  unfold publicKey
  rw [Point.affine?_of_represents hscale]
  dsimp only
  rw [Point.ofCoordinates?_self]
  rfl

/-- Every secret key has a public key, which is that multiple of the base point. -/
theorem exists_publicKey_eq (k : SecretKey) :
    ∃ key, k.publicKey = .ok key ∧ key.toGroup = k.scalar • Point.base.toGroup := by
  obtain ⟨key, hkey⟩ := Point.exists_toGroup_eq_nsmul k.pos k.lt
  exact ⟨key, publicKey_of_toGroup_eq hkey, hkey⟩

theorem toGroup_of_publicKey_eq {k : SecretKey} {key : Point} (h : k.publicKey = .ok key) :
    key.toGroup = k.scalar • Point.base.toGroup := by
  obtain ⟨key', hkey', hgroup⟩ := k.exists_publicKey_eq
  obtain rfl : key = key' := Except.ok.inj (h.symm.trans hkey')
  exact hgroup

end SecretKey

/-! ## Signing and verifying -/

namespace Ecdsa

/-- What a nonce that gives a signature satisfies. -/
theorem withNonce?_eq_some {k : SecretKey} {z nonce : ℕ} {signature : Signature}
    (h : withNonce? k z nonce = some signature) :
    ∃ x y r s, 0 < nonce ∧ nonce < n ∧ (generator.scale nonce).affine? = some (x, y) ∧ r = x % n ∧
      s = inverse n nonce * ((z + r * k.scalar) % n) % n ∧ 0 < r ∧ 0 < s ∧ signature = pair r s := by
  unfold withNonce? at h
  by_cases hnonce : nonce = 0 ∨ n ≤ nonce
  · rw [if_pos hnonce] at h
    cases h
  · rw [if_neg hnonce] at h
    obtain ⟨⟨x, y⟩, hxy, h⟩ := Option.bind_eq_some_iff.mp h
    dsimp only at h
    split at h
    · cases h
    · next hzero =>
      rw [not_or] at hnonce hzero
      have hr := Nat.pos_of_ne_zero hzero.1
      have hs := Nat.pos_of_ne_zero hzero.2
      exact ⟨x, y, _, _, Nat.pos_of_ne_zero hnonce.1, Nat.not_le.mp hnonce.2, hxy, rfl, rfl, hr, hs,
        (Option.some.inj h).symm⟩

theorem search_eq_some {k : SecretKey} {z tries : ℕ} {d : Drawer} {signature : Signature}
    (h : search k z tries d = some signature) : ∃ nonce, withNonce? k z nonce = some signature := by
  induction tries generalizing d with
  | zero => cases h
  | succ tries ih =>
    unfold search at h
    dsimp only at h
    split at h
    · next found hfound => exact ⟨_, hfound.trans h⟩
    · exact ih h

/-- The two numbers of a signature are read back. -/
theorem toNatBE_pair {r s : ℕ} (hr : r < n) (hs : s < n) :
    Bytes.toNatBE ((pair r s).bytes.take 32) = r ∧ Bytes.toNatBE ((pair r s).bytes.drop 32) = s := by
  have hfits : n < 256 ^ 32 := by decide
  have hlength : (Bytes.ofNatBE 32 r).length = 32 := Bytes.length_ofNatBE 32 r
  constructor
  · rw [pair, List.take_left' hlength, Bytes.toNatBE_ofNatBE_of_lt (hr.trans hfits)]
  · rw [pair, List.drop_left' hlength, Bytes.toNatBE_ofNatBE_of_lt (hs.trans hfits)]

/-- A signature verifies if its first number is the `x` of the sum that is computed from it. -/
theorem verify_pair {key t : Point} {message : Bytes} {r s : ℕ} (hr : 0 < r ∧ r < n) (hs : 0 < s ∧ s < n)
    (ht : (challenge message * inverse n s % n) • Point.base.toGroup + (r * inverse n s % n) • key.toGroup = t.toGroup)
    (hx : t.x % n = r) : verify key message (pair r s).bytes = true := by
  obtain ⟨hread₁, hread₂⟩ := toNatBE_pair hr.2 hs.2
  have hsum := (Point.represents_generator.scale (challenge message * inverse n s % n)).add
    (key.represents_toGroup.scale (r * inverse n s % n))
  rw [ht] at hsum
  unfold verify
  simp only [hread₁, hread₂]
  rw [if_pos ⟨(pair r s).length_eq, hr.1, hr.2, hs.1, hs.2⟩, Point.affine?_of_represents hsum]
  exact beq_iff_eq.mpr hx

/-- With `s = (z + r d) / k`, the multiples `z / s` and `r / s` of the base point and of the public key sum up to `k`
times the base point. -/
theorem sum_eq_nsmul {z r s d nonce : ℕ} {key : Point} (hkey : key.toGroup = d • Point.base.toGroup)
    (hs : s = inverse n nonce * ((z + r * d) % n) % n) (hpos : 0 < s) (hnonce : 0 < nonce) (hlt : nonce < n) :
    (z * inverse n s % n) • Point.base.toGroup + (r * inverse n s % n) • key.toGroup =
      nonce • Point.base.toGroup := by
  have := Fact.mk prime_n
  have hslt : s < n := hs ▸ Nat.mod_lt _ prime_n.pos
  have hne : ∀ a : ℕ, 0 < a → a < n → (a : ZMod n) ≠ 0 := by
    intro a ha halt
    rw [Ne, ZMod.natCast_eq_zero_iff]
    exact Nat.not_dvd_of_pos_of_lt ha halt
  have hnonce' := hne nonce hnonce hlt
  have hs' := hne s hpos hslt
  have hcast : (s : ZMod n) = (nonce : ZMod n)⁻¹ * (z + r * d) := by
    conv_lhs => rw [hs]
    rw [ZMod.natCast_mod, Nat.cast_mul, ZMod.natCast_mod, Nat.cast_add, Nat.cast_mul, natCast_inverse prime_n hnonce']
  have hproduct : (z + r * d : ZMod n) = nonce * s := by
    rw [hcast, mul_inv_cancel_left₀ hnonce']
  rw [hkey, ← mul_nsmul', ← add_nsmul, Point.nsmul_base_eq_iff]
  calc ((z * inverse n s % n + r * inverse n s % n * d : ℕ) : ZMod n)
      = (z + r * d) * (s : ZMod n)⁻¹ := by
        rw [Nat.cast_add, Nat.cast_mul, ZMod.natCast_mod, ZMod.natCast_mod, Nat.cast_mul, Nat.cast_mul,
          natCast_inverse prime_n hs']
        ring
    _ = nonce := by rw [hproduct, mul_inv_cancel_right₀ hs']

theorem verify_sign {k : SecretKey} {key : Point} {message : Bytes} {signature : Signature}
    (hkey : k.publicKey = .ok key) (h : sign k message = .ok signature) :
    verify key message signature.bytes = true := by
  unfold sign at h
  dsimp only at h
  rcases hsearch : search k (challenge message) 64 (Drawer.start k (challenge message)) with _ | found
  · rw [hsearch] at h
    cases h
  · rw [hsearch] at h
    cases h
    obtain ⟨nonce, hnonce⟩ := search_eq_some hsearch
    obtain ⟨x, y, r, s, hpos, hlt, haffine, hr, hs, hrpos, hspos, rfl⟩ := withNonce?_eq_some hnonce
    obtain ⟨t, ht⟩ := Point.exists_toGroup_eq_nsmul hpos hlt
    have hscale := Point.represents_generator.scale nonce
    rw [← ht] at hscale
    obtain ⟨rfl, -⟩ := Prod.mk.inj (Option.some.inj ((Point.affine?_of_represents hscale).symm.trans haffine))
    have hsum := sum_eq_nsmul (SecretKey.toGroup_of_publicKey_eq hkey) hs hspos hpos hlt
    exact verify_pair ⟨hrpos, hr ▸ Nat.mod_lt _ prime_n.pos⟩ ⟨hspos, hs ▸ Nat.mod_lt _ prime_n.pos⟩
      (hsum.trans ht.symm) hr.symm

end Ecdsa

end N3
