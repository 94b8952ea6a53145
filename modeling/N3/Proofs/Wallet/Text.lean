import N3.Proofs.Curve.Signature
import N3.Proofs.Text.Base58
import N3.Wallet.Account

/-!
# The texts of accounts and keys

An address and a text in the import format are a payload of a fixed form in base 58 with a checksum. So each is read
exactly if it is what the account or the key pair is written as (`Base58.texts_bijective`), and no two texts name the
same account or the same key. Every secret number below the order of the group makes a key pair.
-/

set_option autoImplicit false

namespace N3

/-! ## Addresses -/

namespace Address

theorem toHash_eq_ok_iff {address : String} {hash : Hash160} : toHash address = .ok hash ↔ ofHash hash = address := by
  have hpayload : toHash address = .ok hash ↔
      Base58.decodeChecked address = .ok (WalletError.addressByte :: hash.bytes) := by
    constructor
    · intro h
      obtain ⟨bs, hbs, h⟩ := Outcome.bind_eq_ok.mp h
      rw [Outcome.mapError_eq_ok.mp hbs]
      split at h
      · next version rest =>
        split at h
        · next found hfound =>
          split at h
          · next hversion =>
            cases h
            rw [hversion, FixedBytes.ofBytes?_eq_some hfound]
          · cases h
        · cases h
      · cases h
    · intro h
      refine Outcome.bind_eq_ok.mpr ⟨_, Outcome.mapError_eq_ok.mpr h, ?_⟩
      dsimp only
      rw [FixedBytes.ofBytes?_bytes]
      exact if_pos rfl
  rw [hpayload, Base58.decodeChecked_eq_ok_iff, eq_comm]
  rfl

end Address

/-! ## Key pairs -/

namespace SecretKey

theorem ofScalar_eq_ok_iff {v : ℕ} {k : SecretKey} : ofScalar v = .ok k ↔ k.scalar = v := by
  unfold ofScalar
  constructor
  · intro h
    split at h
    · cases h
      rfl
    · cases h
  · rintro rfl
    rw [dif_pos ⟨k.pos, k.lt⟩]

theorem ofBytes_eq_ok_iff {bs : FixedBytes 32} {k : SecretKey} : ofBytes bs = .ok k ↔ k.bytes = bs := by
  rw [ofBytes, ofScalar_eq_ok_iff]
  constructor
  · intro h
    refine FixedBytes.ext ?_
    have hbytes := Bytes.ofNatBE_toNatBE bs.bytes
    rw [bs.length_eq, ← h] at hbytes
    exact hbytes
  · rintro rfl
    have hfits : Curve.n < Bytes.range 32 := by decide
    exact (Bytes.toNatBE_ofNatBE_of_lt (k.lt.trans hfits)).symm

end SecretKey

namespace KeyPair

theorem ext_secret {a b : KeyPair} (h : a.secret = b.secret) : a = b := by
  obtain ⟨secret, key, hkey⟩ := a
  obtain ⟨secret', key', hkey'⟩ := b
  obtain rfl : secret = secret' := h
  obtain rfl := Except.ok.inj (hkey.symm.trans hkey')
  rfl

/-- Every secret number makes a key pair. -/
theorem ofSecret_eq_ok_iff {secret : SecretKey} {pair : KeyPair} :
    ofSecret secret = .ok pair ↔ pair.secret = secret := by
  obtain ⟨key, hkey, -⟩ := secret.exists_publicKey_eq
  have hpair : ofSecret secret = .ok ⟨secret, key, hkey⟩ := by
    unfold ofSecret
    split
    · next found hfound =>
      congr
      exact Except.ok.inj (hfound.symm.trans hkey)
    · next e he => exact nomatch he.symm.trans hkey
  rw [hpair, Except.ok.injEq]
  constructor
  · rintro rfl
    rfl
  · exact fun h => ext_secret h.symm

theorem ofBytes_eq_ok_iff {bs : Bytes} {pair : KeyPair} : ofBytes bs = .ok pair ↔ pair.secret.bytes.bytes = bs := by
  constructor
  · intro h
    unfold ofBytes at h
    split at h
    · next fixed hfixed =>
      obtain ⟨secret, hsecret, h⟩ := Outcome.bind_eq_ok.mp h
      rw [ofSecret_eq_ok_iff.mp h, SecretKey.ofBytes_eq_ok_iff.mp (Outcome.mapError_eq_ok.mp hsecret),
        FixedBytes.ofBytes?_eq_some hfixed]
    · cases h
  · rintro rfl
    unfold ofBytes
    rw [FixedBytes.ofBytes?_bytes]
    refine Outcome.bind_eq_ok.mpr ⟨pair.secret, ?_, ofSecret_eq_ok_iff.mpr rfl⟩
    exact Outcome.mapError_eq_ok.mpr (SecretKey.ofBytes_eq_ok_iff.mpr rfl)

theorem exists_ofBytes_iff {bs : Bytes} : (∃ pair, ofBytes bs = .ok pair) ↔
    bs.length = 32 ∧ 0 < Bytes.toNatBE bs ∧ Bytes.toNatBE bs < Curve.n := by
  constructor
  · rintro ⟨pair, h⟩
    have hread : SecretKey.ofBytes pair.secret.bytes = .ok pair.secret := SecretKey.ofBytes_eq_ok_iff.mpr rfl
    rw [SecretKey.ofBytes, SecretKey.ofScalar_eq_ok_iff, ofBytes_eq_ok_iff.mp h] at hread
    rw [← hread, ← ofBytes_eq_ok_iff.mp h]
    exact ⟨pair.secret.bytes.length_eq, pair.secret.pos, pair.secret.lt⟩
  · rintro ⟨hlength, hpos, hlt⟩
    obtain ⟨key, hkey, -⟩ := (SecretKey.mk _ hpos hlt).exists_publicKey_eq
    refine ⟨⟨_, key, hkey⟩, ofBytes_eq_ok_iff.mpr ?_⟩
    show Bytes.ofNatBE 32 (Bytes.toNatBE bs) = bs
    rw [← hlength, Bytes.ofNatBE_toNatBE]

def wifPayload (pair : KeyPair) : Bytes := wifVersion :: (pair.secret.bytes.bytes ++ [wifFlag])

theorem ofWif_eq_ok_iff {wif : String} {pair : KeyPair} : ofWif wif = .ok pair ↔ pair.toWif = wif := by
  have hpayload : ofWif wif = .ok pair ↔ Base58.decodeChecked wif = .ok pair.wifPayload := by
    constructor
    · intro h
      obtain ⟨bs, hbs, h⟩ := Outcome.bind_eq_ok.mp h
      rw [Outcome.mapError_eq_ok.mp hbs]
      split at h
      · next hform =>
        -- With a mark at either end, 34 bytes leave 32 for the key.
        obtain ⟨hlength, hhead, hlast⟩ := hform
        obtain ⟨front, rfl⟩ := List.getLast?_eq_some_iff.mp hlast
        cases front with
        | nil => cases hlength
        | cons version key =>
          cases hhead
          have hkey : key.length = 32 := by simpa using hlength
          rw [List.cons_append, List.drop_one, List.tail_cons, List.take_left' hkey, ofBytes_eq_ok_iff] at h
          rw [wifPayload, h, List.cons_append]
      · cases h
    · intro h
      refine Outcome.bind_eq_ok.mpr ⟨_, Outcome.mapError_eq_ok.mpr h, ?_⟩
      have hlength : pair.wifPayload.length = 34 := by simp [wifPayload, pair.secret.bytes.length_eq]
      have hlast : pair.wifPayload.getLast? = some wifFlag := by
        rw [wifPayload, ← List.cons_append, List.getLast?_concat]
      rw [if_pos ⟨hlength, rfl, hlast⟩, wifPayload, List.drop_one, List.tail_cons,
        List.take_left' pair.secret.bytes.length_eq]
      exact ofBytes_eq_ok_iff.mpr rfl
  rw [hpayload, Base58.decodeChecked_eq_ok_iff, eq_comm]
  rfl

end KeyPair

/-- An address is read as an account exactly if it is the one that is written for it, and likewise a text in the import
format as a key pair. The bytes of a secret number make the one key pair that has them, and all do that are not zero and
below the order of the group. -/
theorem Base58.texts_bijective :
    (∀ (hash : Hash160) (address : String), Address.toHash address = .ok hash ↔ Address.ofHash hash = address) ∧
    (∀ (pair : KeyPair) (wif : String), KeyPair.ofWif wif = .ok pair ↔ pair.toWif = wif) ∧
    ∀ bs : Bytes, (∀ pair, KeyPair.ofBytes bs = .ok pair ↔ pair.secret.bytes.bytes = bs) ∧
      ((∃ pair, KeyPair.ofBytes bs = .ok pair) ↔
        bs.length = 32 ∧ 0 < Bytes.toNatBE bs ∧ Bytes.toNatBE bs < Curve.n) :=
  ⟨fun _ _ => Address.toHash_eq_ok_iff, fun _ _ => KeyPair.ofWif_eq_ok_iff,
    fun _ => ⟨fun _ => KeyPair.ofBytes_eq_ok_iff, KeyPair.exists_ofBytes_iff⟩⟩

end N3
