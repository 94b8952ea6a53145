import N3.Proofs.Witness.Assembly
import N3.Wallet.Account

/-!
# Whether all keys are enough

A script counts a key as often as it is listed, and a map of signatures has one signature for each key. So the
signatures of all keys of an account make a witness exactly if as many different keys are listed as have to sign
(`ofSignatures_complete`, `ofSignatures_ofKeys`), and if there are fewer, no signatures do. Nothing keeps such an account
from being made: `ofSignatures_repeated` is one of a single key that has to sign twice.
-/

set_option autoImplicit false

namespace N3

namespace SignatureMap

/-- The keys that have signed are the keys of the script, all of them and no others. -/
def IsComplete (m : SignatureMap) (v : VerificationScript) : Prop :=
  ∃ keys, v.keys = .ok keys ∧ ∀ key, key ∈ m.map (·.1) ↔ key ∈ keys

/-- There are no more signatures than different keys. -/
theorem length_le_length_dedup {m : SignatureMap} (h : m.IsAscending) {keys : List Point}
    (hkeys : ∀ e ∈ m, e.1 ∈ keys) : m.length ≤ keys.dedup.length := by
  have hsubset : m.map (·.1) ⊆ keys.dedup := by
    intro key hkey
    obtain ⟨e, he, rfl⟩ := List.mem_map.mp hkey
    exact List.mem_dedup.mpr (hkeys e he)
  rw [← List.length_map (·.1)]
  exact (List.subperm_of_subset h.nodup_keys hsubset).length_le

theorem length_eq_length_dedup {m : SignatureMap} (h : m.IsAscending) {keys : List Point}
    (hkeys : ∀ key, key ∈ m.map (·.1) ↔ key ∈ keys) : m.length = keys.dedup.length := by
  have hperm : (m.map (·.1)).Perm keys.dedup := by
    refine (List.perm_ext_iff_of_nodup h.nodup_keys (List.nodup_dedup keys)).mpr ?_
    intro key
    rw [hkeys, List.mem_dedup]
  rw [← hperm.length_eq, List.length_map]

end SignatureMap

namespace Witness

section Complete

variable {v : VerificationScript} {k : Nat} {keys : List Point} (hk : v.threshold = .ok k) (hkeys : v.keys = .ok keys)
include hk hkeys

/-- Too few different keys are too few for every map of signatures. -/
theorem not_exists_ofSignatures (h : keys.dedup.length < k) (entries : List (Point × Signature)) :
    ¬ ∃ w, ofSignatures v (.ofList entries) = .ok w := by
  rintro ⟨w, hw⟩
  obtain ⟨k', keys', hk', hkeys', hknown, hmany, -⟩ := ofSignatures_eq_ok_iff.mp hw
  obtain rfl := Except.ok.inj (hk.symm.trans hk')
  obtain rfl := Except.ok.inj (hkeys.symm.trans hkeys')
  have hfew := SignatureMap.length_le_length_dedup (SignatureMap.isAscending_ofList entries) hknown
  omega

/-- With the signatures of all keys there is no stranger among them, and their number alone decides. -/
theorem ofSignatures_complete {entries : List (Point × Signature)}
    (h : SignatureMap.IsComplete (.ofList entries) v) :
    ofSignatures v (.ofList entries) =
      if k ≤ keys.dedup.length then .ok ⟨.ofSignatures (((SignatureMap.ofList entries).take k).map (·.2)), v⟩
      else .error (.invalidArgument (.tooFewSignatures keys.dedup.length k)) := by
  obtain ⟨keys', hkeys', hsame⟩ := h
  obtain rfl := Except.ok.inj (hkeys.symm.trans hkeys')
  have hlength := SignatureMap.length_eq_length_dedup (SignatureMap.isAscending_ofList entries) hsame
  have hknown : ∀ e ∈ SignatureMap.ofList entries, e.1 ∈ keys :=
    fun e he => (hsame e.1).mp (List.mem_map_of_mem he)
  have hstranger : (SignatureMap.ofList entries).find? (fun e => !keys.contains e.1) = none := by simpa using hknown
  unfold ofSignatures
  rw [hk, hkeys]
  dsimp only [bind, Except.bind]
  rw [hstranger]
  dsimp only
  rw [hlength]
  split
  · next hfew =>
    rw [if_neg (Nat.not_le.mpr hfew)]
    rfl
  · next hmany =>
    rw [if_pos (Nat.not_lt.mp hmany)]
    rfl

end Complete

/-- An account that is made from keys can be spent from with the signatures of all of them exactly if as many of the keys
are different as have to sign, so always if none is repeated. Otherwise the error says how many there are, and no
signatures at all make a witness, although the account is made. -/
theorem ofSignatures_ofKeys {given : List Point} {k : Nat} {v : VerificationScript}
    (h : VerificationScript.ofKeys given k = .ok v) :
    (∃ a, Account.ofKeys given k = .ok a ∧ a.script? = some v) ∧
      (∀ entries, SignatureMap.IsComplete (.ofList entries) v → ofSignatures v (.ofList entries) =
        if k ≤ given.dedup.length then .ok ⟨.ofSignatures (((SignatureMap.ofList entries).take k).map (·.2)), v⟩
        else .error (.invalidArgument (.tooFewSignatures given.dedup.length k))) ∧
      (given.Nodup → k ≤ given.dedup.length) ∧
      (given.dedup.length < k → ∀ entries, ¬ ∃ w, ofSignatures v (.ofList entries) = .ok w) := by
  have hk := VerificationScript.threshold_ofKeys h
  have hkeys := VerificationScript.keys_ofKeys h
  have hdedup : (Point.sort given).dedup.length = given.dedup.length := ((Point.sort_perm given).dedup).length_eq
  refine ⟨⟨.ofScript v, ?_, rfl⟩, ?_, ?_, ?_⟩
  · rw [Account.ofKeys, h]
    rfl
  · intro entries hcomplete
    rw [← hdedup]
    exact ofSignatures_complete hk hkeys hcomplete
  · intro hnodup
    rw [hnodup.dedup]
    exact (VerificationScript.ofKeys_eq_ok_iff.mp h).1.2.1
  · intro hfew
    rw [← hdedup] at hfew
    exact not_exists_ofSignatures hk hkeys hfew

theorem isComplete_bothOf {a b : Point} {entries : List (Point × Signature)}
    (h : ∀ key, key ∈ entries.map (·.1) ↔ key ∈ [a, b]) : SignatureMap.IsComplete (.ofList entries) (bothOf a b) := by
  refine ⟨[a, b], keys_bothOf a b, ?_⟩
  intro key
  rw [SignatureMap.mem_keys_ofList, h]

theorem ofKeys_bothOf {a b : Point} (h : Point.le a b = true) : VerificationScript.ofKeys [a, b] 2 = .ok (bothOf a b) := by
  rw [VerificationScript.ofKeys_eq_ok_iff, Point.sort_eq_self (List.pairwise_pair.mpr h)]
  exact ⟨⟨by decide, Nat.le_refl 2, show 2 ≤ Limits.multisigKeys by decide⟩, rfl⟩

theorem ofSignatures_ofKeys_two :
    VerificationScript.ofKeys [.base, .opposite] 2 = .ok (bothOf .base .opposite) ∧
      ofSignatures (bothOf .base .opposite) twoSignatures =
        .ok ⟨.ofSignatures ((twoSignatures.take 2).map (·.2)), bothOf .base .opposite⟩ := by
  have hscript := ofKeys_bothOf (Point.le_of_compare_eq_lt Point.compare_base_opposite)
  obtain ⟨-, hall, hdistinct, -⟩ := ofSignatures_ofKeys hscript
  have hcomplete : SignatureMap.IsComplete twoSignatures (bothOf .base .opposite) := by
    refine isComplete_bothOf fun key => ?_
    simp [or_comm]
  have hne : Point.base ≠ Point.opposite := by
    intro heq
    cases (Point.compare_eq_eq.mpr heq).symm.trans Point.compare_base_opposite
  have hmany := hdistinct (List.nodup_cons.mpr ⟨by simpa using hne, List.nodup_singleton _⟩)
  have hmade := hall _ hcomplete
  rw [if_pos hmany] at hmade
  exact ⟨hscript, hmade⟩

/-- An account of one key that is listed twice, and has to sign twice, is made and cannot be spent from. -/
theorem ofSignatures_repeated :
    VerificationScript.ofKeys [.base, .base] 2 = .ok (bothOf .base .base) ∧
      SignatureMap.IsComplete (.ofList [(.base, firstSignature)]) (bothOf .base .base) ∧
      ofSignatures (bothOf .base .base) (.ofList [(.base, firstSignature)]) =
        .error (.invalidArgument (.tooFewSignatures 1 2)) ∧
      ∀ entries, ¬ ∃ w, ofSignatures (bothOf .base .base) (.ofList entries) = .ok w := by
  have hscript : VerificationScript.ofKeys [.base, .base] 2 = .ok (bothOf .base .base) :=
    ofKeys_bothOf (Point.le_iff.mpr (.inr ⟨rfl, Nat.le_refl _⟩))
  have hcomplete : SignatureMap.IsComplete (.ofList [(.base, firstSignature)]) (bothOf .base .base) :=
    isComplete_bothOf fun key => by simp
  have hone : [Point.base, Point.base].dedup.length = 1 := by simp
  have hmade := ofSignatures_complete (threshold_bothOf .base .base) (keys_bothOf .base .base) hcomplete
  rw [hone] at hmade
  have hfew : [Point.base, Point.base].dedup.length < 2 := by omega
  exact ⟨hscript, hcomplete, hmade,
    not_exists_ofSignatures (threshold_bothOf .base .base) (keys_bothOf .base .base) hfew⟩

end Witness

end N3
