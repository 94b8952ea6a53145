import N3.Proofs.Curve.Compressed
import N3.Proofs.Curve.Order
import N3.Proofs.Outcome
import N3.Proofs.Vm.Push
import N3.Script.Verification

/-!
# Templates and what is read from them

The template over keys in any order is recognised as what it is (`multisig?_multisig`), if the keys can reach the
threshold and are not too many. `ofKeys` refuses all else, so that every script that it makes says from which keys it
is made, and the order in which they were given does not matter (`ofKeys_template`).
-/

set_option autoImplicit false

namespace N3.VerificationScript

/-! ## One key -/

/-- The template of one key begins as a push of bytes, which no other template does. -/
theorem singleKey?_eq_none {v : VerificationScript} {b : UInt8} {bs : Bytes} (hv : v.bytes = b :: bs)
    (hb : b ≠ OpCode.PUSHDATA1.byte) : v.singleKey? = none := by
  unfold singleKey?
  rw [hv]
  cases bs with
  | nil => rfl
  | cons length rest =>
    dsimp only
    rw [if_neg fun h => hb h.2.1]

/-! ## Several keys -/

theorem readNat?_nat {n : Nat} (h : n < 0x8000000000000000) (rest : Bytes) :
    readNat? (Push.nat n ++ rest) = some (n, rest) := by
  have hread : Push.readInt (Reader.start (Push.nat n ++ rest)) = (.ok (Int64.ofNat n), _) :=
    Push.reads_readInt (Int64.ofNat n) rest 0 (Push.nat n ++ rest, 0)
  unfold readNat?
  rw [hread]
  dsimp only
  rw [Int64.toInt_ofNat_of_lt h, if_pos (Int.natCast_nonneg n), Int.toNat_natCast]

theorem data_key (k : FixedBytes 33) : Push.data k.bytes = OpCode.PUSHDATA1.byte :: 33 :: k.bytes := by
  rw [Push.data_eq_cons (by rw [k.length_eq]; decide), k.length_eq]
  rfl

theorem readNat?_data (bs : Bytes) : readNat? (OpCode.PUSHDATA1.byte :: bs) = none := rfl

theorem isMultiSig_ofKey (key : Point) : (ofKey key).isMultiSig = false := by
  unfold isMultiSig multisig? ofKey
  dsimp only
  rw [data_key, List.cons_append, readNat?_data]
  rfl

theorem split?_append (bs rest : Bytes) : Instruction.split? bs.length (bs ++ rest) = some (bs, rest) := by
  simp [Instruction.split?]

/-- Keys are read up to the first byte of anything else. -/
theorem readKeys_pushes (keys : List (FixedBytes 33)) {b : UInt8} (bs : Bytes) (fuel : Nat)
    (hb : b ≠ OpCode.PUSHDATA1.byte) (hfuel : keys.length < fuel) :
    readKeys fuel ((keys.flatMap fun k => Push.data k.bytes) ++ b :: bs) =
      some (keys.map FixedBytes.bytes, b :: bs) := by
  induction keys generalizing fuel with
  | nil =>
    obtain _ | fuel := fuel
    · exact absurd hfuel (Nat.not_lt_zero _)
    · show (if b = OpCode.PUSHDATA1.byte then _ else some ([], b :: bs)) = _
      rw [if_neg hb]
      rfl
  | cons k keys ih =>
    obtain _ | fuel := fuel
    · exact absurd hfuel (Nat.not_lt_zero _)
    · have hsplit := split?_append k.bytes ((keys.flatMap fun k => Push.data k.bytes) ++ b :: bs)
      rw [k.length_eq] at hsplit
      rw [List.flatMap_cons, data_key, List.append_assoc, List.cons_append, List.cons_append, readKeys]
      dsimp only
      rw [if_pos rfl]
      simp only [ne_eq, not_true_eq_false, if_false, hsplit, Option.bind_eq_bind, Option.bind_some,
        ih fuel (Nat.lt_of_succ_lt_succ hfuel)]
      rfl

theorem length_pushes (keys : List (FixedBytes 33)) :
    (keys.flatMap fun k => Push.data k.bytes).length = 35 * keys.length := by
  induction keys with
  | nil => rfl
  | cons k keys ih =>
    rw [List.flatMap_cons, List.length_append, ih, data_key, List.length_cons, List.length_cons, k.length_eq,
      List.length_cons]
    omega

theorem bytes_multisig (k : Nat) (keys : List (FixedBytes 33)) : (multisig k keys).bytes =
    Push.nat k ++ ((keys.flatMap fun k => Push.data k.bytes) ++
      (Push.nat keys.length ++ Push.service .checkMultisig)) := by
  simp only [multisig, List.append_assoc]

section Template

variable {k : Nat} {keys : List (FixedBytes 33)}

theorem singleKey?_multisig (k : Nat) (keys : List (FixedBytes 33)) : (multisig k keys).singleKey? = none := by
  obtain ⟨b, bs, hnat, hb⟩ := Push.int_eq_cons (Int64.ofNat k)
  have hbytes := bytes_multisig k keys
  rw [Push.nat, hnat, List.cons_append] at hbytes
  exact singleKey?_eq_none hbytes hb

/-- A template is recognised, whatever the order of its keys. -/
theorem multisig?_multisig (hk : 1 ≤ k) (hreach : k ≤ keys.length) (hmax : keys.length ≤ Limits.multisigKeys) :
    (multisig k keys).multisig? = some ⟨k, keys.map FixedBytes.bytes⟩ := by
  have hsmall : Limits.multisigKeys < 0x8000000000000000 := by decide
  obtain ⟨b, bs, hnat, hb⟩ := Push.int_eq_cons (Int64.ofNat keys.length)
  have hcount : Push.nat keys.length ++ Push.service .checkMultisig = b :: (bs ++ Push.service .checkMultisig) := by
    rw [Push.nat, hnat, List.cons_append]
  have hfuel : keys.length < ((keys.flatMap fun k => Push.data k.bytes) ++
      b :: (bs ++ Push.service .checkMultisig)).length := by
    rw [List.length_append, length_pushes, List.length_cons]
    omega
  unfold multisig?
  rw [bytes_multisig, readNat?_nat (by omega), Option.bind_eq_bind, Option.bind_some]
  dsimp only
  rw [if_neg (by omega), hcount, readKeys_pushes keys _ _ hb hfuel, Option.bind_eq_bind, Option.bind_some]
  dsimp only
  rw [List.length_map, if_neg (by omega), ← hcount, readNat?_nat (by omega), Option.bind_eq_bind, Option.bind_some]
  simp

theorem isSingleSig_multisig (k : Nat) (keys : List (FixedBytes 33)) : (multisig k keys).isSingleSig = false := by
  rw [isSingleSig, singleKey?_multisig]
  rfl

variable (hk : 1 ≤ k) (hreach : k ≤ keys.length) (hmax : keys.length ≤ Limits.multisigKeys)
include hk hreach hmax

theorem isMultiSig_multisig : (multisig k keys).isMultiSig = true := by
  rw [isMultiSig, multisig?_multisig hk hreach hmax]
  rfl

theorem threshold_multisig : (multisig k keys).threshold = .ok k := by
  rw [threshold, isSingleSig_multisig, if_neg Bool.false_ne_true, multisig?_multisig hk hreach hmax]
  rfl

theorem accounts_multisig : (multisig k keys).accounts = .ok keys.length := by
  rw [accounts, isSingleSig_multisig, if_neg Bool.false_ne_true, multisig?_multisig hk hreach hmax]
  show Except.ok (keys.map FixedBytes.bytes).length = _
  rw [List.length_map]

end Template

theorem mapM_compressed (keys : List Point) :
    ((keys.map fun a => a.compressed.bytes).mapM fun key => (Point.ofCompressed key).mapError Error.ofKey) =
      .ok keys := by
  rw [Outcome.mapM_eq_ok, List.forall₂_map_left_iff, List.forall₂_same]
  exact fun a _ => Outcome.mapError_eq_ok.mpr a.ofCompressed_compressed

theorem keys_multisig {k : Nat} {keys : List Point} (hk : 1 ≤ k) (hreach : k ≤ keys.length)
    (hmax : keys.length ≤ Limits.multisigKeys) : (multisig k (keys.map Point.compressed)).keys = .ok keys := by
  have hlength : (keys.map Point.compressed).length = keys.length := List.length_map _
  unfold VerificationScript.keys
  rw [singleKey?_multisig, multisig?_multisig hk (hlength ▸ hreach) (hlength ▸ hmax)]
  show ((keys.map Point.compressed).map FixedBytes.bytes).mapM (fun key =>
    (Point.ofCompressed key).mapError Error.ofKey) = .ok keys
  rw [List.map_map]
  exact mapM_compressed keys

/-! ## Scripts made from keys -/

theorem ofKeys_eq_ok_iff {keys : List Point} {k : Nat} {v : VerificationScript} : ofKeys keys k = .ok v ↔
    (1 ≤ k ∧ k ≤ keys.length ∧ keys.length ≤ Limits.multisigKeys) ∧
      v = multisig k ((Point.sort keys).map Point.compressed) := by
  unfold ofKeys
  by_cases hrange : k < 1 ∨ keys.length < k
  · rw [if_pos hrange]
    exact ⟨nofun, fun h => by omega⟩
  · rw [if_neg hrange]
    by_cases hmax : Limits.multisigKeys < keys.length
    · rw [if_pos hmax]
      exact ⟨nofun, fun h => by omega⟩
    · rw [if_neg hmax]
      exact ⟨fun h => ⟨by omega, (Except.ok.inj h).symm⟩, fun h => h.2 ▸ rfl⟩

theorem length_sorted (keys : List Point) : ((Point.sort keys).map Point.compressed).length = keys.length := by
  rw [List.length_map, Point.length_sort]

section Made

/-! What a script says that is made from keys. -/

variable {keys : List Point} {k : Nat} {v : VerificationScript} (h : ofKeys keys k = .ok v)
include h

theorem isMultiSig_ofKeys : v.isMultiSig = true := by
  obtain ⟨⟨hk, hreach, hmax⟩, rfl⟩ := ofKeys_eq_ok_iff.mp h
  exact isMultiSig_multisig hk ((length_sorted keys).symm ▸ hreach) ((length_sorted keys).symm ▸ hmax)

theorem threshold_ofKeys : v.threshold = .ok k := by
  obtain ⟨⟨hk, hreach, hmax⟩, rfl⟩ := ofKeys_eq_ok_iff.mp h
  exact threshold_multisig hk ((length_sorted keys).symm ▸ hreach) ((length_sorted keys).symm ▸ hmax)

theorem accounts_ofKeys : v.accounts = .ok keys.length := by
  obtain ⟨⟨hk, hreach, hmax⟩, rfl⟩ := ofKeys_eq_ok_iff.mp h
  rw [accounts_multisig hk ((length_sorted keys).symm ▸ hreach) ((length_sorted keys).symm ▸ hmax), length_sorted]

theorem keys_ofKeys : v.keys = .ok (Point.sort keys) := by
  obtain ⟨⟨hk, hreach, hmax⟩, rfl⟩ := ofKeys_eq_ok_iff.mp h
  exact keys_multisig hk ((Point.length_sort keys).symm ▸ hreach) ((Point.length_sort keys).symm ▸ hmax)

theorem isSingleSig_ofKeys : v.isSingleSig = false := by
  obtain ⟨-, rfl⟩ := ofKeys_eq_ok_iff.mp h
  exact isSingleSig_multisig k _

end Made

/-- A refusal names the threshold and the number of keys, so that it does not depend on their order either. -/
theorem ofKeys_eq_of_perm {keys keys' : List Point} (h : keys'.Perm keys) (k : Nat) :
    ofKeys keys' k = ofKeys keys k := by
  unfold ofKeys
  rw [h.length_eq, Point.sort_eq_of_perm h]

/-- A script is made from keys exactly if there are at most 1024 of them and they can reach the threshold. It is of the
template of several keys, says all that it was made from, and is the same for every order of the keys. -/
theorem ofKeys_template (keys : List Point) (k : Nat) :
    ((∃ v, ofKeys keys k = .ok v) ↔ 1 ≤ k ∧ k ≤ keys.length ∧ keys.length ≤ 1024) ∧
      ∀ v, ofKeys keys k = .ok v →
        v.isMultiSig = true ∧ v.isSingleSig = false ∧ v.threshold = .ok k ∧ v.accounts = .ok keys.length ∧
          (∃ read, v.keys = .ok read ∧ read.Perm keys ∧
            read.Pairwise fun a b => a.x < b.x ∨ a.x = b.x ∧ a.y ≤ b.y) ∧
          ∀ keys', keys'.Perm keys → ∃ v', ofKeys keys' k = .ok v' ∧ v'.bytes = v.bytes ∧ v'.hash = v.hash := by
  constructor
  · constructor
    · rintro ⟨v, hv⟩
      exact (ofKeys_eq_ok_iff.mp hv).1
    · intro h
      exact ⟨_, ofKeys_eq_ok_iff.mpr ⟨h, rfl⟩⟩
  · intro v hv
    refine ⟨isMultiSig_ofKeys hv, isSingleSig_ofKeys hv, threshold_ofKeys hv, accounts_ofKeys hv, ?_, ?_⟩
    · exact ⟨Point.sort keys, keys_ofKeys hv, Point.sort_perm keys,
        (Point.pairwise_sort keys).imp Point.le_iff.mp⟩
    · intro keys' h
      exact ⟨_, (ofKeys_eq_of_perm h k).trans hv, rfl, rfl⟩

/-- Two keys are given in the wrong order. -/
theorem ofKeys_template_two :
    ofKeys [.opposite, .base] 2 = .ok (multisig 2 [Point.base.compressed, Point.opposite.compressed]) ∧
      (multisig 2 [Point.base.compressed, Point.opposite.compressed]).threshold = .ok 2 ∧
      (multisig 2 [Point.base.compressed, Point.opposite.compressed]).accounts = .ok 2 ∧
      ∃ v, ofKeys [.base, .opposite] 2 = .ok v ∧
        v.bytes = (multisig 2 [Point.base.compressed, Point.opposite.compressed]).bytes := by
  have hscript : ofKeys [.opposite, .base] 2 = .ok (multisig 2 [Point.base.compressed, Point.opposite.compressed]) := by
    rw [ofKeys_eq_ok_iff, Point.sort_opposite_base]
    exact ⟨by decide, rfl⟩
  obtain ⟨-, -, hthreshold, haccounts, -, hperm⟩ := (ofKeys_template [.opposite, .base] 2).2 _ hscript
  obtain ⟨v, hv, hbytes, -⟩ := hperm [.base, .opposite] (List.Perm.swap _ _ [])
  exact ⟨hscript, hthreshold, haccounts, v, hv, hbytes⟩

end N3.VerificationScript
