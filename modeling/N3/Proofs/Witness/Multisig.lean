import N3.Proofs.Script.Invocation
import N3.Proofs.Script.Verification
import N3.Witness

/-!
# The order of signatures

A witness of several keys takes the signatures of the smallest keys, in ascending order of the keys
(`ofSignatures_sublist`). The script that they are for may have its keys in any order, and is then not satisfied by
them: `ofSignatures_out_of_order` is such a script.
-/

set_option autoImplicit false

namespace N3

/-! ## Signatures by key -/

namespace SignatureMap

def IsAscending (m : SignatureMap) : Prop := m.Pairwise fun a b => compare a.1 b.1 = .lt

theorem mem_of_mem_insert {key : Point} {signature : Signature} {m : SignatureMap} {e : Point × Signature}
    (h : e ∈ insert key signature m) : e = (key, signature) ∨ e ∈ m := by
  induction m with
  | nil => exact .inl (List.mem_singleton.mp h)
  | cons f rest ih =>
    unfold insert at h
    split at h
    · exact List.mem_cons.mp h
    · exact (List.mem_cons.mp h).imp id (List.mem_cons_of_mem f)
    · rcases List.mem_cons.mp h with rfl | h
      · exact .inr List.mem_cons_self
      · exact (ih h).imp id (List.mem_cons_of_mem f)

theorem IsAscending.insert {m : SignatureMap} (h : m.IsAscending) (key : Point) (signature : Signature) :
    (insert key signature m).IsAscending := by
  induction m with
  | nil => exact List.pairwise_singleton _ _
  | cons f rest ih =>
    obtain ⟨hfirst, hrest⟩ := List.pairwise_cons.mp h
    unfold SignatureMap.insert
    split
    · next hlt =>
      refine List.pairwise_cons.mpr ⟨?_, h⟩
      intro e he
      rcases List.mem_cons.mp he with rfl | he
      · exact hlt
      · exact Point.compare_trans hlt (hfirst e he)
    · next heq =>
      obtain rfl := Point.compare_eq_eq.mp heq
      exact List.pairwise_cons.mpr ⟨hfirst, hrest⟩
    · next hgt =>
      refine List.pairwise_cons.mpr ⟨?_, ih hrest⟩
      intro e he
      rcases mem_of_mem_insert he with rfl | he
      · exact Point.compare_eq_gt.mp hgt
      · exact hfirst e he

theorem isAscending_ofList (entries : List (Point × Signature)) : (ofList entries).IsAscending := by
  have hall : ∀ (es : List (Point × Signature)) (m : SignatureMap), m.IsAscending →
      IsAscending (es.foldl (fun m e => SignatureMap.insert e.1 e.2 m) m) := by
    intro es
    induction es with
    | nil => exact fun m hm => hm
    | cons e es ih => exact fun m hm => ih _ (hm.insert e.1 e.2)
  exact hall entries [] List.Pairwise.nil

end SignatureMap

namespace Witness

/-! ## Witnesses of several keys -/

/-- What is checked before a witness is made, and which one it is. -/
theorem ofSignatures_eq_ok_iff {script : VerificationScript} {m : SignatureMap} {w : Witness} :
    ofSignatures script m = .ok w ↔ ∃ k keys, script.threshold = .ok k ∧ script.keys = .ok keys ∧
      (∀ e ∈ m, e.1 ∈ keys) ∧ k ≤ m.length ∧ w = ⟨.ofSignatures ((m.take k).map (·.2)), script⟩ := by
  unfold ofSignatures
  rw [Outcome.bind_eq_ok]
  refine exists_congr fun k => ?_
  rw [Outcome.bind_eq_ok, ← exists_and_left]
  refine exists_congr fun keys => and_congr_right fun _ => and_congr_right fun _ => ?_
  split
  · next stranger signature hfind =>
    have hunknown : stranger ∉ keys := by simpa using List.find?_some hfind
    exact ⟨nofun, fun h => absurd (h.1 _ (List.mem_of_find?_eq_some hfind)) hunknown⟩
  · next hfind =>
    have hknown : ∀ e ∈ m, e.1 ∈ keys := by simpa using hfind
    by_cases hfew : m.length < k
    · rw [if_pos hfew]
      exact ⟨nofun, fun h => absurd hfew (Nat.not_lt.mpr h.2.1)⟩
    · rw [if_neg hfew]
      exact ⟨fun h => ⟨hknown, Nat.not_lt.mp hfew, (Except.ok.inj h).symm⟩, fun h => h.2.2 ▸ rfl⟩

/-- The signatures are those of the smallest keys, as many as there have to be, in strictly ascending order of the keys.
These keys are a subsequence of the keys of the script in ascending order, and so of the keys of the script as they
stand, if these ascend; those of a script that is made from keys do. -/
theorem ofSignatures_sublist {script : VerificationScript} {entries : List (Point × Signature)} {w : Witness}
    (h : ofSignatures script (SignatureMap.ofList entries) = .ok w) :
    ∃ k keys pushed, script.threshold = .ok k ∧ script.keys = .ok keys ∧
      pushed = (SignatureMap.ofList entries).take k ∧ pushed.length = k ∧
      w.invocation.signatures = .ok (pushed.map (·.2)) ∧
      (pushed.map (·.1)).Pairwise (fun a b => compare a b = .lt) ∧
      (pushed.map (·.1)).Sublist (Point.sort keys) ∧
      (keys.Pairwise (fun a b => Point.le a b = true) → (pushed.map (·.1)).Sublist keys) ∧
      ∀ given n, VerificationScript.ofKeys given n = .ok script → (pushed.map (·.1)).Sublist keys := by
  obtain ⟨k, keys, hk, hkeys, hknown, hmany, rfl⟩ := ofSignatures_eq_ok_iff.mp h
  have hascending : (((SignatureMap.ofList entries).take k).map (·.1)).Pairwise (fun a b => compare a b = .lt) :=
    List.pairwise_map.mpr ((SignatureMap.isAscending_ofList entries).take)
  have hmem : ∀ a ∈ ((SignatureMap.ofList entries).take k).map (·.1), a ∈ keys := by
    intro a ha
    obtain ⟨e, he, rfl⟩ := List.mem_map.mp ha
    exact hknown e (List.mem_of_mem_take he)
  have hsorted := Point.sublist_sort hascending hmem
  have hsublist : keys.Pairwise (fun a b => Point.le a b = true) →
      (((SignatureMap.ofList entries).take k).map (·.1)).Sublist keys := by
    intro hpairwise
    rwa [Point.sort_eq_self hpairwise] at hsorted
  refine ⟨k, keys, _, hk, hkeys, rfl, List.length_take_of_le hmany, InvocationScript.signatures_ofSignatures _,
    hascending, hsorted, hsublist, ?_⟩
  intro given n hgiven
  obtain rfl : Point.sort given = keys := Except.ok.inj ((VerificationScript.keys_ofKeys hgiven).symm.trans hkeys)
  exact hsublist (Point.pairwise_sort given)

/-! ## Two keys and their signatures -/

def firstSignature : Signature := ⟨List.replicate 64 1, List.length_replicate⟩

def secondSignature : Signature := ⟨List.replicate 64 2, List.length_replicate⟩

def twoSignatures : SignatureMap := .ofList [(.opposite, secondSignature), (.base, firstSignature)]

theorem twoSignatures_eq : twoSignatures = [(.base, firstSignature), (.opposite, secondSignature)] := by
  show SignatureMap.insert .base firstSignature [(.opposite, secondSignature)] = _
  unfold SignatureMap.insert
  rw [Point.compare_base_opposite]

/-- The script of the two keys in the given order, both of which have to sign. -/
def bothOf (a b : Point) : VerificationScript := .multisig 2 ([a, b].map Point.compressed)

theorem keys_bothOf (a b : Point) : (bothOf a b).keys = .ok [a, b] :=
  VerificationScript.keys_multisig (by decide) (Nat.le_refl 2) (show 2 ≤ Limits.multisigKeys by decide)

theorem threshold_bothOf (a b : Point) : (bothOf a b).threshold = .ok 2 :=
  VerificationScript.threshold_multisig (by decide) (Nat.le_refl 2) (show 2 ≤ Limits.multisigKeys by decide)

theorem ofSignatures_bothOf {a b : Point} (hbase : .base ∈ [a, b]) (hopposite : .opposite ∈ [a, b]) :
    ofSignatures (bothOf a b) twoSignatures = .ok ⟨.ofSignatures [firstSignature, secondSignature], bothOf a b⟩ := by
  rw [ofSignatures_eq_ok_iff, twoSignatures_eq]
  refine ⟨2, [a, b], threshold_bothOf a b, keys_bothOf a b, ?_, Nat.le_refl 2, rfl⟩
  intro e he
  rcases List.mem_pair.mp he with rfl | rfl
  · exact hbase
  · exact hopposite

theorem ofSignatures_sublist_in_order :
    ofSignatures (bothOf .base .opposite) twoSignatures =
        .ok ⟨.ofSignatures [firstSignature, secondSignature], bothOf .base .opposite⟩ ∧
      (twoSignatures.take 2).map (·.1) = [.base, .opposite] ∧
      ((twoSignatures.take 2).map (·.1)).Sublist [.base, .opposite] := by
  have hmade := ofSignatures_bothOf (a := .base) (b := .opposite) List.mem_cons_self (by simp)
  have hscript : VerificationScript.ofKeys [.opposite, .base] 2 = .ok (bothOf .base .opposite) := by
    rw [VerificationScript.ofKeys_eq_ok_iff, Point.sort_opposite_base]
    exact ⟨by decide, rfl⟩
  obtain ⟨k, keys, pushed, hk, hkeys, rfl, -, -, -, -, -, hgiven⟩ := ofSignatures_sublist hmade
  obtain rfl : 2 = k := Except.ok.inj ((threshold_bothOf _ _).symm.trans hk)
  obtain rfl : [.base, .opposite] = keys := Except.ok.inj ((keys_bothOf _ _).symm.trans hkeys)
  refine ⟨hmade, ?_, hgiven _ _ hscript⟩
  rw [twoSignatures_eq]
  rfl

/-- A script whose keys descend is given the signatures of its keys in the opposite order. -/
theorem ofSignatures_out_of_order :
    (bothOf .opposite .base).keys = .ok [.opposite, .base] ∧
      ofSignatures (bothOf .opposite .base) twoSignatures =
        .ok ⟨.ofSignatures [firstSignature, secondSignature], bothOf .opposite .base⟩ ∧
      (InvocationScript.ofSignatures [firstSignature, secondSignature]).signatures =
        .ok ((twoSignatures.take 2).map (·.2)) ∧
      ¬ ((twoSignatures.take 2).map (·.1)).Sublist [.opposite, .base] := by
  refine ⟨keys_bothOf _ _, ofSignatures_bothOf (by simp) List.mem_cons_self, ?_, ?_⟩
  · rw [twoSignatures_eq]
    exact InvocationScript.signatures_ofSignatures _
  · rw [twoSignatures_eq]
    decide +kernel

end Witness

end N3
