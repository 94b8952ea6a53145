import Mathlib.Data.List.Dedup
import Mathlib.Data.List.Induction
import N3.Proofs.Script.Template
import N3.Proofs.Witness.Multisig

/-!
# Filling a map of signatures

A map of signatures holds for each key the signature that was added last (`lookup_ofList`), and is determined by that,
so that the order in which it was filled does not matter (`ofList_congr`).

A witness is made of it exactly if the script comes apart into a template whose keys are points (`Asks`), each key that
has signed is one of them, and enough of them have. It carries the signatures of the smallest keys
(`ofSignatures_smallest`).
-/

set_option autoImplicit false

namespace N3

/-! ## Templates whose keys are points -/

namespace VerificationScript

/-- The script comes apart into the instructions of a template that pushes the keys, `k` of which have to sign. -/
def Asks (v : VerificationScript) (k : Nat) (keys : List Point) : Prop :=
  ∃ l, Instruction.disassemble v.bytes = .ok l ∧
    ((k = 1 ∧ ∃ a, keys = [a] ∧ IsSingle a.compressed.bytes (l.map (·.2))) ∨
      IsMulti k (keys.map fun a => a.compressed.bytes) (l.map (·.2)))

section Asks

variable {v : VerificationScript}

theorem asks_iff_recognised {k : Nat} {keys : List Point} : v.Asks k keys ↔
    (k = 1 ∧ ∃ a, keys = [a] ∧ v.singleKey? = some a.compressed.bytes) ∨
      v.multisig? = some ⟨k, keys.map fun a => a.compressed.bytes⟩ := by
  simp only [singleKey?_eq_some_iff, multisig?_eq_some_iff]
  constructor
  · rintro ⟨l, hl, ⟨hk, a, hkeys, hsingle⟩ | hmulti⟩
    · exact .inl ⟨hk, a, hkeys, l, hl, hsingle⟩
    · exact .inr ⟨l, hl, hmulti⟩
  · rintro (⟨hk, a, hkeys, l, hl, hsingle⟩ | ⟨l, hl, hmulti⟩)
    · exact ⟨l, hl, .inl ⟨hk, a, hkeys, hsingle⟩⟩
    · exact ⟨l, hl, .inr hmulti⟩

theorem isSingleSig_of_singleKey? {key : Bytes} (h : v.singleKey? = some key) : v.isSingleSig = true := by
  rw [isSingleSig, h]
  rfl

theorem multisig?_of_singleKey? {key : Bytes} (h : v.singleKey? = some key) : v.multisig? = none :=
  multisig?_of_isSingleSig (isSingleSig_of_singleKey? h)

/-- The threshold and the keys of a script are those that it asks for. -/
theorem asks_iff {k : Nat} {keys : List Point} : v.Asks k keys ↔ v.threshold = .ok k ∧ v.keys = .ok keys := by
  rw [asks_iff_recognised, threshold_eq_ok]
  constructor
  · rintro (⟨rfl, a, rfl, hsingle⟩ | hmulti)
    · refine ⟨.inl ⟨isSingleSig_of_singleKey? hsingle, rfl⟩, ?_⟩
      rw [VerificationScript.keys, hsingle]
      exact mapM_compressed [a]
    · have hsingle : v.singleKey? = none := by
        rw [Option.eq_none_iff_forall_ne_some]
        intro key hkey
        cases hmulti.symm.trans (multisig?_of_singleKey? hkey)
      refine ⟨.inr ⟨_, hmulti⟩, ?_⟩
      rw [VerificationScript.keys, hsingle, hmulti]
      exact mapM_compressed keys
  · rintro ⟨hthreshold, hkeys⟩
    rcases keys_eq_ok hkeys with ⟨a, rfl, hsingle⟩ | ⟨n, hmulti⟩
    · rcases hthreshold with ⟨-, rfl⟩ | ⟨found, hfound⟩
      · exact .inl ⟨rfl, a, rfl, hsingle⟩
      · cases hfound.symm.trans (multisig?_of_singleKey? hsingle)
    · rcases hthreshold with ⟨hv, -⟩ | ⟨found, hfound⟩
      · cases hmulti.symm.trans (multisig?_of_isSingleSig hv)
      · cases hfound.symm.trans hmulti
        exact .inr hfound

end Asks

end VerificationScript

/-! ## What a map holds -/

namespace SignatureMap

def latest (entries : List (Point × Signature)) (key : Point) : Option Signature := entries.reverse.lookup key

theorem lookup_cons_eq (e : Point × Signature) (m : SignatureMap) (key : Point) :
    List.lookup key (e :: m) = if key = e.1 then some e.2 else m.lookup key := by
  rw [List.lookup_cons]
  split
  · next h => rw [if_pos (beq_iff_eq.mp h)]
  · next h => rw [if_neg (beq_eq_false_iff_ne.mp h)]

theorem lookup_insert (m : SignatureMap) (key : Point) (signature : Signature) (k : Point) :
    (insert key signature m).lookup k = if k = key then some signature else m.lookup k := by
  induction m with
  | nil => rw [SignatureMap.insert, lookup_cons_eq]
  | cons f rest ih =>
    unfold SignatureMap.insert
    split
    · rw [lookup_cons_eq]
    · next heq =>
      obtain rfl := Point.compare_eq_eq.mp heq
      rw [lookup_cons_eq, lookup_cons_eq]
      split <;> rfl
    · next hgt =>
      have hne : key ≠ f.1 := by
        rintro rfl
        rw [Point.compare_eq_eq.mpr rfl] at hgt
        cases hgt
      rw [lookup_cons_eq, lookup_cons_eq, ih]
      split
      · next h => rw [if_neg (h ▸ hne.symm)]
      · rfl

theorem ofList_concat (entries : List (Point × Signature)) (e : Point × Signature) :
    ofList (entries ++ [e]) = insert e.1 e.2 (ofList entries) := by
  rw [ofList, List.foldl_append]
  rfl

theorem latest_concat (entries : List (Point × Signature)) (e : Point × Signature) (key : Point) :
    latest (entries ++ [e]) key = if key = e.1 then some e.2 else latest entries key := by
  rw [latest, List.reverse_append, List.reverse_singleton, List.singleton_append, lookup_cons_eq]
  rfl

theorem lookup_ofList (entries : List (Point × Signature)) (key : Point) :
    (ofList entries).lookup key = latest entries key := by
  induction entries using List.reverseRecOn with
  | nil => rfl
  | append_singleton entries e ih => rw [ofList_concat, lookup_insert, latest_concat, ih]

theorem lookup_eq_none_iff {m : SignatureMap} {key : Point} : m.lookup key = none ↔ key ∉ m.map (·.1) := by
  rw [List.lookup_eq_none_iff, List.mem_map, not_exists]
  refine forall_congr' fun e => ?_
  rw [not_and, bne_iff_ne, ne_comm]

/-- A key is held exactly if it was added. -/
theorem mem_keys_ofList {entries : List (Point × Signature)} {key : Point} :
    key ∈ (ofList entries).map (·.1) ↔ key ∈ entries.map (·.1) := by
  rw [← not_iff_not, ← lookup_eq_none_iff, lookup_ofList, latest, lookup_eq_none_iff, List.map_reverse,
    List.mem_reverse]

namespace IsAscending

variable {m m' : SignatureMap}

theorem nodup_keys (h : m.IsAscending) : (m.map (·.1)).Nodup := by
  refine List.pairwise_map.mpr (h.imp ?_)
  intro a b hlt heq
  rw [Point.compare_eq_eq.mpr heq] at hlt
  cases hlt

theorem mem_iff_lookup (h : m.IsAscending) {e : Point × Signature} : e ∈ m ↔ m.lookup e.1 = some e.2 := by
  induction m with
  | nil => exact iff_of_false List.not_mem_nil nofun
  | cons f rest ih =>
    obtain ⟨hfirst, hrest⟩ := List.pairwise_cons.mp h
    rw [List.mem_cons, ih hrest, lookup_cons_eq]
    split
    · next hkey =>
      have hnot : rest.lookup e.1 ≠ some e.2 := by
        intro hlookup
        have hlt := hfirst e ((ih hrest).mpr hlookup)
        rw [Point.compare_eq_eq.mpr hkey.symm] at hlt
        cases hlt
      rw [or_iff_left hnot, Option.some.injEq]
      exact ⟨fun heq => heq ▸ rfl, fun hs => Prod.ext hkey hs.symm⟩
    · next hkey => exact or_iff_right fun heq => hkey (heq ▸ rfl)

/-- Maps that hold the same signatures are the same. -/
theorem ext (h : m.IsAscending) (h' : m'.IsAscending) (hlookup : ∀ key, m.lookup key = m'.lookup key) : m = m' := by
  have hperm : m.Perm m' := by
    refine (List.perm_ext_iff_of_nodup (List.Nodup.of_map _ h.nodup_keys) (List.Nodup.of_map _ h'.nodup_keys)).mpr ?_
    intro e
    rw [h.mem_iff_lookup, h'.mem_iff_lookup, hlookup]
  refine List.Perm.eq_of_pairwise ?_ h h' hperm
  intro a b _ _ hab hba
  cases (Point.compare_eq_gt.mpr hba).symm.trans hab

end IsAscending

/-- Only the last signature of each key counts, and the order of the keys does not. -/
theorem ofList_congr {entries entries' : List (Point × Signature)}
    (h : ∀ key, latest entries' key = latest entries key) : ofList entries' = ofList entries := by
  refine (isAscending_ofList entries').ext (isAscending_ofList entries) ?_
  intro key
  rw [lookup_ofList, lookup_ofList, h]

/-- A map has as many entries as different keys were added. -/
theorem length_ofList (entries : List (Point × Signature)) :
    (ofList entries).length = (entries.map (·.1)).dedup.length := by
  have hperm : ((ofList entries).map (·.1)).Perm (entries.map (·.1)).dedup := by
    refine (List.perm_ext_iff_of_nodup (isAscending_ofList entries).nodup_keys (List.nodup_dedup _)).mpr ?_
    intro key
    rw [mem_keys_ofList, List.mem_dedup]
  rw [← hperm.length_eq, List.length_map]

/-- The first entries of a map have the smallest keys. -/
theorem IsAscending.lt_of_not_mem_take {m : SignatureMap} (h : m.IsAscending) {k : Nat} {key : Point}
    (hkey : key ∈ m.map (·.1)) (hnot : key ∉ (m.take k).map (·.1)) :
    ∀ c ∈ m.take k, compare c.1 key = .lt := by
  obtain ⟨e, he, rfl⟩ := List.mem_map.mp hkey
  have hsplit : IsAscending (m.take k ++ m.drop k) := (List.take_append_drop k m).symm ▸ h
  rw [← List.take_append_drop k m, List.mem_append] at he
  have hlate : e ∈ m.drop k := he.resolve_left fun hearly => hnot (List.mem_map_of_mem hearly)
  exact fun c hc => (List.pairwise_append.mp hsplit).2.2 c hc e hlate

end SignatureMap

/-! ## Witnesses -/

namespace Witness

open SignatureMap (latest)

/-- Exactly when a witness is made, and that it carries the last signatures of the smallest keys. -/
theorem ofSignatures_smallest (v : VerificationScript) (entries : List (Point × Signature)) :
    ((∃ w, ofSignatures v (.ofList entries) = .ok w) ↔
      ∃ k keys, v.Asks k keys ∧ (∀ e ∈ entries, e.1 ∈ keys) ∧ k ≤ (entries.map (·.1)).dedup.length) ∧
    (∀ w, ofSignatures v (.ofList entries) = .ok w → w.verification = v ∧
      ∃ (k : Nat) (chosen : SignatureMap), v.threshold = .ok k ∧ chosen.length = k ∧
        w.invocation.signatures = .ok (chosen.map (·.2)) ∧ (∀ e ∈ chosen, latest entries e.1 = some e.2) ∧
        chosen.Pairwise (fun a b => a.1.x < b.1.x ∨ a.1.x = b.1.x ∧ a.1.y < b.1.y) ∧
        ∀ e ∈ entries, e.1 ∈ chosen.map (·.1) ∨
          ∀ c ∈ chosen, c.1.x < e.1.x ∨ c.1.x = e.1.x ∧ c.1.y < e.1.y) ∧
    ∀ entries', (∀ key, latest entries' key = latest entries key) →
      ofSignatures v (.ofList entries') = ofSignatures v (.ofList entries) := by
  have hascending := SignatureMap.isAscending_ofList entries
  have hknown : ∀ keys : List Point,
      (∀ e ∈ SignatureMap.ofList entries, e.1 ∈ keys) ↔ ∀ e ∈ entries, e.1 ∈ keys := by
    intro keys
    rw [← List.forall_mem_map (f := Prod.fst) (P := (· ∈ keys)),
      ← List.forall_mem_map (f := Prod.fst) (P := (· ∈ keys))]
    simp only [SignatureMap.mem_keys_ofList]
  refine ⟨?_, ?_, ?_⟩
  · simp only [ofSignatures_eq_ok_iff, hknown, SignatureMap.length_ofList, VerificationScript.asks_iff]
    constructor
    · rintro ⟨w, k, keys, hk, hkeys, hmem, hmany, -⟩
      exact ⟨k, keys, ⟨hk, hkeys⟩, hmem, hmany⟩
    · rintro ⟨k, keys, ⟨hk, hkeys⟩, hmem, hmany⟩
      exact ⟨_, k, keys, hk, hkeys, hmem, hmany, rfl⟩
  · intro w hw
    obtain ⟨k, keys, hk, -, -, hmany, rfl⟩ := ofSignatures_eq_ok_iff.mp hw
    refine ⟨rfl, k, (SignatureMap.ofList entries).take k, hk, List.length_take_of_le hmany,
      InvocationScript.signatures_ofSignatures _, ?_, ?_, ?_⟩
    · intro e he
      rw [← SignatureMap.lookup_ofList]
      exact hascending.mem_iff_lookup.mp (List.mem_of_mem_take he)
    · exact hascending.take.imp Point.compare_eq_lt.mp
    · intro e he
      refine or_iff_not_imp_left.mpr fun hnot c hc => Point.compare_eq_lt.mp ?_
      have hheld := SignatureMap.mem_keys_ofList.mpr (List.mem_map_of_mem (f := Prod.fst) he)
      exact hascending.lt_of_not_mem_take hheld hnot c hc
  · intro entries' h
    rw [SignatureMap.ofList_congr h]

/-- Keys that descend in the script, and a map in which one signature was added in place of another. -/
theorem ofSignatures_smallest_refilled : ∃ w, ofSignatures (bothOf .opposite .base) twoSignatures = .ok w ∧
    w.verification = bothOf .opposite .base ∧
    (∃ chosen : SignatureMap, chosen.length = 2 ∧ w.invocation.signatures = .ok (chosen.map (·.2))) ∧
    ofSignatures (bothOf .opposite .base)
      (.ofList [(.base, secondSignature), (.opposite, secondSignature), (.base, firstSignature)]) = .ok w := by
  obtain ⟨-, hmade, hfill⟩ := ofSignatures_smallest (bothOf .opposite .base)
    [(.opposite, secondSignature), (.base, firstSignature)]
  have hw := ofSignatures_bothOf (a := .opposite) (b := .base) (by simp) List.mem_cons_self
  obtain ⟨hscript, k, chosen, hk, hlength, hsignatures, -⟩ := hmade _ hw
  obtain rfl : 2 = k := Except.ok.inj ((threshold_bothOf _ _).symm.trans hk)
  refine ⟨_, hw, hscript, ⟨chosen, hlength, hsignatures⟩, (hfill _ ?_).trans hw⟩
  intro key
  show List.lookup key [(.base, firstSignature), (.opposite, secondSignature), (.base, secondSignature)] =
    List.lookup key [(.base, firstSignature), (.opposite, secondSignature)]
  simp only [SignatureMap.lookup_cons_eq]
  split <;> rfl

end Witness

end N3
