import Mathlib.Data.List.Sort
import N3.Curve.Point

/-!
# The order of keys

Keys are compared by `x` and then by `y`, which is a total order in which only equal keys come out equal. So `sort` has
one result for all orders of the same keys (`sort_eq_of_perm`), and keys that are in order already it leaves alone.
-/

set_option autoImplicit false

namespace N3.Point

theorem compare_eq_lt {a b : Point} : compare a b = .lt ↔ a.x < b.x ∨ a.x = b.x ∧ a.y < b.y := by
  show (compare a.x b.x).then (compare a.y b.y) = .lt ↔ _
  rw [Ordering.then_eq_lt, Nat.compare_eq_lt, Nat.compare_eq_eq, Nat.compare_eq_lt]

theorem compare_eq_eq {a b : Point} : compare a b = .eq ↔ a = b := by
  show (compare a.x b.x).then (compare a.y b.y) = .eq ↔ _
  rw [Ordering.then_eq_eq, Nat.compare_eq_eq, Nat.compare_eq_eq]
  exact ⟨fun h => ext h.1 h.2, fun h => h ▸ ⟨rfl, rfl⟩⟩

theorem compare_eq_gt {a b : Point} : compare a b = .gt ↔ compare b a = .lt := by
  rw [compare_eq_lt]
  show (compare a.x b.x).then (compare a.y b.y) = .gt ↔ _
  rw [Ordering.then_eq_gt, Nat.compare_eq_gt, Nat.compare_eq_eq, Nat.compare_eq_gt, eq_comm]

theorem compare_trans {a b c : Point} (hab : compare a b = .lt) (hbc : compare b c = .lt) : compare a c = .lt := by
  rw [compare_eq_lt] at *
  omega

theorem le_iff {a b : Point} : le a b = true ↔ a.x < b.x ∨ a.x = b.x ∧ a.y ≤ b.y := by
  rw [le, ← Ordering.ne_gt_iff_isLE, compare_eq_gt, compare_eq_lt]
  omega

theorem le_trans (a b c : Point) (hab : le a b = true) (hbc : le b c = true) : le a c = true := by
  rw [le_iff] at *
  omega

theorem le_total (a b : Point) : (le a b || le b a) = true := by
  rw [Bool.or_eq_true, le_iff, le_iff]
  omega

theorem le_antisymm {a b : Point} (hab : le a b = true) (hba : le b a = true) : a = b := by
  rw [le_iff] at hab hba
  exact ext (by omega) (by omega)

theorem le_of_compare_eq_lt {a b : Point} (h : compare a b = .lt) : le a b = true := by
  rw [compare_eq_lt] at h
  rw [le_iff]
  omega

/-! ## Sorting -/

theorem sort_perm (keys : List Point) : (sort keys).Perm keys := List.mergeSort_perm keys le

theorem pairwise_sort (keys : List Point) : (sort keys).Pairwise fun a b => le a b = true :=
  List.pairwise_mergeSort le_trans le_total keys

theorem length_sort (keys : List Point) : (sort keys).length = keys.length := (sort_perm keys).length_eq

theorem eq_of_perm_of_pairwise {as bs : List Point} (h : as.Perm bs) (has : as.Pairwise fun a b => le a b = true)
    (hbs : bs.Pairwise fun a b => le a b = true) : as = bs :=
  List.Perm.eq_of_pairwise (fun _ _ _ _ => le_antisymm) has hbs h

theorem sort_eq_of_perm {as bs : List Point} (h : as.Perm bs) : sort as = sort bs :=
  eq_of_perm_of_pairwise (((sort_perm as).trans h).trans (sort_perm bs).symm) (pairwise_sort as) (pairwise_sort bs)

theorem sort_eq_self {keys : List Point} (h : keys.Pairwise fun a b => le a b = true) : sort keys = keys :=
  eq_of_perm_of_pairwise (sort_perm keys) (pairwise_sort keys) h

/-- Keys in strictly ascending order, all of them among others, are a subsequence of those others in order. -/
theorem sublist_sort {as keys : List Point} (has : as.Pairwise fun a b => compare a b = .lt)
    (hmem : ∀ a ∈ as, a ∈ keys) : as.Sublist (sort keys) := by
  have hsymm : Std.Antisymm fun a b : Point => le a b = true := ⟨fun _ _ => le_antisymm⟩
  have hnodup : as.Nodup := has.imp fun hlt heq => by
    rw [compare_eq_eq.mpr heq] at hlt
    cases hlt
  have hsubperm : as.Subperm (sort keys) :=
    List.subperm_of_subset hnodup fun a ha => (sort_perm keys).mem_iff.mpr (hmem a ha)
  exact List.sublist_of_subperm_of_pairwise hsubperm (has.imp le_of_compare_eq_lt) (pairwise_sort keys)

/-! ## Two keys with the same `x` -/

def base : Point := ⟨Curve.generator.x, Curve.generator.y, by decide +kernel⟩

/-- The negative of the base point, which is the later of the two. -/
def opposite : Point := ⟨Curve.generator.x, Curve.p - Curve.generator.y, by decide +kernel⟩

theorem compare_base_opposite : compare base opposite = .lt := by decide +kernel

theorem sort_opposite_base : sort [opposite, base] = [base, opposite] := by
  have hpairwise : [base, opposite].Pairwise fun a b => le a b = true :=
    List.pairwise_pair.mpr (le_of_compare_eq_lt compare_base_opposite)
  rw [sort_eq_of_perm (List.Perm.swap base opposite []), sort_eq_self hpairwise]

end N3.Point
