import Mathlib.Data.List.Nodup
import N3.Transaction

/-!
# What occurs twice

A transaction has each account once among its signers, and each kind of attribute once that may not occur again. The
searches for the first that is repeated find none exactly then (`firstRepeatedAccount?_eq_none_iff`,
`firstRepeated?_eq_none_iff`).
-/

set_option autoImplicit false

namespace N3

theorem Transaction.firstRepeatedAccount?_eq_none_iff {seen : List Hash160} {ss : List Signer} :
    firstRepeatedAccount? seen ss = none ↔
      (ss.map Signer.account).Nodup ∧ ∀ s ∈ ss, s.account ∉ seen := by
  induction ss generalizing seen with
  | nil => simp [firstRepeatedAccount?]
  | cons s ss ih =>
    rw [firstRepeatedAccount?, List.contains_eq_mem, List.map_cons, List.nodup_cons, List.forall_mem_cons]
    by_cases hseen : s.account ∈ seen
    · simp [hseen]
    · rw [decide_eq_false hseen, if_neg Bool.false_ne_true, ih]
      have hfresh : (∀ t ∈ ss, t.account ∉ s.account :: seen) ↔
          s.account ∉ ss.map Signer.account ∧ ∀ t ∈ ss, t.account ∉ seen := by
        simp only [List.mem_cons, not_or, List.mem_map, not_exists, not_and, forall_and]
      rw [hfresh]
      tauto

namespace Attribute

/-- How often a kind may still occur that may not occur again. -/
def room (seen : List Kind) (k : Kind) : Nat := if k ∈ seen then 0 else 1

section

variable {seen : List Kind} {a : Attribute} {as : List Attribute} {k : Kind}

/-- An attribute of a kind takes up the room for it. -/
theorem count_le_room_cons (h : k = a.kind → k ∉ seen) :
    ((a :: as).map kind).count k ≤ room seen k ↔ (as.map kind).count k ≤ room (a.kind :: seen) k := by
  rw [List.map_cons, room, room]
  by_cases hk : k = a.kind
  · subst hk
    rw [List.count_cons_self, if_neg (h rfl), if_pos List.mem_cons_self]
    omega
  · rw [List.count_cons_of_ne (Ne.symm hk)]
    simp [hk]

theorem room_lt_count_of_mem (h : a.kind ∈ seen) : room seen a.kind < ((a :: as).map kind).count a.kind := by
  rw [room, if_pos h, List.map_cons, List.count_cons_self]
  exact Nat.succ_pos _

theorem firstRepeated?_eq_none_iff : firstRepeated? seen as = none ↔
    ∀ k : Kind, k.allowsMultiple = false → (as.map kind).count k ≤ room seen k := by
  induction as generalizing seen with
  | nil => simp [firstRepeated?]
  | cons a as ih =>
    rw [firstRepeated?, List.contains_eq_mem]
    by_cases hrepeated : a.kind.allowsMultiple = false ∧ a.kind ∈ seen
    · obtain ⟨hsingle, hseen⟩ := hrepeated
      rw [hsingle, decide_eq_true hseen]
      exact ⟨nofun, fun h => absurd (h a.kind hsingle) (Nat.not_le.mpr (room_lt_count_of_mem hseen))⟩
    · rw [if_neg (by simpa using hrepeated), ih]
      refine forall_congr' fun k => forall_congr' fun hsingle => (count_le_room_cons ?_).symm
      rintro rfl hseen
      exact hrepeated ⟨hsingle, hseen⟩

theorem of_firstRepeated?_eq_some (h : firstRepeated? seen as = some k) :
    k.allowsMultiple = false ∧ room seen k < (as.map kind).count k := by
  induction as generalizing seen with
  | nil => cases h
  | cons a as ih =>
    rw [firstRepeated?, List.contains_eq_mem] at h
    by_cases hrepeated : a.kind.allowsMultiple = false ∧ a.kind ∈ seen
    · obtain ⟨hsingle, hseen⟩ := hrepeated
      rw [hsingle, decide_eq_true hseen] at h
      cases h
      exact ⟨hsingle, room_lt_count_of_mem hseen⟩
    · rw [if_neg (by simpa using hrepeated)] at h
      obtain ⟨hsingle, hcount⟩ := ih h
      refine ⟨hsingle, Nat.not_le.mp fun hle => Nat.not_le.mpr hcount ((count_le_room_cons ?_).mp hle)⟩
      rintro rfl hseen
      exact hrepeated ⟨hsingle, hseen⟩

end

end Attribute

end N3
