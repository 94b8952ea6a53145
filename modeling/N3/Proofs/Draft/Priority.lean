import N3.Proofs.Draft.Edits

/-!
# High priority that is marked again

`markedOnce` keeps the first mark of high priority and drops all others. Adding attributes to a draft leaves it with
`markedOnce` of the old and the new ones (`foldl_addAttribute_eq`), but asks for room for the marks that are dropped as
well: `addAttributes_exact` says for every draft and all attributes what becomes of them. So a draft that is full cannot
be marked again, although nothing would be added (`addAttributes_full`).
-/

set_option autoImplicit false

namespace N3

namespace Draft

/-! ## The first mark -/

/-- The attributes without all marks of high priority after the first. -/
def markedOnce : List Attribute → List Attribute
  | [] => []
  | a :: as => a :: if a = .highPriority then as.filter (· ≠ .highPriority) else markedOnce as

theorem filter_of_not_mem {as : List Attribute} (h : .highPriority ∉ as) : as.filter (· ≠ .highPriority) = as := by
  rw [List.filter_eq_self]
  intro a ha
  simp only [ne_eq, decide_not, Bool.not_eq_eq_eq_not, Bool.not_true, decide_eq_false_iff_not]
  rintro rfl
  exact h ha

theorem markedOnce_of_count_le_one {as : List Attribute} (h : as.count .highPriority ≤ 1) : markedOnce as = as := by
  induction as with
  | nil => rfl
  | cons a as ih =>
    by_cases ha : a = .highPriority
    · subst ha
      rw [List.count_cons_self] at h
      have hnone : .highPriority ∉ as := List.count_eq_zero.mp (by omega)
      rw [markedOnce, if_pos rfl, filter_of_not_mem hnone]
    · rw [List.count_cons_of_ne ha] at h
      rw [markedOnce, if_neg ha, ih h]

/-- Behind attributes that hold a mark, every mark is dropped. -/
theorem markedOnce_append (as bs : List Attribute) :
    markedOnce (as ++ bs) =
      markedOnce as ++ if .highPriority ∈ as then bs.filter (· ≠ .highPriority) else markedOnce bs := by
  induction as with
  | nil => simp [markedOnce]
  | cons a as ih =>
    rw [List.cons_append, markedOnce, markedOnce]
    by_cases ha : a = .highPriority
    · subst ha
      simp
    · have hmem : .highPriority ∈ a :: as ↔ .highPriority ∈ as := by simp [Ne.symm ha]
      rw [if_neg ha, if_neg ha, ih, List.cons_append]
      simp only [hmem]

theorem length_filter_add_count (as : List Attribute) :
    (as.filter (· ≠ .highPriority)).length + as.count .highPriority = as.length := by
  induction as with
  | nil => rfl
  | cons a as ih =>
    by_cases ha : a = .highPriority
    · subst ha
      rw [List.filter_cons_of_neg (by simp), List.count_cons_self, List.length_cons]
      omega
    · rw [List.filter_cons_of_pos (by simp [ha]), List.count_cons_of_ne ha, List.length_cons, List.length_cons]
      omega

/-- Each mark after the first takes one place. -/
theorem length_markedOnce (as : List Attribute) :
    (markedOnce as).length + (as.count .highPriority - 1) = as.length := by
  induction as with
  | nil => rfl
  | cons a as ih =>
    rw [markedOnce]
    by_cases ha : a = .highPriority
    · subst ha
      have hsplit := length_filter_add_count as
      rw [if_pos rfl, List.count_cons_self, List.length_cons, List.length_cons]
      omega
    · rw [if_neg ha, List.count_cons_of_ne ha, List.length_cons, List.length_cons]
      omega

/-! ## Adding attributes -/

/-- One attribute after the other is added, the marks only if there is none yet. -/
theorem foldl_addAttribute (added as : List Attribute) :
    added.foldl addAttribute as =
      as ++ if .highPriority ∈ as then added.filter (· ≠ .highPriority) else markedOnce added := by
  induction added generalizing as with
  | nil => simp [markedOnce]
  | cons a added ih =>
    rw [List.foldl_cons, ih]
    by_cases ha : a = .highPriority
    · subst ha
      by_cases hmem : .highPriority ∈ as
      · simp [addAttribute, hmem]
      · simp [addAttribute, hmem, markedOnce]
    · have hadd : addAttribute as a = as ++ [a] := by
        rw [addAttribute, if_neg]
        exact fun h => ha h.1
      have hmem : .highPriority ∈ as ++ [a] ↔ .highPriority ∈ as := by simp [Ne.symm ha]
      rw [hadd, markedOnce, if_neg ha]
      simp only [hmem]
      split
      · simp [ha]
      · simp

theorem foldl_addAttribute_eq {as : List Attribute} (h : as.count .highPriority ≤ 1) (added : List Attribute) :
    added.foldl addAttribute as = markedOnce (as ++ added) := by
  rw [foldl_addAttribute, markedOnce_append, markedOnce_of_count_le_one h]

theorem length_append_eq (as added : List Attribute) :
    as.length + added.length =
      (markedOnce (as ++ added)).length + ((as ++ added).count .highPriority - 1) := by
  rw [length_markedOnce, List.length_append]

theorem Consistent.addAttributes_eq {d : Draft} (hd : d.Consistent) (added : List Attribute) :
    d.addAttributes added =
      if d.signers.length + (markedOnce (d.attributes ++ added)).length +
          ((d.attributes ++ added).count .highPriority - 1) ≤ Limits.signersAndAttributes then
        .ok { d with attributes := markedOnce (d.attributes ++ added) }
      else .error (.transactionConfiguration (.noRoomForAttributes Limits.signersAndAttributes)) := by
  rw [addAttributes, checkRoom, length_append_eq, foldl_addAttribute_eq hd.priority, ← Nat.add_assoc]
  split
  · next hfull =>
    rw [if_neg (Nat.not_le.mpr hfull)]
    rfl
  · next hroom =>
    rw [if_pos (Nat.not_lt.mp hroom)]
    rfl

theorem Consistent.addAttributes_again {d : Draft} (hd : d.Consistent) (h : .highPriority ∈ d.attributes) :
    d.addAttributes [.highPriority] =
      if d.signers.length + d.attributes.length < Limits.signersAndAttributes then .ok d
      else .error (.transactionConfiguration (.noRoomForAttributes Limits.signersAndAttributes)) := by
  have hone : d.attributes.count .highPriority = 1 := Nat.le_antisymm hd.priority (List.count_pos_iff.mpr h)
  have hsame : markedOnce (d.attributes ++ [.highPriority]) = d.attributes := by
    rw [markedOnce_append, if_pos h, markedOnce_of_count_le_one hd.priority]
    simp
  have htwo : (d.attributes ++ [Attribute.highPriority]).count .highPriority = 2 := by
    rw [List.count_append, hone, List.count_singleton_self]
  rw [hd.addAttributes_eq, hsame, htwo]
  rfl

/-- What becomes of attributes that are added to a draft. There is room if the signers, the attributes that the draft
is to have and the marks that are dropped are no more than sixteen, and then it has the old and the new ones without
any mark after the first; otherwise they are refused. A draft that is marked and is not full does not change if it is
marked again. -/
theorem addAttributes_exact {nonce : UInt32} {es : List Edit} {d : Draft} (h : ({ nonce } : Draft).edit es = .ok d) :
    (∀ added,
      let attributes := markedOnce (d.attributes ++ added)
      let dropped := (d.attributes ++ added).count .highPriority - 1
      d.addAttributes added =
        if d.signers.length + attributes.length + dropped ≤ 16 then .ok { d with attributes }
        else .error (.transactionConfiguration (.noRoomForAttributes 16))) ∧
    (.highPriority ∈ d.attributes →
      d.addAttributes [.highPriority] =
        if d.signers.length + d.attributes.length < 16 then .ok d
        else .error (.transactionConfiguration (.noRoomForAttributes 16))) := by
  have hd := (consistent_nonce nonce).edit h
  exact ⟨hd.addAttributes_eq, hd.addAttributes_again⟩

/-- A draft that is marked twice at once, and is then marked once more together with another attribute. -/
theorem addAttributes_exact_again :
    ({ nonce := 0 } : Draft).edit [.attributes [.highPriority, .highPriority]] =
      .ok { attributes := [.highPriority] } ∧
    ({ attributes := [.highPriority] } : Draft).addAttributes [.notValidBefore 1, .highPriority] =
      .ok { attributes := [.highPriority, .notValidBefore 1] } ∧
    ({ attributes := [.highPriority] } : Draft).addAttributes [.highPriority] =
      .ok { attributes := [.highPriority] } := by
  have hedited : ({ nonce := 0 } : Draft).edit [.attributes [.highPriority, .highPriority]] =
      .ok { attributes := [.highPriority] } := rfl
  obtain ⟨hadd, hagain⟩ := addAttributes_exact hedited
  exact ⟨hedited, hadd [.notValidBefore 1, .highPriority], hagain List.mem_cons_self⟩

/-! A draft with a mark and fifteen other attributes. -/

def fifteen : List Attribute := List.replicate 15 (.conflicts (FixedBytes.zero 32))

def fullDraft : Draft := { attributes := .highPriority :: fifteen }

/-- The draft is full, and nothing would be added to it if it were marked again: it would have sixteen attributes and
no signers, as before. It cannot be marked again. -/
theorem addAttributes_full :
    ({ nonce := 0 } : Draft).edit [.attributes (.highPriority :: fifteen)] = .ok fullDraft ∧
    .highPriority ∈ fullDraft.attributes ∧
    markedOnce (fullDraft.attributes ++ [.highPriority]) = fullDraft.attributes ∧
    fullDraft.signers.length + (markedOnce (fullDraft.attributes ++ [.highPriority])).length = 16 ∧
    fullDraft.addAttributes [.highPriority] = .error (.transactionConfiguration (.noRoomForAttributes 16)) := by
  have hsame : markedOnce (fullDraft.attributes ++ [.highPriority]) = fullDraft.attributes := by decide
  refine ⟨rfl, List.mem_cons_self, hsame, ?_, rfl⟩
  rw [hsame]
  rfl

end Draft

end N3
