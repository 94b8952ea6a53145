import N3.Json

/-!
# Fields are smaller than their object

A definition that follows a JSON value into its fields ends because a field is smaller than its object and an item
smaller than its array.
-/

set_option autoImplicit false

namespace N3.Json

theorem sizeOf_lookup {fields : List (String × Json)} {key : String} {j : Json}
    (h : fields.lookup key = some j) : sizeOf j < sizeOf fields := by
  induction fields with
  | nil => cases h
  | cons f fs ih =>
    obtain ⟨k, v⟩ := f
    rw [List.lookup_cons] at h
    split at h
    · cases h; simp only [List.cons.sizeOf_spec, Prod.mk.sizeOf_spec]; omega
    · have := ih h
      simp only [List.cons.sizeOf_spec]; omega

theorem sizeOf_get? {j v : Json} {key : String} (h : j.get? key = some v) : sizeOf v < sizeOf j := by
  cases j with
  | obj fields => have := sizeOf_lookup h; simp only [obj.sizeOf_spec]; omega
  | _ => cases h

theorem sizeOf_asArray? {j : Json} {items : List Json} (h : j.asArray? = some items) : sizeOf items < sizeOf j := by
  cases j with
  | arr items' => cases h; simp only [arr.sizeOf_spec]; omega
  | _ => cases h

end N3.Json
