import N3.Proofs.Lists
import N3.Proofs.Parameter
import N3.Proofs.Text.Base64
import N3.Proofs.Text.Decimal
import N3.Proofs.Text.Hex

/-!
# Parameters in JSON

The object of a parameter names its type, and so its kind (`sameKind_of_typeName`); what stands beside it determines
the value among those of one kind, whose texts are read back. So a parameter is determined by its object
(`toJson_inj`), arrays and maps by induction over what is in them.
-/

set_option autoImplicit false

namespace N3

namespace Json

theorem field?_inj {key : String} {v w : Option Json} : field? key v = field? key w ↔ v = w := by
  cases v <;> cases w <;> simp [field?]

end Json

theorem FixedBytes.toText_injective {n : Nat} {a b : FixedBytes n} (h : a.toText = b.toText) : a = b := by
  have hread := FixedBytes.parse_toText a
  rw [h, FixedBytes.parse_toText] at hread
  exact (Except.ok.inj hread).symm

theorem Point.toHex_injective {a b : Point} (h : a.toHex = b.toHex) : a = b := by
  have hread := Point.ofHex_toHex a
  rw [h, Point.ofHex_toHex] at hread
  exact (Except.ok.inj hread).symm

namespace Parameter

/-! ## Objects -/

theorem itemsToJson_eq (items : List Parameter) : itemsToJson items = items.map toJson := by
  induction items with
  | nil => rfl
  | cons p ps ih => rw [itemsToJson, ih, List.map_cons]

def entryToJson (e : Parameter × Parameter) : Json := .obj [("key", e.1.toJson), ("value", e.2.toJson)]

theorem entriesToJson_eq (entries : List (Parameter × Parameter)) : entriesToJson entries = entries.map entryToJson := by
  induction entries with
  | nil => rfl
  | cons e es ih =>
    rw [entriesToJson, ih, List.map_cons]
    rfl

def content : Parameter → Option Json
  | any | interopInterface | void => none
  | boolean v => some (.bool v)
  | integer v => some (.str (toString v))
  | byteArray bs | signature bs => some (.str (Base64.encode bs))
  | string s => some (.str s)
  | hash160 h => some (.str h.toText)
  | hash256 h => some (.str h.toText)
  | publicKey k => some (.str k.toHex)
  | array items => some (.arr (items.map toJson))
  | map entries => some (.arr (entries.map entryToJson))

theorem toJson_eq_object (p : Parameter) : p.toJson = p.object p.content := by
  cases p with
  | array items => rw [toJson, itemsToJson_eq, content]
  | map entries => rw [toJson, entriesToJson_eq, content]
  | _ => rfl

theorem of_toJson_eq {p q : Parameter} (h : p.toJson = q.toJson) : p.typeName = q.typeName ∧ p.content = q.content := by
  rw [toJson_eq_object, toJson_eq_object, object, object] at h
  simpa [Json.field?_inj] using h

/-! ## Kinds -/

/-- Parameters of one kind, whatever their values are. -/
inductive SameKind : Parameter → Parameter → Prop where
  | any : SameKind any any
  | boolean (v w : Bool) : SameKind (boolean v) (boolean w)
  | integer (v w : Int) : SameKind (integer v) (integer w)
  | byteArray (bs cs : Bytes) : SameKind (byteArray bs) (byteArray cs)
  | string (s t : String) : SameKind (string s) (string t)
  | hash160 (g h : Hash160) : SameKind (hash160 g) (hash160 h)
  | hash256 (g h : Hash256) : SameKind (hash256 g) (hash256 h)
  | publicKey (k l : Point) : SameKind (publicKey k) (publicKey l)
  | signature (bs cs : Bytes) : SameKind (signature bs) (signature cs)
  | array (ps qs : List Parameter) : SameKind (array ps) (array qs)
  | map (es fs : List (Parameter × Parameter)) : SameKind (map es) (map fs)
  | interopInterface : SameKind interopInterface interopInterface
  | void : SameKind void void

theorem sameKind_of_typeName {p q : Parameter} (h : p.typeName = q.typeName) : SameKind p q := by
  cases p <;> cases q <;> first
    | constructor
    | simp [typeName, kind] at h

/-! ## Values of one kind -/

theorem eq_of_entryToJson_eq {e f : Parameter × Parameter} (hkey : ∀ q, e.1.toJson = q.toJson → e.1 = q)
    (hvalue : ∀ q, e.2.toJson = q.toJson → e.2 = q) (h : entryToJson e = entryToJson f) : e = f := by
  have hfields : e.1.toJson = f.1.toJson ∧ e.2.toJson = f.2.toJson := by simpa [entryToJson] using h
  exact Prod.ext (hkey _ hfields.1) (hvalue _ hfields.2)

/-- What stands beside the type of a single value determines the value. -/
theorem eq_of_content_eq {p q : Parameter} (hkind : SameKind p q) (harray : ∀ items, p ≠ array items)
    (hmap : ∀ entries, p ≠ map entries) (h : p.content = q.content) : p = q := by
  cases hkind with
  | any => rfl
  | boolean v w => simpa [content] using h
  | integer v w =>
    have htext : toString v = toString w := by simpa [content] using h
    rw [Decimal.toString_injective htext]
  | byteArray bs cs =>
    have htext : Base64.encode bs = Base64.encode cs := by simpa [content] using h
    rw [Base64.encode_injective htext]
  | string s t => simpa [content] using h
  | hash160 g h' =>
    have htext : g.toText = h'.toText := by simpa [content] using h
    rw [FixedBytes.toText_injective htext]
  | hash256 g h' =>
    have htext : g.toText = h'.toText := by simpa [content] using h
    rw [FixedBytes.toText_injective htext]
  | publicKey k l =>
    have htext : k.toHex = l.toHex := by simpa [content] using h
    rw [Point.toHex_injective htext]
  | signature bs cs =>
    have htext : Base64.encode bs = Base64.encode cs := by simpa [content] using h
    rw [Base64.encode_injective htext]
  | array ps qs => exact absurd rfl (harray ps)
  | map es fs => exact absurd rfl (hmap es)
  | interopInterface => rfl
  | void => rfl

/-! ## All parameters -/

/-- A parameter is determined by its object: its kind, its value, and if it is an array or a map, what is in it, in
order and to any depth. -/
theorem toJson_inj (p q : Parameter) : p.toJson = q.toJson ↔ p = q := by
  refine ⟨fun h => ?_, fun h => h ▸ rfl⟩
  induction p using induct generalizing q with
  | array items ih =>
    obtain ⟨htype, hcontent⟩ := of_toJson_eq h
    cases sameKind_of_typeName htype with
    | array _ others =>
      have hitems : items.map toJson = others.map toJson := by simpa [content] using hcontent
      rw [Lists.eq_of_map_eq hitems ih]
  | map entries ih =>
    obtain ⟨htype, hcontent⟩ := of_toJson_eq h
    cases sameKind_of_typeName htype with
    | map _ others =>
      have hentries : entries.map entryToJson = others.map entryToJson := by simpa [content] using hcontent
      rw [Lists.eq_of_map_eq hentries fun e he f => eq_of_entryToJson_eq (ih e he).1 (ih e he).2]
  | other p harray hmap =>
    obtain ⟨htype, hcontent⟩ := of_toJson_eq h
    exact eq_of_content_eq (sameKind_of_typeName htype) harray hmap hcontent

end Parameter

end N3
