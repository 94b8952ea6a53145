import N3.Proofs.Witness.Condition

/-!
# How deep a condition may be

The check goes down a condition with two counts of levels that are left, and the reader goes down what was written of
it with the same two. So they allow the same conditions (`refuses_decodeAt` and `reads_decodeAt`), and what they allow
can be said without either: it is a bound on each path from the root to a leaf, and one on each connective
(`checkAt_eq_ok_iff`).
-/

set_option autoImplicit false

namespace N3.Condition

variable {levels nesting : Nat}

/-! ## Conditions as trees -/

def children : Condition → List Condition
  | not c => [c]
  | and cs | or cs => cs
  | _ => []

def isConnective : Condition → Bool
  | and _ | or _ => true
  | _ => false

def isComposite : Condition → Bool
  | not _ | and _ | or _ => true
  | _ => false

/-- The conditions on the way from the root down to one that has no other under it. -/
inductive IsPath : Condition → List Condition → Prop where
  | leaf {c : Condition} (h : c.children = []) : IsPath c [c]
  | step {c d : Condition} {path : List Condition} (hd : d ∈ c.children) (h : IsPath d path) : IsPath c (c :: path)

/-- A condition occurs in itself, and wherever it occurs right below. -/
inductive Occurs (e : Condition) : Condition → Prop where
  | root : Occurs e e
  | under {c d : Condition} (hd : d ∈ c.children) (h : Occurs e d) : Occurs e c

theorem sizeOf_lt_of_mem_children {c d : Condition} (h : d ∈ c.children) : sizeOf d < sizeOf c := by
  cases c with
  | not c =>
    obtain rfl := List.mem_singleton.mp h
    simp
  | and cs =>
    have hlt : sizeOf d < sizeOf cs := List.sizeOf_lt_of_mem h
    simp only [and.sizeOf_spec]
    omega
  | or cs =>
    have hlt : sizeOf d < sizeOf cs := List.sizeOf_lt_of_mem h
    simp only [or.sizeOf_spec]
    omega
  | _ => cases h

/-- What goes from the conditions right under a condition to the condition holds of all of them. -/
theorem induct {P : Condition → Prop} (h : ∀ c, (∀ d ∈ c.children, P d) → P c) (c : Condition) : P c :=
  h c fun d _ => induct h d
termination_by sizeOf c
decreasing_by exact sizeOf_lt_of_mem_children ‹_›

theorem exists_isPath (c : Condition) : ∃ path, c.IsPath path := by
  induction c using induct with
  | h c ih =>
    rcases hchildren : c.children with _ | ⟨d, ds⟩
    · exact ⟨[c], .leaf hchildren⟩
    · have hd : d ∈ c.children := by
        rw [hchildren]
        exact List.mem_cons_self
      obtain ⟨path, hpath⟩ := ih d hd
      exact ⟨c :: path, .step hd hpath⟩

/-- How often a condition counts on the paths through it. -/
def weight (f : Condition → Bool) (c : Condition) : Nat := if f c then 1 else 0

theorem countP_cons_eq_add_weight (f : Condition → Bool) (c : Condition) (path : List Condition) :
    (c :: path).countP f = path.countP f + weight f c := List.countP_cons

/-- A bound on all paths is one on the paths from right under the root, less the root. -/
theorem forall_isPath_iff (f : Condition → Bool) (c : Condition) (n : Nat) :
    (∀ path, c.IsPath path → path.countP f ≤ n) ↔
      weight f c ≤ n ∧ ∀ d ∈ c.children, ∀ path, d.IsPath path → path.countP f ≤ n - weight f c := by
  constructor
  · intro h
    have hroot : weight f c ≤ n := by
      obtain ⟨path, hpath⟩ := exists_isPath c
      have hle := h path hpath
      cases hpath with
      | leaf => exact Nat.le_trans (Nat.le_add_left _ _) (countP_cons_eq_add_weight f c [] ▸ hle)
      | step => exact Nat.le_trans (Nat.le_add_left _ _) (countP_cons_eq_add_weight f c _ ▸ hle)
    refine ⟨hroot, fun d hd path hpath => ?_⟩
    have hle := h (c :: path) (.step hd hpath)
    rw [countP_cons_eq_add_weight] at hle
    omega
  · rintro ⟨hroot, hbelow⟩ path hpath
    cases hpath with
    | leaf =>
      rw [countP_cons_eq_add_weight, List.countP_nil, Nat.zero_add]
      exact hroot
    | step hd hpath =>
      have hle := hbelow _ hd _ hpath
      rw [countP_cons_eq_add_weight]
      omega

theorem forall_occurs_iff {P : Condition → Prop} (c : Condition) :
    (∀ e : Condition, e.Occurs c → P e) ↔ P c ∧ ∀ d ∈ c.children, ∀ e : Condition, e.Occurs d → P e := by
  constructor
  · exact fun h => ⟨h c .root, fun d hd e he => h e (.under hd he)⟩
  · rintro ⟨hroot, hbelow⟩ e he
    cases he with
    | root => exact hroot
    | under hd he => exact hbelow _ hd e he

/-! ## What the check allows -/

/-- A level of both kinds that is left is one that can be taken off. -/
theorem exists_levels_iff {P : Nat → Nat → Prop} : (∃ l n, levels = l + 1 ∧ nesting = n + 1 ∧ P l n) ↔
    1 ≤ levels ∧ 1 ≤ nesting ∧ P (levels - 1) (nesting - 1) := by
  constructor
  · rintro ⟨l, n, rfl, rfl, h⟩
    exact ⟨Nat.le_add_left 1 l, Nat.le_add_left 1 n, h⟩
  · rintro ⟨hl, hn, h⟩
    exact ⟨levels - 1, nesting - 1, (Nat.sub_add_cancel hl).symm, (Nat.sub_add_cancel hn).symm, h⟩

/-- The check at a condition, and at the conditions under it with what the condition leaves of the levels. -/
theorem checkAt_eq_ok_iff_children (c : Condition) : c.checkAt levels nesting = .ok () ↔
    weight isConnective c ≤ levels ∧ weight isComposite c ≤ nesting ∧
      (c.isConnective = true → c.children.length ≤ Limits.connectiveEntries) ∧
      ∀ d ∈ c.children,
        d.checkAt (levels - weight isConnective c) (nesting - weight isComposite c) = .ok () := by
  cases c with
  | not c =>
    rw [checkAt_not]
    constructor
    · rintro ⟨n, rfl, hc⟩
      exact ⟨Nat.zero_le _, Nat.le_add_left 1 n, nofun, List.forall_mem_singleton.mpr hc⟩
    · rintro ⟨-, hn, -, hchildren⟩
      exact ⟨nesting - 1, (Nat.sub_add_cancel hn).symm, hchildren c List.mem_cons_self⟩
  | and cs =>
    rw [checkAt_and, exists_levels_iff]
    simp [weight, isConnective, isComposite, children]
  | or cs =>
    rw [checkAt_or, exists_levels_iff]
    simp [weight, isConnective, isComposite, children]
  | _ =>
    refine iff_of_true (checkAt_leaf nofun nofun nofun) ⟨Nat.zero_le _, Nat.zero_le _, nofun, ?_⟩
    exact fun _ hd => absurd hd List.not_mem_nil

/-- No path has more connectives, or more connectives and negations, than there are levels, and no connective is too
wide. -/
theorem checkAt_eq_ok_iff (c : Condition) : c.checkAt levels nesting = .ok () ↔
    (∀ path, c.IsPath path → path.countP isConnective ≤ levels) ∧
      (∀ path, c.IsPath path → path.countP isComposite ≤ nesting) ∧
      ∀ e : Condition, e.Occurs c → e.isConnective = true → e.children.length ≤ Limits.connectiveEntries := by
  induction c using induct generalizing levels nesting with
  | h c ih =>
    rw [checkAt_eq_ok_iff_children, forall_isPath_iff, forall_isPath_iff, forall_occurs_iff]
    constructor
    · rintro ⟨hlevels, hnesting, hwide, hchildren⟩
      have hbelow := fun d hd => (ih d hd).mp (hchildren d hd)
      exact ⟨⟨hlevels, fun d hd => (hbelow d hd).1⟩, ⟨hnesting, fun d hd => (hbelow d hd).2.1⟩,
        ⟨hwide, fun d hd => (hbelow d hd).2.2⟩⟩
    · rintro ⟨⟨hlevels, hconnectives⟩, ⟨hnesting, hcomposites⟩, ⟨hwide, hbelow⟩⟩
      refine ⟨hlevels, hnesting, hwide, fun d hd => ?_⟩
      exact (ih d hd).mpr ⟨hconnectives d hd, hcomposites d hd, hbelow d hd⟩

theorem checkDepth_eq_ok_iff (c : Condition) (levels : Nat) : c.checkDepth levels = .ok () ↔
    (∀ path, c.IsPath path → path.countP isConnective ≤ levels ∧ path.countP isComposite ≤ Limits.conditionLevels) ∧
      ∀ e : Condition, e.Occurs c → e.isConnective = true → e.children.length ≤ Limits.connectiveEntries := by
  rw [checkDepth, checkAt_eq_ok_iff]
  constructor
  · rintro ⟨hconnectives, hcomposites, hwide⟩
    exact ⟨fun path hpath => ⟨hconnectives path hpath, hcomposites path hpath⟩, hwide⟩
  · rintro ⟨hpaths, hwide⟩
    exact ⟨fun path hpath => (hpaths path hpath).1, fun path hpath => (hpaths path hpath).2, hwide⟩

/-! ## What the reader refuses -/

theorem refuses_of_body {k : Kind} {bs : Bytes} (h : (decodeBody nesting levels k).Refuses bs) :
    (decodeAt nesting levels).Refuses (k.byte :: bs) := by
  rw [decodeAt_eq]
  refine (Decoder.reads_byte k.byte).bind_refuses ?_
  rw [ofByte?_byte]
  exact h

theorem one_le_size (c : Condition) : 1 ≤ c.size := by
  rw [← length_encode, encode.eq_def, List.length_cons]
  exact Nat.le_add_left _ _

theorem length_le_sizeAll (cs : List Condition) : cs.length ≤ sizeAll cs := by
  rw [sizeAll_eq_totalSize]
  exact Encode.length_le_totalSize cs fun c _ => c.one_le_size

theorem size_le_sizeAll {c : Condition} {cs : List Condition} (h : c ∈ cs) : c.size ≤ sizeAll cs := by
  rw [sizeAll_eq_totalSize]
  exact Encode.le_totalSize h

/-- What follows the byte of either connective, which is made of the conditions that are read. -/
def connectiveBody (nesting levels : Nat) (k : Kind) (make : List Condition → Condition) :
    Decoder DecodeError Condition :=
  match nesting with
  | 0 => Decoder.fail (.format .conditionTooDeep)
  | n + 1 =>
    match levels with
    | 0 => Decoder.fail (.format (.connectiveTooDeep k.name Limits.connectiveLevels))
    | l + 1 => do return make (← Decoder.list Limits.connectiveEntries (decodeAt n l))

/-- A connective is refused where no levels are left, and otherwise if its conditions are too many or one of them is
refused. -/
theorem refuses_connectiveBody (k : Kind) (make : List Condition → Condition) {cs : List Condition}
    (hsize : sizeAll cs < UInt64.size)
    (ih : ∀ c ∈ cs, ∀ {l n : Nat}, c.checkAt l n ≠ .ok () → (decodeAt n l).Refuses c.encode)
    (h : ¬ ∃ l n, levels = l + 1 ∧ nesting = n + 1 ∧ cs.length ≤ Limits.connectiveEntries ∧
      ∀ c ∈ cs, c.checkAt l n = .ok ()) :
    (connectiveBody nesting levels k make).Refuses (Encode.count cs.length ++ encodeAll cs) := by
  rcases nesting with _ | n
  · exact (Decoder.refuses_fail _).append _
  · rcases levels with _ | l
    · exact (Decoder.refuses_fail _).append _
    · rw [encodeAll_eq_flatMap]
      have hlength : cs.length < UInt64.size := Nat.lt_of_le_of_lt (length_le_sizeAll cs) hsize
      refine (Decoder.refuses_list hlength (fun c _ => reads_decodeAt c) (fun c hc => ih c hc) ?_).bind _
      exact fun hgood => h ⟨l, n, rfl, rfl, hgood⟩

/-- A condition that does not pass the check is refused at the levels where it does not. -/
theorem refuses_decodeAt (c : Condition) (hsize : c.size < UInt64.size) (h : c.checkAt levels nesting ≠ .ok ()) :
    (decodeAt nesting levels).Refuses c.encode := by
  -- The levels differ from one condition to the next, so that the induction is for all of them.
  induction c using induct generalizing levels nesting with
  | h c ih =>
    have hbelow : ∀ d ∈ c.children, sizeAll c.children < UInt64.size → ∀ {l n : Nat}, d.checkAt l n ≠ .ok () →
        (decodeAt n l).Refuses d.encode :=
      fun d hd hlt _ _ hbad => ih d hd (Nat.lt_of_le_of_lt (size_le_sizeAll hd) hlt) hbad
    cases c with
    | not c =>
      rw [size] at hsize
      rw [encode]
      refine refuses_of_body (k := .not) ?_
      cases nesting with
      | zero => exact (Decoder.refuses_fail _).append _
      | succ n =>
        have hc : c.checkAt levels n ≠ .ok () := fun hok => h ((checkAt_not c).mpr ⟨n, rfl, hok⟩)
        exact (ih c List.mem_cons_self (by omega) hc).bind _
    | and cs =>
      rw [size] at hsize
      have hcs : sizeAll cs < UInt64.size := by omega
      rw [encode]
      refine refuses_of_body (k := .and) (refuses_connectiveBody .and and hcs (fun d hd => hbelow d hd hcs) ?_)
      rwa [← checkAt_and]
    | or cs =>
      rw [size] at hsize
      have hcs : sizeAll cs < UInt64.size := by omega
      rw [encode]
      refine refuses_of_body (k := .or) (refuses_connectiveBody .or or hcs (fun d hd => hbelow d hd hcs) ?_)
      rwa [← checkAt_or]
    | _ => exact (h (checkAt_leaf nofun nofun nofun)).elim

/-! ## The check and the reader -/

theorem longestAt_lt : longestAt Limits.conditionLevels Limits.connectiveLevels < UInt64.size := by decide +kernel

/-- What does not pass the check cannot be parsed, even if it is too long for its counts. -/
theorem parse_encode_of_checkDepth_ne {c : Condition} (h : c.checkDepth Limits.connectiveLevels ≠ .ok ()) :
    ∃ e, Decoder.parse decode c.encode = .error e := by
  rcases hparse : Decoder.parse decode c.encode with e | c'
  · exact ⟨e, rfl⟩
  · exfalso
    -- A count that does not fit 64 bits is cut off, and the reader may go on behind it. But what is parsed is short.
    obtain ⟨-, -, hlong⟩ := Decoder.ensures_of_parse
      (accepts_decodeAt Limits.conditionLevels Limits.connectiveLevels) hparse
    rw [length_encode] at hlong
    have hrefuse := refuses_decodeAt c (Nat.lt_of_le_of_lt hlong longestAt_lt) h
    obtain ⟨e, he⟩ := Decoder.parse_of_refuses hrefuse
    rw [decode, he] at hparse
    cases hparse

theorem parse_encode_of_checkDepth {c : Condition} (h : c.checkDepth Limits.connectiveLevels = .ok ()) :
    Decoder.parse decode c.encode = .ok c := Decoder.parse_of_reads (reads_decodeAt c h)

/-- A condition passes the check with two levels of connectives exactly if it is parsed back from what is written of
it, and fails it exactly if that cannot be parsed. With any number of levels, the check is a bound on the paths from
the root to the leaves and one on the connectives. -/
theorem checkDepth_agrees (c : Condition) :
    (c.checkDepth 2 = .ok () ↔ Decoder.parse decode c.encode = .ok c) ∧
    ((∃ e, c.checkDepth 2 = .error e) ↔ ∃ e, Decoder.parse decode c.encode = .error e) ∧
    ∀ d, c.checkDepth d = .ok () ↔
      (∀ path, c.IsPath path → path.countP isConnective ≤ d ∧ path.countP isComposite ≤ 16) ∧
        ∀ e : Condition, e.Occurs c → e.isConnective = true → e.children.length ≤ 16 := by
  have hpaths := fun d => c.checkDepth_eq_ok_iff d
  rcases hcheck : c.checkDepth 2 with e | u
  · have hne : c.checkDepth Limits.connectiveLevels ≠ .ok () := fun hok => nomatch hcheck.symm.trans hok
    obtain ⟨e', hparse⟩ := parse_encode_of_checkDepth_ne hne
    rw [hparse]
    exact ⟨⟨nofun, nofun⟩, ⟨fun _ => ⟨e', rfl⟩, fun _ => ⟨e, rfl⟩⟩, hpaths⟩
  · rw [parse_encode_of_checkDepth hcheck]
    exact ⟨⟨fun _ => rfl, fun _ => rfl⟩, ⟨fun ⟨_, h⟩ => (nomatch h), fun ⟨_, h⟩ => (nomatch h)⟩, hpaths⟩

end N3.Condition
