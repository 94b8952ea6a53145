import N3.Proofs.Codec.Ensures
import N3.Proofs.Curve.Compressed
import N3.Witness.Rule

/-!
# Conditions and rules on the wire

A condition is written whatever its depth and read only if `checkAt` allows it at the depth that the reader is at. So
the two directions are inductions over different things: that what is written is read (`reads_decodeAt`) is one over
the condition, and that what is read has passed the check (`accepts_decodeAt`) is one over the levels that the reader
has left.
-/

set_option autoImplicit false

namespace N3

namespace Condition

variable {levels nesting : Nat}

/-! ## Lists of conditions -/

theorem encodeAll_eq_flatMap (cs : List Condition) : encodeAll cs = cs.flatMap encode := by
  induction cs with
  | nil => rw [encodeAll, List.flatMap_nil]
  | cons c cs ih => rw [encodeAll, ih, List.flatMap_cons]

theorem sizeAll_eq_totalSize (cs : List Condition) : sizeAll cs = Encode.totalSize size cs := by
  induction cs with
  | nil => rw [sizeAll, Encode.totalSize]
  | cons c cs ih => rw [sizeAll, ih, Encode.totalSize]

theorem checkAll_eq_ok_iff (cs : List Condition) :
    checkAll levels nesting cs = .ok () ↔ ∀ c ∈ cs, c.checkAt levels nesting = .ok () := by
  induction cs with
  | nil => simp [checkAll]
  | cons c cs ih =>
    rw [checkAll, List.forall_mem_cons, ← ih]
    rcases c.checkAt levels nesting with e | u
    · simp [bind, Except.bind]
    · simp [bind, Except.bind]

/-! ## The check, one node at a time -/

/-- A condition with no other under it passes at any levels. -/
theorem checkAt_leaf {c : Condition} (hnot : c.kind ≠ .not) (hand : c.kind ≠ .and) (hor : c.kind ≠ .or) :
    c.checkAt levels nesting = .ok () := by
  cases c with
  | not c => exact absurd rfl hnot
  | and cs => exact absurd rfl hand
  | or cs => exact absurd rfl hor
  | _ => simp [checkAt]

theorem checkAt_not (c : Condition) : checkAt levels nesting (not c) = .ok () ↔
    ∃ n, nesting = n + 1 ∧ c.checkAt levels n = .ok () := by
  rw [checkAt]
  cases nesting with
  | zero => simp
  | succ n => simp

/-- What the check asks of either connective. -/
theorem checkAt_connective (cs : List Condition) :
    (if levels = 0 ∨ nesting = 0 then
      (.error (.signerConfiguration (.conditionTooDeep Limits.connectiveLevels)) : Except Error Unit)
    else if Limits.connectiveEntries < cs.length then
      .error (.signerConfiguration (.connectiveTooWide Limits.connectiveEntries))
    else checkAll (levels - 1) (nesting - 1) cs) = .ok () ↔
      ∃ l n, levels = l + 1 ∧ nesting = n + 1 ∧ cs.length ≤ Limits.connectiveEntries ∧
        ∀ c ∈ cs, c.checkAt l n = .ok () := by
  rcases levels with _ | l
  · simp
  · rcases nesting with _ | n
    · simp
    · by_cases hwide : Limits.connectiveEntries < cs.length
      · simp [hwide]
      · simp [hwide, checkAll_eq_ok_iff, Nat.not_lt.mp hwide]

theorem checkAt_and (cs : List Condition) : checkAt levels nesting (and cs) = .ok () ↔
    ∃ l n, levels = l + 1 ∧ nesting = n + 1 ∧ cs.length ≤ Limits.connectiveEntries ∧
      ∀ c ∈ cs, c.checkAt l n = .ok () := by
  rw [checkAt]
  exact checkAt_connective cs

theorem checkAt_or (cs : List Condition) : checkAt levels nesting (or cs) = .ok () ↔
    ∃ l n, levels = l + 1 ∧ nesting = n + 1 ∧ cs.length ≤ Limits.connectiveEntries ∧
      ∀ c ∈ cs, c.checkAt l n = .ok () := by
  rw [checkAt]
  exact checkAt_connective cs

/-! ## Sizes -/

mutual

theorem length_encode : ∀ c : Condition, c.encode.length = c.size
  | boolean v => by cases v <;> rw [encode, size] <;> rfl
  | not c => by rw [encode, size, List.length_cons, length_encode c, Nat.add_comm]
  | and cs => by
    rw [encode, size, List.length_cons, List.length_append, Encode.length_count, length_encodeAll cs, Nat.add_comm]
  | or cs => by
    rw [encode, size, List.length_cons, List.length_append, Encode.length_count, length_encodeAll cs, Nat.add_comm]
  | scriptHash h => by rw [encode, size, List.length_cons, h.length_eq]
  | group k => by rw [encode, size, List.length_cons, k.compressed.length_eq]
  | calledByEntry => by rw [encode, size]; rfl
  | calledByContract h => by rw [encode, size, List.length_cons, h.length_eq]
  | calledByGroup k => by rw [encode, size, List.length_cons, k.compressed.length_eq]

theorem length_encodeAll : ∀ cs : List Condition, (encodeAll cs).length = sizeAll cs
  | [] => by rw [encodeAll, sizeAll, List.length_nil]
  | c :: cs => by rw [encodeAll, sizeAll, List.length_append, length_encode c, length_encodeAll cs]

end

/-! ## Reading -/

theorem ofByte?_byte (k : Kind) : Kind.ofByte? k.byte = some k := by cases k <;> rfl

theorem reads_decodeKey (k : Point) : decodeKey.Reads k.compressed.bytes k := by
  have htake := Decoder.reads_take k.compressed.bytes
  rw [k.compressed.length_eq] at htake
  have hkey : (Point.ofCompressed k.compressed.bytes).mapError (fun e => DecodeError.data (.badKey e)) = .ok k := by
    rw [Point.ofCompressed_compressed]
    rfl
  rw [← List.append_nil k.compressed.bytes]
  exact htake.bind (Decoder.reads_ofExcept hkey)

def decodeBody (nesting levels : Nat) : Kind → Decoder DecodeError Condition
  | .boolean => do return boolean (← Decoder.bool)
  | .scriptHash => do return scriptHash (← Decoder.fixed 20)
  | .group => do return group (← decodeKey)
  | .calledByEntry => pure calledByEntry
  | .calledByContract => do return calledByContract (← Decoder.fixed 20)
  | .calledByGroup => do return calledByGroup (← decodeKey)
  | .not =>
    match nesting with
    | 0 => Decoder.fail (.format .conditionTooDeep)
    | n + 1 => do return not (← decodeAt n levels)
  | .and =>
    match nesting with
    | 0 => Decoder.fail (.format .conditionTooDeep)
    | n + 1 =>
      match levels with
      | 0 => Decoder.fail (.format (.connectiveTooDeep Kind.and.name Limits.connectiveLevels))
      | l + 1 => do return and (← Decoder.list Limits.connectiveEntries (decodeAt n l))
  | .or =>
    match nesting with
    | 0 => Decoder.fail (.format .conditionTooDeep)
    | n + 1 =>
      match levels with
      | 0 => Decoder.fail (.format (.connectiveTooDeep Kind.or.name Limits.connectiveLevels))
      | l + 1 => do return or (← Decoder.list Limits.connectiveEntries (decodeAt n l))

theorem decodeAt_eq (nesting levels : Nat) : decodeAt nesting levels = (do
    let b ← Decoder.byte
    match Kind.ofByte? b with
    | none => Decoder.fail (.format (.conditionKind b))
    | some k => decodeBody nesting levels k) := by
  rw [decodeAt.eq_def]
  congr 1
  funext b
  rcases Kind.ofByte? b with _ | k
  · rfl
  · cases k <;> rfl

/-- A condition is read if what follows the byte of its kind is. -/
theorem reads_of_body {k : Kind} {bs : Bytes} {c : Condition} (h : (decodeBody nesting levels k).Reads bs c) :
    (decodeAt nesting levels).Reads (k.byte :: bs) c := by
  rw [decodeAt_eq]
  refine (Decoder.reads_byte k.byte).bind ?_
  rw [ofByte?_byte]
  exact h

mutual

/-- A condition that passes the check is read back. -/
theorem reads_decodeAt : ∀ (c : Condition) {levels nesting : Nat}, c.checkAt levels nesting = .ok () →
    (decodeAt nesting levels).Reads c.encode c
  | boolean v, _, _, _ => by
    rw [encode]
    exact reads_of_body (k := .boolean) ((Decoder.reads_bool v).map boolean)
  | not c, _, _, h => by
    obtain ⟨n, rfl, hc⟩ := (checkAt_not c).mp h
    rw [encode]
    exact reads_of_body (k := .not) ((reads_decodeAt c hc).map not)
  | and cs, _, _, h => by
    obtain ⟨l, n, rfl, rfl, hwide, hcs⟩ := (checkAt_and cs).mp h
    rw [encode]
    exact reads_of_body (k := .and) ((reads_conditions cs hwide hcs).map and)
  | or cs, _, _, h => by
    obtain ⟨l, n, rfl, rfl, hwide, hcs⟩ := (checkAt_or cs).mp h
    rw [encode]
    exact reads_of_body (k := .or) ((reads_conditions cs hwide hcs).map or)
  | scriptHash h, _, _, _ => by
    rw [encode]
    exact reads_of_body (k := .scriptHash) ((Decoder.reads_fixed h).map scriptHash)
  | group k, _, _, _ => by
    rw [encode]
    exact reads_of_body (k := .group) ((reads_decodeKey k).map group)
  | calledByEntry, _, _, _ => by
    rw [encode]
    exact reads_of_body (k := .calledByEntry) (Decoder.reads_pure calledByEntry)
  | calledByContract h, _, _, _ => by
    rw [encode]
    exact reads_of_body (k := .calledByContract) ((Decoder.reads_fixed h).map calledByContract)
  | calledByGroup k, _, _, _ => by
    rw [encode]
    exact reads_of_body (k := .calledByGroup) ((reads_decodeKey k).map calledByGroup)

theorem reads_each : ∀ (cs : List Condition) {levels nesting : Nat},
    (∀ c ∈ cs, c.checkAt levels nesting = .ok ()) → ∀ c ∈ cs, (decodeAt nesting levels).Reads c.encode c
  | [], _, _, _ => fun _ hc => absurd hc List.not_mem_nil
  | c :: cs, _, _, h => by
    rw [List.forall_mem_cons] at h ⊢
    exact ⟨reads_decodeAt c h.1, reads_each cs h.2⟩

/-- The conditions under a connective are read back. -/
theorem reads_conditions (cs : List Condition) {levels nesting : Nat} (hwide : cs.length ≤ Limits.connectiveEntries)
    (h : ∀ c ∈ cs, c.checkAt levels nesting = .ok ()) :
    (Decoder.list Limits.connectiveEntries (decodeAt nesting levels)).Reads (Encode.count cs.length ++ encodeAll cs)
      cs := by
  rw [encodeAll_eq_flatMap]
  exact Decoder.reads_list (Nat.lt_of_le_of_lt hwide (by decide)) hwide (reads_each cs h)

end

/-! ## What is read -/

def longestAt : (nesting levels : Nat) → Nat
  | 0, _ => 34
  | n + 1, 0 => 34 + longestAt n 0
  | n + 1, l + 1 => 43 + longestAt n (l + 1) + Limits.connectiveEntries * longestAt n l

theorem le_longestAt (nesting levels : Nat) : 34 ≤ longestAt nesting levels := by
  cases nesting with
  | zero => exact Nat.le_refl 34
  | succ n => cases levels <;> rw [longestAt] <;> omega

theorem longestAt_succ_le (n levels : Nat) : 1 + longestAt n levels ≤ longestAt (n + 1) levels := by
  cases levels <;> rw [longestAt] <;> omega

theorem ensures_decodeKey : decodeKey.Ensures fun _ m => m = 33 := by
  refine (Decoder.ensures_take 33).bind fun bs n hn => Decoder.ensures_ofExcept fun _ _ => ?_
  exact hn.2

/-- A condition is what follows the byte of its kind, and one byte more. -/
theorem accepts_of_body (h : ∀ k, (decodeBody nesting levels k).Ensures fun c m =>
      c.checkAt levels nesting = .ok () ∧ c.size ≤ 1 + m ∧ 1 + m ≤ longestAt nesting levels) :
    (decodeAt nesting levels).Accepts (fun c => c.checkAt levels nesting = .ok ()) size
      (longestAt nesting levels) := by
  rw [decodeAt_eq]
  refine Decoder.ensures_byte.bind fun b n hn => ?_
  subst hn
  rcases Kind.ofByte? b with _ | k
  · exact Decoder.ensures_fail _ _
  · exact h k

/-- The kinds under which there is no other condition. -/
theorem ensures_leaf {k : Kind} (hnot : k ≠ .not) (hand : k ≠ .and) (hor : k ≠ .or) :
    (decodeBody nesting levels k).Ensures fun c m =>
      c.checkAt levels nesting = .ok () ∧ c.size ≤ 1 + m ∧ 1 + m ≤ longestAt nesting levels := by
  have hle := le_longestAt nesting levels
  cases k with
  | boolean =>
    refine (Decoder.ensures_bool.mono fun v m hm => ?_).map
    exact ⟨checkAt_leaf nofun nofun nofun, by rw [size]; omega, by omega⟩
  | scriptHash =>
    refine ((Decoder.ensures_fixed 20).mono fun h m hm => ?_).map
    exact ⟨checkAt_leaf nofun nofun nofun, by rw [size]; omega, by omega⟩
  | group =>
    refine (ensures_decodeKey.mono fun k m hm => ?_).map
    exact ⟨checkAt_leaf nofun nofun nofun, by rw [size]; omega, by omega⟩
  | calledByEntry => exact Decoder.ensures_pure ⟨checkAt_leaf nofun nofun nofun, by rw [size], by omega⟩
  | calledByContract =>
    refine ((Decoder.ensures_fixed 20).mono fun h m hm => ?_).map
    exact ⟨checkAt_leaf nofun nofun nofun, by rw [size]; omega, by omega⟩
  | calledByGroup =>
    refine (ensures_decodeKey.mono fun k m hm => ?_).map
    exact ⟨checkAt_leaf nofun nofun nofun, by rw [size]; omega, by omega⟩
  | not => exact absurd rfl hnot
  | and => exact absurd rfl hand
  | or => exact absurd rfl hor

/-- The conditions under a connective, given what is read for each. -/
theorem ensures_conditions {n l : Nat}
    (h : (decodeAt n l).Accepts (fun c => c.checkAt l n = .ok ()) size (longestAt n l)) :
    (Decoder.list Limits.connectiveEntries (decodeAt n l)).Ensures fun cs m =>
      (cs.length ≤ Limits.connectiveEntries ∧ ∀ c ∈ cs, c.checkAt l n = .ok ()) ∧
        Encode.countSize cs.length + sizeAll cs ≤ m ∧ 1 + m ≤ longestAt (n + 1) (l + 1) := by
  refine (Decoder.accepts_list h Limits.connectiveEntries).mono fun cs m hm => ?_
  obtain ⟨hgood, hsize, hlong⟩ := hm
  refine ⟨hgood, ?_, ?_⟩
  · rw [sizeAll_eq_totalSize]
    exact hsize
  · rw [longestAt]
    omega

/-- What is read has passed the check, at the levels that the reader had left. -/
theorem accepts_decodeAt (nesting levels : Nat) :
    (decodeAt nesting levels).Accepts (fun c => c.checkAt levels nesting = .ok ()) size
      (longestAt nesting levels) := by
  induction nesting generalizing levels with
  | zero =>
    apply accepts_of_body
    intro k
    cases k with
    | not => exact Decoder.ensures_fail _ _
    | and => exact Decoder.ensures_fail _ _
    | or => exact Decoder.ensures_fail _ _
    | _ => exact ensures_leaf nofun nofun nofun
  | succ n ih =>
    apply accepts_of_body
    intro k
    cases k with
    | not =>
      refine ((ih levels).mono fun c m hc => ?_).map
      have hlong := longestAt_succ_le n levels
      exact ⟨(checkAt_not c).mpr ⟨n, rfl, hc.1⟩, by rw [size]; omega, by omega⟩
    | and =>
      cases levels with
      | zero => exact Decoder.ensures_fail _ _
      | succ l =>
        refine ((ensures_conditions (ih l)).mono fun cs m hc => ?_).map
        exact ⟨(checkAt_and cs).mpr ⟨l, n, rfl, rfl, hc.1⟩, by rw [size]; omega, hc.2.2⟩
    | or =>
      cases levels with
      | zero => exact Decoder.ensures_fail _ _
      | succ l =>
        refine ((ensures_conditions (ih l)).mono fun cs m hc => ?_).map
        exact ⟨(checkAt_or cs).mpr ⟨l, n, rfl, rfl, hc.1⟩, by rw [size]; omega, hc.2.2⟩
    | _ => exact ensures_leaf nofun nofun nofun

end Condition

namespace Rule

open Condition

/-! ## Rules -/

theorem length_encode (r : Rule) : r.encode.length = r.size := by
  rw [encode, size, List.length_cons, Condition.length_encode, Nat.add_comm]

theorem reads_decode {r : Rule} (h : r.condition.checkDepth Limits.connectiveLevels = .ok ()) :
    decode.Reads r.encode r := by
  obtain ⟨allow, condition⟩ := r
  have hallow : (if (if allow then 1 else 0 : UInt8) = 0 then some false
      else if (if allow then 1 else 0 : UInt8) = 1 then some true else none) = some allow := by
    cases allow <;> rfl
  have hcondition := (reads_decodeAt condition h).map (Rule.mk allow)
  exact (Decoder.reads_byte _).bind ((Decoder.reads_ofOption hallow _).bind hcondition)

def longest : Nat := 1 + longestAt Limits.conditionLevels Limits.connectiveLevels

theorem accepts_decode :
    decode.Accepts (fun r => r.condition.checkDepth Limits.connectiveLevels = .ok ()) size longest := by
  refine Decoder.ensures_byte.bind fun b n hn => ?_
  refine (Decoder.ensures_ofOption (Q := fun _ m => m = 0) fun _ _ => rfl).bind fun allow m hm => ?_
  refine ((accepts_decodeAt _ _).mono fun c l hc => ?_).map
  obtain ⟨hgood, hsize, hlong⟩ := hc
  refine ⟨hgood, ?_, ?_⟩
  · show 1 + c.size ≤ n + (m + l)
    omega
  · rw [longest]
    omega

end Rule

end N3
