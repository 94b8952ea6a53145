import Mathlib.Data.List.TakeWhile
import N3.Cli.Run
import N3.Proofs.Lists
import N3.Proofs.Script.Template
import N3.Proofs.Text.Blank
import N3.Proofs.Text.Hex

/-!
# From keys to a script and back

The command that makes a verification script prints it in hexadecimal, and the command that classifies scripts takes
what is printed: the digits are read as the same bytes (`readBytes_encode`), these are recognised as the template that
they were made from, and what is said of them is what went in (`classify_verification`). The lines that name the account
are the same in both outputs.
-/

set_option autoImplicit false

namespace N3

/-! ## Digits on the command line -/

/-- A digit is no blank, and no part of a mark but the zero. -/
theorem Hex.plain_of_mem_digits {bs : Bytes} {c : Char} (h : c ∈ digits bs) : Blank.isBlank c = false ∧ c ≠ 'x' := by
  have hall : ∀ v < 16, Blank.isBlank (Char.ofUInt8 (digit (UInt8.ofNat v))) = false ∧
      Char.ofUInt8 (digit (UInt8.ofNat v)) ≠ 'x' := by
    decide +kernel
  obtain ⟨v, hv, rfl⟩ := exists_of_mem_digits h
  exact hall v hv

namespace Cli

theorem readBytes_encode (bs : Bytes) : readBytes (Hex.encode bs) = .ok bs := by
  have htrim : Blank.trim (Hex.digits bs) = Hex.digits bs :=
    Blank.trim_of_forall fun _ hc => (Hex.plain_of_mem_digits hc).1
  have hmark : Hex.dropMark (Hex.digits bs) = Hex.digits bs :=
    Hex.dropMark_of_not_mem fun hx => (Hex.plain_of_mem_digits hx).2 rfl
  unfold readBytes
  rw [Hex.toList_encode, htrim]
  dsimp only
  rw [hmark, ← Hex.encode, Hex.decode_encode]

/-! ## Lines -/

def firstLine (out : String) : String := String.ofList (out.toList.takeWhile (· != '\n'))

def afterFirst (out : String) : String := String.ofList ((out.toList.dropWhile (· != '\n')).drop 1)

theorem lines_append (as bs : List String) : lines (as ++ bs) = lines as ++ lines bs := by
  rw [lines, lines, lines, List.map_append, String.join_append]

theorem toList_lines_cons (l : String) (ls : List String) :
    (lines (l :: ls)).toList = l.toList ++ '\n' :: (lines ls).toList := by
  rw [lines, List.map_cons, String.join_cons, String.toList_append, String.toList_append, List.append_assoc]
  rfl

section FirstLine

variable {l : String} (h : '\n' ∉ l.toList) (ls : List String)
include h

theorem firstLine_lines : firstLine (lines (l :: ls)) = l := by
  have hline : ∀ c ∈ l.toList, (c != '\n') = true := fun c hc => bne_iff_ne.mpr (ne_of_mem_of_not_mem hc h)
  rw [firstLine, toList_lines_cons, List.takeWhile_append_of_pos hline, List.takeWhile_cons_of_neg (by decide),
    List.append_nil, String.ofList_toList]

theorem afterFirst_lines : afterFirst (lines (l :: ls)) = lines ls := by
  have hline : ∀ c ∈ l.toList, (c != '\n') = true := fun c hc => bne_iff_ne.mpr (ne_of_mem_of_not_mem hc h)
  rw [afterFirst, toList_lines_cons, List.dropWhile_append_of_pos hline, List.dropWhile_cons_of_neg (by decide),
    List.drop_one, List.tail_cons, String.ofList_toList]

end FirstLine

/-- Digits stay on their line. -/
theorem not_mem_scriptLine (bs : Bytes) : '\n' ∉ ("script: " ++ Hex.encode bs).toList := by
  rw [String.toList_append, Hex.toList_encode]
  intro h
  rcases List.mem_append.mp h with h | h
  · exact absurd h (by decide)
  · exact absurd (Hex.plain_of_mem_digits h).1 (by decide)

/-! ## Classifying what was made -/

variable {points : List Point} {k : Nat} {v : VerificationScript}

theorem description_ofKey (key : Point) : description (.ofKey key) = .ok ["type: single-sig", "key: " ++ key.toHex] := by
  unfold description
  rw [if_pos (VerificationScript.isSingleSig_ofKey key), VerificationScript.keys_ofKey]
  rfl

theorem description_ofKeys (h : VerificationScript.ofKeys points k = .ok v) : description v =
    .ok (["type: multi-sig", "threshold: " ++ toString k, "participants: " ++ toString points.length] ++
      (Point.sort points).map fun key => "key: " ++ key.toHex) := by
  have hsingle : ¬ v.isSingleSig = true := ne_true_of_eq_false (VerificationScript.isSingleSig_ofKeys h)
  unfold description
  rw [if_neg hsingle, if_pos (VerificationScript.isMultiSig_ofKeys h), VerificationScript.threshold_ofKeys h,
    VerificationScript.accounts_ofKeys h, VerificationScript.keys_ofKeys h]
  rfl

theorem classify_eq {said : List String} (h : description v = .ok said) :
    classify v.bytes = .ok (lines said ++ lines (identity v)) := by
  unfold classify
  dsimp only
  rw [h, ← lines_append]
  rfl

/-- A script is printed by its digits, and is taken as bytes by the other command. -/
theorem run_classify {a : Arguments} (ha : a.command = .classify (Hex.encode v.bytes)) {said : List String}
    (h : description v = .ok said) (read : String → Option String) :
    run a read = .ok (lines said ++ lines (identity v)) := by
  unfold run bytesOf
  rw [ha]
  dsimp only
  rw [readBytes_encode, ← classify_eq h]
  rfl

theorem verification_eq_ok_iff {keys : List String} {threshold : Option Nat} {out : String} :
    verification keys threshold = .ok out ↔ ∃ points v,
      List.Forall₂ (fun text key => Point.ofHex text = .ok key) keys points ∧
      verificationScript points threshold = .ok v ∧
      out = lines (("script: " ++ Hex.encode v.bytes) :: identity v) := by
  have hread (points : List Point) :
      (keys.mapM fun key => (Point.ofHex key).mapError CommandError.key) = .ok points ↔
        List.Forall₂ (fun text key => Point.ofHex text = .ok key) keys points := by
    simp only [Outcome.mapM_eq_ok, Outcome.mapError_eq_ok]
  unfold verification
  constructor
  · intro h
    obtain ⟨points, hpoints, h⟩ := Outcome.bind_eq_ok.mp h
    obtain ⟨v, hv, h⟩ := Outcome.bind_eq_ok.mp h
    exact ⟨points, v, (hread points).mp hpoints, hv, (Except.ok.inj h).symm⟩
  · rintro ⟨points, v, hpoints, hv, rfl⟩
    exact Outcome.bind_eq_ok.mpr ⟨points, (hread points).mpr hpoints, Outcome.bind_eq_ok.mpr ⟨v, hv, rfl⟩⟩

theorem verificationScript_some :
    verificationScript points (some k) = .ok v ↔ VerificationScript.ofKeys points k = .ok v := Outcome.mapError_eq_ok

theorem verificationScript_none (h : verificationScript points none = .ok v) :
    ∃ key, points = [key] ∧ v = .ofKey key := by
  unfold verificationScript at h
  split at h
  · next hthreshold => cases hthreshold
  · next key _ => exact ⟨key, rfl, (Except.ok.inj h).symm⟩
  · cases h

/-- What is said of a script names the keys that it was made from. -/
theorem exists_description {threshold : Option Nat} (h : verificationScript points threshold = .ok v) :
    ∃ said, description v = .ok said ∧
      (threshold = none → ∃ key, points = [key] ∧ said = ["type: single-sig", "key: " ++ key.toHex]) ∧
      ∀ k, threshold = some k → ∃ sorted : List Point, sorted.Perm points ∧
        (sorted.Pairwise fun key later => key.x < later.x ∨ key.x = later.x ∧ key.y ≤ later.y) ∧
        said = ["type: multi-sig", "threshold: " ++ toString k, "participants: " ++ toString points.length] ++
          sorted.map fun key => "key: " ++ key.toHex := by
  cases threshold with
  | none =>
    obtain ⟨key, rfl, rfl⟩ := verificationScript_none h
    exact ⟨_, description_ofKey key, fun _ => ⟨key, rfl, rfl⟩, nofun⟩
  | some k =>
    have hpairwise := (Point.pairwise_sort points).imp fun hle => Point.le_iff.mp hle
    refine ⟨_, description_ofKeys (verificationScript_some.mp h), nofun, fun k' hk => ?_⟩
    cases hk
    exact ⟨Point.sort points, Point.sort_perm points, hpairwise, rfl⟩

/-- Whenever keys make a script, the digits that are printed are those of a script that is classified as what it is: of
one key if there was no threshold, and else of all the keys in ascending order with that threshold. What is said of the
account is what was said of it with the script. -/
theorem classify_verification {a : Arguments} {keys : List String} {threshold : Option Nat}
    (ha : a.command = .verification keys threshold) {read : String → Option String} {out : String}
    (h : run a read = .ok out) : ∃ points, ∃ v : VerificationScript, ∃ said,
      List.Forall₂ (fun text key => Point.ofHex text = .ok key) keys points ∧
      firstLine out = "script: " ++ Hex.encode v.bytes ∧
      afterFirst out = lines ["script hash: " ++ v.hash.toText, "address: " ++ Address.ofHash v.hash] ∧
      (∀ a' read', a'.command = .classify (Hex.encode v.bytes) → run a' read' = .ok (lines said ++ afterFirst out)) ∧
      (threshold = none → ∃ key, points = [key] ∧ said = ["type: single-sig", "key: " ++ key.toHex]) ∧
      ∀ k, threshold = some k → ∃ sorted : List Point, sorted.Perm points ∧
        (sorted.Pairwise fun key later => key.x < later.x ∨ key.x = later.x ∧ key.y ≤ later.y) ∧
        said = ["type: multi-sig", "threshold: " ++ toString k, "participants: " ++ toString keys.length] ++
          sorted.map fun key => "key: " ++ key.toHex := by
  have hverification : verification keys threshold = .ok out := by
    rw [← h, run, ha]
  obtain ⟨points, v, hpoints, hv, rfl⟩ := verification_eq_ok_iff.mp hverification
  have hafter := afterFirst_lines (not_mem_scriptLine v.bytes) (identity v)
  obtain ⟨said, hsaid, hone, hseveral⟩ := exists_description hv
  refine ⟨points, v, said, hpoints, firstLine_lines (not_mem_scriptLine v.bytes) _, hafter, ?_, hone, ?_⟩
  · intro a' read' ha'
    rw [hafter]
    exact run_classify ha' hsaid read'
  · rw [hpoints.length_eq]
    exact hseveral

/-- The words that ask for the script of two keys with the same `x`, the later one first. -/
def pairWords : Arguments := { command := .verification [Point.opposite.toHex, Point.base.toHex] (some 2) }

theorem classify_verification_pair : ∃ out, ∃ v : VerificationScript, run pairWords (fun _ => none) = .ok out ∧
    firstLine out = "script: " ++ Hex.encode v.bytes ∧
    run { command := .classify (Hex.encode v.bytes) } (fun _ => none) = .ok
      (lines ["type: multi-sig", "threshold: 2", "participants: 2", "key: " ++ Point.base.toHex,
        "key: " ++ Point.opposite.toHex] ++ afterFirst out) := by
  have hpoints : List.Forall₂ (fun text key => Point.ofHex text = .ok key) [Point.opposite.toHex, Point.base.toHex]
      [Point.opposite, Point.base] := .cons (Point.ofHex_toHex _) (.cons (Point.ofHex_toHex _) .nil)
  have hscript : verificationScript [Point.opposite, Point.base] (some 2) =
      .ok (.multisig 2 ((Point.sort [Point.opposite, Point.base]).map Point.compressed)) :=
    verificationScript_some.mpr (VerificationScript.ofKeys_eq_ok_iff.mpr ⟨by decide, rfl⟩)
  obtain ⟨out, hout⟩ : ∃ out, run pairWords (fun _ => none) = .ok out :=
    ⟨_, verification_eq_ok_iff.mpr ⟨_, _, hpoints, hscript, rfl⟩⟩
  obtain ⟨points, v, said, hread, hfirst, -, hclassify, -, hsaid⟩ := classify_verification rfl hout
  obtain ⟨sorted, hperm, hpairwise, rfl⟩ := hsaid 2 rfl
  have hsame : List.Forall₂ Eq points [Point.opposite, Point.base] :=
    Lists.forall₂_of_common (fun _ _ _ h h' => Except.ok.inj (h.symm.trans h')) hread hpoints
  rw [List.forall₂_eq_eq_eq] at hsame
  subst hsame
  obtain rfl : sorted = [Point.base, Point.opposite] := by
    rw [← Point.sort_opposite_base, ← Point.sort_eq_of_perm hperm]
    exact (Point.sort_eq_self (hpairwise.imp fun h => Point.le_iff.mpr h)).symm
  exact ⟨out, v, hout, hfirst, hclassify _ _ rfl⟩

end Cli

end N3
