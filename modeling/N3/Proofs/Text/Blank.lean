import Mathlib.Data.List.TakeWhile
import N3.Text.Blank

/-!
# Names between separators

Names that are joined by a separator and a blank come apart at the separators, each with the blank in front of it, and
are themselves again once that is trimmed off (`map_trim_splitOn_intercalate`).
-/

set_option autoImplicit false

namespace N3.Blank

variable {separator c : Char}

theorem splitOn_of_not_mem {run : List Char} (h : separator ∉ run) : splitOn separator run = [run] := by
  induction run with
  | nil => rfl
  | cons c run ih =>
    obtain ⟨hc, hrun⟩ := not_or.mp (mt List.mem_cons.mpr h)
    rw [splitOn, if_neg (Ne.symm hc), ih hrun]

theorem splitOn_append {run : List Char} (h : separator ∉ run) (cs : List Char) :
    splitOn separator (run ++ separator :: cs) = run :: splitOn separator cs := by
  induction run with
  | nil => rw [List.nil_append, splitOn, if_pos rfl]
  | cons c run ih =>
    obtain ⟨hc, hrun⟩ := not_or.mp (mt List.mem_cons.mpr h)
    rw [List.cons_append, splitOn, if_neg (Ne.symm hc), ih hrun]

theorem splitOn_ne_nil (cs : List Char) : splitOn separator cs ≠ [] := by
  cases cs with
  | nil => exact List.cons_ne_nil _ _
  | cons c cs =>
    rw [splitOn]
    split
    · exact List.cons_ne_nil _ _
    · split
      · exact List.cons_ne_nil _ _
      · exact List.cons_ne_nil _ _

theorem dropWhile_isBlank {cs : List Char} (h : ∀ c ∈ cs, isBlank c = false) : cs.dropWhile isBlank = cs :=
  List.dropWhile_eq_self_iff.mpr fun hpos => by rw [h _ (List.getElem_mem hpos)]; exact Bool.false_ne_true

theorem trim_of_forall {cs : List Char} (h : ∀ c ∈ cs, isBlank c = false) : trim cs = cs := by
  rw [trim, dropWhile_isBlank h, dropWhile_isBlank fun c hc => h c (List.mem_reverse.mp hc), List.reverse_reverse]

theorem trim_cons {cs : List Char} (h : isBlank c = true) : trim (c :: cs) = trim cs := by
  rw [trim, trim, List.dropWhile_cons_of_pos h]

/-- A blank goes to the first run, where it is trimmed off. -/
theorem map_trim_splitOn_cons (hblank : isBlank c = true) (hc : c ≠ separator) (cs : List Char) :
    (splitOn separator (c :: cs)).map trim = (splitOn separator cs).map trim := by
  rw [splitOn, if_neg hc]
  rcases hruns : splitOn separator cs with _ | ⟨run, runs⟩
  · exact absurd hruns (splitOn_ne_nil cs)
  · rw [List.map_cons, List.map_cons, trim_cons hblank]

theorem map_trim_splitOn_intercalate (hblank : isBlank c = true) (hc : c ≠ separator) {names : List (List Char)}
    (hne : names ≠ []) (h : ∀ name ∈ names, separator ∉ name ∧ trim name = name) :
    (splitOn separator ([separator, c].intercalate names)).map trim = names := by
  induction names with
  | nil => exact absurd rfl hne
  | cons name names ih =>
    obtain ⟨⟨hname, htrim⟩, hrest⟩ := List.forall_mem_cons.mp h
    rcases names with _ | ⟨next, names⟩
    · rw [List.intercalate_singleton, splitOn_of_not_mem hname, List.map_singleton, htrim]
    · rw [List.intercalate_cons_cons, List.append_assoc, List.cons_append, List.singleton_append,
        splitOn_append hname, List.map_cons, htrim, map_trim_splitOn_cons hblank hc, ih (List.cons_ne_nil _ _) hrest]

end N3.Blank
