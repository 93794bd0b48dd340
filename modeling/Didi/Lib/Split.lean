import Mathlib.Data.List.Basic
import Mathlib.Tactic.SplitIfs

/-!
# Lists cut at a separator

* `List.splitOnP_plain` : a piece holds no separator;
* `List.splitOn_eq_cons` : a first piece of several is followed by a separator;
* `List.splitOn_flatMap_append` : pieces that are each closed by a separator are found again;
* `List.exists_last_piece` : the piece that follows the last separator.
-/

namespace List
variable {α : Type}

theorem splitOnP_plain (p : α → Bool) (l : List α) : ∀ piece ∈ l.splitOnP p, ∀ a ∈ piece, p a = false := by
  induction l with
  | nil => simp [splitOnP_nil]
  | cons c l ih =>
    rw [splitOnP_cons_eq_if_modifyHead]
    obtain ⟨head, tail, ht⟩ := exists_cons_of_ne_nil (splitOnP_ne_nil p l)
    rw [ht] at ih ⊢
    split_ifs with hc
    · simpa using ih
    · intro piece hpiece d hd
      rw [modifyHead_cons, mem_cons] at hpiece
      rcases hpiece with rfl | hpiece
      · rcases mem_cons.mp hd with rfl | hd
        · simpa using hc
        · exact ih head mem_cons_self d hd
      · exact ih piece (mem_cons_of_mem _ hpiece) d hd

variable [DecidableEq α] {a : α} {l : List α}

theorem not_mem_of_mem_splitOn {piece : List α} (h : piece ∈ l.splitOn a) : a ∉ piece := by
  intro ha
  rw [splitOn_eq_splitOnP] at h
  simpa using splitOnP_plain _ l piece h a ha

theorem splitOn_eq_cons {piece : List α} {rest : List (List α)} (h : l.splitOn a = piece :: rest)
    (hrest : rest ≠ []) : ∃ l', l = piece ++ a :: l' ∧ l'.splitOn a = rest := by
  refine ⟨[a].intercalate rest, ?_, ?_⟩
  · have hl : [a].intercalate (l.splitOn a) = l := intercalate_splitOn a
    rw [h, intercalate_cons_of_ne_nil hrest] at hl
    simpa using hl.symm
  · apply splitOn_intercalate a _ hrest
    intro piece' hpiece'
    have hmem : piece' ∈ l.splitOn a := by
      rw [h]
      exact mem_cons_of_mem piece hpiece'
    exact not_mem_of_mem_splitOn hmem

theorem splitOn_flatMap_append {before : List α} (hbefore : a ∉ before) {pieces : List (List α)}
    (h : ∀ piece ∈ pieces, a ∉ piece) :
    (pieces.flatMap (· ++ (before ++ [a]))).splitOn a = pieces.map (· ++ before) ++ [[]] := by
  induction pieces with
  | nil => simp
  | cons piece pieces ih =>
    have hpiece : a ∉ piece ++ before := by
      simp only [mem_append, not_or]
      exact ⟨h piece mem_cons_self, hbefore⟩
    rw [flatMap_cons, ← append_assoc, append_assoc, singleton_append,
      splitOn_append_cons_self_of_not_mem hpiece, ih fun l hl => h l (mem_cons_of_mem piece hl)]
    simp

/-- A list is what its last separator ends and a piece without one. -/
theorem exists_last_piece (a : α) (l : List α) : ∃ closed piece, l = closed ++ piece ∧ a ∉ piece ∧
    (closed ≠ [] → closed.getLast? = some a) ∧
    ∃ before, ∀ rest, (closed ++ rest).splitOn a = before ++ rest.splitOn a := by
  by_cases h : a ∈ l
  · obtain ⟨piece, closed, hl, hpiece⟩ := eq_append_cons_of_mem (mem_reverse.mpr h)
    refine ⟨closed.reverse ++ [a], piece.reverse, ?_, by simpa using hpiece, by simp, closed.reverse.splitOn a, ?_⟩
    · have := congrArg reverse hl
      simpa using this
    · intro rest
      rw [append_assoc, singleton_append, splitOn_append_cons_self]
  · exact ⟨[], l, rfl, h, by simp, [], fun rest => rfl⟩

end List
