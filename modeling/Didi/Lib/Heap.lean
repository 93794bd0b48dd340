import Mathlib.Data.List.Sort

/-!
# Heaps, and the largest of a list

* `HeapAlgorithms comp` : what the standard says of `push_heap`, `pop_heap` and `sort` for the order `comp`, whose
  greatest element a heap has in front;
* `HeapAlgorithms.ofKey` : one implementation, whose heaps are the sorted lists;
* `Largest n kept all` : `kept` are `n` elements of `all`, or all of them, and no other is larger;
* `Largest.eq_take` : in descending order they are the first ones of `all` in that order.
-/

structure HeapAlgorithms {α : Type*} (comp : α → α → Prop) where
  IsHeap : List α → Prop
  pushHeap : List α → List α
  popHeap : List α → List α
  sort : List α → List α
  isHeap_nil : IsHeap []
  not_comp_front {a : α} {l : List α} : IsHeap (a :: l) → ∀ b ∈ l, ¬ comp a b
  -- the last element of the range is the new one
  pushHeap_perm (l : List α) : (pushHeap l).Perm l
  isHeap_pushHeap {l : List α} (a : α) : IsHeap l → IsHeap (pushHeap (l ++ [a]))
  -- the front goes to the end, and the rest of the range is a heap
  popHeap_front {a : α} {l : List α} : IsHeap (a :: l) → ∃ l', popHeap (a :: l) = l' ++ [a] ∧ l'.Perm l ∧ IsHeap l'
  sort_perm (l : List α) : (sort l).Perm l
  pairwise_sort (l : List α) : (sort l).Pairwise fun a b => ¬ comp b a

namespace HeapAlgorithms
variable {α κ : Type*} [LinearOrder κ]

private abbrev keyLe (key : α → κ) (a b : α) : Prop := key a ≤ key b

/-- A sorted list is a heap. -/
def ofKey (key : α → κ) : HeapAlgorithms fun a b : α => key b < key a where
  IsHeap l := l.Pairwise fun a b => key a ≤ key b
  pushHeap l := l.insertionSort fun a b => key a ≤ key b
  popHeap l := l.tail ++ l.head?.toList
  sort l := l.insertionSort fun a b => key b ≤ key a
  isHeap_nil := List.Pairwise.nil
  not_comp_front h b hb := not_lt.mpr (List.rel_of_pairwise_cons h hb)
  pushHeap_perm l := List.perm_insertionSort _ l
  isHeap_pushHeap a _ := by
    have : Std.Total (keyLe key) := ⟨fun a b => le_total (key a) (key b)⟩
    have : IsTrans α (keyLe key) := ⟨fun a b c => le_trans⟩
    exact List.pairwise_insertionSort (keyLe key) _
  popHeap_front h := ⟨_, rfl, List.Perm.refl _, h.of_cons⟩
  sort_perm l := List.perm_insertionSort _ l
  pairwise_sort l := by
    have : Std.Total fun a b => keyLe key b a := ⟨fun a b => le_total (key b) (key a)⟩
    have : IsTrans α fun a b => keyLe key b a := ⟨fun a b c hab hbc => le_trans hbc hab⟩
    exact (List.pairwise_insertionSort (fun a b => keyLe key b a) l).imp fun h => not_lt.mpr h

end HeapAlgorithms

/-- No element left out is larger than one that is kept, and none is left out while there is room. -/
def Largest {κ : Type*} [LinearOrder κ] (n : ℕ) (kept all : List κ) : Prop :=
  ∃ rest, all.Perm (kept ++ rest) ∧ (∀ a ∈ kept, ∀ b ∈ rest, b ≤ a) ∧ kept.length ≤ n ∧ (rest ≠ [] → kept.length = n)

namespace Largest
open scoped List
variable {κ : Type*} [LinearOrder κ] {n : ℕ} {kept kept' all : List κ} {a m : κ}

theorem nil : Largest n ([] : List κ) [] := ⟨[], List.Perm.refl _, by simp, Nat.zero_le n, by simp⟩

theorem perm (h : Largest n kept all) (hperm : kept'.Perm kept) : Largest n kept' all := by
  obtain ⟨rest, hall, hle, hlength, hfull⟩ := h
  refine ⟨rest, hall.trans (hperm.symm.append_right rest), fun a ha => hle a (hperm.mem_iff.mp ha), ?_, ?_⟩
  · rwa [hperm.length_eq]
  · rwa [hperm.length_eq]

/-- While there is room, an element more is kept. -/
theorem room (h : Largest n kept all) (hroom : kept.length < n) (a : κ) : Largest n (kept ++ [a]) (all ++ [a]) := by
  obtain ⟨rest, hall, -, -, hfull⟩ := h
  have hrest : rest = [] := by
    by_contra hne
    exact absurd (hfull hne) hroom.ne
  subst hrest
  rw [List.append_nil] at hall
  refine ⟨[], ?_, by simp, ?_, by simp⟩
  · rw [List.append_nil]
    exact hall.append_right [a]
  · rw [List.length_append, List.length_singleton]
    omega

/-- One that exceeds the least of them takes its place. -/
theorem replace (h : Largest n (m :: kept) all) (hfull : (m :: kept).length = n) (hleast : ∀ b ∈ kept, m ≤ b)
    (hlt : m < a) : Largest n (kept ++ [a]) (all ++ [a]) := by
  obtain ⟨rest, hall, hle, -, -⟩ := h
  refine ⟨m :: rest, ?_, ?_, ?_, ?_⟩
  · calc all ++ [a] ~ m :: kept ++ rest ++ [a] := hall.append_right [a]
      _ ~ [a] ++ (m :: kept ++ rest) := List.perm_append_comm
      _ = a :: m :: (kept ++ rest) := rfl
      _ ~ a :: (kept ++ m :: rest) := List.Perm.cons a List.perm_middle.symm
      _ ~ kept ++ [a] ++ m :: rest := by
        rw [List.append_assoc]
        exact List.perm_middle.symm
  · intro b hb c hc
    have hmb : m ≤ b := by
      rcases List.mem_append.mp hb with hb | hb
      · exact hleast b hb
      · rw [List.mem_singleton.mp hb]
        exact hlt.le
    rcases List.mem_cons.mp hc with rfl | hc
    · exact hmb
    · exact (hle m List.mem_cons_self c hc).trans hmb
  · rw [List.length_append, List.length_singleton, ← hfull, List.length_cons]
  · intro _
    rw [List.length_append, List.length_singleton, ← hfull, List.length_cons]

/-- One that exceeds none of them is left out. -/
theorem skip (h : Largest n kept all) (hfull : kept.length = n) (hle : ∀ b ∈ kept, a ≤ b) :
    Largest n kept (all ++ [a]) := by
  obtain ⟨rest, hall, hrest, -, -⟩ := h
  refine ⟨rest ++ [a], ?_, ?_, hfull.le, fun _ => hfull⟩
  · rw [← List.append_assoc]
    exact hall.append_right [a]
  · intro b hb c hc
    rcases List.mem_append.mp hc with hc | hc
    · exact hrest b hb c hc
    · rw [List.mem_singleton.mp hc]
      exact hle b hb

theorem length_eq (h : Largest n kept all) : kept.length = min all.length n := by
  obtain ⟨rest, hall, -, hlength, hfull⟩ := h
  have hall := hall.length_eq
  rw [List.length_append] at hall
  by_cases hrest : rest = []
  · rw [hrest, List.length_nil] at hall
    omega
  · have := hfull hrest
    omega

theorem eq_take (h : Largest n kept all) (hsorted : kept.Pairwise (· ≥ ·)) :
    kept = (all.insertionSort (· ≥ ·)).take n := by
  have hlength := h.length_eq
  obtain ⟨rest, hall, hle, -, -⟩ := h
  have hsplit : all.insertionSort (· ≥ ·) = kept ++ rest.insertionSort (· ≥ ·) := by
    refine @List.Perm.eq_of_pairwise _ (· ≥ ·) _ _ (fun a b _ _ h h' => le_antisymm h' h)
      (List.pairwise_insertionSort _ all) ?_ ?_
    · refine List.pairwise_append.mpr ⟨hsorted, List.pairwise_insertionSort _ rest, fun a ha b hb => ?_⟩
      exact hle a ha b ((List.perm_insertionSort _ rest).mem_iff.mp hb)
    · calc all.insertionSort (· ≥ ·) ~ all := List.perm_insertionSort _ all
        _ ~ kept ++ rest := hall
        _ ~ kept ++ rest.insertionSort (· ≥ ·) := (List.perm_insertionSort _ rest).symm.append_left kept
  rw [hsplit]
  by_cases hfull : kept.length = n
  · rw [← hfull, List.take_left]
  · have hall := hall.length_eq
    have hrest : rest = [] := by
      rw [List.length_append] at hall
      exact List.eq_nil_of_length_eq_zero (by omega)
    rw [hrest, List.insertionSort_nil, List.append_nil, List.take_of_length_le (by omega)]

/-- Those that exceed a bound are all kept, unless all that are kept exceed it. -/
theorem countP_eq (h : Largest n kept all) {t : κ} (ht : (∃ a ∈ kept, a ≤ t) ∨ kept.length = all.length) :
    all.countP (t < ·) = kept.countP (t < ·) := by
  obtain ⟨rest, hall, hle, -, -⟩ := h
  rw [hall.countP_eq, List.countP_append, Nat.add_eq_left, List.countP_eq_zero]
  intro b hb
  rcases ht with ⟨a, ha, hat⟩ | hlength
  · simpa using (hle a ha b hb).trans hat
  · have hall := hall.length_eq
    rw [List.length_append, ← hlength, Nat.left_eq_add, List.length_eq_zero_iff] at hall
    rw [hall] at hb
    cases hb

end Largest
