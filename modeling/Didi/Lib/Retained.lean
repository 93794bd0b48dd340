import Mathlib.Data.List.Dedup
import Mathlib.Data.Finset.Card

/-!
# What a list keeps

* `List.dedup_filter` : a test that drops elements drops them from either list;
* `List.dedup_concat` : an element that comes again stands last;
* `List.filter_dedup_append` : what comes again behind does not matter where it stood before;
* `List.mem_drop_iff_le_idxOf` : what stands behind a place of a list;
* `List.later_than_iff` : the first `n` of `s` all came later than the others iff they are the last `n` of `l`;
* `List.first_iff_last` : this is so iff each of the last `n` of `l` goes before every other in the order of `s`.

`List.dedup` keeps the last place of each element.

`l` lists distinct elements as they came, and `s` lists the same elements by an order of its own.
-/

namespace List
variable {α : Type*} [DecidableEq α]

theorem dedup_filter (p : α → Bool) (l : List α) : (l.filter p).dedup = l.dedup.filter p := by
  induction l with
  | nil => rfl
  | cons a l ih =>
    by_cases hmem : a ∈ l
    · rw [dedup_cons_of_mem hmem]
      cases hp : p a with
      | true =>
        rw [filter_cons_of_pos hp, dedup_cons_of_mem (mem_filter.mpr ⟨hmem, hp⟩), ih]
      | false => rw [filter_cons_of_neg (by simp [hp]), ih]
    · have hnot : a ∉ l.filter p := fun h => hmem (mem_filter.mp h).1
      rw [dedup_cons_of_notMem hmem]
      cases hp : p a with
      | true => rw [filter_cons_of_pos hp, filter_cons_of_pos hp, dedup_cons_of_notMem hnot, ih]
      | false => rw [filter_cons_of_neg (by simp [hp]), filter_cons_of_neg (by simp [hp]), ih]

theorem dedup_concat (l : List α) (a : α) : (l ++ [a]).dedup = l.dedup.filter (· ≠ a) ++ [a] := by
  induction l with
  | nil => rfl
  | cons b l ih =>
    rw [cons_append]
    by_cases hb : b = a
    · subst hb
      rw [dedup_cons_of_mem (mem_append_right _ mem_cons_self), ih]
      by_cases hmem : b ∈ l
      · rw [dedup_cons_of_mem hmem]
      · rw [dedup_cons_of_notMem hmem, filter_cons_of_neg (by simp)]
    · by_cases hmem : b ∈ l
      · rw [dedup_cons_of_mem (mem_append_left _ hmem), ih, dedup_cons_of_mem hmem]
      · have hnot : b ∉ l ++ [a] := by simp [hmem, hb]
        rw [dedup_cons_of_notMem hnot, ih, dedup_cons_of_notMem hmem, filter_cons_of_pos (by simpa using hb), cons_append]

theorem filter_dedup_append {p : α → Bool} {before l : List α} (h : ∀ a ∈ before, p a = true → a ∈ l) :
    (before ++ l).dedup.filter p = l.dedup.filter p := by
  induction before with
  | nil => rfl
  | cons a before ih =>
    have hrest := ih fun b hb => h b (mem_cons_of_mem _ hb)
    rw [cons_append]
    by_cases hmem : a ∈ before ++ l
    · rw [dedup_cons_of_mem hmem, hrest]
    · have hp : ¬ p a = true := fun hp => hmem (mem_append_right _ (h a mem_cons_self hp))
      rw [dedup_cons_of_notMem hmem, filter_cons_of_neg hp, hrest]

/-! ## The first of one order against the last of another -/

variable {l s : List α} {n : ℕ} {x : α}

theorem mem_drop_iff_le_idxOf (hl : l.Nodup) (hx : x ∈ l) (m : ℕ) : x ∈ l.drop m ↔ m ≤ l.idxOf x := by
  have hlt := idxOf_lt_length_of_mem hx
  constructor
  · intro h
    by_contra hm
    have htake : x ∈ l.take m := by
      rw [mem_take_iff_idxOf_lt hx]
      omega
    exact (disjoint_take_drop hl (Nat.le_refl m)) htake h
  · intro h
    rw [mem_drop_iff_getElem]
    refine ⟨l.idxOf x - m, by omega, ?_⟩
    simp [Nat.add_sub_cancel' h]

omit [DecidableEq α] in
theorem mem_take_or_mem_drop (n : ℕ) (hx : x ∈ s) : x ∈ s.take n ∨ x ∈ s.drop n := by
  rw [← mem_append, take_append_drop]
  exact hx

/-- Of as many distinct elements as there are in `t`, one is missing from `t` when another is not in it. -/
theorem exists_not_mem_of_length_eq {u t : List α} (hu : u.Nodup) (ht : t.Nodup) (hlen : u.length = t.length)
    (hx : x ∈ u) (hxt : x ∉ t) : ∃ y ∈ t, y ∉ u := by
  by_contra! hall
  have hsub : t.toFinset ⊆ u.toFinset.erase x := by
    intro y hy
    rw [mem_toFinset] at hy
    exact Finset.mem_erase.mpr ⟨fun h => hxt (h ▸ hy), mem_toFinset.mpr (hall y hy)⟩
  have hcard := Finset.card_le_card hsub
  rw [Finset.card_erase_of_mem (mem_toFinset.mpr hx), toFinset_card_of_nodup ht, toFinset_card_of_nodup hu] at hcard
  have hpos := length_pos_of_mem hx
  omega

omit [DecidableEq α] in
theorem length_take_eq_drop (hperm : s.Perm l) : (s.take n).length = (l.drop (l.length - n)).length := by
  rw [length_take, length_drop, hperm.length_eq]
  omega

variable (hperm : s.Perm l) (hl : l.Nodup)
include hperm hl

/-- The first `n` of `s` all came later than the others iff they are the last `n` that came. -/
theorem later_than_iff :
    (∀ r ∈ s.drop n, ∀ k ∈ s.take n, l.idxOf r ≤ l.idxOf k) ↔ ∀ x ∈ s.take n, x ∈ l.drop (l.length - n) := by
  have hs : s.Nodup := hperm.nodup_iff.mpr hl
  have hlen := length_take_eq_drop (n := n) hperm
  constructor
  · intro h x hx
    by_contra hout
    -- one of the last came later than `x` and is not among the first of `s`
    obtain ⟨y, hy, hys⟩ := exists_not_mem_of_length_eq (hs.sublist (take_sublist _ _))
      (hl.sublist (drop_sublist _ _)) hlen hx hout
    have hyl := mem_of_mem_drop hy
    have hxl := hperm.mem_iff.mp (mem_of_mem_take hx)
    have hle := h y ((mem_take_or_mem_drop n (hperm.mem_iff.mpr hyl)).resolve_left hys) x hx
    rw [mem_drop_iff_le_idxOf hl hyl] at hy
    rw [mem_drop_iff_le_idxOf hl hxl] at hout
    omega
  · intro h r hr k hk
    have hrl := hperm.mem_iff.mp (mem_of_mem_drop hr)
    have hkl := hperm.mem_iff.mp (mem_of_mem_take hk)
    have hlast := h k hk
    have hfirst : r ∉ l.drop (l.length - n) := by
      intro hmem
      have hrs : r ∉ s.take n := fun ht => disjoint_take_drop hs (Nat.le_refl n) ht hr
      obtain ⟨y, hy, hyl⟩ := exists_not_mem_of_length_eq (hl.sublist (drop_sublist _ _))
        (hs.sublist (take_sublist _ _)) hlen.symm hmem hrs
      exact hyl (h y hy)
    rw [mem_drop_iff_le_idxOf hl hkl] at hlast
    rw [mem_drop_iff_le_idxOf hl hrl] at hfirst
    omega

/-- **The first `n` in order are the last `n` that came iff each of these goes before every other.** -/
theorem first_iff_last {r : α → α → Prop} (hs : s.Pairwise r) (hr : ∀ a b, r a b → ¬ r b a) :
    (∀ x ∈ s.take n, x ∈ l.drop (l.length - n)) ↔
      ∀ b ∈ l.drop (l.length - n), ∀ a ∈ l.take (l.length - n), r b a := by
  have hnodup : s.Nodup := hperm.nodup_iff.mpr hl
  have hlen := length_take_eq_drop (n := n) hperm
  constructor
  · intro h b hb a ha
    have hfirst : b ∈ s.take n := by
      by_contra hout
      obtain ⟨y, hy, hyl⟩ := exists_not_mem_of_length_eq (hl.sublist (drop_sublist _ _))
        (hnodup.sublist (take_sublist _ _)) hlen.symm hb hout
      exact hyl (h y hy)
    have hrest : a ∈ s.drop n := by
      refine (mem_take_or_mem_drop n (hperm.mem_iff.mpr (mem_of_mem_take ha))).resolve_left fun ht => ?_
      exact disjoint_take_drop hl (Nat.le_refl _) ha (h a ht)
    exact hs.rel_of_mem_take_of_mem_drop hfirst hrest
  · intro h x hx
    by_contra hout
    obtain ⟨y, hy, hys⟩ := exists_not_mem_of_length_eq (hnodup.sublist (take_sublist _ _))
      (hl.sublist (drop_sublist _ _)) hlen hx hout
    have hxl := hperm.mem_iff.mp (mem_of_mem_take hx)
    have hfirst := (mem_take_or_mem_drop (l.length - n) hxl).resolve_right hout
    have hrest := (mem_take_or_mem_drop n (hperm.mem_iff.mpr (mem_of_mem_drop hy))).resolve_left hys
    exact hr x y (hs.rel_of_mem_take_of_mem_drop hx hrest) (h y hy x hfirst)

end List
