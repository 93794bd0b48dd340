import Mathlib.Data.List.MinMax
import Didi.Lib.OrderedMap

/-!
# Least recently used lists

* `List.dropUntil` : what is left when the first elements go until the rest fits;
* `List.renewKey` : the entry at a key goes to the end, with a new value;
* `List.Listed` : a list that has the entries of a map in the order of their stamps, with what an erasure, the
  erasure of the oldest, a new entry and a new stamp do to it.
-/

namespace List
variable {κ β γ : Type*}

/-- The list without its first elements, as few of them as it takes for the rest to fit. -/
def dropUntil (fits : List β → Bool) : List β → List β
  | [] => []
  | a :: l => if fits (a :: l) then a :: l else dropUntil fits l

theorem dropUntil_suffix (fits : List β → Bool) (l : List β) : l.dropUntil fits <:+ l := by
  induction l with
  | nil => exact suffix_refl []
  | cons a l ih =>
    rw [dropUntil]
    split_ifs with hfits
    · exact suffix_refl _
    · exact ih.trans (suffix_cons a l)

theorem dropUntil_fits (fits : List β → Bool) (l : List β) : l.dropUntil fits = [] ∨ fits (l.dropUntil fits) = true := by
  induction l with
  | nil => exact .inl rfl
  | cons a l ih =>
    rw [dropUntil]
    split_ifs with hfits
    · exact .inr hfits
    · exact ih

theorem dropUntil_map (f : β → γ) (fits : List γ → Bool) (l : List β) :
    (l.map f).dropUntil fits = (l.dropUntil fun l => fits (l.map f)).map f := by
  induction l with
  | nil => rfl
  | cons a l ih =>
    rw [map_cons, dropUntil, dropUntil, map_cons]
    split_ifs with hfits
    · rfl
    · exact ih

section Keys
variable [LinearOrder κ]

/-- Put `x` at `k` behind every other entry. -/
def renewKey (k : κ) (x : β) (l : List (κ × β)) : List (κ × β) := l.eraseKey k ++ [(k, x)]

theorem eraseKey_map (k : κ) (f : β → γ) (l : List (κ × β)) :
    (l.map fun e => (e.1, f e.2)).eraseKey k = (l.eraseKey k).map fun e => (e.1, f e.2) := by
  unfold eraseKey
  rw [filter_map]
  rfl

theorem lookup_map (k : κ) (f : β → γ) (l : List (κ × β)) :
    (l.map fun e => (e.1, f e.2)).lookup k = (l.lookup k).map f := by
  induction l with
  | nil => rfl
  | cons e l ih =>
    obtain ⟨k', x⟩ := e
    rw [map_cons, lookup_cons_eq, lookup_cons_eq, ih]
    split_ifs <;> rfl

theorem not_mem_keys_eraseKey (k : κ) (l : List (κ × β)) : k ∉ (l.eraseKey k).map Prod.fst := by
  intro h
  obtain ⟨e, he, rfl⟩ := mem_map.mp h
  have hne := of_decide_eq_true (mem_filter.mp he).2
  exact hne rfl

theorem eraseKey_of_not_mem {k : κ} {l : List (κ × β)} (h : k ∉ l.map Prod.fst) : l.eraseKey k = l := by
  refine filter_eq_self.mpr fun e he => decide_eq_true ?_
  rintro rfl
  exact h (mem_map_of_mem he)

/-- With distinct keys, an entry is changed where it stands: the others are those that an erasure leaves. -/
theorem alterKey_perm {k : κ} {x : β} (f : β → β) {l : List (κ × β)} (hl : (l.map Prod.fst).Nodup)
    (h : l.lookup k = some x) : (l.alterKey k f).Perm (l.renewKey k (f x)) := by
  induction l with
  | nil => cases h
  | cons e l ih =>
    obtain ⟨k', y⟩ := e
    rw [map_cons, nodup_cons] at hl
    rw [lookup_cons_eq] at h
    rw [alterKey, renewKey, eraseKey, filter_cons]
    by_cases hk : k = k'
    · subst hk
      rw [if_pos rfl] at h
      obtain rfl : y = x := Option.some.inj h
      have hrest : l.eraseKey k = l := eraseKey_of_not_mem hl.1
      rw [if_pos rfl, if_neg (by simp), ← eraseKey, hrest]
      exact (perm_append_singleton (k, f y) l).symm
    · rw [if_neg hk] at h
      have hkept : decide ((k', y).1 ≠ k) = true := decide_eq_true (Ne.symm hk)
      rw [if_neg hk, if_pos hkept, cons_append]
      exact (ih hl.2 h).cons _

/-- With distinct keys, renewing an entry with its own value only moves it. -/
theorem renewKey_perm {k : κ} {x : β} {l : List (κ × β)} (hl : (l.map Prod.fst).Nodup)
    (h : l.lookup k = some x) : (l.renewKey k x).Perm l := by
  have hsame : l.alterKey k (fun _ => x) = l := by
    clear hl
    induction l with
    | nil => rfl
    | cons e l ih =>
      rw [lookup_cons_eq] at h
      rw [alterKey]
      by_cases hk : k = e.1
      · rw [if_pos hk] at h
        rw [if_pos hk, ← Option.some.inj h]
      · rw [if_neg hk] at h
        rw [if_neg hk, ih h]
  have halter := alterKey_perm (fun _ => x) hl h
  rw [hsame] at halter
  exact halter.symm

end Keys

/-- The list has the entries of a map, each key once, in the order of their stamps. -/
structure Listed (stamp : β → ℕ) (entries l : List (κ × β)) : Prop where
  perm : l.Perm entries
  sorted : l.Pairwise fun a b => stamp a.2 < stamp b.2
  nodup : (l.map Prod.fst).Nodup

namespace Listed
variable {stamp : β → ℕ} {entries l : List (κ × β)}

theorem empty : Listed stamp ([] : List (κ × β)) [] := ⟨.nil, .nil, .nil⟩

theorem nodup_entries (h : Listed stamp entries l) : (entries.map Prod.fst).Nodup :=
  (h.perm.map Prod.fst).nodup_iff.mp h.nodup

theorem length_eq (h : Listed stamp entries l) : entries.length = l.length := h.perm.length_eq.symm

/-- The first of the list has the least stamp. -/
theorem argmin (h : Listed stamp entries (e :: l)) : entries.argmin (fun e => stamp e.2) = some e := by
  have hmem : e ∈ entries := h.perm.mem_iff.mp mem_cons_self
  obtain ⟨m, hm⟩ : ∃ m, entries.argmin (fun e => stamp e.2) = some m := by
    cases hmin : entries.argmin (fun e => stamp e.2) with
    | none =>
      rw [argmin_eq_none] at hmin
      rw [hmin] at hmem
      cases hmem
    | some m => exact ⟨m, rfl⟩
  have hle : stamp m.2 ≤ stamp e.2 := le_of_mem_argmin (f := fun e : κ × β => stamp e.2) hmem hm
  rcases mem_cons.mp (h.perm.mem_iff.mpr (argmin_mem hm)) with rfl | hrest
  · exact hm
  · have hlt := (pairwise_cons.mp h.sorted).1 m hrest
    omega

variable [LinearOrder κ]

theorem lookup_eq (h : Listed stamp entries l) (k : κ) : entries.lookup k = l.lookup k := by
  cases hk : l.lookup k with
  | none =>
    cases hk' : entries.lookup k with
    | none => rfl
    | some x =>
      have hmem := h.perm.mem_iff.mpr (mem_of_lookup hk')
      rw [lookup_of_mem_of_nodup h.nodup hmem] at hk
      cases hk
  | some x => exact lookup_of_mem_of_nodup h.nodup_entries (h.perm.mem_iff.mp (mem_of_lookup hk)) ▸ rfl

theorem eraseKey (h : Listed stamp entries l) (k : κ) : Listed stamp (entries.eraseKey k) (l.eraseKey k) where
  perm := h.perm.filter _
  sorted := h.sorted.sublist filter_sublist
  nodup := h.nodup.sublist (filter_sublist.map Prod.fst)

/-- The oldest entry goes. -/
theorem eraseHead (h : Listed stamp entries (e :: l)) : Listed stamp (entries.eraseKey e.1) l := by
  have hrest : (e :: l).eraseKey e.1 = l := by
    have hnot := (nodup_cons.mp h.nodup).1
    rw [List.eraseKey, filter_cons, if_neg (by simp)]
    exact eraseKey_of_not_mem hnot
  have herased := h.eraseKey e.1
  rwa [hrest] at herased

omit [LinearOrder κ] in
/-- An entry with the newest stamp comes. -/
theorem push (h : Listed stamp entries l) {k : κ} {x : β} (hk : k ∉ entries.map Prod.fst)
    (hx : ∀ e ∈ entries, stamp e.2 < stamp x) : Listed stamp (entries ++ [(k, x)]) (l ++ [(k, x)]) where
  perm := h.perm.append_right _
  sorted := by
    refine pairwise_append.mpr ⟨h.sorted, pairwise_singleton _ _, fun a ha b hb => ?_⟩
    rw [mem_singleton.mp hb]
    exact hx a (h.perm.mem_iff.mp ha)
  nodup := by
    rw [map_append, map_singleton]
    refine nodup_append'.mpr ⟨h.nodup, nodup_singleton _, ?_⟩
    rw [disjoint_singleton]
    exact fun hmem => hk ((h.perm.map Prod.fst).mem_iff.mp hmem)

/-- An entry gets the newest stamp where it stands. -/
theorem touch (h : Listed stamp entries l) {k : κ} {x : β} (f : β → β) (hk : entries.lookup k = some x)
    (hx : ∀ e ∈ entries, stamp e.2 < stamp (f x)) :
    Listed stamp (entries.alterKey k f) (l.renewKey k (f x)) := by
  have hpush := (h.eraseKey k).push (not_mem_keys_eraseKey k entries) fun e he => hx e (mem_of_mem_filter he)
  exact ⟨hpush.perm.trans (alterKey_perm f h.nodup_entries hk).symm, hpush.sorted, hpush.nodup⟩

end Listed
end List
