import Didi.Json.Tree

/-!
# Sizes of written text

An object takes a byte more than its members with a comma after each (`membersCost`), except that
the empty one takes two. So the text of an object shrinks with the cost of its members.

* `dumpSize_object_mono` : with the cost of its members, an object does not grow;
* `membersCost_sublist`, `membersCost_insertKey_le` : the cost after a removal and after an insertion;
* `dumpSize_eraseMember_le` : removing a member does not enlarge the text.
-/

namespace Didi.Json

def memberCost (e : String × Json) : Nat := stringSize e.1 + e.2.dumpSize + 2

def membersCost (l : JsonObject) : Nat := (l.map memberCost).sum

theorem membersCost_cons (e : String × Json) (l : JsonObject) :
    membersCost (e :: l) = memberCost e + membersCost l := by simp [membersCost]

theorem membersCost_append (l l' : JsonObject) : membersCost (l ++ l') = membersCost l + membersCost l' := by
  simp [membersCost]

theorem membersSize_add_one {l : JsonObject} (h : l ≠ []) : membersSize l + 1 = membersCost l := by
  induction l with
  | nil => exact absurd rfl h
  | cons e l ih =>
    rw [membersCost_cons]
    cases l with
    | nil =>
      simp only [membersSize, memberCost, membersCost, List.map_nil, List.sum_nil]
      omega
    | cons e' l =>
      have := ih (List.cons_ne_nil e' l)
      simp only [membersSize, memberCost] at this ⊢
      omega

theorem dumpSize_object_of_ne {l : JsonObject} (h : l ≠ []) : (object l).dumpSize = membersCost l + 1 := by
  have := membersSize_add_one h
  rw [dumpSize]
  omega

theorem dumpSize_object_le (l : JsonObject) : (object l).dumpSize ≤ membersCost l + 2 := by
  rw [dumpSize]
  by_cases h : l = []
  · subst h
    exact Nat.le_refl 2
  · have := membersSize_add_one h
    omega

theorem le_dumpSize_object (l : JsonObject) : membersCost l + 1 ≤ (object l).dumpSize := by
  rw [dumpSize]
  by_cases h : l = []
  · subst h
    decide
  · have := membersSize_add_one h
    omega

theorem dumpSize_object_mono {l l' : JsonObject} (h : membersCost l' ≤ membersCost l) :
    (object l').dumpSize ≤ (object l).dumpSize := by
  have hle := le_dumpSize_object l
  by_cases hl : l' = []
  · subst hl
    rw [dumpSize, dumpSize]
    exact Nat.add_le_add_left (Nat.zero_le _) 2
  · have := membersSize_add_one hl
    rw [dumpSize]
    omega

theorem membersCost_sublist {l l' : JsonObject} (h : List.Sublist l' l) : membersCost l' ≤ membersCost l := by
  induction h with
  | slnil => exact Nat.le_refl _
  | cons e _ ih =>
    rw [membersCost_cons]
    omega
  | cons_cons e _ ih =>
    rw [membersCost_cons, membersCost_cons]
    omega

/-- Members whose values shrink one by one. -/
theorem membersCost_map_le {α : Type} {l : List (String × α)} {f g : α → Json}
    (h : ∀ e ∈ l, (f e.2).dumpSize ≤ (g e.2).dumpSize) :
    membersCost (l.map fun e => (e.1, f e.2)) ≤ membersCost (l.map fun e => (e.1, g e.2)) := by
  induction l with
  | nil => exact Nat.le_refl _
  | cons e l ih =>
    have he := h e List.mem_cons_self
    have hl := ih fun e he => h e (List.mem_cons_of_mem _ he)
    simp only [List.map_cons, membersCost_cons, memberCost]
    omega

theorem membersCost_insertKey_le (l : JsonObject) (k : String) (v : Json) :
    membersCost (l.insertKey k v) ≤ membersCost l + memberCost (k, v) := by
  induction l with
  | nil => simp [List.insertKey, membersCost]
  | cons e l ih =>
    obtain ⟨k', v'⟩ := e
    unfold List.insertKey
    split_ifs <;> simp only [membersCost_cons] <;> omega

theorem membersCost_alterKey_le {l : JsonObject} {k : String} {c c' : Json} (h : l.lookup k = some c)
    (hc : c'.dumpSize ≤ c.dumpSize) : membersCost (l.alterKey k fun _ => c') ≤ membersCost l := by
  induction l with
  | nil => cases h
  | cons e l ih =>
    obtain ⟨k', v⟩ := e
    rw [List.lookup_cons_eq] at h
    unfold List.alterKey
    split_ifs at h ⊢ with hk
    · cases h
      simp only [membersCost_cons, memberCost]
      omega
    · have := ih h
      simp only [membersCost_cons]
      omega

/-! ## Arrays -/

def elementsCost (l : List Json) : Nat := (l.map fun v => v.dumpSize + 1).sum

theorem elementsSize_add_one {l : List Json} (h : l ≠ []) : elementsSize l + 1 = elementsCost l := by
  induction l with
  | nil => exact absurd rfl h
  | cons v l ih =>
    cases l with
    | nil => simp [elementsSize, elementsCost]
    | cons w l =>
      have := ih (List.cons_ne_nil w l)
      simp only [elementsSize, elementsCost, List.map_cons, List.sum_cons] at this ⊢
      omega

theorem elementsCost_set_le {l : List Json} {idx : Nat} {c c' : Json} (h : l[idx]? = some c)
    (hc : c'.dumpSize ≤ c.dumpSize) : elementsCost (l.set idx c') ≤ elementsCost l := by
  induction l generalizing idx with
  | nil => simp at h
  | cons v l ih =>
    cases idx with
    | zero =>
      rw [List.getElem?_cons_zero] at h
      cases h
      simp only [List.set_cons_zero, elementsCost, List.map_cons, List.sum_cons]
      omega
    | succ idx =>
      rw [List.getElem?_cons_succ] at h
      have := ih h
      simp only [List.set_cons_succ, elementsCost, List.map_cons, List.sum_cons] at this ⊢
      omega

theorem dumpSize_setChild_le {v c c' : Json} {k : String} (h : v.look k = .ok (some c))
    (hc : c'.dumpSize ≤ c.dumpSize) : (v.setChild k c').dumpSize ≤ v.dumpSize := by
  cases v with
  | object members => exact dumpSize_object_mono (membersCost_alterKey_le (Except.ok.inj h) hc)
  | array elements =>
    obtain ⟨idx, -, -, hidx, hget⟩ := look_array_some h
    have hcost := elementsCost_set_le hget hc
    have hne : elements ≠ [] := by
      rintro rfl
      simp at hget
    have hsize := elementsSize_add_one hne
    have hsize' := elementsSize_add_one (l := elements.set idx c') (by simpa using hne)
    rw [setChild_array hidx, dumpSize, dumpSize]
    omega
  | _ => cases h

/-! ## Removing a member -/

theorem dumpSize_alterAt_erase_le {v v' : Json} {p : JsonPointer} {k : String}
    (h : v.alterAt (erase k) p = .ok v') : v'.dumpSize ≤ v.dumpSize := by
  induction p generalizing v v' with
  | nil =>
    rw [alterAt] at h
    obtain ⟨members, rfl, rfl⟩ := erase_eq_ok h
    exact dumpSize_object_mono (membersCost_sublist List.filter_sublist)
  | cons k₀ ks ih =>
    obtain ⟨c, c', hlook, hc', rfl⟩ := alterAt_cons_ok h
    exact dumpSize_setChild_le hlook (ih hc')

theorem dumpSize_eraseMember_le {v v' : Json} {p : JsonPointer} (h : v.eraseMember p = .ok v') :
    v'.dumpSize ≤ v.dumpSize := by
  by_cases hmember : v.IsMember p
  · rw [eraseMember_of_isMember hmember] at h
    exact dumpSize_alterAt_erase_le h
  · rw [eraseMember_eq_self h hmember]

end Didi.Json
