import Mathlib.Data.List.Basic

/-!
# Brackets in a list

`Balanced isOpen isClose l` : every opening of `l` is closed within it, and every closing was opened.

* `Balanced.prefix_le`, `Balanced.suffix_le` : a beginning closes no more than it opened, an end opens no more than it
  closes;
* `openingBefore` : the search backwards for the opening of a closing bracket, which goes over what is balanced
  (`openingBefore_append`) and so finds the bracket it belongs to (`openingBefore_wrap`).
-/

namespace Brackets
variable {α : Type*} (isOpen isClose : α → Bool)

inductive Balanced : List α → Prop
  | nil : Balanced []
  | plain {a : α} (ho : isOpen a = false) (hc : isClose a = false) : Balanced [a]
  | wrap {a b : α} {l : List α} (ha : isOpen a = true) (hb : isClose b = true) (h : Balanced l) : Balanced (a :: (l ++ [b]))
  | append {l m : List α} (hl : Balanced l) (hm : Balanced m) : Balanced (l ++ m)

/-- From the end of the first `i` items backwards, the place of the opening that brings the depth to zero. -/
def openingBefore (l : List α) : Nat → Int → Option Nat
  | 0, _ => none
  | i + 1, depth =>
    match l[i]? with
    | none => openingBefore l i depth
    | some a =>
      if isClose a then openingBefore l i (depth + 1)
      else if isOpen a then (if depth - 1 = 0 then some i else openingBefore l i (depth - 1))
      else openingBefore l i depth

variable {isOpen isClose} {l m : List α} {a b : α}

theorem isClose_eq_false (hdisjoint : ∀ a, isClose a = true → isOpen a = false) (ha : isOpen a = true) :
    isClose a = false := by
  by_contra hc
  rw [hdisjoint a (by simpa using hc)] at ha
  cases ha

namespace Balanced

theorem of_plain (h : ∀ a ∈ l, isOpen a = false ∧ isClose a = false) : Balanced isOpen isClose l := by
  induction l with
  | nil => exact .nil
  | cons a l ih =>
    have ha := h a List.mem_cons_self
    exact .append (.plain ha.1 ha.2) (ih fun b hb => h b (List.mem_cons_of_mem _ hb))

theorem count_eq (hdisjoint : ∀ a, isClose a = true → isOpen a = false) (h : Balanced isOpen isClose l) :
    l.countP isOpen = l.countP isClose := by
  induction h with
  | nil => rfl
  | plain ho hc => simp [ho, hc]
  | wrap ha hb _ ih =>
    simp only [List.countP_cons, List.countP_append, List.countP_nil, ha, hb, isClose_eq_false hdisjoint ha, hdisjoint _ hb]
    simp only [if_true, Bool.false_eq_true, if_false]
    omega
  | append _ _ ihl ihm => rw [List.countP_append, List.countP_append, ihl, ihm]

/-- What a balanced list begins with has closed no more than it opened. -/
theorem prefix_le (hdisjoint : ∀ a, isClose a = true → isOpen a = false) (h : Balanced isOpen isClose l)
    {p q : List α} (hl : l = p ++ q) : p.countP isClose ≤ p.countP isOpen := by
  induction h generalizing p q with
  | nil =>
    obtain ⟨rfl, -⟩ := List.append_eq_nil_iff.mp hl.symm
    exact Nat.le_refl _
  | plain ho hc =>
    rcases p with - | ⟨c, p⟩
    · exact Nat.le_refl _
    · obtain ⟨rfl, htail⟩ := List.cons.inj hl
      obtain ⟨rfl, -⟩ := List.append_eq_nil_iff.mp htail.symm
      simp [hc]
  | @wrap a b l ha hb hbal ih =>
    have hca := isClose_eq_false hdisjoint ha
    rcases p with - | ⟨c, p⟩
    · exact Nat.le_refl _
    · obtain ⟨rfl, htail⟩ := List.cons.inj hl
      rcases List.append_eq_append_iff.mp htail with ⟨r, hp, hr⟩ | ⟨r, hbefore, -⟩
      · -- the beginning may hold the closing bracket as well
        have hcount := hbal.count_eq hdisjoint
        have hrlen : r.countP isClose ≤ 1 := by
          have hsub := List.countP_le_length (p := isClose) (l := r)
          have hlen := congrArg List.length hr
          simp only [List.length_append, List.length_singleton] at hlen
          omega
        subst hp
        simp only [List.countP_cons, List.countP_append, ha, hca, if_true, Bool.false_eq_true, if_false]
        omega
      · have hle := ih hbefore
        simp only [List.countP_cons, ha, hca, if_true, Bool.false_eq_true, if_false]
        omega
  | append hbl _ ihl ihm =>
    rcases List.append_eq_append_iff.mp hl with ⟨r, hp, hr⟩ | ⟨r, hbefore, -⟩
    · subst hp
      have hle := ihm hr
      have hcount := hbl.count_eq hdisjoint
      rw [List.countP_append, List.countP_append]
      omega
    · exact ihl hbefore

theorem suffix_le (hdisjoint : ∀ a, isClose a = true → isOpen a = false) (h : Balanced isOpen isClose l)
    {p q : List α} (hl : l = p ++ q) : q.countP isOpen ≤ q.countP isClose := by
  have hle := h.prefix_le hdisjoint hl
  have hcount := h.count_eq hdisjoint
  rw [hl, List.countP_append, List.countP_append] at hcount
  omega

end Balanced

/-- The search goes over what is balanced. -/
theorem openingBefore_append (hdisjoint : ∀ a, isClose a = true → isOpen a = false) (h : Balanced isOpen isClose m)
    (before after : List α) {depth : Int} (hdepth : 0 < depth) :
    openingBefore isOpen isClose (before ++ m ++ after) (before.length + m.length) depth =
      openingBefore isOpen isClose (before ++ m ++ after) before.length depth := by
  induction h generalizing before after depth with
  | nil => rfl
  | @plain a ho hc =>
    have hat : (before ++ [a] ++ after)[before.length]? = some a := by simp
    rw [List.length_singleton, openingBefore, hat]
    simp [ho, hc]
  | @wrap a b m ha hb _ ih =>
    have hlist : before ++ (a :: (m ++ [b])) ++ after = (before ++ [a]) ++ m ++ (b :: after) := by simp
    have hclose : ((before ++ [a]) ++ m ++ (b :: after))[(before ++ [a]).length + m.length]? = some b := by
      rw [← List.length_append]
      simp
    have hopen : ((before ++ [a]) ++ m ++ (b :: after))[before.length]? = some a := by simp
    have hca := isClose_eq_false hdisjoint ha
    have hlen : before.length + (a :: (m ++ [b])).length = ((before ++ [a]).length + m.length) + 1 := by
      simp only [List.length_append, List.length_cons, List.length_nil]
      omega
    rw [hlist, hlen, openingBefore, hclose]
    simp only [hb, if_true]
    rw [ih (before ++ [a]) (b :: after) (by omega), show (before ++ [a]).length = before.length + 1 by simp,
      openingBefore, hopen]
    have hne : ¬ depth + 1 - 1 = 0 := by omega
    simp only [hca, ha, if_true, Bool.false_eq_true, if_false, if_neg hne]
    rw [show depth + 1 - 1 = depth by omega]
  | @append m n _ _ ihm ihn =>
    have hsecond := ihn (before ++ m) after hdepth
    have hfirst := ihm before (n ++ after) hdepth
    rw [show before ++ (m ++ n) ++ after = before ++ m ++ n ++ after by simp,
      show before.length + (m ++ n).length = (before ++ m).length + n.length by simp [Nat.add_assoc], hsecond,
      List.length_append]
    rw [show before ++ m ++ n ++ after = before ++ m ++ (n ++ after) by simp, hfirst]

/-- The opening bracket of what a closing bracket closes. -/
theorem openingBefore_wrap (hdisjoint : ∀ a, isClose a = true → isOpen a = false) (ha : isOpen a = true)
    (hb : isClose b = true) (h : Balanced isOpen isClose m) (before after : List α) :
    openingBefore isOpen isClose (before ++ a :: (m ++ b :: after)) (before.length + m.length + 2) 0 =
      some before.length := by
  have hlist : before ++ a :: (m ++ b :: after) = (before ++ [a]) ++ m ++ (b :: after) := by simp
  have hclose : ((before ++ [a]) ++ m ++ (b :: after))[(before ++ [a]).length + m.length]? = some b := by
    rw [← List.length_append]
    simp
  have hopen : ((before ++ [a]) ++ m ++ (b :: after))[before.length]? = some a := by simp
  have hca := isClose_eq_false hdisjoint ha
  have hlen : before.length + m.length + 2 = ((before ++ [a]).length + m.length) + 1 := by
    simp only [List.length_append, List.length_cons, List.length_nil]
    omega
  rw [hlist, hlen, openingBefore, hclose]
  simp only [hb, if_true]
  rw [openingBefore_append hdisjoint h _ _ (by omega), show (before ++ [a]).length = before.length + 1 by simp,
    openingBefore, hopen]
  simp [hca, ha]

end Brackets
