import Mathlib.Data.List.Perm.Basic
import Mathlib.Data.List.Forall2
import Mathlib.Algebra.Order.Group.Nat
import Mathlib.Tactic.TypeStar

/-!
# Trees cut to a part of their nodes

* `Rose.nodes` : the subtrees depth first, each with the way to it from the root;
* `Rose.Rel` : two trees of the same shape with related labels (`Rel.nodes`);
* `Rose.cut keep room` : visit the children that `keep` takes as long as there is `room` for another node, and note at
  each node the children for which there was none;
* `cut_budget` : with room for a number of nodes, a cut keeps the first nodes, each in its place;
* `cut_perm` : what a cut keeps and what it notes make up the tree;
* `cut_filter` : without a bound, a cut keeps the root and each node that `keep` takes.
-/

inductive Rose (α : Type*)
  | node (label : α) (children : List (Rose α))

namespace Rose
variable {α β : Type*}

def label : Rose α → α
  | node a _ => a

def children : Rose α → List (Rose α)
  | node _ ts => ts

/-- To prove something of every tree, prove it of a tree whose children have it. -/
theorem ind {P : Rose α → Prop} (h : ∀ a ts, (∀ t ∈ ts, P t) → P (node a ts)) : ∀ t, P t
  | node a ts => h a ts fun t _ => ind h t

mutual

def nodes : Rose α → List (List Nat × Rose α)
  | node a ts => ([], node a ts) :: nodesFrom 0 ts

/-- The nodes of the children from the `i`-th on. -/
def nodesFrom : Nat → List (Rose α) → List (List Nat × Rose α)
  | _, [] => []
  | i, t :: ts => t.nodes.map (fun e => (i :: e.1, e.2)) ++ nodesFrom (i + 1) ts

end

/-- The labels depth first, each with its place. -/
def placed (t : Rose α) : List (List Nat × α) := t.nodes.map fun e => (e.1, e.2.label)

def placedFrom (i : Nat) (ts : List (Rose α)) : List (List Nat × α) := (nodesFrom i ts).map fun e => (e.1, e.2.label)

def labels (t : Rose α) : List α := t.placed.map Prod.snd

def labelsAll (ts : List (Rose α)) : List α := ts.flatMap labels

def size (t : Rose α) : Nat := t.placed.length

theorem placed_node (a : α) (ts : List (Rose α)) : (node a ts).placed = ([], a) :: placedFrom 0 ts := by
  rw [placed, nodes, List.map_cons]
  rfl

theorem placedFrom_cons (i : Nat) (t : Rose α) (ts : List (Rose α)) :
    placedFrom i (t :: ts) = t.placed.map (Prod.map (i :: ·) id) ++ placedFrom (i + 1) ts := by
  simp only [placedFrom, nodesFrom, placed, List.map_append, List.map_map]
  rfl

theorem labels_placedFrom (ts : List (Rose α)) (i : Nat) : (placedFrom i ts).map Prod.snd = labelsAll ts := by
  induction ts generalizing i with
  | nil => rfl
  | cons t ts ih =>
    rw [placedFrom_cons, List.map_append, List.map_map, ih]
    rfl

theorem labels_node (a : α) (ts : List (Rose α)) : (node a ts).labels = a :: labelsAll ts := by
  rw [labels, placed_node, List.map_cons, labels_placedFrom]

theorem labelsAll_cons (t : Rose α) (ts : List (Rose α)) : labelsAll (t :: ts) = t.labels ++ labelsAll ts :=
  List.flatMap_cons

theorem labelsAll_eq_nil {ts : List (Rose α)} : labelsAll ts = [] ↔ ts = [] := by
  cases ts with
  | nil => simp [labelsAll]
  | cons t ts =>
    cases t with
    | node a us => simp [labelsAll_cons, labels_node]

theorem length_labels (t : Rose α) : t.labels.length = t.size := List.length_map _

/-! ## Trees of one shape -/

inductive Rel (R : α → β → Prop) : Rose α → Rose β → Prop
  | node {a : α} {b : β} {ts : List (Rose α)} {us : List (Rose β)} (label : R a b)
      (children : List.Forall₂ (Rel R) ts us) : Rel R (node a ts) (node b us)

theorem Rel.nodes {R : α → β → Prop} {t : Rose α} {u : Rose β} (h : Rel R t u) :
    List.Forall₂ (fun x y => x.1 = y.1 ∧ R x.2.label y.2.label) t.nodes u.nodes := by
  induction t using ind generalizing u with
  | h a ts ih =>
    cases h with
    | @node _ b _ us hlabel hchildren =>
      refine .cons ⟨rfl, hlabel⟩ ?_
      generalize 0 = i
      induction hchildren generalizing i with
      | nil => exact .nil
      | @cons t u ts us hrel _ ihs =>
        refine List.rel_append ?_ (ihs (fun t ht => ih t (List.mem_cons_of_mem _ ht)) (i + 1))
        rw [List.forall₂_map_left_iff, List.forall₂_map_right_iff]
        refine (ih t List.mem_cons_self hrel).imp fun x y hxy => ?_
        exact ⟨by rw [hxy.1], hxy.2⟩

theorem Rel.placed {R : α → β → Prop} {t : Rose α} {u : Rose β} (h : Rel R t u) :
    List.Forall₂ (fun x y => x.1 = y.1 ∧ R x.2 y.2) t.placed u.placed := by
  rw [Rose.placed, Rose.placed, List.forall₂_map_left_iff, List.forall₂_map_right_iff]
  exact h.nodes

theorem Rel.labels {R : α → β → Prop} {t : Rose α} {u : Rose β} (h : Rel R t u) :
    List.Forall₂ R t.labels u.labels := by
  rw [Rose.labels, Rose.labels, List.forall₂_map_left_iff, List.forall₂_map_right_iff]
  exact h.placed.imp fun _ _ hxy => hxy.2

/-! ## Cutting -/

section Cut
variable (keep : Rose α → Bool) (room : Nat → Bool)

mutual

/-- The tree that is kept, with the children noted at each node, and the number of nodes visited so far. -/
def cut : Rose α → Nat → Rose (α × List (Rose α)) × Nat
  | node a ts, visited =>
    let kids := cutAll ts (visited + 1)
    (node (a, kids.2.1) kids.1, kids.2.2)

def cutAll : List (Rose α) → Nat → List (Rose (α × List (Rose α))) × List (Rose α) × Nat
  | [], visited => ([], [], visited)
  | t :: ts, visited =>
    if keep t then
      if room visited then
        let kept := cut t visited
        let rest := cutAll ts kept.2
        (kept.1 :: rest.1, rest.2.1, rest.2.2)
      else
        let rest := cutAll ts visited
        (rest.1, t :: rest.2.1, rest.2.2)
    else cutAll ts visited

end

variable {keep room} {t : Rose α} {visited : Nat}

theorem cutAll_skip (ts : List (Rose α)) (h : keep t = false) :
    cutAll keep room (t :: ts) visited = cutAll keep room ts visited := by
  rw [cutAll, h, if_neg Bool.false_ne_true]

theorem cutAll_note (ts : List (Rose α)) (h : keep t = true) (hroom : room visited = false) :
    cutAll keep room (t :: ts) visited = ((cutAll keep room ts visited).1, t :: (cutAll keep room ts visited).2.1,
      (cutAll keep room ts visited).2.2) := by
  rw [cutAll, if_pos h, hroom, if_neg Bool.false_ne_true]

theorem cutAll_keep (ts : List (Rose α)) (h : keep t = true) (hroom : room visited = true) :
    cutAll keep room (t :: ts) visited =
      ((cut keep room t visited).1 :: (cutAll keep room ts (cut keep room t visited).2).1,
        (cutAll keep room ts (cut keep room t visited).2).2.1, (cutAll keep room ts (cut keep room t visited).2).2.2) := by
  rw [cutAll, if_pos h, if_pos hroom]

end Cut

/-! ## Room for a number of nodes -/

section Budget
variable (room : Nat → Bool) (most : Nat)

/-- Leave out what was noted. -/
def unnoted (e : List Nat × α × List (Rose α)) : List Nat × α := (e.1, e.2.1)

/-- What a cut with room for `most` nodes keeps of a tree that it visits. -/
def Kept (t : Rose α) : Prop :=
  ∀ visited, (cut (fun _ => true) (· < most) t visited).2 = visited + min t.size (max 1 (most - visited)) ∧
    (cut (fun _ => true) (· < most) t visited).1.placed.map unnoted = t.placed.take (max 1 (most - visited))

theorem cutAll_kept {ts : List (Rose α)} (h : ∀ t ∈ ts, Kept most t) (i visited : Nat) :
    (cutAll (fun _ => true) (· < most) ts visited).2.2 = visited + min (placedFrom i ts).length (most - visited) ∧
      (placedFrom i (cutAll (fun _ => true) (· < most) ts visited).1).map unnoted =
        (placedFrom i ts).take (most - visited) := by
  induction ts generalizing i visited with
  | nil => simp [cutAll, placedFrom, nodesFrom]
  | cons t ts ih =>
    have hts := fun i visited => ih (fun t ht => h t (List.mem_cons_of_mem _ ht)) i visited
    rw [placedFrom_cons]
    by_cases hroom : visited < most
    · obtain ⟨hcount, hkept⟩ := h t List.mem_cons_self visited
      rw [Nat.max_eq_right (show 1 ≤ most - visited by omega)] at hcount hkept
      obtain ⟨hcount', hkept'⟩ := hts (i + 1) (cut (fun _ => true) (· < most) t visited).2
      rw [cutAll_keep ts rfl (decide_eq_true hroom)]
      have hlength : (t.placed.map (Prod.map (i :: ·) id)).length = t.size := List.length_map _
      have hmap : (cut (fun _ => true) (· < most) t visited).1.placed.map (unnoted ∘ Prod.map (i :: ·) id) =
          (t.placed.take (most - visited)).map (Prod.map (i :: ·) id) := by
        rw [← hkept, List.map_map]
        rfl
      refine ⟨?_, ?_⟩
      · rw [hcount', hcount, List.length_append, hlength]
        omega
      · rw [placedFrom_cons, List.map_append, List.map_map, hkept', hmap, List.take_append, hlength, hcount, List.map_take]
        congr 2
        omega
    · rw [cutAll_note ts rfl (decide_eq_false hroom)]
      obtain ⟨hcount', hkept'⟩ := hts i visited
      have hnone : most - visited = 0 := by omega
      rw [hnone, List.take_zero] at hkept'
      rw [hnone, Nat.min_zero] at hcount' ⊢
      exact ⟨hcount', hkept'⟩

theorem kept_cut (t : Rose α) : Kept most t := by
  induction t using ind with
  | h a ts ih =>
    intro visited
    obtain ⟨hcount, hkept⟩ := cutAll_kept most ih 0 (visited + 1)
    rw [cut, size, placed_node, placed_node, List.length_cons, List.map_cons, hkept, hcount]
    obtain hroom | hroom := Nat.lt_or_ge (visited + 1) most
    · rw [Nat.max_eq_right (by omega), show most - visited = most - (visited + 1) + 1 by omega]
      exact ⟨by omega, rfl⟩
    · rw [Nat.max_eq_left (by omega), show most - (visited + 1) = 0 by omega]
      exact ⟨by omega, rfl⟩

end Budget

/-- With room for `most` nodes, a cut keeps the first `most` nodes depth first, each in its place. -/
theorem cut_budget (t : Rose α) {most : Nat} (h : 0 < most) :
    (cut (fun _ => true) (· < most) t 0).2 = min t.size most ∧
      (cut (fun _ => true) (· < most) t 0).1.placed.map unnoted = t.placed.take most := by
  obtain ⟨hcount, hkept⟩ := kept_cut most t 0
  rw [Nat.sub_zero, Nat.max_eq_right h] at hcount hkept
  exact ⟨by rw [hcount, Nat.zero_add], hkept⟩

/-! ## What is kept and what is noted -/

/-- The labels of the trees noted at the nodes. -/
def noted (t : Rose (α × List (Rose α))) : List α := t.labels.flatMap fun e => labelsAll e.2

def notedAll (ts : List (Rose (α × List (Rose α)))) : List α := (labelsAll ts).flatMap fun e => labelsAll e.2

section Perm
variable {room : Nat → Bool}

theorem cutAll_perm {ts : List (Rose α)}
    (h : ∀ t ∈ ts, ∀ visited, ((cut (fun _ => true) room t visited).1.labels.map Prod.fst ++
      noted (cut (fun _ => true) room t visited).1).Perm t.labels) (visited : Nat) :
    ((labelsAll (cutAll (fun _ => true) room ts visited).1).map Prod.fst ++
      (notedAll (cutAll (fun _ => true) room ts visited).1 ++
        labelsAll (cutAll (fun _ => true) room ts visited).2.1)).Perm (labelsAll ts) := by
  induction ts generalizing visited with
  | nil => exact .nil
  | cons t ts ih =>
    have hts := fun visited => ih (fun t ht => h t (List.mem_cons_of_mem _ ht)) visited
    rw [labelsAll_cons]
    by_cases hroom : room visited = true
    · rw [cutAll_keep ts rfl hroom]
      refine .trans ?_ ((h t List.mem_cons_self visited).append (hts (cut (fun _ => true) room t visited).2))
      simp only [labelsAll_cons, notedAll, noted, List.map_append, List.flatMap_append, List.append_assoc]
      exact (List.perm_append_comm_assoc _ _ _).append_left _
    · rw [cutAll_note ts rfl (Bool.eq_false_of_not_eq_true hroom)]
      refine .trans ?_ ((hts visited).append_left t.labels)
      rw [labelsAll_cons]
      exact ((List.perm_append_comm_assoc _ _ _).append_left _).trans (List.perm_append_comm_assoc _ _ _)

/-- What a cut that takes every child keeps and notes is the tree. -/
theorem cut_perm (t : Rose α) (visited : Nat) :
    ((cut (fun _ => true) room t visited).1.labels.map Prod.fst ++
      noted (cut (fun _ => true) room t visited).1).Perm t.labels := by
  induction t using ind generalizing visited with
  | h a ts ih =>
    rw [cut, noted, labels_node, labels_node, List.map_cons, List.flatMap_cons]
    refine .cons a (.trans ?_ (cutAll_perm ih (visited + 1)))
    exact List.perm_append_comm.append_left _

end Perm

/-! ## Without a bound -/

section Filter
variable {keep : Rose α → Bool}

/-- The nodes that `keep` takes. -/
def taken (keep : Rose α → Bool) (nodes : List (List Nat × Rose α)) : List α :=
  (nodes.filter fun e => keep e.2).map fun e => e.2.label

theorem taken_nodesFrom_cons (i : Nat) (t : Rose α) (ts : List (Rose α)) :
    taken keep (nodesFrom i (t :: ts)) = taken keep t.nodes ++ taken keep (nodesFrom (i + 1) ts) := by
  rw [taken, nodesFrom, List.filter_append, List.map_append, List.filter_map, List.map_map]
  rfl

theorem taken_nodes (a : α) (ts : List (Rose α)) :
    taken keep (node a ts).nodes =
      if keep (node a ts) then a :: taken keep (nodesFrom 0 ts) else taken keep (nodesFrom 0 ts) := by
  rw [nodes, taken, List.filter_cons]
  split_ifs <;> rfl

/-- A tree below which there is a node that `keep` takes is taken itself. -/
def Upward (keep : Rose α → Bool) : Prop := ∀ a ts, ∀ t ∈ ts, keep t = true → keep (node a ts) = true

theorem taken_of_false (hkeep : Upward keep) {t : Rose α} (h : keep t = false) : taken keep t.nodes = [] := by
  induction t using ind with
  | h a ts ih =>
    have hts : ∀ t ∈ ts, taken keep t.nodes = [] := fun t ht =>
      ih t ht (by simpa [h] using mt (hkeep a ts t ht))
    rw [taken_nodes, h, if_neg Bool.false_ne_true]
    clear ih h
    generalize 0 = i
    induction ts generalizing i with
    | nil => rfl
    | cons t ts ih =>
      rw [taken_nodesFrom_cons, hts t List.mem_cons_self, ih fun t ht => hts t (List.mem_cons_of_mem _ ht)]
      rfl

theorem cutAll_taken (hkeep : Upward keep) {ts : List (Rose α)}
    (h : ∀ t ∈ ts, keep t = true → ∀ visited, (cut keep (fun _ => true) t visited).1.labels.map Prod.fst =
      taken keep t.nodes) (i visited : Nat) :
    (labelsAll (cutAll keep (fun _ => true) ts visited).1).map Prod.fst = taken keep (nodesFrom i ts) := by
  induction ts generalizing i visited with
  | nil => rfl
  | cons t ts ih =>
    have hts := fun i visited => ih (fun t ht => h t (List.mem_cons_of_mem _ ht)) i visited
    rw [taken_nodesFrom_cons]
    by_cases htaken : keep t = true
    · rw [cutAll_keep ts htaken rfl, labelsAll_cons, List.map_append, h t List.mem_cons_self htaken, hts (i + 1)]
    · rw [cutAll_skip ts (Bool.eq_false_of_not_eq_true htaken),
        taken_of_false hkeep (Bool.eq_false_of_not_eq_true htaken), List.nil_append, hts (i + 1)]

/-- A cut without a bound keeps the root and every node that `keep` takes. -/
theorem cut_filter (hkeep : Upward keep) (a : α) (ts : List (Rose α)) (visited : Nat) :
    (cut keep (fun _ => true) (node a ts) visited).1.labels.map Prod.fst = a :: taken keep (nodesFrom 0 ts) := by
  have hall : ∀ t : Rose α, keep t = true → ∀ visited, (cut keep (fun _ => true) t visited).1.labels.map Prod.fst =
      taken keep t.nodes := by
    intro t
    induction t using ind with
    | h a ts ih =>
      intro htaken visited
      rw [cut, labels_node, List.map_cons, cutAll_taken hkeep ih 0, taken_nodes, if_pos htaken]
  rw [cut, labels_node, List.map_cons, cutAll_taken hkeep (fun t _ => hall t) 0]

end Filter

end Rose
