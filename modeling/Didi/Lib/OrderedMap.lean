import Mathlib.Order.Defs.LinearOrder
import Mathlib.Data.List.Lookmap
import Mathlib.Data.List.Sort
import Mathlib.Data.List.Basic

/-!
# Finite maps kept as key-ordered association lists

* `List.insertKey`, `List.eraseKey` : insertion and removal on a bare association list; the lookup
  laws (`lookup_insertKey`, `lookup_eraseKey`) need no ordering of the list;
* `OrderedMap κ β` : a list whose keys strictly increase, so that iteration meets the keys in order
  and two maps with the same lookups are equal (`OrderedMap.ext_get`);
* `get`, `insert`, `erase`, `filter`, `mapVal` and the lookup of each.
-/

variable {κ β γ : Type*}

namespace List

section Assoc
variable [LinearOrder κ]

/-- Put `x` at `k`, in place of the entry that has the key or before the first larger key. -/
def insertKey (k : κ) (x : β) : List (κ × β) → List (κ × β)
  | [] => [(k, x)]
  | (k', x') :: l =>
    if k = k' then (k, x) :: l
    else if k < k' then (k, x) :: (k', x') :: l
    else (k', x') :: insertKey k x l

/-- Remove every entry that has the key `k`. -/
def eraseKey (k : κ) (l : List (κ × β)) : List (κ × β) := l.filter fun e => e.1 ≠ k

/-- Change the value of the first entry that has the key `k`. -/
def alterKey (k : κ) (f : β → β) : List (κ × β) → List (κ × β)
  | [] => []
  | (k', x) :: l => if k = k' then (k', f x) :: l else (k', x) :: alterKey k f l

theorem lookup_cons_eq (k k' : κ) (x : β) (l : List (κ × β)) :
    ((k', x) :: l).lookup k = if k = k' then some x else l.lookup k := by
  rw [lookup_cons]
  by_cases h : k = k'
  · simp [h]
  · simp [h, beq_eq_false_iff_ne.mpr h]

theorem lookup_insertKey (k k' : κ) (x : β) (l : List (κ × β)) :
    (l.insertKey k x).lookup k' = if k' = k then some x else l.lookup k' := by
  induction l with
  | nil => simp [insertKey, lookup_cons_eq]
  | cons e l ih =>
    obtain ⟨k₁, x₁⟩ := e
    unfold insertKey
    split_ifs with h1 h2 h3 h4 <;> simp only [lookup_cons_eq, ih] <;> grind

theorem lookup_eraseKey (k k' : κ) (l : List (κ × β)) :
    (l.eraseKey k).lookup k' = if k' = k then none else l.lookup k' := by
  induction l with
  | nil => simp [eraseKey]
  | cons e l ih =>
    obtain ⟨k₁, x₁⟩ := e
    rw [eraseKey, filter_cons]
    change lookup k' (if _ then _ :: l.eraseKey k else l.eraseKey k) = _
    split_ifs with h1 h2 h3 <;> simp_all [lookup_cons_eq] <;> grind

theorem lookup_alterKey (k k' : κ) (f : β → β) (l : List (κ × β)) :
    (l.alterKey k f).lookup k' = if k' = k then (l.lookup k').map f else l.lookup k' := by
  induction l with
  | nil => simp [alterKey]
  | cons e l ih =>
    obtain ⟨k₁, x₁⟩ := e
    unfold alterKey
    split_ifs with h1 h2 h3 <;> simp only [lookup_cons_eq, ih] <;> grind

theorem mem_insertKey {k : κ} {x : β} {e : κ × β} {l : List (κ × β)} (h : e ∈ l.insertKey k x) :
    e = (k, x) ∨ e ∈ l := by
  induction l with
  | nil => simpa [insertKey] using h
  | cons a l ih =>
    unfold insertKey at h
    split_ifs at h <;> grind

/-- An insertion at a new key adds one entry. -/
theorem insertKey_perm {k : κ} (x : β) {l : List (κ × β)} (h : l.lookup k = none) :
    (l.insertKey k x).Perm ((k, x) :: l) := by
  induction l with
  | nil => exact .refl _
  | cons e l ih =>
    obtain ⟨k₁, x₁⟩ := e
    rw [lookup_cons_eq] at h
    split_ifs at h with h1
    unfold insertKey
    split_ifs with h2
    · exact .refl _
    · exact ((ih h).cons _).trans (.swap _ _ _)

theorem insertKey_insertKey (k : κ) (x y : β) (l : List (κ × β)) :
    (l.insertKey k x).insertKey k y = l.insertKey k y := by
  induction l with
  | nil => simp [insertKey]
  | cons e l ih =>
    obtain ⟨k₁, x₁⟩ := e
    by_cases h1 : k = k₁
    · simp [insertKey, h1]
    · by_cases h2 : k < k₁
      · simp [insertKey, h1, h2]
      · simp [insertKey, h1, h2, ih]

theorem lookup_of_mem_of_nodup {l : List (κ × β)} (hl : (l.map Prod.fst).Nodup) {k : κ} {x : β}
    (h : (k, x) ∈ l) : l.lookup k = some x := by
  induction l with
  | nil => cases h
  | cons e l ih =>
    obtain ⟨k', y⟩ := e
    rw [List.map_cons, List.nodup_cons] at hl
    rw [lookup_cons_eq]
    rcases List.mem_cons.mp h with heq | hmem
    · cases heq
      rw [if_pos rfl]
    · have hne : k ≠ k' := by
        rintro rfl
        exact hl.1 (List.mem_map.mpr ⟨_, hmem, rfl⟩)
      rw [if_neg hne]
      exact ih hl.2 hmem

theorem lookup_filter (p : κ → Bool) (l : List (κ × β)) (k : κ) :
    (l.filter fun e => p e.1).lookup k = if p k then l.lookup k else none := by
  induction l with
  | nil => simp
  | cons e l ih =>
    obtain ⟨k', x⟩ := e
    rw [filter_cons]
    by_cases hk : k = k'
    · subst hk
      by_cases hp : p k = true
      · simp only [hp, if_true, lookup_cons_eq]
      · rw [if_neg hp] at ih
        simp only [hp, if_false, ih, Bool.false_eq_true]
    · by_cases hp : p k' = true
      · simp only [hp, if_true, lookup_cons_eq, if_neg hk, ih]
      · simp only [hp, if_false, lookup_cons_eq, if_neg hk, ih, Bool.false_eq_true]

theorem lookup_of_mem {l : List (κ × β)} (hl : l.Pairwise fun a b => a.1 < b.1) {k : κ} {x : β}
    (h : (k, x) ∈ l) : l.lookup k = some x := by
  have hne : l.Pairwise fun a b => a.1 ≠ b.1 := hl.imp fun hlt => hlt.ne
  exact lookup_of_mem_of_nodup (List.pairwise_map.mpr hne) h

theorem mem_of_lookup {l : List (κ × β)} {k : κ} {x : β} (h : l.lookup k = some x) : (k, x) ∈ l := by
  induction l with
  | nil => simp at h
  | cons e l ih =>
    rw [lookup_cons_eq] at h
    split_ifs at h with hk
    · obtain rfl : e.2 = x := Option.some.inj h
      rw [hk]
      exact mem_cons_self
    · exact mem_cons_of_mem _ (ih h)

/-- What is erased does not matter to what is put in its place. -/
theorem eraseKey_insertKey (k : κ) (x : β) (l : List (κ × β)) : (l.insertKey k x).eraseKey k = l.eraseKey k := by
  induction l with
  | nil => simp [insertKey, eraseKey]
  | cons e l ih =>
    obtain ⟨k₁, x₁⟩ := e
    unfold insertKey
    split_ifs with h1 h2
    · simp [eraseKey, h1]
    · simp [eraseKey]
    · rw [eraseKey, filter_cons_of_pos (by simpa using Ne.symm h1)]
      exact (congrArg _ ih).trans (filter_cons_of_pos (by simpa using Ne.symm h1)).symm

/-- Erasing two keys, in either order. -/
theorem eraseKey_comm (j k : κ) (l : List (κ × β)) :
    (l.eraseKey j).eraseKey k = (l.eraseKey k).eraseKey j := by
  simp only [eraseKey, filter_filter, Bool.and_comm]

theorem eraseKey_eq_self {k : κ} {l : List (κ × β)} (h : l.lookup k = none) : l.eraseKey k = l := by
  rw [eraseKey, filter_eq_self]
  intro e he
  rw [lookup_eq_none_iff] at h
  have hne := h e he
  exact decide_eq_true (bne_iff_ne.mp hne).symm

theorem eraseKey_cons (k k' : κ) (x : β) (l : List (κ × β)) :
    ((k', x) :: l).eraseKey k = if k = k' then l.eraseKey k else (k', x) :: l.eraseKey k := by
  by_cases h : k = k'
  · simp [eraseKey, h]
  · simp [eraseKey, h, Ne.symm h]

theorem alterKey_eq_self {k : κ} (f : β → β) {l : List (κ × β)} (h : l.lookup k = none) :
    l.alterKey k f = l := by
  induction l with
  | nil => rfl
  | cons e l ih =>
    obtain ⟨k₁, x₁⟩ := e
    rw [lookup_cons_eq] at h
    split_ifs at h with hk
    rw [alterKey, if_neg hk, ih h]

/-- Changing the value at `k` and erasing `j`, in either order. -/
theorem eraseKey_alterKey (j k : κ) (f : β → β) (l : List (κ × β)) :
    (l.alterKey k f).eraseKey j = (l.eraseKey j).alterKey k f := by
  induction l with
  | nil => rfl
  | cons e l ih =>
    obtain ⟨k₁, x₁⟩ := e
    rw [alterKey, eraseKey_cons]
    split_ifs with hk hj hj
    · have hnone : (l.eraseKey j).lookup k = none := by simp [lookup_eraseKey, hk.trans hj.symm]
      rw [eraseKey_cons, if_pos hj, alterKey_eq_self f hnone]
    · rw [eraseKey_cons, if_neg hj, alterKey, if_pos hk]
    · rw [eraseKey_cons, if_pos hj, ih]
    · rw [eraseKey_cons, if_neg hj, alterKey, if_neg hk, ih]

/-- An insertion adds an entry where there is none at the key. -/
theorem length_insertKey {k : κ} (x : β) {l : List (κ × β)}
    (hl : l.Pairwise fun a b => a.1 < b.1) :
    (l.insertKey k x).length = if (l.lookup k).isSome then l.length else l.length + 1 := by
  cases h : l.lookup k with
  | none => exact (insertKey_perm x h).length_eq
  | some y =>
    rw [Option.isSome_some, if_pos rfl]
    have hmem := mem_of_lookup h
    clear h
    induction l with
    | nil => cases hmem
    | cons e l ih =>
      obtain ⟨k', x'⟩ := e
      obtain ⟨hhead, htail⟩ := pairwise_cons.mp hl
      rw [insertKey]
      rcases mem_cons.mp hmem with heq | hmem
      · cases heq
        rw [if_pos rfl]
        rfl
      · have hlt := hhead _ hmem
        rw [if_neg hlt.ne', if_neg hlt.not_gt, length_cons, ih htail hmem, length_cons]

/-- The list has `x` at `k`, at the place where an insertion at `k` would put it. -/
def AtKey (k : κ) (x : β) : List (κ × β) → Prop
  | [] => False
  | (k', x') :: l => (k = k' ∧ x = x') ∨ (k' < k ∧ AtKey k x l)

theorem AtKey.insertKey_eq {k : κ} {x : β} {l : List (κ × β)} (h : AtKey k x l) : l.insertKey k x = l := by
  induction l with
  | nil => cases h
  | cons e l ih =>
    rcases h with ⟨rfl, rfl⟩ | ⟨hlt, h⟩
    · exact if_pos rfl
    · rw [insertKey, if_neg hlt.ne', if_neg hlt.not_gt, ih h]

theorem atKey_insertKey (k : κ) (x : β) (l : List (κ × β)) : AtKey k x (l.insertKey k x) := by
  induction l with
  | nil => exact .inl ⟨rfl, rfl⟩
  | cons e l ih =>
    obtain ⟨k', x'⟩ := e
    rw [insertKey]
    split_ifs with heq hlt
    · exact .inl ⟨rfl, rfl⟩
    · exact .inl ⟨rfl, rfl⟩
    · exact .inr ⟨lt_of_le_of_ne (not_lt.mp hlt) (Ne.symm heq), ih⟩

theorem AtKey.insertKey_of_ne {j k : κ} {x : β} (y : β) (hne : j ≠ k) {l : List (κ × β)} (h : AtKey k x l) :
    AtKey k x (l.insertKey j y) := by
  induction l with
  | nil => cases h
  | cons e l ih =>
    obtain ⟨k', x'⟩ := e
    rw [insertKey]
    rcases h with ⟨rfl, rfl⟩ | ⟨hlt, h⟩
    · rw [if_neg hne]
      split_ifs with hj
      · exact .inr ⟨hj, .inl ⟨rfl, rfl⟩⟩
      · exact .inl ⟨rfl, rfl⟩
    · split_ifs with heq hj
      · exact .inr ⟨heq ▸ hlt, h⟩
      · exact .inr ⟨hj.trans hlt, .inr ⟨hlt, h⟩⟩
      · exact .inr ⟨hlt, ih h⟩

end Assoc
end List

/-- A finite map as a list of entries whose keys strictly increase. -/
structure OrderedMap (κ β : Type*) [LinearOrder κ] where
  entries : List (κ × β)
  sorted : entries.Pairwise fun a b => a.1 < b.1

namespace OrderedMap
variable [LinearOrder κ]

instance : EmptyCollection (OrderedMap κ β) := ⟨⟨[], List.Pairwise.nil⟩⟩

instance [DecidableEq β] : DecidableEq (OrderedMap κ β) := fun a b =>
  decidable_of_iff (a.entries = b.entries) ⟨fun h => by cases a; cases b; cases h; rfl, fun h => h ▸ rfl⟩

def get (m : OrderedMap κ β) (k : κ) : Option β := m.entries.lookup k

def contains (m : OrderedMap κ β) (k : κ) : Bool := (m.get k).isSome

def size (m : OrderedMap κ β) : Nat := m.entries.length

def keys (m : OrderedMap κ β) : List κ := m.entries.map Prod.fst

def insert (m : OrderedMap κ β) (k : κ) (x : β) : OrderedMap κ β where
  entries := m.entries.insertKey k x
  sorted := by
    obtain ⟨l, hl⟩ := m
    induction l with
    | nil => simp [List.insertKey]
    | cons e l ih =>
      obtain ⟨k', x'⟩ := e
      rw [List.pairwise_cons] at hl
      dsimp only [List.insertKey]
      split_ifs with h1 h2
      · subst h1
        exact List.pairwise_cons.mpr hl
      · refine List.pairwise_cons.mpr ⟨fun e he => ?_, List.pairwise_cons.mpr hl⟩
        rcases List.mem_cons.mp he with rfl | he
        · exact h2
        · exact h2.trans (hl.1 e he)
      · refine List.pairwise_cons.mpr ⟨fun e he => ?_, ih hl.2⟩
        rcases List.mem_insertKey he with rfl | he
        · exact lt_of_le_of_ne (not_lt.mp h2) (Ne.symm h1)
        · exact hl.1 e he

def filter (m : OrderedMap κ β) (p : κ → β → Bool) : OrderedMap κ β where
  entries := m.entries.filter fun e => p e.1 e.2
  sorted := m.sorted.sublist List.filter_sublist

def erase (m : OrderedMap κ β) (k : κ) : OrderedMap κ β where
  entries := m.entries.eraseKey k
  sorted := m.sorted.sublist List.filter_sublist

/-- Apply `f` to every value; the keys stay as they are. -/
def mapVal (m : OrderedMap κ β) (f : κ → β → γ) : OrderedMap κ γ where
  entries := m.entries.map fun e => (e.1, f e.1 e.2)
  sorted := List.pairwise_map.mpr m.sorted

/-- The entries that a test which may fail lets through, tested in the order of their keys. -/
def filterM {ε : Type} (m : OrderedMap κ β) (p : κ → β → Except ε Bool) : Except ε (OrderedMap κ β) :=
  m.entries.foldlM (fun kept e => (p e.1 e.2).map fun keep => if keep then kept.insert e.1 e.2 else kept) ∅

/-! ## Lookups -/

theorem get_eq_some {m : OrderedMap κ β} {k : κ} {x : β} : m.get k = some x ↔ (k, x) ∈ m.entries :=
  ⟨List.mem_of_lookup, List.lookup_of_mem m.sorted⟩

@[simp] theorem get_empty (k : κ) : (∅ : OrderedMap κ β).get k = none := rfl

theorem get_insert (m : OrderedMap κ β) (k k' : κ) (x : β) :
    (m.insert k x).get k' = if k' = k then some x else m.get k' := List.lookup_insertKey k k' x _

@[simp] theorem get_insert_self (m : OrderedMap κ β) (k : κ) (x : β) :
    (m.insert k x).get k = some x := by simp [get_insert]

theorem get_insert_of_ne (m : OrderedMap κ β) {k k' : κ} (x : β) (h : k' ≠ k) :
    (m.insert k x).get k' = m.get k' := by simp [get_insert, h]

theorem get_erase (m : OrderedMap κ β) (k k' : κ) :
    (m.erase k).get k' = if k' = k then none else m.get k' := List.lookup_eraseKey k k' _

theorem get_filter (m : OrderedMap κ β) (p : κ → β → Bool) (k : κ) :
    (m.filter p).get k = (m.get k).filter (p k) := by
  cases h : m.get k with
  | none =>
    cases hf : (m.filter p).get k with
    | none => rfl
    | some x =>
      have hmem := List.mem_filter.mp (get_eq_some.mp hf)
      rw [get_eq_some.mpr hmem.1] at h
      cases h
  | some x =>
    rw [Option.filter_some]
    split_ifs with hp
    · exact get_eq_some.mpr (List.mem_filter.mpr ⟨get_eq_some.mp h, hp⟩)
    · cases hf : (m.filter p).get k with
      | none => rfl
      | some y =>
        have hmem := List.mem_filter.mp (get_eq_some.mp hf)
        rw [get_eq_some.mpr hmem.1] at h
        cases h
        exact absurd hmem.2 hp

theorem get_mapVal (m : OrderedMap κ β) (f : κ → β → γ) (k : κ) :
    (m.mapVal f).get k = (m.get k).map (f k) := by
  obtain ⟨l, hl⟩ := m
  change (l.map fun e => (e.1, f e.1 e.2)).lookup k = (l.lookup k).map (f k)
  clear hl
  induction l with
  | nil => rfl
  | cons e l ih =>
    rw [List.map_cons, List.lookup_cons_eq, List.lookup_cons_eq, ih]
    by_cases h : k = e.1 <;> simp [h]

/-- A fold that keeps what a test lets through, over entries whose keys increase. -/
theorem get_foldlM_keep {ε : Type} {p : κ → β → Except ε Bool} {l : List (κ × β)}
    (hl : l.Pairwise fun a b => a.1 < b.1) {kept m : OrderedMap κ β}
    (h : l.foldlM (fun kept e => (p e.1 e.2).map fun keep => if keep then kept.insert e.1 e.2 else kept) kept =
      .ok m) (k : κ) :
    m.get k = match l.lookup k with
      | none => kept.get k
      | some x => if p k x matches .ok true then some x else kept.get k := by
  induction l generalizing kept with
  | nil =>
    cases h
    rfl
  | cons e l ih =>
    rw [List.pairwise_cons] at hl
    rw [List.foldlM_cons] at h
    obtain ⟨k', x⟩ := e
    cases hp : p k' x with
    | error e => simp [hp, Except.map, bind, Except.bind] at h
    | ok keep =>
      simp only [hp, Except.map, bind, Except.bind] at h
      rw [ih hl.2 h, List.lookup_cons_eq]
      by_cases hk : k = k'
      · have hnone : l.lookup k = none := by
          rw [List.lookup_eq_none_iff]
          intro e he
          have hlt := hl.1 e he
          rw [← hk] at hlt
          exact bne_iff_ne.mpr hlt.ne
        subst hk
        rw [hnone, if_pos rfl]
        dsimp only
        rw [hp]
        cases keep <;> simp
      · rw [if_neg hk]
        have hkept : (if keep then kept.insert k' x else kept).get k = kept.get k := by
          cases keep <;> simp [get_insert, hk]
        rw [hkept]

/-- A filter whose test may fail, once it succeeds, keeps what the test lets through. -/
theorem get_filterM {ε : Type} {p : κ → β → Except ε Bool} {m m' : OrderedMap κ β}
    (h : m.filterM p = .ok m') (k : κ) : m'.get k = (m.get k).filter fun x => p k x matches .ok true := by
  rw [get_foldlM_keep m.sorted h]
  change (match m.get k with
    | none => none
    | some x => if p k x matches .ok true then some x else none) = _
  cases m.get k with
  | none => rfl
  | some x => rw [Option.filter_some]

theorem contains_iff {m : OrderedMap κ β} {k : κ} : m.contains k = true ↔ ∃ x, m.get k = some x := by
  rw [contains, Option.isSome_iff_exists]

theorem contains_eq_false {m : OrderedMap κ β} {k : κ} : m.contains k = false ↔ m.get k = none := by
  rw [contains, Option.isSome_eq_false_iff, Option.isNone_iff_eq_none]

theorem mem_keys {m : OrderedMap κ β} {k : κ} : k ∈ m.keys ↔ ∃ x, m.get k = some x := by
  simp only [keys, List.mem_map, get_eq_some]
  constructor
  · rintro ⟨⟨k', x⟩, h, rfl⟩
    exact ⟨x, h⟩
  · rintro ⟨x, h⟩
    exact ⟨(k, x), h, rfl⟩

/-- Two maps with the same lookups are the same map. -/
theorem ext_get {m n : OrderedMap κ β} (h : ∀ k, m.get k = n.get k) : m = n := by
  have hentries : m.entries = n.entries := by
    refine List.Perm.eq_of_pairwise (fun a b _ _ hab hba => absurd hab hba.not_gt) m.sorted n.sorted ?_
    refine (List.perm_ext_iff_of_nodup ?_ ?_).mpr fun e => ?_
    · exact m.sorted.imp fun hab he => by rw [he] at hab; exact lt_irrefl _ hab
    · exact n.sorted.imp fun hab he => by rw [he] at hab; exact lt_irrefl _ hab
    · rw [← get_eq_some (k := e.1) (x := e.2), ← get_eq_some (k := e.1) (x := e.2), h]
  cases m
  cases n
  cases hentries
  rfl

end OrderedMap
