import Mathlib.Data.List.InsertIdx
import Didi.Json.Holds

/-!
# The member names of a value

* `Named P v` : the members of every object in `v` come in the order of their names, each of which meets `P`;
* `Named.alterAt`, `Named.eraseMember`, `Named.patchOne` : what a change of a value keeps of it.
-/

namespace Didi.Json
open JsonPointer

mutual

/-- The members of every object in the value are sorted by their names, and every name meets `P`. -/
def Named (P : String → Prop) : Json → Prop
  | .object members => (members.Pairwise fun a b => a.1 < b.1) ∧ NamedMembers P members
  | .array elements => NamedElements P elements
  | _ => True

def NamedMembers (P : String → Prop) : List (String × Json) → Prop
  | [] => True
  | (k, child) :: members => (P k ∧ child.Named P) ∧ NamedMembers P members

def NamedElements (P : String → Prop) : List Json → Prop
  | [] => True
  | child :: elements => child.Named P ∧ NamedElements P elements

end

example : Named (· ≠ "") (.array [.object [("a", .null)]]) := by
  simp [Named, NamedElements, NamedMembers]

section Named
variable {P : String → Prop} {v v' w : Json} {members : JsonObject} {elements : List Json} {k : String}

theorem namedMembers_iff : NamedMembers P members ↔ ∀ e ∈ members, P e.1 ∧ e.2.Named P := by
  induction members with
  | nil => simp [NamedMembers]
  | cons e members ih =>
    obtain ⟨k, child⟩ := e
    simp [NamedMembers, ih]

theorem named_object : Named P (.object members) ↔
    (members.Pairwise fun a b => a.1 < b.1) ∧ ∀ e ∈ members, P e.1 ∧ e.2.Named P := by
  rw [Named, namedMembers_iff]

theorem named_array : Named P (.array elements) ↔ ∀ child ∈ elements, child.Named P := by
  rw [Named]
  induction elements with
  | nil => simp [NamedElements]
  | cons child elements ih => simp [NamedElements, ih]

/-- The member that a name finds is named as the object is. -/
theorem Named.lookup (h : Named P (.object members)) {c : Json} (hk : members.lookup k = some c) : P k ∧ c.Named P :=
  (named_object.mp h).2 _ (List.mem_of_lookup hk)

theorem Named.look (h : v.Named P) {c : Json} (hlook : v.look k = .ok (some c)) : c.Named P := by
  cases v with
  | object members => exact (h.lookup (Except.ok.inj hlook)).2
  | array elements =>
    obtain ⟨idx, -, -, -, hget⟩ := look_array_some hlook
    exact named_array.mp h c (List.mem_of_getElem? hget)
  | _ => cases hlook

theorem Named.resolve (h : v.Named P) {p : JsonPointer} (hp : v.resolve p = some w) : w.Named P := by
  induction p generalizing v with
  | nil =>
    rw [resolve_nil] at hp
    cases hp
    exact h
  | cons k ks ih =>
    obtain ⟨c, hlook, hc⟩ := look_of_resolve hp
    exact ih (h.look hlook) hc

/-! ## Changes of one container -/

theorem map_fst_alterKey (k : String) (f : Json → Json) (members : JsonObject) :
    (members.alterKey k f).map Prod.fst = members.map Prod.fst := by
  induction members with
  | nil => rfl
  | cons e members ih =>
    obtain ⟨k', child⟩ := e
    rw [List.alterKey]
    split_ifs
    · rfl
    · rw [List.map_cons, List.map_cons, ih]

theorem mem_alterKey {f : Json → Json} {e : String × Json} (h : e ∈ members.alterKey k f) :
    ∃ e' ∈ members, e.1 = e'.1 ∧ (e.2 = e'.2 ∨ e.2 = f e'.2) := by
  induction members with
  | nil => cases h
  | cons head members ih =>
    obtain ⟨k', child⟩ := head
    rw [List.alterKey] at h
    split_ifs at h
    · rcases List.mem_cons.mp h with rfl | h
      · exact ⟨_, List.mem_cons_self, rfl, .inr rfl⟩
      · exact ⟨e, List.mem_cons_of_mem _ h, rfl, .inl rfl⟩
    · rcases List.mem_cons.mp h with rfl | h
      · exact ⟨_, List.mem_cons_self, rfl, .inl rfl⟩
      · obtain ⟨e', he', hsame⟩ := ih h
        exact ⟨e', List.mem_cons_of_mem _ he', hsame⟩

theorem Named.insertKey (h : Named P (.object members)) (hk : P k) (hv : v.Named P) :
    Named P (.object (members.insertKey k v)) := by
  obtain ⟨hsorted, hall⟩ := named_object.mp h
  refine named_object.mpr ⟨(OrderedMap.insert ⟨members, hsorted⟩ k v).sorted, fun e he => ?_⟩
  rcases List.mem_insertKey he with rfl | he
  · exact ⟨hk, hv⟩
  · exact hall e he

theorem Named.eraseKey (h : Named P (.object members)) (k : String) : Named P (.object (members.eraseKey k)) := by
  obtain ⟨hsorted, hall⟩ := named_object.mp h
  exact named_object.mpr ⟨hsorted.sublist List.filter_sublist, fun e he => hall e (List.mem_of_mem_filter he)⟩

theorem Named.setChild (h : v.Named P) (hw : w.Named P) : (v.setChild k w).Named P := by
  cases v with
  | object members =>
    obtain ⟨hsorted, hall⟩ := named_object.mp h
    refine named_object.mpr ⟨?_, fun e he => ?_⟩
    · have hnames : (members.map Prod.fst).Pairwise (· < ·) := List.pairwise_map.mpr hsorted
      rw [← map_fst_alterKey k (fun _ => w)] at hnames
      exact List.pairwise_map.mp hnames
    · obtain ⟨e', he', hname, hvalue⟩ := mem_alterKey he
      rw [hname]
      rcases hvalue with hvalue | hvalue
      · exact hvalue ▸ hall e' he'
      · exact ⟨(hall e' he').1, hvalue ▸ hw⟩
  | array elements =>
    rw [Json.setChild]
    split
    · refine named_array.mpr fun child hchild => ?_
      rcases List.mem_or_eq_of_mem_set hchild with hmem | rfl
      · exact named_array.mp h child hmem
      · exact hw
    · exact h
  | _ => exact h

theorem Named.erase (h : v.Named P) (herase : v.erase k = .ok v') : v'.Named P := by
  obtain ⟨members, rfl, rfl⟩ := erase_eq_ok herase
  exact h.eraseKey k

theorem Named.addTo (h : v.Named P) (hk : P k) (hw : w.Named P) (hadd : Json.addTo k w v = .ok v') : v'.Named P := by
  cases v with
  | null =>
    cases hadd
    exact named_object.mpr ⟨List.pairwise_singleton _ _, by simpa using ⟨hk, hw⟩⟩
  | object members =>
    cases hadd
    exact h.insertKey hk hw
  | array elements =>
    have hall := named_array.mp h
    rw [Json.addTo] at hadd
    split_ifs at hadd with hdash
    · cases hadd
      refine named_array.mpr fun child hchild => ?_
      rcases List.mem_append.mp hchild with hmem | hmem
      · exact hall child hmem
      · rwa [List.mem_singleton.mp hmem]
    · cases hidx : arrayIndex k with
      | error e =>
        rw [hidx] at hadd
        cases hadd
      | ok idx =>
        rw [hidx] at hadd
        dsimp only at hadd
        split_ifs at hadd
        cases hadd
        refine named_array.mpr fun child hchild => ?_
        rcases List.eq_or_mem_of_mem_insertIdx hchild with rfl | hmem
        · exact hw
        · exact hall child hmem
  | _ =>
    cases hadd
    exact h

theorem Named.removeFrom (h : v.Named P) (hremove : Json.removeFrom k v = .ok v') : v'.Named P := by
  cases v with
  | object members =>
    rw [Json.removeFrom] at hremove
    split at hremove
    · cases hremove
    · cases hremove
      exact h.eraseKey k
  | array elements =>
    rw [Json.removeFrom] at hremove
    cases hidx : arrayIndex k with
    | error e =>
      rw [hidx] at hremove
      cases hremove
    | ok idx =>
      rw [hidx] at hremove
      dsimp only at hremove
      split_ifs at hremove
      cases hremove
      exact named_array.mpr fun child hchild => named_array.mp h child (List.mem_of_mem_eraseIdx hchild)
  | _ =>
    cases hremove
    exact h

/-! ## Changes at a pointer -/

/-- A change of what a pointer refers to keeps the names when it keeps those of what it changes. -/
theorem Named.alterAt {f : Json → Except JsonException Json} {p : JsonPointer} (h : v.Named P)
    (hf : ∀ c c', c.Named P → f c = .ok c' → c'.Named P) (halter : v.alterAt f p = .ok v') : v'.Named P := by
  induction p generalizing v v' with
  | nil =>
    rw [Json.alterAt] at halter
    exact hf v v' h halter
  | cons k ks ih =>
    obtain ⟨c, c', hlook, hc', rfl⟩ := alterAt_cons_ok halter
    exact h.setChild (ih (h.look hlook) hc')

theorem Named.eraseMember {p : JsonPointer} (h : v.Named P) (herase : v.eraseMember p = .ok v') : v'.Named P := by
  by_cases hmember : v.IsMember p
  · rw [eraseMember_of_isMember hmember] at herase
    exact h.alterAt (fun _ _ hc => hc.erase) herase
  · rwa [eraseMember_eq_self herase hmember]

theorem Named.operationAdd {ptr : JsonPointer} (h : v.Named P) (hlast : ptr ≠ [] → P (ptr.getLastD ""))
    (hw : w.Named P) (hadd : v.operationAdd ptr w = .ok v') : v'.Named P := by
  unfold Json.operationAdd at hadd
  cases ptr with
  | nil =>
    cases hadd
    exact hw
  | cons k ks =>
    dsimp only at hadd
    split at hadd
    · cases hadd
    · exact h.alterAt (fun _ _ hc => hc.addTo (hlast (List.cons_ne_nil k ks)) hw) hadd

theorem Named.operationRemove {ptr : JsonPointer} (h : v.Named P) (hremove : v.operationRemove ptr = .ok v') :
    v'.Named P := by
  unfold Json.operationRemove at hremove
  cases ptr with
  | nil => cases hremove
  | cons k ks => exact h.alterAt (fun _ _ hc => hc.removeFrom) hremove

/-- The names that an operation of a patch can bring in meet `P`: those in its value, and the last token of
its path. -/
structure BringsNamed (P : String → Prop) (operation : Json) : Prop where
  value : ∀ members x, operation = .object members → members.lookup "value" = some x → x.Named P
  last : ∀ members text ptr, operation = .object members → members.lookup "path" = some (.string text) →
    parse text = .ok ptr → ptr ≠ [] → P (ptr.getLastD "")

/-- **An operation of a patch** brings in no other names than those. -/
theorem Named.patchOne {operation : Json} (h : v.Named P) (hbrings : BringsNamed P operation)
    (hpatch : v.patchOne operation = .ok v') : v'.Named P := by
  unfold Json.patchOne at hpatch
  cases operation with
  | object members =>
    dsimp only at hpatch
    obtain ⟨op, -, hpatch⟩ := Except.bind_eq_ok.mp hpatch
    obtain ⟨path, hpath, hpatch⟩ := Except.bind_eq_ok.mp hpatch
    obtain ⟨ptr, hptr, hpatch⟩ := Except.bind_eq_ok.mp hpatch
    have hlast := hbrings.last members path ptr rfl (lookup_of_getString hpath) hptr
    split_ifs at hpatch with hadd hremove hreplace hmove hcopy htest
    · obtain ⟨x, hx, hpatch⟩ := Except.bind_eq_ok.mp hpatch
      exact h.operationAdd hlast (hbrings.value members x rfl (lookup_of_getValue hx)) hpatch
    · exact h.operationRemove hpatch
    · obtain ⟨x, hx, hpatch⟩ := Except.bind_eq_ok.mp hpatch
      refine h.alterAt (fun c c' _ hc' => ?_) hpatch
      cases hc'
      exact hbrings.value members x rfl (lookup_of_getValue hx)
    · obtain ⟨text, -, hpatch⟩ := Except.bind_eq_ok.mp hpatch
      obtain ⟨fromPtr, -, hpatch⟩ := Except.bind_eq_ok.mp hpatch
      obtain ⟨x, hx, hpatch⟩ := Except.bind_eq_ok.mp hpatch
      obtain ⟨removed, hremoved, hpatch⟩ := Except.bind_eq_ok.mp hpatch
      have hmoved : v.resolve fromPtr = some x := by
        rw [Json.resolve, hx]
        rfl
      exact (h.operationRemove hremoved).operationAdd hlast (h.resolve hmoved) hpatch
    · obtain ⟨text, -, hpatch⟩ := Except.bind_eq_ok.mp hpatch
      obtain ⟨fromPtr, -, hpatch⟩ := Except.bind_eq_ok.mp hpatch
      obtain ⟨x, hx, hpatch⟩ := Except.bind_eq_ok.mp hpatch
      have hcopied : v.resolve fromPtr = some x := by
        rw [Json.resolve, hx]
        rfl
      exact h.operationAdd hlast (h.resolve hcopied) hpatch
    · obtain ⟨_, -, hpatch⟩ := Except.bind_eq_ok.mp hpatch
      obtain ⟨success, -, hpatch⟩ := Except.bind_eq_ok.mp hpatch
      split_ifs at hpatch
      cases hpatch
      exact h
  | _ => cases hpatch

end Named

/-! ## Erasures -/

/-- What is held after a member was erased was held at the same names before. -/
theorem Holds.of_alterAt_erase {v v' w' : Json} {p q : JsonPointer} {k : String}
    (h : v.alterAt (Json.erase k) p = .ok v') (hholds : v'.Holds q w') : ∃ w, v.Holds q w := by
  induction p generalizing v v' q with
  | nil =>
    rw [Json.alterAt] at h
    obtain ⟨members, rfl, rfl⟩ := erase_eq_ok h
    cases q with
    | nil => exact ⟨_, holds_nil.mpr rfl⟩
    | cons j js =>
      obtain ⟨_, child, he, hchild, hbelow⟩ := holds_cons.mp hholds
      cases he
      rw [List.lookup_eraseKey] at hchild
      split_ifs at hchild
      exact ⟨w', holds_cons.mpr ⟨members, child, rfl, hchild, hbelow⟩⟩
  | cons k₀ ks ih =>
    obtain ⟨c, c', hlook, hc', rfl⟩ := alterAt_cons_ok h
    cases q with
    | nil => exact ⟨_, holds_nil.mpr rfl⟩
    | cons j js =>
      obtain ⟨members', child, he, hchild, hbelow⟩ := holds_cons.mp hholds
      cases v with
      | object members =>
        cases he
        have hlookup : members.lookup k₀ = some c := Except.ok.inj hlook
        rw [List.lookup_alterKey] at hchild
        split_ifs at hchild with hj
        · rw [hj, hlookup] at hchild
          cases hchild
          obtain ⟨w, hw⟩ := ih hc' hbelow
          exact ⟨w, holds_cons.mpr ⟨members, c, rfl, hj ▸ hlookup, hw⟩⟩
        · exact ⟨w', holds_cons.mpr ⟨members, child, rfl, hchild, hbelow⟩⟩
      | array elements =>
        rw [Json.setChild] at he
        split at he <;> cases he
      | _ => cases hlook

theorem Holds.of_eraseMember {v v' w' : Json} {p q : JsonPointer} (h : v.eraseMember p = .ok v')
    (hholds : v'.Holds q w') : ∃ w, v.Holds q w := by
  by_cases hmember : v.IsMember p
  · rw [eraseMember_of_isMember hmember] at h
    exact hholds.of_alterAt_erase h
  · rw [eraseMember_eq_self h hmember] at hholds
    exact ⟨w', hholds⟩

end Didi.Json
