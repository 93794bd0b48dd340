import Mathlib.Data.Nat.Digits.Defs
import Didi.Json.Pointer

/-!
# Changes of a tree, seen from other places

An object and an array are looked at alike: `Json.look` finds the child that a token names, and
`Json.setChild` replaces it. Tokens that name different places do not disturb one another, since an
array index has one spelling (`arrayIndex_injective`).

* `alterAt_cons_of_look`, `resolve_cons` : a walk, token by token;
* `resolves_alterAt_erase` : erasing a member leaves what does not lie under it resolved;
* `eraseMember_eq_self`, `resolves_eraseMember` : what a removal leaves.
-/

namespace Didi
variable {v c : Json} {elements : List Json} {k : String} {p q : JsonPointer}
namespace JsonPointer

/-! ## Array indices -/

def digitOf (c : Char) : Nat := c.toNat - 48

theorem isDigit_iff {c : Char} : isDigit c = true ↔ 48 ≤ c.toNat ∧ c.toNat ≤ 57 := by
  unfold isDigit
  rw [Bool.and_eq_true, decide_eq_true_eq, decide_eq_true_eq]
  exact Iff.rfl

theorem foldl_digits (cs : List Char) :
    cs.foldl (fun n c => 10 * n + (c.toNat - 48)) 0 = Nat.ofDigits 10 (cs.reverse.map digitOf) := by
  rw [Nat.ofDigits_eq_foldr, List.foldr_map, List.foldr_reverse]
  simp [digitOf, Nat.add_comm]

theorem digitsValue_some {cs : List Char} {n : Nat} (h : digitsValue cs = some n) :
    cs ≠ [] ∧ (∀ c ∈ cs, 48 ≤ c.toNat ∧ c.toNat ≤ 57) ∧ n = Nat.ofDigits 10 (cs.reverse.map digitOf) := by
  unfold digitsValue at h
  split_ifs at h with hcs
  rw [foldl_digits] at h
  exact ⟨hcs.1, fun c hc => isDigit_iff.mp (List.all_eq_true.mp hcs.2 c hc), (Option.some.inj h).symm⟩

/-- The digits of an index that does not begin with a zero are the decimal digits of its number. -/
theorem digits_of_index {cs : List Char} {n : Nat} (h : digitsValue cs = some n) (h0 : cs.head? ≠ some '0') :
    Nat.digits 10 n = cs.reverse.map digitOf := by
  obtain ⟨hne, hdigit, rfl⟩ := digitsValue_some h
  refine Nat.digits_ofDigits 10 (by decide) _ (fun d hd => ?_) fun hlast => ?_
  · obtain ⟨c, hc, rfl⟩ := List.mem_map.mp hd
    have := hdigit c (List.mem_reverse.mp hc)
    unfold digitOf
    omega
  · rw [List.getLast_map, List.getLast_reverse]
    have hc := hdigit _ (List.head_mem hne)
    unfold digitOf
    intro hzero
    refine h0 ?_
    rw [List.head?_eq_some_head hne]
    have hhead : (cs.head hne).toNat = '0'.toNat := by
      change _ = 48
      omega
    exact congrArg some (Char.toNat_inj.mp hhead)

theorem arrayIndex_ok {token : String} {idx : Nat} (h : arrayIndex token = .ok idx) :
    digitsValue token.toList = some idx ∧ (token.toList.head? = some '0' → token.toList = ['0']) := by
  unfold arrayIndex at h
  dsimp only at h
  split_ifs at h with h1 h2
  cases hd : digitsValue token.toList with
  | none => simp [hd] at h
  | some n =>
    rw [hd] at h
    dsimp only at h
    split_ifs at h
    cases h
    refine ⟨rfl, fun hzero => ?_⟩
    have hlen : ¬ 1 < token.toList.length := fun hlt => h1 ⟨Json.one_lt_utf8ByteSize hlt, hzero⟩
    cases hcs : token.toList with
    | nil => simp [hcs] at hzero
    | cons c cs =>
      rw [hcs] at hlen hzero
      cases cs with
      | nil => rw [Option.some.inj hzero]
      | cons c' cs => simp at hlen

/-- An array index has one spelling. -/
theorem arrayIndex_injective {j k : String} {idx : Nat} (hj : arrayIndex j = .ok idx)
    (hk : arrayIndex k = .ok idx) : j = k := by
  obtain ⟨hj, hj0⟩ := arrayIndex_ok hj
  obtain ⟨hk, hk0⟩ := arrayIndex_ok hk
  have hzero : digitsValue ['0'] = some 0 := by decide
  have hback : ∀ {cs : List Char}, digitsValue cs = some idx →
      (cs.reverse.map digitOf).map (fun d => Char.ofNat (d + 48)) = cs.reverse := by
    intro cs hcs
    rw [List.map_map]
    refine (List.map_congr_left fun c hc => ?_).trans (List.map_id _)
    have := (digitsValue_some hcs).2.1 c (List.mem_reverse.mp hc)
    change Char.ofNat (c.toNat - 48 + 48) = c
    rw [Nat.sub_add_cancel this.1, Char.ofNat_toNat]
  -- a spelling that begins with a zero is the one of zero, which has no decimal digits
  have hnot : ∀ {cs : List Char}, digitsValue cs = some idx → cs.head? ≠ some '0' → idx ≠ 0 := by
    rintro cs hcs h0 rfl
    have := digits_of_index hcs h0
    rw [Nat.digits_zero] at this
    have hnil : cs.reverse = [] := List.map_eq_nil_iff.mp this.symm
    exact (digitsValue_some hcs).1 (List.reverse_eq_nil_iff.mp hnil)
  refine String.toList_inj.mp ?_
  by_cases h1 : j.toList.head? = some '0' <;> by_cases h2 : k.toList.head? = some '0'
  · rw [hj0 h1, hk0 h2]
  · rw [hj0 h1, hzero] at hj
    exact absurd (Option.some.inj hj).symm (hnot hk h2)
  · rw [hk0 h2, hzero] at hk
    exact absurd (Option.some.inj hk).symm (hnot hj h1)
  · have hdigits := (digits_of_index hj h1).symm.trans (digits_of_index hk h2)
    have hchars := congrArg (List.map fun d => Char.ofNat (d + 48)) hdigits
    rw [hback hj, hback hk] at hchars
    exact List.reverse_injective hchars

end JsonPointer

namespace Json
open JsonPointer

/-! ## Children -/

/-- The child that a token names, looked for the way `contains` does. -/
def look : Json → String → Except JsonException (Option Json)
  | .object members, k => .ok (members.lookup k)
  | .array elements, k =>
    if k = "-" then .ok none
    else if indexSyntax k then (arrayIndex k).map fun idx => elements[idx]?
    else .ok none
  | _, _ => .ok none

/-- Replace the child that a token names. -/
def setChild : Json → String → Json → Json
  | .object members, k, c => .object (members.alterKey k fun _ => c)
  | .array elements, k, c =>
    match arrayIndex k with
    | .ok idx => .array (elements.set idx c)
    | .error _ => .array elements
  | v, _, _ => v

theorem look_array_some {c : Json} (h : (array elements).look k = .ok (some c)) :
    ∃ idx, k ≠ "-" ∧ indexSyntax k = true ∧ arrayIndex k = .ok idx ∧ elements[idx]? = some c := by
  rw [look] at h
  split_ifs at h with hdash hsyn
  · cases h
  · obtain ⟨idx, hidx, hget⟩ := Except.map_eq_ok.mp h
    exact ⟨idx, hdash, hsyn, hidx, hget⟩
  · cases h

theorem look_array {idx : Nat} (hdash : k ≠ "-")
    (hidx : arrayIndex k = .ok idx) : (array elements).look k = .ok elements[idx]? := by
  rw [look]
  rw [if_neg hdash, if_pos (indexSyntax_of_arrayIndex hidx), hidx]
  rfl

theorem setChild_array {idx : Nat} (hidx : arrayIndex k = .ok idx)
    (c : Json) : (array elements).setChild k c = array (elements.set idx c) := by
  rw [setChild, hidx]

theorem setChild_array_error {e : JsonException} (hidx : arrayIndex k = .error e)
    (c : Json) : (array elements).setChild k c = array elements := by
  rw [setChild, hidx]

theorem contains_cons (v : Json) (k : String) (ks : JsonPointer) :
    v.contains (k :: ks) = match v.look k with
      | .error e => .error e
      | .ok none => .ok false
      | .ok (some c) => c.contains ks := by
  cases v with
  | object members =>
    rw [contains, look]
    cases members.lookup k <;> rfl
  | array elements =>
    rw [contains, look]
    split_ifs
    · rfl
    · cases arrayIndex k with
      | error e => rfl
      | ok idx =>
        dsimp only [Except.map]
        cases elements[idx]? <;> rfl
    · rfl
  | null => rfl
  | boolean b => rfl
  | integer i => rfl
  | real value text => rfl
  | string s => rfl

theorem atPointer_cons_of_look (h : v.look k = .ok (some c)) (ks : JsonPointer) :
    v.atPointer (k :: ks) = c.atPointer ks := by
  cases v with
  | object members =>
    have hlookup : members.lookup k = some c := Except.ok.inj h
    rw [atPointer, hlookup]
  | array elements =>
    obtain ⟨idx, hdash, -, hidx, hget⟩ := look_array_some h
    rw [atPointer, if_neg hdash, hidx]
    dsimp only
    rw [hget]
  | _ => cases h

theorem resolve_cons_of_look (h : v.look k = .ok (some c)) (ks : JsonPointer) :
    v.resolve (k :: ks) = c.resolve ks := by
  rw [resolve, atPointer_cons_of_look h, resolve]

theorem look_of_resolve {v w : Json} {ks : JsonPointer} (h : v.resolve (k :: ks) = some w) :
    ∃ c, v.look k = .ok (some c) ∧ c.resolve ks = some w := by
  have hcontains := contains_eq_true.mpr ⟨w, h⟩
  rw [contains_cons] at hcontains
  cases hlook : v.look k with
  | error e => simp [hlook] at hcontains
  | ok found =>
    cases found with
    | none => simp [hlook] at hcontains
    | some c => exact ⟨c, rfl, by rwa [resolve_cons_of_look hlook] at h⟩

theorem resolve_cons (v : Json) (k : String) (ks : JsonPointer) :
    v.resolve (k :: ks) = match v.look k with
      | .ok (some c) => c.resolve ks
      | _ => none := by
  split
  · rename_i c hlook
    exact resolve_cons_of_look hlook ks
  · rename_i hnone
    refine Option.eq_none_iff_forall_ne_some.mpr fun w hw => ?_
    obtain ⟨c, hlook, -⟩ := look_of_resolve hw
    exact hnone c hlook

theorem alterAt_cons_of_look (f : Json → Except JsonException Json) (h : v.look k = .ok (some c)) (ks : JsonPointer) :
    v.alterAt f (k :: ks) = (c.alterAt f ks).map (v.setChild k) := by
  cases v with
  | object members =>
    have hlookup : members.lookup k = some c := Except.ok.inj h
    rw [alterAt, hlookup]
    rfl
  | array elements =>
    obtain ⟨idx, hdash, -, hidx, hget⟩ := look_array_some h
    rw [alterAt, if_neg hdash, hidx]
    dsimp only
    rw [hget]
    refine congrArg (fun g => Except.map g (c.alterAt f ks)) (funext fun u => ?_)
    rw [setChild, hidx]
  | _ => cases h

theorem alterAt_cons_ok {f : Json → Except JsonException Json} {v v' : Json} {ks : JsonPointer}
    (h : v.alterAt f (k :: ks) = .ok v') :
    ∃ c c', v.look k = .ok (some c) ∧ c.alterAt f ks = .ok c' ∧ v' = v.setChild k c' := by
  obtain ⟨d, -, hd, -⟩ := alterAt_below h
  obtain ⟨c, hlook, -⟩ := look_of_resolve hd
  rw [alterAt_cons_of_look f hlook] at h
  obtain ⟨c', hc', rfl⟩ := Except.map_eq_ok.mp h
  exact ⟨c, c', hlook, hc', rfl⟩

theorem look_setChild_self (h : v.look k = .ok (some c)) (c' : Json) :
    (v.setChild k c').look k = .ok (some c') := by
  cases v with
  | object members =>
    have hlookup : members.lookup k = some c := Except.ok.inj h
    simp [setChild, look, List.lookup_alterKey, hlookup]
  | array elements =>
    obtain ⟨idx, hdash, -, hidx, hget⟩ := look_array_some h
    have hlt : idx < elements.length := (List.getElem?_eq_some_iff.mp hget).1
    rw [setChild_array hidx, look_array hdash hidx]
    simp [hlt]
  | _ => cases h

theorem look_setChild_of_ne (v c : Json) {j k : String} (hne : j ≠ k) :
    (v.setChild k c).look j = v.look j := by
  cases v with
  | object members => simp [setChild, look, List.lookup_alterKey, hne]
  | array elements =>
    cases hk : arrayIndex k with
    | error e => rw [setChild_array_error hk]
    | ok idx =>
      rw [setChild_array hk, look, look]
      cases hj : arrayIndex j with
      | error e => rfl
      | ok idx' =>
        have hidx : idx ≠ idx' := fun he => hne (arrayIndex_injective hj (he ▸ hk))
        simp [Except.map, List.getElem?_set_ne hidx]
  | _ => rfl

theorem setChild_self (h : v.look k = .ok (some c)) : v.setChild k c = v := by
  cases v with
  | object members =>
    have hlookup : members.lookup k = some c := Except.ok.inj h
    rw [setChild, alterKey_self hlookup]
  | array elements =>
    obtain ⟨idx, -, -, hidx, hget⟩ := look_array_some h
    obtain ⟨hlt, hget⟩ := List.getElem?_eq_some_iff.mp hget
    rw [setChild_array hidx, ← hget, List.set_getElem_self]
  | _ => rfl

/-! ## Members -/

/-- The pointer names a member of an object. -/
def IsMember (v : Json) (p : JsonPointer) : Prop :=
  (∃ w, v.resolve p = some w) ∧ ∃ members, v.resolve p.dropLast = some (.object members)

/-- Where the pointer does not name a member of an object, nothing is removed. -/
theorem eraseMember_eq_self {v v' : Json} (h : v.eraseMember p = .ok v') (hnot : ¬ v.IsMember p) : v' = v := by
  unfold eraseMember at h
  obtain ⟨there, hthere, h⟩ := Except.bind_eq_ok.mp h
  cases there with
  | false => exact (Except.ok.inj h).symm
  | true =>
    obtain ⟨parentThere, hparent, h⟩ := Except.bind_eq_ok.mp h
    cases parentThere with
    | false => exact (Except.ok.inj h).symm
    | true =>
      obtain ⟨holder, hholder, h⟩ := Except.bind_eq_ok.mp h
      cases holder with
      | object members =>
        refine absurd ⟨contains_eq_true.mp hthere, members, ?_⟩ hnot
        rw [resolve, hholder]
        rfl
      | _ => exact (Except.ok.inj h).symm

/-- Where it does, what holds the member is altered. -/
theorem eraseMember_of_isMember {v : Json} (h : v.IsMember p) :
    v.eraseMember p = v.alterAt (erase (p.getLastD "")) p.dropLast := by
  obtain ⟨⟨w, hw⟩, members, hholder⟩ := h
  unfold eraseMember
  rw [contains_eq_true.mpr ⟨w, hw⟩]
  change (v.contains p.dropLast >>= _) = _
  rw [contains_eq_true.mpr ⟨_, hholder⟩]
  change (v.atPointer p.dropLast >>= _) = _
  rw [atPointer_of_resolve hholder]
  rfl

/-! ## What an erasure leaves resolved -/

theorem resolve_prefix {v w : Json} (h : v.resolve (p ++ q) = some w) :
    ∃ u, v.resolve p = some u ∧ u.resolve q = some w := by
  rw [resolve_append] at h
  exact Option.bind_eq_some_iff.mp h

theorem resolve_cons_setChild {v c c' : Json} (h : v.look k = .ok (some c)) (j : String) (ks : JsonPointer) :
    (v.setChild k c').resolve (j :: ks) = if j = k then c'.resolve ks else v.resolve (j :: ks) := by
  split_ifs with hj
  · rw [hj]
    exact resolve_cons_of_look (look_setChild_self h c') ks
  · rw [resolve_cons, resolve_cons, look_setChild_of_ne v c' hj]

/-- Erasing a member leaves resolved what does not lie at or under it. -/
theorem resolves_alterAt_erase {v v' w : Json} (h : v.alterAt (erase k) p = .ok v') (hq : ¬ p ++ [k] <+: q)
    (hres : v.resolve q = some w) :
    ∃ w', v'.resolve q = some w' := by
  induction p generalizing v v' q with
  | nil =>
    rw [alterAt] at h
    obtain ⟨members, rfl, rfl⟩ := erase_eq_ok h
    cases q with
    | nil => exact ⟨_, resolve_nil _⟩
    | cons j js =>
      have hj : j ≠ k := by
        rintro rfl
        exact hq (List.cons_prefix_cons.mpr ⟨rfl, List.nil_prefix⟩)
      rw [resolve_object_cons] at hres
      exact ⟨w, by rw [resolve_object_cons, List.lookup_eraseKey, if_neg hj, hres]⟩
  | cons k₀ ks ih =>
    obtain ⟨c, c', hlook, hc', rfl⟩ := alterAt_cons_ok h
    cases q with
    | nil => exact ⟨_, resolve_nil _⟩
    | cons j js =>
      rw [resolve_cons_setChild hlook]
      split_ifs with hj
      · rw [hj, resolve_cons_of_look hlook] at hres
        exact ih hc' (fun hks => hq (List.cons_prefix_cons.mpr ⟨hj.symm, hks⟩)) hres
      · exact ⟨w, hres⟩

/-- Erasing a member makes nothing resolve, and makes no object of what was none. -/
theorem resolves_of_alterAt_erase {v v' w' : Json} (h : v.alterAt (erase k) p = .ok v')
    (hres : v'.resolve q = some w') :
    ∃ w, v.resolve q = some w ∧ (w'.isObject = true → w.isObject = true) := by
  induction p generalizing v v' q with
  | nil =>
    rw [alterAt] at h
    obtain ⟨members, rfl, rfl⟩ := erase_eq_ok h
    cases q with
    | nil => exact ⟨_, resolve_nil _, fun _ => rfl⟩
    | cons j js =>
      rw [resolve_object_cons, List.lookup_eraseKey] at hres
      split_ifs at hres
      · cases hres
      · exact ⟨w', by rw [resolve_object_cons, hres], id⟩
  | cons k₀ ks ih =>
    obtain ⟨c, c', hlook, hc', rfl⟩ := alterAt_cons_ok h
    cases q with
    | nil =>
      refine ⟨v, resolve_nil v, fun hobject => ?_⟩
      rw [resolve_nil] at hres
      cases hres
      cases v <;> first | rfl | cases hlook | skip
      rw [setChild] at hobject
      split at hobject <;> cases hobject
    | cons j js =>
      rw [resolve_cons_setChild hlook] at hres
      split_ifs at hres with hj
      · rw [hj, resolve_cons_of_look hlook]
        exact ih hc' hres
      · exact ⟨w', hres, id⟩

/-- Erasing a member makes nothing else of an object. -/
theorem isObject_of_alterAt_erase {v v' w w' : Json} (h : v.alterAt (erase k) p = .ok v') (hres : v.resolve q = some w)
    (hobject : w.isObject = true) (hres' : v'.resolve q = some w') : w'.isObject = true := by
  induction p generalizing v v' q with
  | nil =>
    rw [alterAt] at h
    obtain ⟨members, rfl, rfl⟩ := erase_eq_ok h
    cases q with
    | nil =>
      rw [resolve_nil] at hres'
      cases hres'
      rfl
    | cons j js =>
      rw [resolve_object_cons, List.lookup_eraseKey] at hres'
      split_ifs at hres'
      · cases hres'
      · rw [resolve_object_cons, hres'] at hres
        cases hres
        exact hobject
  | cons k₀ ks ih =>
    obtain ⟨c, c', hlook, hc', rfl⟩ := alterAt_cons_ok h
    cases q with
    | nil =>
      rw [resolve_nil] at hres hres'
      rw [← Option.some.inj hres] at hobject
      rw [← Option.some.inj hres']
      cases v with
      | object members => rfl
      | _ => cases hobject
    | cons j js =>
      rw [resolve_cons_setChild hlook] at hres'
      split_ifs at hres' with hj
      · rw [hj, resolve_cons_of_look hlook] at hres
        exact ih hc' hres hres'
      · rw [hres] at hres'
        cases hres'
        exact hobject

/-- A member that is left after a removal was a member before it. -/
theorem isMember_of_eraseMember {v v' : Json} (h : v.eraseMember p = .ok v') (hq : v'.IsMember q) : v.IsMember q := by
  by_cases hp : v.IsMember p
  · rw [eraseMember_of_isMember hp] at h
    obtain ⟨⟨w, hw⟩, members, hmembers⟩ := hq
    obtain ⟨u, hu, -⟩ := resolves_of_alterAt_erase h hw
    obtain ⟨holder, hholder, hobject⟩ := resolves_of_alterAt_erase h hmembers
    refine ⟨⟨u, hu⟩, ?_⟩
    cases holder with
    | object m => exact ⟨m, hholder⟩
    | _ => cases hobject rfl
  · rwa [← eraseMember_eq_self h hp]

theorem concat_of_ne_nil (h : p ≠ []) : p.dropLast ++ [p.getLastD ""] = p := by
  rw [List.getLastD_eq_getLast?, List.getLast?_eq_some_getLast h, Option.getD_some, List.dropLast_append_getLast h]

/-- Removing a member leaves resolved what does not lie at or under it. -/
theorem resolves_eraseMember {v v' w : Json} (h : v.eraseMember p = .ok v') (hp : p ≠ [])
    (hq : v.IsMember p → ¬ p <+: q) (hres : v.resolve q = some w) : ∃ w', v'.resolve q = some w' := by
  by_cases hmember : v.IsMember p
  · rw [eraseMember_of_isMember hmember] at h
    refine resolves_alterAt_erase h ?_ hres
    rw [concat_of_ne_nil hp]
    exact hq hmember
  · rw [eraseMember_eq_self h hmember]
    exact ⟨w, hres⟩

/-! ## Altering what resolves -/

theorem alterAt_of_resolve {f : Json → Except JsonException Json} {v w : Json} (h : v.resolve p = some w) :
    (∀ e, f w = .error e → v.alterAt f p = .error e) ∧ ∀ w', f w = .ok w' → ∃ v', v.alterAt f p = .ok v' := by
  induction p generalizing v with
  | nil =>
    rw [resolve_nil] at h
    cases h
    rw [alterAt]
    exact ⟨fun e he => he, fun w' hw' => ⟨w', hw'⟩⟩
  | cons k ks ih =>
    obtain ⟨c, hlook, hc⟩ := look_of_resolve h
    rw [alterAt_cons_of_look f hlook]
    refine ⟨fun e he => ?_, fun w' hw' => ?_⟩
    · rw [(ih hc).1 e he]
      rfl
    · obtain ⟨c', hc'⟩ := (ih hc).2 w' hw'
      exact ⟨v.setChild k c', by rw [hc']; rfl⟩

/-- Erasing a member leaves what a pointer resolves to that leads neither to it, nor under it, nor above. -/
theorem resolve_alterAt_erase {v v' : Json} (h : v.alterAt (erase k) p = .ok v') (hunder : ¬ p ++ [k] <+: q)
    (habove : ¬ q <+: p) : v'.resolve q = v.resolve q := by
  induction p generalizing v v' q with
  | nil =>
    rw [alterAt] at h
    obtain ⟨members, rfl, rfl⟩ := erase_eq_ok h
    cases q with
    | nil => exact absurd List.nil_prefix habove
    | cons j js =>
      have hj : j ≠ k := by
        rintro rfl
        exact hunder (List.cons_prefix_cons.mpr ⟨rfl, List.nil_prefix⟩)
      rw [resolve_object_cons, resolve_object_cons, List.lookup_eraseKey, if_neg hj]
  | cons k₀ ks ih =>
    obtain ⟨c, c', hlook, hc', rfl⟩ := alterAt_cons_ok h
    cases q with
    | nil => exact absurd List.nil_prefix habove
    | cons j js =>
      rw [resolve_cons_setChild hlook]
      split_ifs with hj
      · subst hj
        rw [resolve_cons_of_look hlook]
        refine ih hc' (fun hjs => hunder ?_) fun hjs => habove ?_
        · exact List.cons_prefix_cons.mpr ⟨rfl, hjs⟩
        · exact List.cons_prefix_cons.mpr ⟨rfl, hjs⟩
      · rfl

end Json
end Didi
