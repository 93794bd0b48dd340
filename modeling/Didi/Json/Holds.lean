import Didi.Json.Tree
import Didi.Json.Pointer

/-!
# A value held by objects

* `Holds v p w` : the pointer leads from `v` to `w` through objects only;
* `Holds.alterAt`, `Holds.alterAt_member` : a change elsewhere leaves a held value where it is. An
  array does not hold: an insertion or a removal moves what comes after it;
* `Holds.eraseMember`, `Holds.patchOne` : the removal of a member and an operation of a patch.
-/

namespace Didi

/-- Neither pointer lies at or under the other. -/
def JsonPointer.Unrelated (p q : JsonPointer) : Prop := ¬ p <+: q ∧ ¬ q <+: p

namespace Json
open JsonPointer

/-- The pointer leads from `v` to `w` through objects only. -/
def Holds : Json → JsonPointer → Json → Prop
  | v, [], w => v = w
  | .object members, k :: ks, w => ∃ child, members.lookup k = some child ∧ child.Holds ks w
  | _, _ :: _, _ => False

theorem holds_nil {v w : Json} : v.Holds [] w ↔ v = w := by
  cases v <;> exact Iff.rfl

theorem holds_cons {v w : Json} {k : String} {ks : JsonPointer} :
    v.Holds (k :: ks) w ↔ ∃ members child, v = object members ∧ members.lookup k = some child ∧ child.Holds ks w := by
  constructor
  · intro h
    cases v with
    | object members =>
      obtain ⟨child, hk, hchild⟩ := h
      exact ⟨members, child, rfl, hk, hchild⟩
    | _ => cases h
  · rintro ⟨members, child, rfl, hk, hchild⟩
    exact ⟨child, hk, hchild⟩

theorem Holds.resolve {v w : Json} {p : JsonPointer} (h : v.Holds p w) : v.resolve p = some w := by
  induction p generalizing v with
  | nil => rw [holds_nil.mp h, resolve_nil]
  | cons k ks ih =>
    obtain ⟨members, child, rfl, hk, hchild⟩ := holds_cons.mp h
    rw [resolve_object_cons, hk]
    exact ih hchild

/-! ## Changes elsewhere -/

/-- A change at a pointer that does not lie above a held value leaves the value held, if it does where
the pointer leads down to it. -/
theorem Holds.alterAt {f : Json → Except JsonException Json} {v v' w : Json} {p r : JsonPointer}
    (hp : v.Holds p w) (h : v.alterAt f r = .ok v') (habove : p <+: r → p = r)
    (hf : ∀ q u u', p = r ++ q → u.Holds q w → f u = .ok u' → u'.Holds q w) : v'.Holds p w := by
  induction r generalizing v v' p with
  | nil =>
    rw [Json.alterAt] at h
    exact hf p v v' rfl hp h
  | cons k ks ih =>
    cases p with
    | nil => cases habove List.nil_prefix
    | cons j js =>
      obtain ⟨members, child, rfl, hj, hchild⟩ := holds_cons.mp hp
      rw [Json.alterAt] at h
      cases hk : members.lookup k with
      | none => simp [hk] at h
      | some below =>
        rw [hk] at h
        obtain ⟨below', hbelow, rfl⟩ := Except.map_eq_ok.mp h
        by_cases hjk : j = k
        · subst hjk
          rw [hj] at hk
          cases hk
          refine holds_cons.mpr ⟨_, below', rfl, by simp [List.lookup_alterKey, hj], ?_⟩
          refine ih hchild hbelow (fun hle => ?_) fun q u u' hq => hf q u u' (by rw [hq]; rfl)
          exact (List.cons.inj (habove (List.cons_prefix_cons.mpr ⟨rfl, hle⟩))).2
        · exact holds_cons.mpr ⟨_, child, rfl, by simp [List.lookup_alterKey, hjk, hj], hchild⟩

/-- The change of an object leaves its members other than `k` as they are. -/
def KeepsOthers (k : String) (f : Json → Except JsonException Json) : Prop :=
  ∀ members v', f (object members) = .ok v' → ∃ members', v' = object members' ∧
    ∀ j, j ≠ k → members'.lookup j = members.lookup j

/-- A change of one member leaves a held value that neither contains the member nor lies in it. -/
theorem Holds.alterAt_member {f : Json → Except JsonException Json} {v v' w : Json} {p r : JsonPointer}
    {k : String} (hp : v.Holds p w) (h : v.alterAt f r = .ok v') (hf : KeepsOthers k f)
    (hunrelated : Unrelated (r ++ [k]) p) : v'.Holds p w := by
  refine hp.alterAt h (fun hle => ?_) fun q u u' hq hu hfu => ?_
  · exact absurd (hle.trans (List.prefix_append r [k])) hunrelated.2
  · cases q with
    | nil =>
      rw [hq, List.append_nil] at hunrelated
      exact absurd (List.prefix_append r [k]) hunrelated.2
    | cons j js =>
      have hne : j ≠ k := by
        rintro rfl
        exact hunrelated.1 ⟨js, by rw [hq, List.append_assoc]; rfl⟩
      obtain ⟨members, child, rfl, hj, hchild⟩ := holds_cons.mp hu
      obtain ⟨members', rfl, hsame⟩ := hf members u' hfu
      exact holds_cons.mpr ⟨members', child, rfl, (hsame j hne).trans hj, hchild⟩

theorem keepsOthers_erase (k : String) : KeepsOthers k (erase k) := by
  intro members v' h
  cases h
  exact ⟨_, rfl, fun j hj => by rw [List.lookup_eraseKey, if_neg hj]⟩

theorem keepsOthers_addTo (k : String) (v : Json) : KeepsOthers k (addTo k v) := by
  intro members v' h
  cases h
  exact ⟨_, rfl, fun j hj => by rw [List.lookup_insertKey, if_neg hj]⟩

theorem keepsOthers_removeFrom (k : String) : KeepsOthers k (removeFrom k) := by
  intro members v' h
  rw [removeFrom] at h
  split at h
  · cases h
  · cases h
    exact ⟨_, rfl, fun j hj => by rw [List.lookup_eraseKey, if_neg hj]⟩

theorem Holds.eraseMember {v v' w : Json} {p q : JsonPointer} (hp : v.Holds p w) (h : v.eraseMember q = .ok v')
    (hq : q ≠ []) (hunrelated : v.IsMember q → Unrelated q p) : v'.Holds p w := by
  by_cases hmember : v.IsMember q
  · rw [eraseMember_of_isMember hmember] at h
    refine hp.alterAt_member h (keepsOthers_erase _) ?_
    rw [concat_of_ne_nil hq]
    exact hunrelated hmember
  · rwa [eraseMember_eq_self h hmember]

/-! ## Patches -/

theorem Holds.operationAdd {v v' w x : Json} {p ptr : JsonPointer} (hp : v.Holds p w)
    (h : v.operationAdd ptr x = .ok v') (hunrelated : Unrelated ptr p) : v'.Holds p w := by
  unfold Json.operationAdd at h
  cases ptr with
  | nil => exact absurd List.nil_prefix hunrelated.1
  | cons k ks =>
    dsimp only at h
    split at h
    · cases h
    · refine hp.alterAt_member h (keepsOthers_addTo _ x) ?_
      rw [concat_of_ne_nil (List.cons_ne_nil k ks)]
      exact hunrelated

theorem Holds.operationRemove {v v' w : Json} {p ptr : JsonPointer} (hp : v.Holds p w)
    (h : v.operationRemove ptr = .ok v') (hunrelated : Unrelated ptr p) : v'.Holds p w := by
  unfold Json.operationRemove at h
  cases ptr with
  | nil => exact absurd List.nil_prefix hunrelated.1
  | cons k ks =>
    refine hp.alterAt_member h (keepsOthers_removeFrom _) ?_
    rw [concat_of_ne_nil (List.cons_ne_nil k ks)]
    exact hunrelated

theorem lookup_of_getValue {members : JsonObject} {op field : String} {v : Json}
    (h : getValue members op field = .ok v) : members.lookup field = some v := by
  unfold getValue at h
  split at h
  · rename_i found hfound
    cases h
    exact hfound
  · cases h

theorem lookup_of_getString {members : JsonObject} {op field text : String}
    (h : getString members op field = .ok text) : members.lookup field = some (string text) := by
  unfold getString at h
  obtain ⟨value, hvalue, h⟩ := Except.bind_eq_ok.mp h
  split at h
  · cases h
    exact lookup_of_getValue hvalue
  · cases h

/-- The pointer is one that an operation of a patch names, to work on or to take from. -/
def NamedBy (operation : Json) (ptr : JsonPointer) : Prop :=
  ∃ members field text, operation = object members ∧ (field = "path" ∨ field = "from") ∧
    members.lookup field = some (string text) ∧ parse text = .ok ptr

theorem namedBy_of_getString {members : JsonObject} {op field text : String} {ptr : JsonPointer}
    (hfield : field = "path" ∨ field = "from") (h : getString members op field = .ok text)
    (hptr : parse text = .ok ptr) : NamedBy (object members) ptr := by
  exact ⟨members, field, text, rfl, hfield, lookup_of_getString h, hptr⟩

/-- **An operation of a patch leaves a held value** that is unrelated to the pointers it names. -/
theorem Holds.patchOne {v v' w operation : Json} {p : JsonPointer} (hp : v.Holds p w)
    (h : v.patchOne operation = .ok v') (hunrelated : ∀ ptr, NamedBy operation ptr → Unrelated ptr p) :
    v'.Holds p w := by
  unfold Json.patchOne at h
  cases operation with
  | object members =>
    dsimp only at h
    obtain ⟨op, -, h⟩ := Except.bind_eq_ok.mp h
    obtain ⟨path, hpath, h⟩ := Except.bind_eq_ok.mp h
    obtain ⟨ptr, hptr, h⟩ := Except.bind_eq_ok.mp h
    have hat := hunrelated ptr (namedBy_of_getString (.inl rfl) hpath hptr)
    split_ifs at h with hadd hremove hreplace hmove hcopy htest
    · obtain ⟨x, -, h⟩ := Except.bind_eq_ok.mp h
      exact hp.operationAdd h hat
    · exact hp.operationRemove h hat
    · obtain ⟨x, -, h⟩ := Except.bind_eq_ok.mp h
      exact hp.alterAt h (fun hle => absurd hle hat.2) fun q _ _ hq => absurd ⟨q, hq.symm⟩ hat.1
    · obtain ⟨text, htext, h⟩ := Except.bind_eq_ok.mp h
      obtain ⟨fromPtr, hfrom, h⟩ := Except.bind_eq_ok.mp h
      obtain ⟨x, -, h⟩ := Except.bind_eq_ok.mp h
      obtain ⟨removed, hremoved, h⟩ := Except.bind_eq_ok.mp h
      have hleft := hp.operationRemove hremoved (hunrelated fromPtr (namedBy_of_getString (.inr rfl) htext hfrom))
      exact hleft.operationAdd h hat
    · obtain ⟨_, -, h⟩ := Except.bind_eq_ok.mp h
      obtain ⟨_, -, h⟩ := Except.bind_eq_ok.mp h
      obtain ⟨x, -, h⟩ := Except.bind_eq_ok.mp h
      exact hp.operationAdd h hat
    · obtain ⟨_, -, h⟩ := Except.bind_eq_ok.mp h
      obtain ⟨success, -, h⟩ := Except.bind_eq_ok.mp h
      split_ifs at h
      cases h
      exact hp
  | _ => cases h

end Json
end Didi
