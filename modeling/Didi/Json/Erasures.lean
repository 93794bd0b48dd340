import Didi.Json.Tree
import Didi.Lib.Fold

/-!
# Removals, child by child

`Json.atChild` changes the child that a token names, or removes it where it is a member of an object;
`eraseMember` is such a change, token by token (`eraseMember_cons`).
-/

namespace Didi.Json
open JsonPointer

/-- Replace the child that a token names, or remove it where it is a member of an object. -/
def putChild : Json → String → Option Json → Json
  | v, k, some c => v.setChild k c
  | .object members, k, none => .object (members.eraseKey k)
  | v, _, none => v

/-- Change the child that a token names, if there is one. -/
def atChild (v : Json) (k : String) (f : Json → Except JsonException (Option Json)) : Except JsonException Json :=
  match v.look k with
  | .error e => .error e
  | .ok none => .ok v
  | .ok (some c) => (f c).map (v.putChild k)

theorem eraseMember_singleton (v : Json) (k : String) : v.eraseMember [k] = v.atChild k fun _ => .ok none := by
  unfold eraseMember atChild
  rw [contains_cons]
  cases hlook : v.look k with
  | error e => rfl
  | ok found =>
    cases found with
    | none => rfl
    | some c => cases v <;> rfl

theorem eraseMember_cons_cons (v : Json) (k k' : String) (ks : JsonPointer) :
    v.eraseMember (k :: k' :: ks) = v.atChild k fun c => (c.eraseMember (k' :: ks)).map some := by
  unfold atChild
  cases hlook : v.look k with
  | error e =>
    unfold eraseMember
    rw [contains_cons, hlook]
    rfl
  | ok found =>
    cases found with
    | none =>
      unfold eraseMember
      rw [contains_cons, hlook]
      rfl
    | some c =>
      have hself : Except.ok (ε := JsonException) v = .map (v.putChild k) (.map some (.ok c)) :=
        congrArg Except.ok (setChild_self hlook).symm
      have hcontains : ∀ q, v.contains (k :: q) = c.contains q := fun q => by rw [contains_cons, hlook]
      simp only [eraseMember, hcontains, List.dropLast_cons_cons, atPointer_cons_of_look hlook,
        alterAt_cons_of_look _ hlook]
      cases c.contains (k' :: ks) with
      | error e => rfl
      | ok there =>
        cases there with
        | false => exact hself
        | true =>
          cases c.contains (k' :: ks).dropLast with
          | error e => rfl
          | ok parentThere =>
            cases parentThere with
            | false => exact hself
            | true =>
              cases c.atPointer (k' :: ks).dropLast with
              | error e => rfl
              | ok holder =>
                cases hobject : holder.isObject with
                | false =>
                  simp only [bind, Except.bind, hobject, Bool.not_true, Bool.not_false, Bool.false_eq_true, if_true,
                    if_false]
                  exact hself
                | true =>
                  simp only [bind, Except.bind, hobject, Bool.not_true, Bool.false_eq_true, if_false]
                  change (c.alterAt (erase ((k' :: ks).getLastD "")) (k' :: ks).dropLast).map (v.setChild k) = _
                  cases c.alterAt (erase ((k' :: ks).getLastD "")) (k' :: ks).dropLast <;> rfl

/-- What a removal does to the child that its first token names. -/
def eraseBelow (ks : JsonPointer) (c : Json) : Except JsonException (Option Json) :=
  if ks = [] then .ok none else (c.eraseMember ks).map some

/-- A removal, token by token. -/
theorem eraseMember_cons (v : Json) (k : String) (ks : JsonPointer) :
    v.eraseMember (k :: ks) = v.atChild k (eraseBelow ks) := by
  cases ks with
  | nil => exact eraseMember_singleton v k
  | cons k' ks => exact eraseMember_cons_cons v k k' ks

theorem atChild_ok {v v' : Json} {k : String} {f : Json → Except JsonException (Option Json)}
    (h : v.atChild k f = .ok v') :
    (v.look k = .ok none ∧ v' = v) ∨ ∃ c o, v.look k = .ok (some c) ∧ f c = .ok o ∧ v' = v.putChild k o := by
  unfold atChild at h
  split at h
  · cases h
  · cases h
    exact .inl ⟨‹_›, rfl⟩
  · obtain ⟨o, ho, rfl⟩ := Except.map_eq_ok.mp h
    exact .inr ⟨_, o, ‹_›, ho, rfl⟩

end Didi.Json
