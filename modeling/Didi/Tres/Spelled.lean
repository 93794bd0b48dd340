import Mathlib.Data.List.Perm.Basic
import Didi.Tres.Scalars

/-!
# What a value spells

* `Place`, `Form` : where a value stands, and how an object there is written;
* `Spells` : scalars that are those of a value, in order within each array;
* `lost` : how many scalars the fields hold that no constructor takes;
* `Accounts` : scalars that are all of the value but what is lost.

The fields that only name a type or a reference spell nothing, and a colour without an alpha is given one.
-/

namespace Didi.Tres
open Config (Text bytesOf)

/-! ## Places -/

inductive Place
  | value (declaredType : Option String)
  /-- An array here is written as a packed one of this type. -/
  | packed (type : String)
  /-- An element of a packed array of vectors or colours. -/
  | component (type : ComponentType)
  | number (type : ScalarType)

namespace Place

/-- Where the elements of an array stand. -/
def elements : Place → Place
  | .value declaredType => ((packedElementTypeOf declaredType).map Place.packed).getD (.value none)
  | .packed type => ((packedElementType type).map Place.component).getD (.value none)
  | place => place

end Place

/-- How an object is written: the fields that only name something, those that are taken and where they stand, and
what is added. -/
structure Form where
  naming : List String := []
  fields : Option (List String) := none
  inside : Place := .value none
  alpha : List Text := []

namespace Form

def takes (form : Form) (key : String) : Bool := form.fields.all fun fields => fields.contains key

end Form

def componentForm (type : ComponentType) (members : JsonObject) : Form where
  naming := if (namedType members).isSome then ["type"] else []
  fields := some type.members
  alpha := if type.name = "Color" && (members.lookup "a").isNone then ["1.0".toList] else []

def namedForm (name : String) (members : JsonObject) : Form :=
  match findComponentType name with
  | some type => componentForm type members
  | none =>
    if kStringTypes.contains name then { naming := ["type"], fields := some ["value"] }
    else if kPackedArrayTypes.contains name then
      { naming := ["type"], fields := some ["values"], inside := .packed name }
    else if name = "ExtResource" then { naming := ["type", "path", "resource_type"], fields := some [] }
    else { naming := ["type", "id"], fields := some [] }

def shapedForm (members : JsonObject) : Form :=
  if members.length = 4 && hasNumericKeys members kRGBA then { fields := some kRGBA }
  else if members.length = 3 && hasNumericKeys members ["r", "g", "b"] then
    { fields := some ["r", "g", "b"], alpha := [['1']] }
  else if hasNumericKeys members kXYZW then { fields := some kXYZW }
  else if hasNumericKeys members kXYZ then { fields := some kXYZ }
  else if hasNumericKeys members kXY then { fields := some kXY }
  else {}

def objectForm (declaredType : Option String) (members : JsonObject) : Form :=
  match namedScalarType members with
  | some type => { naming := ["type"], fields := some ["value"], inside := .number type }
  | none =>
    match namedType members with
    | some name => namedForm name members
    | none =>
      match (declaredType.bind findComponentType).filter fun _ => !members.isEmpty with
      | some type => componentForm type members
      | none => shapedForm members

def Place.form : Place → JsonObject → Form
  | .value declaredType, members => objectForm declaredType members
  | .component type, members => componentForm type members
  | _, members => objectForm none members

section Spelling
variable (w : Writer)

/-- How a scalar is spelled; a number whose type is named is spelled as one of that type. -/
def spelling : Place → Json → Text
  | .number type, number => (namedScalarText w type number).getD []
  | _, value => scalarText value

/-! ## Scalars of a value -/

mutual

/-- These scalars are those of the value: in order within an array, in any order within an object. -/
def Spells : Place → Json → List Text → Prop
  | place, .array items, scalars => SpellsAll place.elements items scalars
  | place, .object members, scalars => ∃ parts parts' : List (List Text),
    SpellsFields (place.form members) members parts ∧ parts'.Perm parts ∧
      scalars = parts'.flatten ++ (place.form members).alpha
  | place, value, scalars => scalars = [spelling w place value]

def SpellsAll : Place → List Json → List Text → Prop
  | _, [], scalars => scalars = []
  | place, value :: values, scalars =>
    ∃ own others, scalars = own ++ others ∧ Spells place value own ∧ SpellsAll place values others

def SpellsFields : Form → List (String × Json) → List (List Text) → Prop
  | _, [], parts => parts = []
  | form, (key, value) :: members, parts =>
    if key ∈ form.naming then SpellsFields form members parts
    else ∃ own others, parts = own :: others ∧ Spells form.inside value own ∧ SpellsFields form members others

end

mutual

/-- How many scalars a value has. -/
def scalarCount : Place → Json → Nat
  | place, .array items => elementsCount place.elements items
  | place, .object members => fieldsCount (place.form members) members + (place.form members).alpha.length
  | _, _ => 1

def elementsCount : Place → List Json → Nat
  | _, [] => 0
  | place, value :: values => scalarCount place value + elementsCount place values

def fieldsCount : Form → List (String × Json) → Nat
  | _, [] => 0
  | form, (key, value) :: members =>
    (if key ∈ form.naming then 0 else scalarCount form.inside value) + fieldsCount form members

end

mutual

/-- How many scalars of a value stand in fields that no constructor takes. -/
def lost : Place → Json → Nat
  | place, .array items => lostElements place.elements items
  | place, .object members => lostFields (place.form members) members
  | _, _ => 0

def lostElements : Place → List Json → Nat
  | _, [] => 0
  | place, value :: values => lost place value + lostElements place values

def lostFields : Form → List (String × Json) → Nat
  | _, [] => 0
  | form, (key, value) :: members =>
    (if key ∈ form.naming then 0
      else if form.takes key then lost form.inside value
      else scalarCount form.inside value) + lostFields form members

end

/-! ## Counting -/

theorem spells_scalar {place : Place} {value : Json} {scalars : List Text}
    (h : value.isStructured = false) : Spells w place value scalars ↔ scalars = [spelling w place value] := by
  cases value with
  | array items => cases h
  | object members => cases h
  | _ => rw [Spells] <;> simp

mutual

theorem length_of_spells : ∀ (place : Place) (value : Json) (scalars : List Text), Spells w place value scalars →
    scalars.length = scalarCount place value
  | place, .array items, scalars, h => by
    rw [Spells] at h
    rw [scalarCount, length_of_spellsAll place.elements items scalars h]
  | place, .object members, scalars, h => by
    rw [Spells] at h
    obtain ⟨parts, parts', hparts, hperm, rfl⟩ := h
    rw [scalarCount, List.length_append, hperm.flatten.length_eq, length_of_spellsFields _ members parts hparts]
  | place, .null, scalars, h => congrArg List.length ((spells_scalar w rfl).mp h)
  | place, .boolean b, scalars, h => congrArg List.length ((spells_scalar w rfl).mp h)
  | place, .integer i, scalars, h => congrArg List.length ((spells_scalar w rfl).mp h)
  | place, .real v t, scalars, h => congrArg List.length ((spells_scalar w rfl).mp h)
  | place, .string s, scalars, h => congrArg List.length ((spells_scalar w rfl).mp h)

theorem length_of_spellsAll : ∀ (place : Place) (values : List Json) (scalars : List Text),
    SpellsAll w place values scalars → scalars.length = elementsCount place values
  | place, [], scalars, h => by
    rw [SpellsAll] at h
    rw [h, elementsCount, List.length_nil]
  | place, value :: values, scalars, h => by
    rw [SpellsAll] at h
    obtain ⟨own, others, rfl, hown, hothers⟩ := h
    rw [elementsCount, List.length_append, length_of_spells place value own hown,
      length_of_spellsAll place values others hothers]

theorem length_of_spellsFields : ∀ (form : Form) (members : List (String × Json)) (parts : List (List Text)),
    SpellsFields w form members parts → parts.flatten.length = fieldsCount form members
  | form, [], parts, h => by
    rw [SpellsFields] at h
    rw [h, fieldsCount]
    rfl
  | form, (key, value) :: members, parts, h => by
    rw [SpellsFields] at h
    rw [fieldsCount]
    split_ifs at h ⊢ with hkey
    · rw [length_of_spellsFields form members parts h, Nat.zero_add]
    · obtain ⟨own, others, rfl, hown, hothers⟩ := h
      rw [List.flatten_cons, List.length_append, length_of_spells form.inside value own hown,
        length_of_spellsFields form members others hothers]

end

mutual

/-- A value without scalars is spelled by none. -/
theorem spells_nil : ∀ (place : Place) (value : Json), scalarCount place value = 0 → Spells w place value []
  | place, .array items, h => by
    rw [scalarCount] at h
    rw [Spells]
    exact spellsAll_nil place.elements items h
  | place, .object members, h => by
    rw [scalarCount, Nat.add_eq_zero_iff] at h
    obtain ⟨parts, hparts, hflatten⟩ := spellsFields_nil (place.form members) members h.1
    rw [Spells]
    exact ⟨parts, parts, hparts, List.Perm.refl parts, by
      rw [hflatten, List.length_eq_zero_iff.mp h.2, List.append_nil]⟩
  | place, .null, h => absurd h Nat.one_ne_zero
  | place, .boolean b, h => absurd h Nat.one_ne_zero
  | place, .integer i, h => absurd h Nat.one_ne_zero
  | place, .real v t, h => absurd h Nat.one_ne_zero
  | place, .string s, h => absurd h Nat.one_ne_zero

theorem spellsAll_nil : ∀ (place : Place) (values : List Json), elementsCount place values = 0 →
    SpellsAll w place values []
  | place, [], _ => by rw [SpellsAll]
  | place, value :: values, h => by
    rw [elementsCount, Nat.add_eq_zero_iff] at h
    rw [SpellsAll]
    exact ⟨[], [], rfl, spells_nil place value h.1, spellsAll_nil place values h.2⟩

theorem spellsFields_nil : ∀ (form : Form) (members : List (String × Json)), fieldsCount form members = 0 →
    ∃ parts, SpellsFields w form members parts ∧ parts.flatten = []
  | form, [], _ => ⟨[], by rw [SpellsFields], rfl⟩
  | form, (key, value) :: members, h => by
    rw [fieldsCount, Nat.add_eq_zero_iff] at h
    obtain ⟨parts, hparts, hflatten⟩ := spellsFields_nil form members h.2
    by_cases hkey : key ∈ form.naming
    · exact ⟨parts, by rw [SpellsFields, if_pos hkey]; exact hparts, hflatten⟩
    · rw [if_neg hkey] at h
      refine ⟨[] :: parts, ?_, hflatten⟩
      rw [SpellsFields, if_neg hkey]
      exact ⟨[], parts, rfl, spells_nil form.inside value h.1, hparts⟩

end

/-! ## What is lost -/

/-- These scalars are all of the value but what is lost. -/
structure Accounts (place : Place) (value : Json) (scalars : List Text) : Prop where
  whole : lost place value = 0 → Spells w place value scalars
  count : scalars.length + lost place value = scalarCount place value

variable {w}

theorem Accounts.iff {place : Place} {value : Json} {scalars : List Text} (h : Accounts w place value scalars) :
    Spells w place value scalars ↔ lost place value = 0 := by
  refine ⟨fun hspells => ?_, h.whole⟩
  have hlength := length_of_spells w place value scalars hspells
  have hcount := h.count
  omega

theorem accounts_scalar {place : Place} {value : Json} (h : value.isStructured = false) :
    Accounts w place value [spelling w place value] := by
  refine ⟨fun _ => (spells_scalar w h).mpr rfl, ?_⟩
  cases value with
  | array items => cases h
  | object members => cases h
  | _ => rfl

/-- An array loses what its elements lose. -/
theorem accounts_array {place : Place} {items : List Json} {scalars : List (List Text)}
    (h : List.Forall₂ (Accounts w place.elements) items scalars) : Accounts w place (.array items) scalars.flatten := by
  have hall : (lostElements place.elements items = 0 → SpellsAll w place.elements items scalars.flatten) ∧
      scalars.flatten.length + lostElements place.elements items = elementsCount place.elements items := by
    induction h with
    | nil => exact ⟨fun _ => by rw [SpellsAll]; rfl, rfl⟩
    | @cons value own values others hvalue _ ih =>
      rw [lostElements, elementsCount, List.flatten_cons, List.length_append]
      refine ⟨fun hlost => ?_, ?_⟩
      · rw [SpellsAll]
        exact ⟨own, others.flatten, rfl, hvalue.whole (by omega), ih.1 (by omega)⟩
      · have hcount := hvalue.count
        omega
  refine ⟨fun hlost => ?_, ?_⟩
  · rw [Spells]
    exact hall.1 (by rwa [lost] at hlost)
  · rw [lost, scalarCount]
    exact hall.2

/-! ### Fields -/

section Fields
variable {form : Form} {members : JsonObject} {spelled : String → List Text}

/-- The fields that do not only name something. -/
def Form.told (form : Form) (members : JsonObject) : JsonObject := members.filter fun member => member.1 ∉ form.naming

/-- The scalars of each field: nothing is written of one that is not taken. -/
def Form.parts (form : Form) (members : JsonObject) (spelled : String → List Text) : List (List Text) :=
  (form.told members).map fun member => if form.takes member.1 then spelled member.1 else []

/-- An object loses what stands in fields that are not taken, and what those lose that are. -/
theorem accounts_parts (h : ∀ member ∈ form.told members, form.takes member.1 = true →
    Accounts w form.inside member.2 (spelled member.1)) :
    (lostFields form members = 0 → SpellsFields w form members (form.parts members spelled)) ∧
      (form.parts members spelled).flatten.length + lostFields form members = fieldsCount form members := by
  induction members with
  | nil => exact ⟨fun _ => by rw [SpellsFields]; rfl, rfl⟩
  | cons member members ih =>
    obtain ⟨key, value⟩ := member
    rw [lostFields, fieldsCount, SpellsFields]
    by_cases hkey : key ∈ form.naming
    · have htold : form.told ((key, value) :: members) = form.told members :=
        List.filter_cons_of_neg (by simpa using hkey)
      unfold Form.parts at ih ⊢
      rw [htold] at h ⊢
      rw [if_pos hkey, if_pos hkey, if_pos hkey, Nat.zero_add, Nat.zero_add]
      exact ih h
    · have htold : form.told ((key, value) :: members) = (key, value) :: form.told members :=
        List.filter_cons_of_pos (by simpa using hkey)
      unfold Form.parts at ih ⊢
      rw [htold] at h ⊢
      rw [if_neg hkey, if_neg hkey, if_neg hkey, List.map_cons, List.flatten_cons, List.length_append]
      obtain ⟨hspells, hcount⟩ := ih fun member hmem => h member (List.mem_cons_of_mem _ hmem)
      cases htakes : form.takes key with
      | true =>
        have hvalue : Accounts w form.inside value (spelled key) := h (key, value) List.mem_cons_self htakes
        rw [if_pos rfl, if_pos rfl]
        refine ⟨fun hlost => ⟨_, _, rfl, hvalue.whole (by omega), hspells (by omega)⟩, ?_⟩
        have hown : (spelled (key, value).1).length + _ = _ := hvalue.count
        omega
      | false =>
        rw [if_neg (by simp), if_neg (by simp)]
        refine ⟨fun hlost => ⟨_, _, rfl, spells_nil w form.inside value (by omega), hspells (by omega)⟩, ?_⟩
        rw [List.length_nil]
        omega

/-- **What a constructor or a dictionary writes of an object**, `keys` the fields that it takes in the order in which
it writes them. -/
theorem accounts_object {place : Place} (hform : place.form members = form) (hsorted : (members.map Prod.fst).Nodup)
    {keys : List String} (hnodup : keys.Nodup)
    (hkeys : ∀ key, key ∈ keys ↔ key ∈ members.map Prod.fst ∧ key ∉ form.naming ∧ form.takes key = true)
    (h : ∀ member ∈ members, member.1 ∈ keys → Accounts w form.inside member.2 (spelled member.1)) :
    Accounts w place (.object members) (keys.flatMap spelled ++ form.alpha) := by
  have htold : ∀ member ∈ form.told members, form.takes member.1 = true →
      Accounts w form.inside member.2 (spelled member.1) := by
    intro member hmem htakes
    obtain ⟨hmember, hnaming⟩ := List.mem_filter.mp hmem
    exact h member hmember ((hkeys member.1).mpr ⟨List.mem_map_of_mem hmember, by simpa using hnaming, htakes⟩)
  obtain ⟨hspells, hcount⟩ := accounts_parts htold
  -- the fields that are taken come in another order, and the others spell nothing
  obtain ⟨parts', hperm, hflatten⟩ : ∃ parts' : List (List Text), parts'.Perm (form.parts members spelled) ∧
      parts'.flatten = keys.flatMap spelled := by
    have htaken : (((form.told members).filter fun member => form.takes member.1).map Prod.fst).Perm keys := by
      apply (List.perm_ext_iff_of_nodup ?_ hnodup).mpr
      · intro key
        rw [hkeys]
        simp only [Form.told, List.mem_map, List.mem_filter, decide_eq_true_eq]
        constructor
        · rintro ⟨member, ⟨⟨hmem, hnaming⟩, htakes⟩, rfl⟩
          exact ⟨⟨member, hmem, rfl⟩, hnaming, htakes⟩
        · rintro ⟨⟨member, hmem, rfl⟩, hnaming, htakes⟩
          exact ⟨member, ⟨⟨hmem, hnaming⟩, htakes⟩, rfl⟩
      · exact hsorted.sublist ((List.filter_sublist.trans List.filter_sublist).map Prod.fst)
    have hsplit := (List.filter_append_perm (fun member => form.takes member.1) (form.told members)).map
      fun member => if form.takes member.1 then spelled member.1 else []
    have hleft : ∀ member ∈ (form.told members).filter fun member => form.takes member.1,
        (if form.takes member.1 then spelled member.1 else []) = spelled member.1 :=
      fun member hmem => if_pos (List.mem_filter.mp hmem).2
    have hright : ∀ member ∈ (form.told members).filter fun member => !form.takes member.1,
        (if form.takes member.1 then spelled member.1 else []) = [] :=
      fun member hmem => if_neg (by simpa using (List.mem_filter.mp hmem).2)
    rw [List.map_append, List.map_congr_left hleft, List.map_congr_left hright] at hsplit
    have hspelled := htaken.map spelled
    rw [List.map_map] at hspelled
    refine ⟨keys.map spelled ++ ((form.told members).filter fun member => !form.takes member.1).map fun _ => [],
      (hspelled.symm.append_right _).trans hsplit, ?_⟩
    rw [List.flatten_append, List.map_const', List.flatten_replicate_nil, List.append_nil]
    exact List.flatMap_def.symm
  refine ⟨fun hlost => ?_, ?_⟩
  · rw [lost, hform] at hlost
    rw [Spells, hform]
    exact ⟨_, parts', hspells hlost, hperm, by rw [hflatten]⟩
  · rw [lost, scalarCount, hform, List.length_append, ← hflatten, hperm.flatten.length_eq]
    omega

end Fields

end Spelling

end Didi.Tres
