import Mathlib.Logic.Relation
import Didi.Schema.Validation

/-!
# What a schema means

* `IsSchema root schema` : the schemas that are built from the keywords of the published ones, with
  references into `root`;
* `Asserts` : what the keywords say that look at one value;
* `Requires` : the parts of a value that a schema applies others to;
* `Valid`, `Invalid` : validity by the 2020-12 edition, as derivations;
* `Satisfies` : every keyword holds at every position, a `oneOf` with at least one branch;
* `Looks`, `Within` : the positions that the check of a schema and a value comes to.
-/

namespace Didi.Schema
variable {keywords : JsonObject}

variable (root : Json)

/-! ## Schemas -/

def typeNames : List String := ["string", "integer", "number", "boolean", "array", "object", "null"]

/-- The keywords that schemas are built from, and what only describes. -/
def vocabulary : List String :=
  ["type", "const", "enum", "minLength", "maxLength", "minimum", "maximum", "minItems", "maxItems",
    "uniqueItems", "required", "properties", "additionalProperties", "items", "prefixItems", "oneOf", "$ref",
    "$defs", "title", "description", "default", "examples", "$schema", "$comment"]

/-- A schema inside the schema of `keywords`. -/
inductive Subschema (keywords : JsonObject) : Json → Prop
  | property {properties : JsonObject} {key : String} {schema : Json}
      (h : keywords.lookup "properties" = some (.object properties)) (hschema : (key, schema) ∈ properties) :
      Subschema keywords schema
  | additional {schema : Json} (h : keywords.lookup "additionalProperties" = some schema) :
      Subschema keywords schema
  | position {schemas : List Json} {schema : Json}
      (h : keywords.lookup "prefixItems" = some (.array schemas)) (hschema : schema ∈ schemas) :
      Subschema keywords schema
  | item {schema : Json} (h : keywords.lookup "items" = some schema) : Subschema keywords schema
  | branch {branches : List Json} {schema : Json} (h : keywords.lookup "oneOf" = some (.array branches))
      (hschema : schema ∈ branches) : Subschema keywords schema
  | definition {definitions : JsonObject} {key : String} {schema : Json}
      (h : keywords.lookup "$defs" = some (.object definitions)) (hschema : (key, schema) ∈ definitions) :
      Subschema keywords schema

def sizeKeywords : List String := ["minLength", "maxLength", "minItems", "maxItems"]

/-- The keywords have the values that they are defined for. A size that is an integer is one of 64 bits, and
a reference is by a name that needs no escape, to a definition that is there. -/
structure WellTyped (keywords : JsonObject) : Prop where
  known : ∀ key, (keywords.lookup key).isSome → key ∈ vocabulary
  type : ∀ v, keywords.lookup "type" = some v → (∃ name ∈ typeNames, v = .string name) ∨
    ∃ names : List String, names ≠ [] ∧ (∀ name ∈ names, name ∈ typeNames) ∧ v = .array (names.map .string)
  const : ∀ v, keywords.lookup "const" = some v → v.HoldsDoubles
  enum : ∀ v, keywords.lookup "enum" = some v → v.HoldsDoubles ∧ ∃ options, v = .array options
  size : ∀ key ∈ sizeKeywords, ∀ v, keywords.lookup key = some v →
    ∃ n : Nat, v.number = some n ∧ ∀ i, v = .integer i → i < 2 ^ 64
  range : ∀ key ∈ ["minimum", "maximum"], ∀ v, keywords.lookup key = some v →
    v.HoldsDoubles ∧ ∃ q, v.number = some q
  uniqueItems : ∀ v, keywords.lookup "uniqueItems" = some v → ∃ b, v = .boolean b
  required : ∀ v, keywords.lookup "required" = some v → ∃ names : List String, v = .array (names.map .string)
  properties : ∀ v, keywords.lookup "properties" = some v →
    ∃ properties, v = .object properties ∧ (properties.map Prod.fst).Nodup
  prefixItems : ∀ v, keywords.lookup "prefixItems" = some v → ∃ schemas, v = .array schemas
  oneOf : ∀ v, keywords.lookup "oneOf" = some v → ∃ branches, v = .array branches ∧ branches ≠ []
  ref : ∀ v, keywords.lookup "$ref" = some v → ∃ name : String, name ≠ "" ∧
    (∀ c ∈ name.toList, c ∉ ['/', '~', '%']) ∧ (definition root name).isSome ∧ v = .string (kPrefix ++ name)
  defs : ∀ v, keywords.lookup "$defs" = some v → ∃ definitions, v = .object definitions

/-- A schema that is built from the vocabulary. -/
inductive IsSchema : Json → Prop
  | boolean (b : Bool) : IsSchema (.boolean b)
  | object {keywords : JsonObject} (typed : WellTyped root keywords)
      (inside : ∀ schema, Subschema keywords schema → IsSchema schema) : IsSchema (.object keywords)

/-! ## One value -/

/-- JSON Schema counts a real without a fraction among the integers. -/
def HasType (name : String) (v : Json) : Prop :=
  matchesType name v = true ∨ name = "integer" ∧ ∃ q text, v = .real q text ∧ q.den = 1

/-- What the keywords say that look at one value. -/
structure Asserts (keywords : JsonObject) (v : Json) : Prop where
  type : ∀ name, keywords.lookup "type" = some (.string name) → HasType name v
  types : ∀ names, keywords.lookup "type" = some (.array names) → ∃ name, .string name ∈ names ∧ HasType name v
  const : ∀ fixed, keywords.lookup "const" = some fixed → Json.sameValue fixed v = true
  enum : ∀ options, keywords.lookup "enum" = some (.array options) →
    ∃ option ∈ options, Json.sameValue option v = true
  minLength : ∀ bound n s, keywords.lookup "minLength" = some bound → bound.number = some n →
    v = .string s → n ≤ s.length
  maxLength : ∀ bound n s, keywords.lookup "maxLength" = some bound → bound.number = some n →
    v = .string s → s.length ≤ n
  minimum : ∀ bound m n, keywords.lookup "minimum" = some bound → bound.number = some m →
    v.number = some n → m ≤ n
  maximum : ∀ bound m n, keywords.lookup "maximum" = some bound → bound.number = some m →
    v.number = some n → n ≤ m
  minItems : ∀ bound n vs, keywords.lookup "minItems" = some bound → bound.number = some n →
    v = .array vs → n ≤ vs.length
  maxItems : ∀ bound n vs, keywords.lookup "maxItems" = some bound → bound.number = some n →
    v = .array vs → vs.length ≤ n
  uniqueItems : keywords.lookup "uniqueItems" = some (.boolean true) → ∀ vs, v = .array vs →
    vs.Pairwise fun a b => Json.sameValue b a = false
  required : ∀ names name members, keywords.lookup "required" = some (.array names) →
    .string name ∈ names → v = .object members → (members.lookup name).isSome

/-! ## Parts -/

/-- How many entries the positional schemas cover. -/
def prefixLength (keywords : JsonObject) : Nat :=
  match keywords.lookup "prefixItems" with
  | some (.array schemas) => schemas.length
  | _ => 0

/-- The schema of `keywords`, applied to a value, applies another one to a part of it. -/
inductive Requires (keywords : JsonObject) : Json → Json → Json → Prop
  | ref {name : String} {target v : Json} (h : keywords.lookup "$ref" = some (.string (kPrefix ++ name)))
      (htarget : definition root name = some target) : Requires keywords v target v
  | property {properties members : JsonObject} {key : String} {schema v : Json}
      (h : keywords.lookup "properties" = some (.object properties)) (hschema : (key, schema) ∈ properties)
      (hmember : (key, v) ∈ members) : Requires keywords (.object members) schema v
  | additional {members : JsonObject} {key : String} {schema v : Json}
      (h : keywords.lookup "additionalProperties" = some schema) (hmember : (key, v) ∈ members)
      (hkey : (propertiesOf (.object keywords)).lookup key = none) :
      Requires keywords (.object members) schema v
  | position {schemas vs : List Json} {i : Nat} {schema v : Json}
      (h : keywords.lookup "prefixItems" = some (.array schemas)) (hschema : schemas[i]? = some schema)
      (hv : vs[i]? = some v) : Requires keywords (.array vs) schema v
  | item {vs : List Json} {i : Nat} {schema v : Json} (h : keywords.lookup "items" = some schema)
      (hi : prefixLength keywords ≤ i) (hv : vs[i]? = some v) : Requires keywords (.array vs) schema v

def branchesOf (keywords : JsonObject) : Option (List Json) :=
  match keywords.lookup "oneOf" with
  | some (.array branches) => some branches
  | _ => none

/-! ## Validity -/

mutual

inductive Valid : Json → Json → Prop
  | always (v : Json) : Valid (.boolean true) v
  | object {keywords : JsonObject} {v : Json} (asserts : Asserts keywords v)
      (parts : ∀ s' v', Requires root keywords v s' v' → Valid s' v') (chosen : Nat)
      (there : ∀ branches, branchesOf keywords = some branches → chosen < branches.length)
      (valid : ∀ branches branch, branchesOf keywords = some branches → branches[chosen]? = some branch →
        Valid branch v)
      (others : ∀ branches i branch, branchesOf keywords = some branches → i ≠ chosen →
        branches[i]? = some branch → Invalid branch v) : Valid (.object keywords) v

inductive Invalid : Json → Json → Prop
  | never (v : Json) : Invalid (.boolean false) v
  | asserts {keywords : JsonObject} {v : Json} (h : ¬ Asserts keywords v) : Invalid (.object keywords) v
  | part {keywords : JsonObject} {v s' v' : Json} (h : Requires root keywords v s' v')
      (invalid : Invalid s' v') : Invalid (.object keywords) v
  | none {keywords : JsonObject} {v : Json} {branches : List Json} (h : branchesOf keywords = some branches)
      (invalid : ∀ branch ∈ branches, Invalid branch v) : Invalid (.object keywords) v
  | several {keywords : JsonObject} {v branch branch' : Json} {branches : List Json} {i j : Nat}
      (h : branchesOf keywords = some branches) (hij : i ≠ j) (hi : branches[i]? = some branch)
      (hj : branches[j]? = some branch') (valid : Valid branch v) (valid' : Valid branch' v) :
      Invalid (.object keywords) v

end

/-- Every keyword holds at every position, a `oneOf` with at least one branch. -/
inductive Satisfies : Json → Json → Prop
  | always (v : Json) : Satisfies (.boolean true) v
  | object {keywords : JsonObject} {v : Json} (asserts : Asserts keywords v)
      (parts : ∀ s' v', Requires root keywords v s' v' → Satisfies s' v') (chosen : Json)
      (there : ∀ branches, branchesOf keywords = some branches → chosen ∈ branches)
      (satisfied : ∀ branches, branchesOf keywords = some branches → Satisfies chosen v) :
      Satisfies (.object keywords) v

variable {root}

/-- What is valid satisfies every keyword. -/
theorem Valid.satisfies : ∀ {s v : Json}, Valid root s v → Satisfies root s v
  | _, _, .always v => .always v
  | _, _, @Valid.object _ keywords v asserts parts chosen there valid _ => by
    have hchosen : ∀ branches, branchesOf keywords = some branches →
        ∃ h : chosen < branches.length, (((branchesOf keywords).getD []).getD chosen .null) = branches[chosen] := by
      intro branches h
      refine ⟨there branches h, ?_⟩
      rw [h, Option.getD_some, List.getD_eq_getElem?_getD, List.getElem?_eq_getElem (there branches h),
        Option.getD_some]
    refine .object asserts (fun s' v' h => (parts s' v' h).satisfies)
      (((branchesOf keywords).getD []).getD chosen .null) ?_ ?_
    · intro branches h
      obtain ⟨hlt, heq⟩ := hchosen branches h
      rw [heq]
      exact List.getElem_mem hlt
    · intro branches h
      obtain ⟨hlt, heq⟩ := hchosen branches h
      rw [heq]
      exact (valid branches _ h (List.getElem?_eq_getElem hlt)).satisfies

/-! ## Positions -/

/-- The check, at a schema and a value, looks at another schema and a part of the value: what a reference names, a
declared member, an entry under its positional schema, any entry under `items`, or the value again under the
branch that holds. -/
inductive Looks (root : Json) : Json × Json → Json × Json → Prop
  | ref {keywords : JsonObject} {name : String} {target v : Json}
      (h : keywords.lookup "$ref" = some (.string (kPrefix ++ name))) (htarget : definition root name = some target) :
      Looks root (.object keywords, v) (target, v)
  | property {keywords properties members : JsonObject} {key : String} {schema v : Json}
      (h : keywords.lookup "properties" = some (.object properties)) (hschema : (key, schema) ∈ properties)
      (hmember : (key, v) ∈ members) : Looks root (.object keywords, .object members) (schema, v)
  | position {keywords : JsonObject} {schemas vs : List Json} {i : Nat} {schema v : Json}
      (h : keywords.lookup "prefixItems" = some (.array schemas)) (hschema : schemas[i]? = some schema)
      (hv : vs[i]? = some v) : Looks root (.object keywords, .array vs) (schema, v)
  | entry {keywords : JsonObject} {vs : List Json} {i : Nat} {schema v : Json}
      (h : keywords.lookup "items" = some schema) (hv : vs[i]? = some v) :
      Looks root (.object keywords, .array vs) (schema, v)
  | branch {keywords : JsonObject} {branches : List Json} {v branch : Json}
      (h : branchesOf keywords = some branches) (hbranch : branch ∈ branches) (valid : Valid root branch v) :
      Looks root (.object keywords, v) (branch, v)

/-- With `n` levels left at `p`, the check comes to `q` with so many levels left. -/
inductive Within (root : Json) : Nat → Json × Json → Nat → Json × Json → Prop
  | here (n : Nat) (p : Json × Json) : Within root n p n p
  | look {n left : Nat} {p q r : Json × Json} (h : Looks root p q) (rest : Within root n q left r) :
      Within root (n + 1) p left r

theorem IsSchema.typed (h : IsSchema root (.object keywords)) :
    WellTyped root keywords := by
  cases h with
  | object typed inside => exact typed

theorem IsSchema.inside (h : IsSchema root (.object keywords)) {schema : Json}
    (hschema : Subschema keywords schema) : IsSchema root schema := by
  cases h with
  | object typed inside => exact inside schema hschema

/-- A part of a value is checked by a schema of the document. -/
theorem Requires.isSchema (hroot : IsSchema root root) {v s' v' : Json} (h : Requires root keywords v s' v')
    (hs : IsSchema root (.object keywords)) : IsSchema root s' := by
  cases h with
  | ref h htarget =>
    unfold definition at htarget
    obtain ⟨defs, hdefs, htarget⟩ := Option.bind_eq_some_iff.mp htarget
    cases root with
    | object keywords =>
      cases defs with
      | object definitions => exact hroot.inside (.definition hdefs (List.mem_of_lookup htarget))
      | _ => cases htarget
    | _ => cases hdefs
  | property h hschema hmember => exact hs.inside (.property h hschema)
  | additional h hmember hkey => exact hs.inside (.additional h)
  | position h hschema hv => exact hs.inside (.position h (List.mem_of_getElem? hschema))
  | item h hi hv => exact hs.inside (.item h)

theorem Requires.holdsDoubles {v s' v' : Json} (h : Requires root keywords v s' v')
    (hv : v.HoldsDoubles) : v'.HoldsDoubles := by
  cases h with
  | ref h htarget => exact hv
  | property h hschema hmember => exact Json.membersHoldDoubles_iff.mp hv _ hmember
  | additional h hmember hkey => exact Json.membersHoldDoubles_iff.mp hv _ hmember
  | position h hschema hentry => exact Json.elementsHoldDoubles_iff.mp hv _ (List.mem_of_getElem? hentry)
  | item h hi hentry => exact Json.elementsHoldDoubles_iff.mp hv _ (List.mem_of_getElem? hentry)

theorem branchesOf_eq {branches : List Json} :
    branchesOf keywords = some branches ↔ keywords.lookup "oneOf" = some (.array branches) := by
  unfold branchesOf
  split
  · rename_i h
    simp [h]
  · rename_i h
    simp only [reduceCtorEq, false_iff]
    exact h branches

/-- What a schema looks at is a schema. -/
theorem Looks.isSchema (hroot : IsSchema root root) {s v s' v' : Json} (h : Looks root (s, v) (s', v'))
    (hs : IsSchema root s) : IsSchema root s' := by
  cases h with
  | ref h htarget => exact (Requires.ref (v := v) h htarget).isSchema hroot hs
  | property h hschema hmember => exact hs.inside (.property h hschema)
  | position h hschema hv => exact hs.inside (.position h (List.mem_of_getElem? hschema))
  | entry h hv => exact hs.inside (.item h)
  | branch h hbranch valid => exact hs.inside (.branch (branchesOf_eq.mp h) hbranch)

/-- A part of a value holds doubles where the value does. -/
theorem Looks.holdsDoubles {s v s' v' : Json} (h : Looks root (s, v) (s', v')) (hv : v.HoldsDoubles) :
    v'.HoldsDoubles := by
  cases h with
  | ref h htarget => exact hv
  | property h hschema hmember => exact Json.membersHoldDoubles_iff.mp hv _ hmember
  | position h hschema hentry => exact Json.elementsHoldDoubles_iff.mp hv _ (List.mem_of_getElem? hentry)
  | entry h hentry => exact Json.elementsHoldDoubles_iff.mp hv _ (List.mem_of_getElem? hentry)
  | branch h hbranch valid => exact hv

end Didi.Schema
