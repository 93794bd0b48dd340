import Didi.Schema.Complete

/-!
# What the check lets through

`satisfies_of_validate` : where no problem is found, the arguments satisfy the schema at every position. The
schemas nest no deeper than the check goes, and every position is `Enforced`: no keyword stands there in a
form that the check passes over, and no comparison comes out differently between doubles.
-/

namespace Didi.Schema
open Json (find)
variable {s : Json} {members : JsonObject} {key : String} {search : String → String → Option Bool}
  {deeper : Option Check}

/-! ## Nesting -/

/-- The schema of `keywords` applies another one to a value or to a part of it. -/
inductive Inner (root : Json) (keywords : JsonObject) : Json → Prop
  | ref {name : String} {target : Json} (h : keywords.lookup "$ref" = some (.string (kPrefix ++ name)))
      (htarget : definition root name = some target) : Inner root keywords target
  | property {properties : JsonObject} {key : String} {schema : Json}
      (h : keywords.lookup "properties" = some (.object properties)) (hschema : (key, schema) ∈ properties) :
      Inner root keywords schema
  | position {schemas : List Json} {schema : Json}
      (h : keywords.lookup "prefixItems" = some (.array schemas)) (hschema : schema ∈ schemas) :
      Inner root keywords schema
  | item {schema : Json} (h : keywords.lookup "items" = some schema) : Inner root keywords schema

inductive Nests (root : Json) : Json → Json → Prop
  | inner {keywords : JsonObject} {schema : Json} (h : Inner root keywords schema) :
      Nests root (.object keywords) schema
  | branch {keywords : JsonObject} {branches : List Json} {branch : Json}
      (h : branchesOf keywords = some branches) (hbranch : branch ∈ branches) :
      Nests root (.object keywords) branch

/-- Below `schema` there are at most `n` levels of schemas. -/
def NestsWithin (root : Json) : Nat → Json → Prop
  | 0, schema => ∀ s, ¬ Nests root schema s
  | n + 1, schema => ∀ s, Nests root schema s → NestsWithin root n s

/-! ## Positions -/

/-- A schema, applied to a value, leads to another one and a part of the value. -/
inductive Leads (root : Json) : Json × Json → Json × Json → Prop
  | part {keywords : JsonObject} {v s' v' : Json} (h : Requires root keywords v s' v') :
      Leads root (.object keywords, v) (s', v')
  | branch {keywords : JsonObject} {branches : List Json} {v branch : Json}
      (h : branchesOf keywords = some branches) (hbranch : branch ∈ branches) :
      Leads root (.object keywords, v) (branch, v)

/-- Nothing of this schema is passed over, and its comparisons with this value come out the same between
doubles. -/
structure Enforced (root s v : Json) : Prop where
  inner : ∀ keywords, s = .object keywords → ∀ s', Inner root keywords s' → s' ≠ .boolean false
  additional : ∀ schema, find s "additionalProperties" = some schema → ∃ b, schema = .boolean b
  options : find s "enum" ≠ some (.array [])
  sizes : ∀ key ∈ sizeKeywords, ∀ size, find s key = some size → ∃ i, size = .integer i
  const : ∀ fixed, find s "const" = some fixed → Json.equals fixed v = true → Json.sameValue fixed v = true
  enum : ∀ options, find s "enum" = some (.array options) → ∀ option ∈ options,
    Json.equals option v = true → Json.sameValue option v = true
  minimum : ∀ bound m n a b, find s "minimum" = some bound → bound.number = some m → v.number = some n →
    bound.double = some a → v.double = some b → a ≤ b → m ≤ n
  maximum : ∀ bound m n a b, find s "maximum" = some bound → bound.number = some m → v.number = some n →
    bound.double = some a → v.double = some b → b ≤ a → n ≤ m

variable {root : Json} {keywords : JsonObject} {v : Json} {subject : String}

/-! ## One value -/

theorem checkType_sound (ht : WellTyped root keywords) (h : checkType (.object keywords) v subject = none) :
    (∀ name, keywords.lookup "type" = some (.string name) → HasType name v) ∧
      ∀ names, keywords.lookup "type" = some (.array names) → ∃ name, .string name ∈ names ∧ HasType name v := by
  obtain ⟨hname, hnames⟩ := checkType_eq_none.mp h
  refine ⟨fun name htype => .inl (hname name htype), ?_⟩
  intro names htype
  rcases hnames names htype with hempty | ⟨name, hmem, hmatch⟩
  · rcases ht.type _ htype with ⟨name, -, heq⟩ | ⟨texts, hne, -, heq⟩
    · cases heq
    · cases heq
      cases texts with
      | nil => exact absurd rfl hne
      | cons text texts =>
        have : text ∈ strings ((text :: texts).map .string) := mem_strings.mpr (by simp)
        rw [hempty] at this
        cases this
  · exact ⟨name, mem_strings.mp hmem, .inl hmatch⟩

/-- A size that is written as an integer is read. -/
theorem sizeKeyword_of_integer (ht : WellTyped root keywords) (hkey : key ∈ sizeKeywords) {i : Int}
    (h : keywords.lookup key = some (.integer i)) {n : Rat} (hn : (Json.integer i).number = some n) :
    ∃ b, sizeKeyword (.object keywords) key = some b ∧ (b.value : Rat) = n := by
  have hread : sizeKeyword (.object keywords) key = some ⟨.integer i, (i % 2 ^ 64).toNat⟩ := by
    unfold sizeKeyword find
    dsimp only
    rw [h]
  have hvalue := (sizeKeyword_spec ht hkey hread).2
  rw [hn] at hvalue
  exact ⟨_, hread, (Option.some.inj hvalue).symm⟩

theorem double_of_number {n : Rat} (h : v.number = some n) : ∃ a, v.double = some a := by
  cases v with
  | integer i => exact ⟨_, rfl⟩
  | real q text => exact ⟨_, rfl⟩
  | _ => cases h

/-- A bound on a number is read. -/
theorem doubleKeyword_of_number {bound : Json} (h : keywords.lookup key = some bound) {n : Rat}
    (hn : bound.number = some n) : ∃ b, doubleKeyword (.object keywords) key = some b ∧ bound.double = some b.value := by
  obtain ⟨a, ha⟩ := double_of_number hn
  refine ⟨⟨bound, a⟩, ?_, ha⟩
  unfold doubleKeyword find
  dsimp only
  rw [h, Option.bind_eq_bind, Option.bind_some, ha]
  rfl

theorem checkRange_of_checkBounds {n : Rat} (hn : v.number = some n)
    (h : checkBounds search (.object keywords) v subject = none) :
    checkRange (.object keywords) v subject = none := by
  cases v with
  | integer i => exact h
  | real q text => exact h
  | _ => cases hn

/-- Every keyword that looks at one value holds there. -/
theorem asserts_of_checks (ht : WellTyped root keywords) (hv : v.HoldsDoubles) (he : Enforced root (.object keywords) v)
    (htype : checkType (.object keywords) v subject = none) (hconst : checkConst (.object keywords) v subject = none)
    (henum : checkEnum (.object keywords) v subject = none)
    (hbounds : checkBounds search (.object keywords) v subject = none)
    (hrequired : ∀ names name members, keywords.lookup "required" = some (.array names) →
      .string name ∈ names → v = .object members → (members.lookup name).isSome) : Asserts keywords v := by
  have hsize : ∀ {key}, key ∈ sizeKeywords → ∀ bound n, keywords.lookup key = some bound →
      bound.number = some n → ∃ b, sizeKeyword (.object keywords) key = some b ∧ (b.value : Rat) = n := by
    intro key hkey bound n hlookup hn
    obtain ⟨i, rfl⟩ := he.sizes key hkey bound hlookup
    exact sizeKeyword_of_integer ht hkey hlookup hn
  constructor
  case type => exact (checkType_sound ht htype).1
  case types => exact (checkType_sound ht htype).2
  case const =>
    intro fixed hfixed
    exact he.const fixed hfixed (checkConst_eq_none.mp hconst fixed hfixed)
  case enum =>
    intro options hoptions
    rcases checkEnum_eq_none.mp henum options hoptions with rfl | ⟨option, hmem, hequal⟩
    · exact absurd hoptions he.options
    · exact ⟨option, hmem, he.enum options hoptions option hmem hequal⟩
  case minLength =>
    rintro bound n s hlookup hn rfl
    obtain ⟨b, hb, hvalue⟩ := hsize (by decide) bound n hlookup hn
    have hle := ((checkLength_eq_none search (pattern_eq_none ht)).mp hbounds).1 b hb
    rw [← hvalue]
    exact_mod_cast hle
  case maxLength =>
    rintro bound n s hlookup hn rfl
    obtain ⟨b, hb, hvalue⟩ := hsize (by decide) bound n hlookup hn
    have hle := ((checkLength_eq_none search (pattern_eq_none ht)).mp hbounds).2 b hb
    rw [← hvalue]
    exact_mod_cast hle
  case minItems =>
    rintro bound n vs hlookup hn rfl
    obtain ⟨b, hb, hvalue⟩ := hsize (by decide) bound n hlookup hn
    have hle := (checkCounts_eq_none.mp hbounds).1.1 b hb
    rw [← hvalue]
    exact_mod_cast hle
  case maxItems =>
    rintro bound n vs hlookup hn rfl
    obtain ⟨b, hb, hvalue⟩ := hsize (by decide) bound n hlookup hn
    have hle := (checkCounts_eq_none.mp hbounds).1.2 b hb
    rw [← hvalue]
    exact_mod_cast hle
  case uniqueItems =>
    rintro hunique vs rfl
    refine ((checkCounts_eq_none.mp hbounds).2 hunique).imp_of_mem ?_
    intro a b ha hb hdiffer
    rw [← Bool.not_eq_true]
    intro hsame
    have hdoubles := Json.elementsHoldDoubles_iff.mp hv
    rw [Json.equals_of_sameValue (hdoubles b hb) (hdoubles a ha) hsame] at hdiffer
    cases hdiffer
  case minimum =>
    intro bound m n hlookup hm hn
    obtain ⟨b, hb, ha⟩ := doubleKeyword_of_number hlookup hm
    obtain ⟨number, hnumber⟩ := double_of_number hn
    have hrange := checkRange_of_checkBounds hn hbounds
    exact he.minimum bound m n _ _ hlookup hm hn ha hnumber
      ((checkRange_eq_none.mp hrange number hnumber).1 b hb)
  case maximum =>
    intro bound m n hlookup hm hn
    obtain ⟨b, hb, ha⟩ := doubleKeyword_of_number hlookup hm
    obtain ⟨number, hnumber⟩ := double_of_number hn
    have hrange := checkRange_of_checkBounds hn hbounds
    exact he.maximum bound m n _ _ hlookup hm hn ha hnumber
      ((checkRange_eq_none.mp hrange number hnumber).2 b hb)
  case required => exact hrequired

/-! ## Parts -/

/-- A schema that is not `false` is satisfied once it is where it is an object. -/
theorem satisfies_of_object (hs : IsSchema root s) (hne : s ≠ .boolean false)
    (h : s.isObject = true → Satisfies root s v) : Satisfies root s v := by
  cases hs with
  | boolean b =>
    cases b with
    | true => exact .always v
    | false => exact absurd rfl hne
  | object typed inside => exact h rfl

theorem resolveLocalRef_of {name : String} {target : Json} (ht : WellTyped root keywords)
    (h : keywords.lookup "$ref" = some (.string (kPrefix ++ name))) (htarget : definition root name = some target)
    (hobject : target.isObject = true) : resolveLocalRef (.object keywords) root = some target := by
  obtain ⟨name', hne, hplain, -, heq⟩ := ht.ref _ h
  obtain rfl : name = name' := by
    have := congrArg String.toList (Json.string.inj heq)
    rw [String.toList_append, String.toList_append] at this
    exact String.toList_injective (List.append_cancel_left this)
  have hdrop : (kPrefix ++ name).toList.dropPrefix? kPrefix.toList = some name.toList := by
    rw [List.dropPrefix?_eq_some_iff]
    exact ⟨kPrefix.toList, String.toList_append, by simp⟩
  have hempty : name.toList.isEmpty = false := by
    rw [← Bool.not_eq_true, List.isEmpty_iff]
    intro hnil
    exact hne (String.toList_injective (by rw [hnil, String.toList_empty]))
  have hslash : '/' ∉ name.toList := fun hmem => hplain _ hmem (by simp)
  unfold resolveLocalRef find
  dsimp only
  rw [h]
  dsimp only
  rw [hdrop]
  simp [hempty, hslash, htarget, hobject]

/-- The member of an object is checked by the schema that is declared for it. -/
theorem propertiesOf_lookup {properties : JsonObject} {schema : Json} (ht : WellTyped root keywords)
    (h : keywords.lookup "properties" = some (.object properties))
    (hmem : (key, schema) ∈ properties) : (propertiesOf (.object keywords)).lookup key = some schema := by
  obtain ⟨properties', heq, hnodup⟩ := ht.properties _ h
  cases heq
  unfold propertiesOf find
  dsimp only
  rw [h]
  exact List.lookup_of_mem_of_nodup hnodup hmem

/-- What the level below finds nothing wrong with satisfies its schema. -/
def ChildrenSatisfy (root : Json) (deeper : Option Check) (keywords : JsonObject) (v : Json) : Prop :=
  ∀ s', Nests root (.object keywords) s' → ∃ check, deeper = some check ∧ ∀ v' subject,
    Leads root (.object keywords, v) (s', v') → s'.isObject = true → check s' v' subject = none →
    Satisfies root s' v'

/-- Every member that the check of an object goes through satisfies what is declared for it. -/
theorem members_satisfy (hchildren : ChildrenSatisfy root deeper keywords (.object members))
    (hs : IsSchema root (.object keywords)) (he : Enforced root (.object keywords) (.object members))
    (h : checkObject deeper (.object keywords) members subject = none) {schema x : Json} {properties : JsonObject}
    (hproperties : keywords.lookup "properties" = some (.object properties)) (hschema : (key, schema) ∈ properties)
    (hmember : (key, x) ∈ members) : Satisfies root schema x := by
  have hinner : Inner root keywords schema := .property hproperties hschema
  have hlead : Leads root (.object keywords, .object members) (schema, x) :=
    .part (.property hproperties hschema hmember)
  obtain ⟨check, hdeeper, hcheck⟩ := hchildren schema (.inner hinner)
  refine satisfies_of_object (hs.inside (.property hproperties hschema)) (he.inner _ rfl _ hinner) ?_
  intro hobject
  cases schema with
  | object declared =>
    have hdeclared := propertiesOf_lookup hs.typed hproperties hschema
    have hpass := checkProperties_eq_none.mp ((checkObject_eq_none.mp h).2 check hdeeper) _ hmember _ hdeclared
    exact hcheck x _ hlead rfl hpass
  | _ => cases hobject

/-- Where `additionalProperties` is a boolean, an undeclared member is one that it allows. -/
theorem additional_satisfies (he : Enforced root (.object keywords) (.object members))
    (h : checkObject deeper (.object keywords) members subject = none) {schema x : Json}
    (hadditional : keywords.lookup "additionalProperties" = some schema) (hmember : (key, x) ∈ members)
    (hkey : (propertiesOf (.object keywords)).lookup key = none) : Satisfies root schema x := by
  obtain ⟨b, rfl⟩ := he.additional schema hadditional
  cases b with
  | true => exact .always x
  | false =>
    have hclosed : isClosed (.object keywords) subject = true := by
      unfold isClosed
      rw [saysClosed_iff.mpr hadditional, Bool.true_or]
    have hdeclared := (checkNames_eq_none.mp (checkObject_eq_none.mp h).1).2 hclosed _ hmember
    rw [hkey] at hdeclared
    cases hdeclared

theorem required_of_checkObject (h : checkObject deeper (.object keywords) members subject = none) {names : List Json}
    {name : String} (hnames : keywords.lookup "required" = some (.array names)) (hname : .string name ∈ names) :
    (members.lookup name).isSome := by
  refine (checkNames_eq_none.mp (checkObject_eq_none.mp h).1).1 name ?_
  unfold requiredNames find
  dsimp only
  rw [hnames]
  exact mem_strings.mpr hname

/-- Every part of a value that passes satisfies the schema that is required of it. -/
theorem parts_satisfy (hchildren : ChildrenSatisfy root deeper keywords v) (hroot : IsSchema root root)
    (hs : IsSchema root (.object keywords)) (he : Enforced root (.object keywords) v)
    (href : checkReference deeper root (.object keywords) v subject = none)
    (hparts : checkParts deeper (.object keywords) v subject = none) {s' v' : Json}
    (h : Requires root keywords v s' v') : Satisfies root s' v' := by
  have hleads : Leads root (.object keywords, v) (s', v') := .part h
  have hs' := h.isSchema hroot hs
  cases h with
  | ref hname htarget =>
    have hinner : Inner root keywords s' := .ref hname htarget
    obtain ⟨check, hdeeper, hcheck⟩ := hchildren s' (.inner hinner)
    refine satisfies_of_object hs' (he.inner _ rfl _ hinner) ?_
    intro hobject
    have htarget' := resolveLocalRef_of hs.typed hname htarget hobject
    exact hcheck _ _ hleads hobject (checkReference_eq_none.mp href check s' hdeeper htarget')
  | @property properties members key _ _ hproperties hschema hmember =>
    exact members_satisfy hchildren hs he ((checkParts_eq_none.mp hparts).2 members rfl) hproperties hschema
      hmember
  | @additional members key _ _ hadditional hmember hkey =>
    exact additional_satisfies he ((checkParts_eq_none.mp hparts).2 members rfl) hadditional hmember hkey
  | @position schemas vs i _ _ hschemas hschema hx =>
    have hinner : Inner root keywords s' := .position hschemas (List.mem_of_getElem? hschema)
    obtain ⟨check, hdeeper, hcheck⟩ := hchildren s' (.inner hinner)
    refine satisfies_of_object hs' (he.inner _ rfl _ hinner) ?_
    intro hobject
    have hentries := checkEntries_eq_none.mp ((checkParts_eq_none.mp hparts).1 check vs hdeeper rfl)
    exact hcheck _ _ hleads hobject (hentries.1 schemas hschemas i s' v' hschema hx hobject)
  | @item vs i _ _ hitems hi hx =>
    have hinner : Inner root keywords s' := .item hitems
    obtain ⟨check, hdeeper, hcheck⟩ := hchildren s' (.inner hinner)
    refine satisfies_of_object hs' (he.inner _ rfl _ hinner) ?_
    intro hobject
    cases s' with
    | object items =>
      have hentries := checkEntries_eq_none.mp ((checkParts_eq_none.mp hparts).1 check vs hdeeper rfl)
      exact hcheck _ _ hleads rfl (hentries.2 items hitems i v' hx)
    | _ => cases hobject

/-- A branch under the tag that a value has is an object. -/
theorem isObject_of_tagged {branches : List Json} {tag wanted : String} {texts : List String} {branch : Json}
    (htagged : taggedUnion branches = some (tag, texts))
    (h : (texts.zip branches).lookup wanted = some branch) : branch.isObject = true := by
  obtain ⟨text, hmem⟩ : ∃ text, (text, branch) ∈ texts.zip branches := ⟨wanted, List.mem_of_lookup h⟩
  obtain ⟨i, hi⟩ := List.mem_iff_getElem?.mp hmem
  obtain ⟨htext, hbranch⟩ := List.getElem?_zip_eq_some.mp hi
  obtain ⟨hlength, hpinned⟩ := List.forall₂_iff_get.mp (taggedUnion_spec htagged)
  obtain ⟨hlt, hget⟩ := List.getElem?_eq_some_iff.mp hbranch
  obtain ⟨keywords, properties, schema, heq, -⟩ := branchTag_spec (hpinned i hlt (by omega))
  rw [List.get_eq_getElem, hget] at heq
  dsimp only at heq
  rw [heq]
  rfl

/-- A value that passes satisfies one of the branches. -/
theorem branch_satisfied (hchildren : ChildrenSatisfy root deeper keywords v) (hs : IsSchema root (.object keywords))
    (h : checkOneOf deeper root (.object keywords) v subject = none) {branches : List Json}
    (hbranches : branchesOf keywords = some branches) :
    ∃ branch ∈ branches, Satisfies root branch v := by
  have hlookup := branchesOf_eq.mp hbranches
  obtain ⟨branches', heq, hne⟩ := hs.typed.oneOf _ hlookup
  cases heq
  have hpick : ∀ check branch, deeper = some check → branch ∈ branches → branch.isObject = true →
      check branch v subject = none → Satisfies root branch v := by
    intro check branch hdeeper hmem hobject hpass
    obtain ⟨check', hdeeper', hcheck⟩ := hchildren branch (.branch hbranches hmem)
    rw [hdeeper] at hdeeper'
    cases hdeeper'
    exact hcheck v subject (.branch hbranches hmem) hobject hpass
  obtain ⟨branch, hmem⟩ := List.exists_mem_of_ne_nil branches hne
  obtain ⟨check, hdeeper, -⟩ := hchildren branch (.branch hbranches hmem)
  have huntagged : checkBranches check root v subject branches = none →
      ∃ branch ∈ branches, Satisfies root branch v := by
    intro hnone
    obtain ⟨branch, hmem, hobject, hpass⟩ := checkBranches_eq_none.mp hnone
    exact ⟨branch, hmem, hpick check branch hdeeper hmem hobject hpass⟩
  unfold checkOneOf find at h
  dsimp only at h
  rw [hlookup, hdeeper] at h
  dsimp only at h
  rw [if_neg (by simpa using hne)] at h
  split at h
  · rename_i members tag texts htagged
    split at h
    · rename_i wanted hwanted
      obtain ⟨branch, hbranch, hpass⟩ := checkTagged_eq_none.mp h
      have hmem := (List.of_mem_zip (List.mem_of_lookup hbranch)).2
      exact ⟨branch, hmem, hpick check branch hdeeper hmem (isObject_of_tagged htagged hbranch) hpass⟩
    · exact huntagged h
  · exact huntagged h

/-! ## Levels -/

/-- **What passes at one level satisfies its schema**, if what passes at the levels below does. -/
theorem satisfies_of_checkValueAt (hchildren : ChildrenSatisfy root deeper keywords v) (hroot : IsSchema root root)
    (hs : IsSchema root (.object keywords)) (hv : v.HoldsDoubles) (he : Enforced root (.object keywords) v)
    (h : checkValueAt search root deeper (.object keywords) v subject = none) :
    Satisfies root (.object keywords) v := by
  obtain ⟨href, htype, hconst, henum, hbounds, honeOf, hparts⟩ := (checkValueAt_eq_none search).mp h
  have hasserts : Asserts keywords v := by
    refine asserts_of_checks hs.typed hv he htype hconst henum hbounds ?_
    rintro names name members hnames hname rfl
    have hobject := (checkParts_eq_none.mp hparts).2 members rfl
    exact required_of_checkObject hobject hnames hname
  have hsatisfied : ∀ s' v', Requires root keywords v s' v' → Satisfies root s' v' := fun s' v' hrequires =>
    parts_satisfy hchildren hroot hs he href hparts hrequires
  cases hbranches : branchesOf keywords with
  | none =>
    refine .object hasserts hsatisfied .null ?_ ?_
    · intro branches hsome
      rw [hbranches] at hsome
      cases hsome
    · intro branches hsome
      rw [hbranches] at hsome
      cases hsome
  | some branches =>
    obtain ⟨branch, hmem, hbranch⟩ := branch_satisfied hchildren hs honeOf hbranches
    refine .object hasserts hsatisfied branch ?_ ?_
    · intro branches' hsome
      rw [hbranches] at hsome
      cases hsome
      exact hmem
    · intro branches' hsome
      exact hbranch

theorem Leads.isSchema (hroot : IsSchema root root) {s s' v' : Json} (h : Leads root (s, v) (s', v'))
    (hs : IsSchema root s) : IsSchema root s' := by
  cases h with
  | part h => exact h.isSchema hroot hs
  | branch h hbranch => exact hs.inside (.branch (branchesOf_eq.mp h) hbranch)

theorem Leads.holdsDoubles {s s' v' : Json} (h : Leads root (s, v) (s', v')) (hv : v.HoldsDoubles) :
    v'.HoldsDoubles := by
  cases h with
  | part h => exact h.holdsDoubles hv
  | branch h hbranch => exact hv

/-- **What passes satisfies its schema**, where the schema nests no deeper than there are levels left. -/
theorem satisfies_of_checkValue (hroot : IsSchema root root) {n : Nat} (hs : IsSchema root s)
    (hobject : s.isObject = true) (hv : v.HoldsDoubles) (hn : NestsWithin root n s)
    (he : ∀ s' v', Relation.ReflTransGen (Leads root) (s, v) (s', v') → Enforced root s' v')
    (h : checkValue search root n s v subject = none) : Satisfies root s v := by
  cases s with
  | object keywords =>
    induction n generalizing keywords v subject with
    | zero =>
      refine satisfies_of_checkValueAt ?_ hroot hs hv (he _ _ .refl) h
      intro s' hnests
      exact absurd hnests (hn s')
    | succ n ih =>
      refine satisfies_of_checkValueAt ?_ hroot hs hv (he _ _ .refl) h
      intro s' hnests
      refine ⟨_, rfl, ?_⟩
      intro v' subject' hleads hobject' hpass
      cases s' with
      | object keywords' =>
        refine ih (hleads.holdsDoubles hv) keywords' (hleads.isSchema hroot hs) rfl (hn _ hnests) ?_ hpass
        intro s'' v'' hrest
        exact he s'' v'' (.head hleads hrest)
      | _ => cases hobject'
  | _ => cases hobject

/-! ## A call's arguments -/

/-- The keywords that are not read at the top level. -/
def unreadKeywords : List String := ["type", "const", "enum", "oneOf", "$ref"]

def keptKeywords (keywords : JsonObject) : JsonObject := keywords.filter fun e => e.1 ∉ unreadKeywords

/-- What the schema of arguments says by the keywords that are read at the top level. -/
def topLevel (schema : Json) : Json :=
  match schema with
  | .object keywords => .object (keptKeywords keywords)
  | schema => schema

theorem keptKeywords_lookup (key : String) : (keptKeywords keywords).lookup key =
    if key ∈ unreadKeywords then none else keywords.lookup key := by
  unfold keptKeywords
  rw [List.lookup_filter (fun key => decide (key ∉ unreadKeywords))]
  by_cases h : key ∈ unreadKeywords <;> simp [h]

theorem lookup_of_kept {value : Json} (h : (keptKeywords keywords).lookup key = some value) :
    keywords.lookup key = some value := by
  rw [keptKeywords_lookup] at h
  split_ifs at h
  exact h

theorem keptKeywords_isSchema (hs : IsSchema root (.object keywords)) :
    IsSchema root (.object (keptKeywords keywords)) := by
  have ht := hs.typed
  refine .object ?_ ?_
  · constructor
    case known =>
      intro key hkey
      obtain ⟨value, hvalue⟩ := Option.isSome_iff_exists.mp hkey
      exact ht.known key (Option.isSome_iff_exists.mpr ⟨value, lookup_of_kept hvalue⟩)
    case type => exact fun v h => ht.type v (lookup_of_kept h)
    case const => exact fun v h => ht.const v (lookup_of_kept h)
    case enum => exact fun v h => ht.enum v (lookup_of_kept h)
    case size => exact fun key hkey v h => ht.size key hkey v (lookup_of_kept h)
    case range => exact fun key hkey v h => ht.range key hkey v (lookup_of_kept h)
    case uniqueItems => exact fun v h => ht.uniqueItems v (lookup_of_kept h)
    case required => exact fun v h => ht.required v (lookup_of_kept h)
    case properties => exact fun v h => ht.properties v (lookup_of_kept h)
    case prefixItems => exact fun v h => ht.prefixItems v (lookup_of_kept h)
    case oneOf => exact fun v h => ht.oneOf v (lookup_of_kept h)
    case ref => exact fun v h => ht.ref v (lookup_of_kept h)
    case defs => exact fun v h => ht.defs v (lookup_of_kept h)
  · intro schema hschema
    cases hschema with
    | property h hmem => exact hs.inside (.property (lookup_of_kept h) hmem)
    | additional h => exact hs.inside (.additional (lookup_of_kept h))
    | position h hmem => exact hs.inside (.position (lookup_of_kept h) hmem)
    | item h => exact hs.inside (.item (lookup_of_kept h))
    | branch h hmem => exact hs.inside (.branch (lookup_of_kept h) hmem)
    | definition h hmem => exact hs.inside (.definition (lookup_of_kept h) hmem)

theorem keptKeywords_nests (h : Nests root (.object (keptKeywords keywords)) s) :
    Nests root (.object keywords) s := by
  cases h with
  | inner h =>
    refine .inner ?_
    cases h with
    | ref h htarget => exact .ref (lookup_of_kept h) htarget
    | property h hmem => exact .property (lookup_of_kept h) hmem
    | position h hmem => exact .position (lookup_of_kept h) hmem
    | item h => exact .item (lookup_of_kept h)
  | branch h hmem => exact .branch (branchesOf_eq.mpr (lookup_of_kept (branchesOf_eq.mp h))) hmem

/-- The check of an object reads no more than the kept keywords. -/
theorem checkObject_kept (h : checkObject deeper (.object keywords) members subject = none) :
    checkObject deeper (.object (keptKeywords keywords)) members subject = none := by
  have hfind : ∀ key, key ∉ unreadKeywords → find (.object (keptKeywords keywords)) key =
      find (.object keywords) key := by
    intro key hkey
    show (keptKeywords keywords).lookup key = keywords.lookup key
    rw [keptKeywords_lookup, if_neg hkey]
  have hrequired : requiredNames (.object (keptKeywords keywords)) = requiredNames (.object keywords) := by
    unfold requiredNames
    rw [hfind _ (by decide)]
  have hproperties : propertiesOf (.object (keptKeywords keywords)) = propertiesOf (.object keywords) := by
    unfold propertiesOf
    rw [hfind _ (by decide)]
  have hclosed : isClosed (.object (keptKeywords keywords)) subject = isClosed (.object keywords) subject := by
    unfold isClosed saysClosed topLevelArgumentsAreClosed
    rw [hfind _ (by decide)]
    rfl
  rw [checkObject_eq_none, checkNames_eq_none] at h ⊢
  simp only [checkProperties_eq_none] at h ⊢
  rw [hrequired, hproperties, hclosed]
  exact h

theorem sampleEntry_leaf {text : Bool} : ¬ Nests root (sampleEntry text) s := by
  intro h
  cases text <;> cases h with
  | inner h => cases h <;> simp_all [List.lookup_cons, List.lookup_nil]
  | branch h hbranch => cases h

/-- The schemas that only say which types and parts there are. -/
theorem enforced_of_plainKeywords (h : ∀ e ∈ keywords, e.1 ∈ ["type", "properties", "items", "prefixItems"])
    (hinner : ∀ s, Inner root keywords s → s ≠ .boolean false) (v : Json) :
    Enforced root (.object keywords) v := by
  have hnone : ∀ key, key ∉ ["type", "properties", "items", "prefixItems"] → keywords.lookup key = none := by
    intro key hkey
    by_contra hne
    exact hkey (mem_of_lookup_isSome h key (Option.isSome_iff_ne_none.mpr hne))
  constructor
  case inner =>
    rintro keywords' heq s' hs'
    cases heq
    exact hinner s' hs'
  case sizes =>
    intro key hkey size hsize
    have : key ∉ ["type", "properties", "items", "prefixItems"] := by
      simp only [sizeKeywords, List.mem_cons, List.not_mem_nil, or_false] at hkey
      rcases hkey with rfl | rfl | rfl | rfl <;> decide
    rw [find, hnone key this] at hsize
    cases hsize
  all_goals simp [find, hnone]

theorem sampleCell_inner (h : Nests root sampleCell s) : ∃ text, s = sampleEntry text := by
  cases h with
  | inner h =>
    cases h with
    | position h hmem =>
      cases h
      exact ⟨true, List.mem_singleton.mp hmem⟩
    | item h =>
      cases h
      exact ⟨false, rfl⟩
    | _ h => cases h
  | branch h hbranch => cases h

theorem sampleSchema_inner (h : Nests root sampleSchema s) : s = sampleCell := by
  cases h with
  | inner h =>
    cases h with
    | property h hmem =>
      cases h
      cases List.mem_singleton.mp hmem
      rfl
    | _ h => cases h
  | branch h hbranch => cases h

theorem sampleSchema_nestsWithin (root : Json) : NestsWithin root kMaxDepth sampleSchema := by
  intro s h
  rw [sampleSchema_inner h]
  intro s h
  obtain ⟨text, rfl⟩ := sampleCell_inner h
  exact fun s h => absurd h sampleEntry_leaf

theorem Leads.nests {s v s' v' : Json} (h : Leads root (s, v) (s', v'))
    (hadditional : find s "additionalProperties" = none) : Nests root s s' := by
  cases h with
  | branch h hbranch => exact .branch h hbranch
  | part h =>
    cases h with
    | ref h htarget => exact .inner (.ref h htarget)
    | property h hschema hmember => exact .inner (.property h hschema)
    | additional h hmember hkey => cases hadditional.symm.trans h
    | position h hschema hv => exact .inner (.position h (List.mem_of_getElem? hschema))
    | item h hi hv => exact .inner (.item h)

theorem sampleSchema_enforced {s v w : Json} (h : Relation.ReflTransGen (Leads root) (sampleSchema, w) (s, v)) :
    Enforced root s v := by
  have hentry : ∀ text v, Enforced root (sampleEntry text) v := by
    intro text v
    have hinner : ∀ {keywords}, sampleEntry text = .object keywords → ∀ s, Inner root keywords s →
        s ≠ .boolean false := fun heq s hs => absurd (heq ▸ Nests.inner hs) sampleEntry_leaf
    cases text <;> exact enforced_of_plainKeywords (by decide) (hinner rfl) v
  have hreached : ∀ q, Relation.ReflTransGen (Leads root) (sampleSchema, w) q →
      q.1 = sampleSchema ∨ q.1 = sampleCell ∨ ∃ text, q.1 = sampleEntry text := by
    intro q hq
    induction hq with
    | refl => exact .inl rfl
    | @tail p q hp hleads ih =>
      obtain ⟨s, v⟩ := p
      obtain ⟨s', v'⟩ := q
      rcases ih with rfl | rfl | ⟨text, rfl⟩
      · exact .inr (.inl (sampleSchema_inner (hleads.nests rfl)))
      · exact .inr (.inr (sampleCell_inner (hleads.nests rfl)))
      · exact absurd (hleads.nests (by cases text <;> rfl)) sampleEntry_leaf
  rcases hreached _ h with heq | heq | ⟨text, heq⟩
  · dsimp only at heq
    subst heq
    refine enforced_of_plainKeywords (by decide) ?_ v
    intro s hs
    rw [sampleSchema_inner (.inner hs)]
    exact Json.noConfusion
  · dsimp only at heq
    subst heq
    refine enforced_of_plainKeywords (by decide) ?_ v
    intro s hs
    obtain ⟨text, rfl⟩ := sampleCell_inner (.inner hs)
    cases text <;> exact Json.noConfusion
  · dsimp only at heq
    subst heq
    exact hentry text v

/-- A property that nothing satisfies is passed over. -/
def sampleNever : Json := .object [("properties", .object [("mode", .boolean false)])]

end Didi.Schema
