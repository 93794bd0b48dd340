import Didi.Lib.Fold
import Didi.Schema.Meaning

/-!
# When a check answers nothing

What each reader of a schema finds there, and one lemma for each check of `Didi.Schema.Validation`: it
answers nothing exactly when nothing is wrong that it looks for.
-/

namespace Didi.Schema
open Json (find)
variable {check : Check} {deeper : Option Check}

variable {root : Json} {keywords : JsonObject} {v : Json} {subject : String}

/-! ## What is read -/

theorem mem_strings {values : List Json} {s : String} : s ∈ strings values ↔ .string s ∈ values := by
  unfold strings
  rw [List.mem_filterMap]
  constructor
  · rintro ⟨w, hw, h⟩
    cases w with
    | string t =>
      cases h
      exact hw
    | _ => cases h
  · intro h
    exact ⟨_, h, rfl⟩

/-- A size that the check reads is the number that is stated. -/
theorem sizeKeyword_spec (ht : WellTyped root keywords) {key : String} (hkey : key ∈ sizeKeywords)
    {b : Bound Nat} (h : sizeKeyword (.object keywords) key = some b) :
    keywords.lookup key = some b.json ∧ b.json.number = some (b.value : Rat) := by
  unfold sizeKeyword find at h
  dsimp only at h
  split at h
  · rename_i i hlookup
    cases h
    refine ⟨hlookup, ?_⟩
    obtain ⟨n, hn, hlt⟩ := ht.size key hkey _ hlookup
    have hi : i = n := by
      have := Option.some.inj hn
      exact_mod_cast this
    subst hi
    rw [hn, Int.emod_eq_of_lt (by omega) (hlt _ rfl)]
    rfl
  · cases h

theorem doubleKeyword_spec {key : String} {b : Bound Rat} (h : doubleKeyword (.object keywords) key = some b) :
    keywords.lookup key = some b.json ∧ b.json.double = some b.value := by
  unfold doubleKeyword at h
  obtain ⟨json, hjson, h⟩ := Option.bind_eq_some_iff.mp h
  obtain ⟨value, hvalue, h⟩ := Option.bind_eq_some_iff.mp h
  cases h
  exact ⟨hjson, hvalue⟩

theorem number_of_double {n : Rat} (h : v.double = some n) : ∃ m, v.number = some m := by
  cases v with
  | integer i => exact ⟨_, rfl⟩
  | real q text => exact ⟨_, rfl⟩
  | _ => cases h

theorem pattern_eq_none (ht : WellTyped root keywords) : keywords.lookup "pattern" = none := by
  by_contra h
  exact absurd (ht.known "pattern" (Option.isSome_iff_ne_none.mpr h)) (by decide)

theorem propertiesOf_spec {key : String} {declared : Json}
    (h : (propertiesOf (.object keywords)).lookup key = some declared) : ∃ properties,
      keywords.lookup "properties" = some (.object properties) ∧ (key, declared) ∈ properties := by
  unfold propertiesOf find at h
  dsimp only at h
  split at h
  · rename_i properties hproperties
    exact ⟨properties, hproperties, List.mem_of_lookup h⟩
  · cases h

theorem resolveLocalRef_spec {target : Json} (h : resolveLocalRef (.object keywords) root = some target) :
    ∃ name, keywords.lookup "$ref" = some (.string (kPrefix ++ name)) ∧ definition root name = some target := by
  unfold resolveLocalRef at h
  split at h
  · rename_i pointer hpointer
    split at h
    · cases h
    · rename_i name hname
      split_ifs at h
      obtain ⟨start, happend, hstart⟩ := List.dropPrefix?_eq_some_iff.mp hname
      rw [beq_iff_eq] at hstart
      subst hstart
      refine ⟨String.ofList name, ?_, (Option.filter_eq_some_iff.mp h).1⟩
      have htext : pointer = kPrefix ++ String.ofList name := by
        apply String.toList_injective
        rw [happend, String.toList_append, String.toList_ofList]
      rw [← htext]
      exact hpointer
  · cases h

theorem branchTag_spec {branch : Json} {tag text : String} (h : branchTag branch = some (tag, text)) :
    ∃ keywords properties schema, branch = .object keywords ∧
      keywords.lookup "properties" = some (.object properties) ∧ (tag, schema) ∈ properties ∧
      find schema "const" = some (.string text) := by
  unfold branchTag at h
  split at h
  · rename_i properties hproperties
    obtain ⟨⟨key, schema⟩, hmem, h⟩ := List.exists_of_findSome?_eq_some h
    dsimp only at h
    split at h
    · rename_i t hconst
      cases h
      cases branch with
      | object keywords => exact ⟨keywords, properties, schema, rfl, hproperties, hmem, hconst⟩
      | _ => cases hproperties
    · cases h
  · cases h

theorem taggedUnion_spec {branches : List Json} {tag : String} {texts : List String}
    (h : taggedUnion branches = some (tag, texts)) :
    List.Forall₂ (fun branch text => branchTag branch = some (tag, text)) branches texts := by
  unfold taggedUnion at h
  obtain ⟨first, -, h⟩ := Option.bind_eq_some_iff.mp h
  obtain ⟨⟨key, text⟩, -, h⟩ := Option.bind_eq_some_iff.mp h
  dsimp only at h
  split_ifs at h
  obtain ⟨found, hfound, h⟩ := Option.bind_eq_some_iff.mp h
  cases h
  refine (List.forall₂_of_mapM_eq_some hfound).imp ?_
  intro branch text h
  unfold textUnder at h
  split at h
  · rename_i hbranch
    split_ifs at h with hkey
    cases h
    rw [hbranch, hkey]
  · cases h

/-! ## One value -/

theorem checkType_eq_none : checkType (.object keywords) v subject = none ↔
    (∀ name, keywords.lookup "type" = some (.string name) → matchesType name v = true) ∧
      ∀ names, keywords.lookup "type" = some (.array names) →
        strings names = [] ∨ ∃ name ∈ strings names, matchesType name v = true := by
  unfold checkType find
  dsimp only
  cases h : keywords.lookup "type" with
  | none => simp
  | some t =>
    cases t with
    | string name => simp
    | array names =>
      dsimp only
      split_ifs with hany hempty
      · simp only [List.any_eq_true] at hany
        simp [hany]
      · simp only [List.isEmpty_iff] at hempty
        simp [hempty]
      · simp only [List.any_eq_true] at hany
        simp only [List.isEmpty_iff] at hempty
        simp [hany, hempty]
    | _ => simp

theorem checkConst_eq_none : checkConst (.object keywords) v subject = none ↔
    ∀ fixed, keywords.lookup "const" = some fixed → Json.equals fixed v = true := by
  unfold checkConst find
  dsimp only
  cases h : keywords.lookup "const" with
  | none => simp
  | some fixed => simp

theorem checkEnum_eq_none : checkEnum (.object keywords) v subject = none ↔
    ∀ options, keywords.lookup "enum" = some (.array options) →
      options = [] ∨ ∃ option ∈ options, Json.equals option v = true := by
  unfold checkEnum find
  dsimp only
  cases h : keywords.lookup "enum" with
  | none => simp
  | some t =>
    cases t with
    | array options =>
      dsimp only
      split_ifs with hany
      · simp only [Bool.or_eq_true, List.any_eq_true, List.isEmpty_iff] at hany
        simp [hany]
      · simp only [Bool.or_eq_true, List.any_eq_true, List.isEmpty_iff] at hany
        simp [hany]
    | _ => simp

theorem broken_eq_none {α : Type} {bound : Option (Bound α)} {breaks : α → Bool} {message : Json → String} :
    broken bound breaks message = none ↔ ∀ b, bound = some b → breaks b.value = false := by
  cases bound with
  | none => simp [broken]
  | some b => simp [broken]

theorem firstRepeated_eq_none {seen vs : List Json} : firstRepeated seen vs = none ↔
    (∀ v ∈ vs, ∀ w ∈ seen, Json.equals v w = false) ∧ vs.Pairwise fun a b => Json.equals b a = false := by
  induction vs generalizing seen with
  | nil => simp [firstRepeated]
  | cons v vs ih =>
    unfold firstRepeated
    by_cases h : (seen.any fun w => Json.equals v w) = true
    · rw [if_pos h]
      simp only [List.any_eq_true] at h
      obtain ⟨w, hw, hequal⟩ := h
      refine iff_of_false (by simp) ?_
      rintro ⟨hseen, -⟩
      rw [hseen v List.mem_cons_self w hw] at hequal
      cases hequal
    · rw [if_neg h, ih, List.pairwise_cons]
      simp only [List.any_eq_true, not_exists, not_and, Bool.not_eq_true] at h
      simp only [List.mem_append, List.mem_cons, List.not_mem_nil, or_false]
      constructor
      · rintro ⟨hseen, hpairs⟩
        refine ⟨?_, fun b hb => hseen b hb v (.inr rfl), hpairs⟩
        rintro u (rfl | hu) w hw
        · exact h w hw
        · exact hseen u hu w (.inl hw)
      · rintro ⟨hseen, hfirst, hpairs⟩
        refine ⟨?_, hpairs⟩
        rintro u hu w (hw | rfl)
        · exact hseen u (.inr hu) w hw
        · exact hfirst u hu

variable (search : String → String → Option Bool)

theorem checkLength_eq_none {text : String} (hpattern : keywords.lookup "pattern" = none) :
    checkLength search (.object keywords) text subject = none ↔
      (∀ b, sizeKeyword (.object keywords) "minLength" = some b → b.value ≤ text.length) ∧
        ∀ b, sizeKeyword (.object keywords) "maxLength" = some b → text.length ≤ b.value := by
  have hfind : find (.object keywords) "pattern" = none := hpattern
  simp [checkLength, broken_eq_none, hfind]

theorem checkRange_eq_none : checkRange (.object keywords) v subject = none ↔ ∀ n, v.double = some n →
    (∀ b, doubleKeyword (.object keywords) "minimum" = some b → b.value ≤ n) ∧
      ∀ b, doubleKeyword (.object keywords) "maximum" = some b → n ≤ b.value := by
  unfold checkRange
  cases v.double with
  | none => simp
  | some n => simp [broken_eq_none]

theorem checkUnique_eq_none {vs : List Json} : checkUnique (.object keywords) vs subject = none ↔
    (keywords.lookup "uniqueItems" = some (.boolean true) → vs.Pairwise fun a b => Json.equals b a = false) := by
  unfold checkUnique find
  dsimp only
  split
  · rename_i h
    simp [h, firstRepeated_eq_none]
  · rename_i h
    simp only [true_iff]
    intro hunique
    exact absurd hunique h

theorem checkCounts_eq_none {vs : List Json} : checkCounts (.object keywords) vs subject = none ↔
    ((∀ b, sizeKeyword (.object keywords) "minItems" = some b → b.value ≤ vs.length) ∧
      ∀ b, sizeKeyword (.object keywords) "maxItems" = some b → vs.length ≤ b.value) ∧
      (keywords.lookup "uniqueItems" = some (.boolean true) →
        vs.Pairwise fun a b => Json.equals b a = false) := by
  simp [checkCounts, broken_eq_none, checkUnique_eq_none]

/-! ## Parts -/

theorem saysClosed_iff : saysClosed (.object keywords) = true ↔
    keywords.lookup "additionalProperties" = some (.boolean false) := by
  unfold saysClosed find
  dsimp only
  split
  · rename_i h
    simp [h]
  · rename_i h
    simp only [Bool.false_eq_true, false_iff]
    exact h false

theorem checkNames_eq_none {members : JsonObject} : checkNames (.object keywords) members subject = none ↔
    (∀ name ∈ requiredNames (.object keywords), (members.lookup name).isSome) ∧
      (isClosed (.object keywords) subject = true →
        ∀ e ∈ members, ((propertiesOf (.object keywords)).lookup e.1).isSome) := by
  have hmissing : missingNames (.object keywords) members = [] ↔
      ∀ name ∈ requiredNames (.object keywords), (members.lookup name).isSome := by
    unfold missingNames
    rw [List.filter_eq_nil_iff]
    simp [Option.isSome_iff_ne_none]
  have hunknown : unknownNames (.object keywords) members subject = [] ↔
      (isClosed (.object keywords) subject = true →
        ∀ e ∈ members, ((propertiesOf (.object keywords)).lookup e.1).isSome) := by
    unfold unknownNames
    split_ifs with h
    · rw [List.filter_eq_nil_iff]
      simp [h, Option.isSome_iff_ne_none]
    · simp [h]
  rw [← hmissing, ← hunknown, checkNames]
  simp

theorem checkProperties_eq_none {members : JsonObject} :
    checkProperties check (.object keywords) members subject = none ↔ ∀ e ∈ members, ∀ declared,
      (propertiesOf (.object keywords)).lookup e.1 = some (.object declared) →
        check (.object declared) e.2
          (if subject ≠ "" then subject ++ "." ++ e.1 else "Argument " ++ quoted e.1) = none := by
  unfold checkProperties
  rw [List.findSome?_eq_none_iff]
  refine forall₂_congr ?_
  rintro ⟨key, value⟩ hmem
  dsimp only
  cases (propertiesOf (.object keywords)).lookup key with
  | none => simp
  | some s =>
    cases s with
    | object declared => simp
    | _ => simp

theorem checkPrefix_eq_none {schemas vs : List Json} {index : Nat} :
    checkPrefix check subject index schemas vs = none ↔ ∀ i s x, schemas[i]? = some s → vs[i]? = some x →
      s.isObject = true → check s x (subject ++ " entry " ++ toString (index + i)) = none := by
  induction schemas generalizing index vs with
  | nil => simp [checkPrefix]
  | cons s schemas ih =>
    cases vs with
    | nil => simp [checkPrefix]
    | cons x vs =>
      rw [checkPrefix, Option.or_eq_none_iff, ih]
      constructor
      · rintro ⟨hfirst, hrest⟩ i s' x' hs hx hobject
        cases i with
        | zero =>
          cases hs
          cases hx
          rwa [if_pos hobject] at hfirst
        | succ i =>
          have hnext := hrest i s' x' hs hx hobject
          rwa [Nat.add_right_comm, Nat.add_assoc] at hnext
      · intro h
        refine ⟨?_, ?_⟩
        · split_ifs with hobject
          · exact h 0 s x rfl rfl hobject
          · rfl
        · intro i s' x' hs hx hobject
          have hnext := h (i + 1) s' x' hs hx hobject
          rwa [Nat.add_right_comm, Nat.add_assoc]

theorem checkItems_eq_none {items : Json} {vs : List Json} {index : Nat} :
    checkItems check items subject index vs = none ↔ ∀ i x, vs[i]? = some x →
      check items x (subject ++ " entry " ++ toString (index + i)) = none := by
  induction vs generalizing index with
  | nil => simp [checkItems]
  | cons x vs ih =>
    rw [checkItems, Option.or_eq_none_iff, ih]
    constructor
    · rintro ⟨hfirst, hrest⟩ i x' hx
      cases i with
      | zero =>
        cases hx
        exact hfirst
      | succ i =>
        have hnext := hrest i x' hx
        rwa [Nat.add_right_comm, Nat.add_assoc] at hnext
    · intro h
      refine ⟨h 0 x rfl, ?_⟩
      intro i x' hx
      have hnext := h (i + 1) x' hx
      rwa [Nat.add_right_comm, Nat.add_assoc]

theorem checkEntries_eq_none {vs : List Json} :
    checkEntries check (.object keywords) vs subject = none ↔
      (∀ schemas : List Json, keywords.lookup "prefixItems" = some (.array schemas) → ∀ (i : Nat) s x,
        schemas[i]? = some s → vs[i]? = some x → s.isObject = true →
          check s x (subject ++ " entry " ++ toString i) = none) ∧
      ∀ items, keywords.lookup "items" = some (.object items) → ∀ (i : Nat) x, vs[i]? = some x →
        check (.object items) x (subject ++ " entry " ++ toString i) = none := by
  unfold checkEntries find
  dsimp only
  rw [Option.or_eq_none_iff]
  refine and_congr ?_ ?_
  · split
    · rename_i schemas h
      rw [checkPrefix_eq_none]
      simp [h]
    · rename_i h
      simp only [true_iff]
      intro schemas hschemas
      exact absurd hschemas (h schemas)
  · split
    · rename_i items h
      rw [checkItems_eq_none]
      simp [h]
    · rename_i h
      simp only [true_iff]
      intro items hitems
      exact absurd hitems (h items)

theorem checkBranches_eq_none {root : Json} {branches : List Json} :
    checkBranches check root v subject branches = none ↔
      ∃ branch ∈ branches, branch.isObject = true ∧ check branch v subject = none := by
  unfold checkBranches
  dsimp only
  split_ifs with hany
  · simp only [List.any_eq_true, List.mem_filter, Option.isNone_iff_eq_none] at hany
    obtain ⟨branch, ⟨hmem, hobject⟩, hnone⟩ := hany
    exact iff_of_true rfl ⟨branch, hmem, hobject, hnone⟩
  · have hall : ¬ ∃ branch ∈ branches, branch.isObject = true ∧ check branch v subject = none := by
      rintro ⟨branch, hmem, hobject, hnone⟩
      exact hany (List.any_eq_true.mpr ⟨branch, List.mem_filter.mpr ⟨hmem, hobject⟩, by rw [hnone]; rfl⟩)
    refine iff_of_false ?_ hall
    split
    · rename_i branch hone
      intro hnone
      have hmem : branch ∈ (branches.filter Json.isObject).filter (isCandidate v root) := by
        rw [hone]
        exact List.mem_singleton_self branch
      obtain ⟨hmem, hobject⟩ := List.mem_filter.mp (List.mem_filter.mp hmem).1
      exact hall ⟨branch, hmem, hobject, hnone⟩
    · intro h
      cases h

theorem checkTagged_eq_none {branches : List Json} {tag wanted : String} {texts : List String} :
    checkTagged check v subject branches tag texts wanted = none ↔
      ∃ branch, (texts.zip branches).lookup wanted = some branch ∧ check branch v subject = none := by
  unfold checkTagged
  cases (texts.zip branches).lookup wanted with
  | none => simp
  | some branch => simp

theorem checkObject_eq_none {members : JsonObject} :
    checkObject deeper (.object keywords) members subject = none ↔
      checkNames (.object keywords) members subject = none ∧
        ∀ check, deeper = some check → checkProperties check (.object keywords) members subject = none := by
  cases deeper with
  | none => simp [checkObject]
  | some check => simp [checkObject]

theorem checkReference_eq_none {schema : Json} :
    checkReference deeper root schema v subject = none ↔ ∀ check target, deeper = some check →
      resolveLocalRef schema root = some target → check target v subject = none := by
  unfold checkReference
  cases deeper with
  | none => simp
  | some check =>
    cases resolveLocalRef schema root with
    | none => simp
    | some target => simp

theorem checkParts_eq_none {schema : Json} :
    checkParts deeper schema v subject = none ↔
      (∀ check vs, deeper = some check → v = .array vs → checkEntries check schema vs subject = none) ∧
        ∀ members, v = .object members → checkObject deeper schema members subject = none := by
  unfold checkParts
  split
  · simp
  · simp
  · rename_i hobject harray
    simp only [true_iff]
    refine ⟨?_, fun members hv => absurd hv (hobject members)⟩
    intro check vs hcheck hv
    exact absurd hcheck (harray vs check hv)

/-- When a value passes: its reference, its own keywords and its parts do. -/
theorem checkValueAt_eq_none :
    checkValueAt search root deeper (.object keywords) v subject = none ↔
      checkReference deeper root (.object keywords) v subject = none ∧
        checkType (.object keywords) v subject = none ∧ checkConst (.object keywords) v subject = none ∧
        checkEnum (.object keywords) v subject = none ∧
        checkBounds search (.object keywords) v subject = none ∧
        checkOneOf deeper root (.object keywords) v subject = none ∧
        checkParts deeper (.object keywords) v subject = none := by
  unfold checkValueAt
  cases checkType (.object keywords) v subject with
  | some problem => simp [Json.isObject]
  | none => simp [Json.isObject, and_assoc]

end Didi.Schema
