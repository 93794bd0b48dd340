import Didi.Schema.Sound

/-!
# Which branch of a oneOf decides

* `declared` : the text by which a value says which branch of a tagged oneOf it means;
* `pinned_of_passes` : a branch that pins another text refuses the value, where a level is left to look at it;
* `checkOneOf_iff` : the branch that is picked by its text decides as all of them would.
-/

namespace Didi.Schema
open Json (find)
variable {search : String → String → Option Bool} {root v : Json} {subject : String} {branches : List Json}

/-- The property that all branches pin, and the text that the value has under it. -/
def declared (branches : List Json) (v : Json) : Option (String × String) :=
  match v, taggedUnion branches with
  | .object members, some (tag, _) =>
    match members.lookup tag with
    | some (.string wanted) => some (tag, wanted)
    | _ => none
  | _, _ => none

/-- The branches that pin the declared text. -/
def pinned (branches : List Json) (v : Json) : List Json :=
  branches.filter fun branch => (declared branches v).any fun d => textUnder d.1 branch = some d.2

/-- An object has one member of a name. -/
def OneMember (branch : Json) : Prop :=
  ∀ properties, find branch "properties" = some (.object properties) → (properties.map Prod.fst).Nodup

theorem declared_eq_some {tag wanted : String} (h : declared branches v = some (tag, wanted)) :
    ∃ members texts, v = .object members ∧ members.lookup tag = some (.string wanted) ∧
      taggedUnion branches = some (tag, texts) := by
  unfold declared at h
  split at h
  · rename_i members tag' texts htagged
    split at h
    · rename_i wanted' hlookup
      cases h
      exact ⟨members, texts, rfl, hlookup, htagged⟩
    · cases h
  · cases h

theorem textUnder_eq_some {tag text : String} {branch : Json} :
    textUnder tag branch = some text ↔ branchTag branch = some (tag, text) := by
  unfold textUnder
  cases branchTag branch with
  | none => simp
  | some found =>
    obtain ⟨key, text'⟩ := found
    simp only [Option.some.injEq, Prod.mk.injEq]
    split_ifs with hkey
    · simp [hkey]
    · simp [hkey]

/-- The first of the branches that pin a text. -/
theorem lookup_zip {tag wanted : String} {texts : List String}
    (h : List.Forall₂ (fun branch text => branchTag branch = some (tag, text)) branches texts) :
    (texts.zip branches).lookup wanted = (branches.filter fun branch => textUnder tag branch = some wanted).head? := by
  induction h with
  | nil => rfl
  | @cons branch text branches texts hbranch _ ih =>
    have htext : textUnder tag branch = some text := textUnder_eq_some.mpr hbranch
    rw [List.zip_cons_cons, List.lookup_cons_eq, ih, List.filter_cons, htext]
    by_cases hwanted : wanted = text
    · rw [if_pos hwanted, if_pos (by simp [hwanted]), List.head?_cons]
    · rw [if_neg hwanted, if_neg (by simpa using Ne.symm hwanted)]

theorem branchTag_of_mem {tag : String} {texts : List String} {branch : Json}
    (h : List.Forall₂ (fun branch text => branchTag branch = some (tag, text)) branches texts)
    (hmem : branch ∈ branches) : ∃ text, branchTag branch = some (tag, text) := by
  induction h with
  | nil => cases hmem
  | cons hbranch _ ih =>
    rcases List.mem_cons.mp hmem with rfl | hmem
    · exact ⟨_, hbranch⟩
    · exact ih hmem

/-- With a declared text, the first branch that pins it decides. -/
theorem checkOneOf_declared {check : Check} {keywords : JsonObject} (hbranches : branches ≠ [])
    (hlookup : keywords.lookup "oneOf" = some (.array branches)) {tag wanted : String}
    (hdeclared : declared branches v = some (tag, wanted)) :
    checkOneOf (some check) root (.object keywords) v subject = none ↔
      ∃ branch, (pinned branches v).head? = some branch ∧ check branch v subject = none := by
  obtain ⟨members, texts, rfl, hwanted, htagged⟩ := declared_eq_some hdeclared
  have hne : branches.isEmpty = false := by simpa using hbranches
  have hpinned : pinned branches (.object members) = branches.filter fun branch => textUnder tag branch = some wanted := by
    rw [pinned, hdeclared]
    rfl
  unfold checkOneOf find
  dsimp only
  rw [hlookup]
  dsimp only
  rw [if_neg (by simp [hne]), htagged]
  dsimp only
  rw [hwanted, hpinned, ← lookup_zip (taggedUnion_spec htagged)]
  exact checkTagged_eq_none

/-- Without one, any branch that is an object may. -/
theorem checkOneOf_undeclared {check : Check} {keywords : JsonObject} (hbranches : branches ≠ [])
    (hlookup : keywords.lookup "oneOf" = some (.array branches)) (hdeclared : declared branches v = none) :
    checkOneOf (some check) root (.object keywords) v subject = none ↔
      ∃ branch ∈ branches, branch.isObject = true ∧ check branch v subject = none := by
  have hne : branches.isEmpty = false := by simpa using hbranches
  unfold checkOneOf find
  dsimp only
  rw [hlookup]
  dsimp only
  rw [if_neg (by simp [hne]), ← @checkBranches_eq_none _ _ _ root]
  unfold declared at hdeclared
  split
  · rename_i members tag texts htagged
    rw [htagged] at hdeclared
    dsimp only at hdeclared
    split
    · rename_i wanted hwanted
      rw [hwanted] at hdeclared
      cases hdeclared
    · exact Iff.rfl
  · exact Iff.rfl

/-- A level below a branch, the text it pins is looked at. -/
theorem pinned_of_passes {n : Nat} {branch : Json} (hmember : OneMember branch) {tag text wanted : String}
    (htag : branchTag branch = some (tag, text)) {members : JsonObject}
    (hwanted : members.lookup tag = some (.string wanted))
    (h : checkValue search root (n + 1) branch (.object members) subject = none) : text = wanted := by
  obtain ⟨keywords, properties, schema, rfl, hproperties, hmem, hconst⟩ := branchTag_spec htag
  have hschema : (propertiesOf (.object keywords)).lookup tag = some schema := by
    simp only [propertiesOf, find, hproperties]
    exact List.lookup_of_mem_of_nodup (hmember _ hproperties) hmem
  obtain ⟨declared, rfl⟩ : ∃ declared, schema = .object declared := by
    cases schema with
    | object declared => exact ⟨declared, rfl⟩
    | _ => cases hconst
  have hparts := ((checkValueAt_eq_none search).mp h).2.2.2.2.2.2
  have hobject := (checkObject_eq_none.mp ((checkParts_eq_none.mp hparts).2 members rfl)).2 _ rfl
  have hvalue := checkProperties_eq_none.mp hobject (tag, .string wanted) (List.mem_of_lookup hwanted) declared hschema
  cases n with
  | zero =>
    have hpinned := checkConst_eq_none.mp ((checkValueAt_eq_none search).mp hvalue).2.2.1 _ hconst
    exact eq_of_beq hpinned
  | succ n =>
    have hpinned := checkConst_eq_none.mp ((checkValueAt_eq_none search).mp hvalue).2.2.1 _ hconst
    exact eq_of_beq hpinned

/-- What a check finds wrong with a value under a oneOf, below the limit and at it. A text that several branches pin
is left out. -/
theorem checkOneOf_iff {keywords : JsonObject} (hlookup : keywords.lookup "oneOf" = some (.array branches))
    (hmember : ∀ branch ∈ branches, OneMember branch) :
    (∀ deeper, branches = [] ∨ deeper = none → checkOneOf deeper root (.object keywords) v subject = none) ∧
    (branches ≠ [] → (pinned branches v).length ≤ 1 → ∀ n,
      (checkOneOf (some (checkValue search root n)) root (.object keywords) v subject = none ↔
        ∃ branch ∈ branches, branch.isObject = true ∧
          (n = 0 → declared branches v ≠ none → branch ∈ pinned branches v) ∧
          checkValue search root n branch v subject = none)) := by
  refine ⟨?_, fun hbranches hone n => ?_⟩
  · rintro deeper (rfl | rfl)
    · unfold checkOneOf find
      dsimp only
      rw [hlookup]
      cases deeper <;> rfl
    · unfold checkOneOf find
      dsimp only
      rw [hlookup]
  · cases hdeclared : declared branches v with
    | none =>
      rw [checkOneOf_undeclared hbranches hlookup hdeclared]
      simp only [ne_eq, not_true_eq_false, false_implies, implies_true, true_and]
    | some found =>
      obtain ⟨tag, wanted⟩ := found
      obtain ⟨members, texts, rfl, hwanted, htagged⟩ := declared_eq_some hdeclared
      have hpinned : ∀ branch, branch ∈ pinned branches (.object members) ↔
          branch ∈ branches ∧ branchTag branch = some (tag, wanted) := by
        intro branch
        rw [pinned, hdeclared, List.mem_filter, ← textUnder_eq_some]
        simp
      rw [checkOneOf_declared hbranches hlookup hdeclared]
      constructor
      · rintro ⟨branch, hhead, hpass⟩
        have hmem : branch ∈ pinned branches (.object members) := List.mem_of_head? hhead
        obtain ⟨hbranch, htag⟩ := (hpinned branch).mp hmem
        obtain ⟨keywords', -, -, rfl, -⟩ := branchTag_spec htag
        exact ⟨_, hbranch, rfl, fun _ _ => hmem, hpass⟩
      · rintro ⟨branch, hbranch, -, hlast, hpass⟩
        have hmem : branch ∈ pinned branches (.object members) := by
          cases n with
          | zero => exact hlast rfl (by simp)
          | succ n =>
            obtain ⟨text, htag⟩ := branchTag_of_mem (taggedUnion_spec htagged) hbranch
            rw [pinned_of_passes (hmember branch hbranch) htag hwanted hpass] at htag
            exact (hpinned branch).mpr ⟨hbranch, htag⟩
        obtain ⟨only, honly⟩ : ∃ only, pinned branches (.object members) = [only] :=
          List.length_eq_one_iff.mp (Nat.le_antisymm hone (List.length_pos_of_mem hmem))
        rw [honly, List.mem_singleton] at hmem
        exact ⟨branch, by rw [honly, hmem, List.head?_cons], hpass⟩

/-- An event that is a key or a button, as its `type` says. -/
def eventShapes : List Json :=
  [.object [("properties", .object [("type", .object [("const", .string "key")])]),
      ("required", .array [.string "keycode"])],
    .object [("properties", .object [("type", .object [("const", .string "button")])])]]

theorem checkOneOf_iff_eventShapes :
    (∀ deeper, eventShapes = [] ∨ deeper = none →
      checkOneOf deeper .null (.object [("oneOf", .array eventShapes)]) (.object [("type", .string "key")]) "" = none) ∧
    (eventShapes ≠ [] → (pinned eventShapes (.object [("type", .string "key")])).length ≤ 1 → ∀ n,
      (checkOneOf (some (checkValue (fun _ _ => none) .null n)) .null (.object [("oneOf", .array eventShapes)])
          (.object [("type", .string "key")]) "" = none ↔
        ∃ branch ∈ eventShapes, branch.isObject = true ∧
          (n = 0 → declared eventShapes (.object [("type", .string "key")]) ≠ none →
            branch ∈ pinned eventShapes (.object [("type", .string "key")])) ∧
          checkValue (fun _ _ => none) .null n branch (.object [("type", .string "key")]) "" = none)) := by
  refine checkOneOf_iff rfl fun branch hmem => ?_
  rcases List.mem_cons.mp hmem with rfl | hmem
  · rintro properties ⟨⟩
    exact List.nodup_singleton _
  · rw [List.mem_singleton.mp hmem]
    rintro properties ⟨⟩
    exact List.nodup_singleton _

/-- At the limit nothing is looked into, and no branch is asked. -/
theorem unasked_at_limit :
    checkOneOf none .null (.object [("oneOf", .array [.object [("type", .string "string")]])]) (.integer 5) "x" = none ∧
      ¬ ∃ branch ∈ [Json.object [("type", .string "string")]],
        checkValue (fun _ _ => none) .null 0 branch (.integer 5) "x" = none := by
  refine ⟨rfl, ?_⟩
  rintro ⟨branch, hmem, hpass⟩
  rw [List.mem_singleton.mp hmem] at hpass
  have htype := checkType_eq_none.mp ((checkValueAt_eq_none _).mp hpass).2.1
  exact absurd (htype.1 "string" rfl) (by decide)

end Didi.Schema
