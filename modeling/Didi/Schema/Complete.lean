import Didi.Schema.Checks

/-!
# What the check refuses

`validate_of_valid` : arguments that are valid pass, where every position is `Plain`: no real without a
fraction where an integer is declared, no entry that positional schemas cover beside an `items`, no two
entries that only compare equal, no tag that two branches share, and no branch that is the schema `true`.
-/

namespace Didi.Schema
open Json (find)

def typesOf (s : Json) : List String :=
  match find s "type" with
  | some (.string name) => [name]
  | some (.array names) => strings names
  | _ => []

/-- At this schema and value, with so many levels left, nothing is refused that the schema allows. -/
structure Plain (root : Json) (left : Nat) (s v : Json) : Prop where
  integers : ∀ q text, v = .real q text → q.den = 1 → "integer" ∈ typesOf s → "number" ∈ typesOf s
  entries : find s "uniqueItems" = some (.boolean true) → ∀ vs, v = .array vs →
    vs.Pairwise fun a b => Json.equals b a = true → Json.sameValue b a = true
  covered : left ≠ 0 → ∀ schemas items vs (i : Nat) x, find s "prefixItems" = some (.array schemas) →
    find s "items" = some (.object items) → v = .array vs → i < schemas.length → vs[i]? = some x →
    Valid root (.object items) x
  tags : left ≠ 0 → ∀ branches tag texts members wanted branch, find s "oneOf" = some (.array branches) →
    taggedUnion branches = some (tag, texts) → v = .object members →
    members.lookup tag = some (.string wanted) → (texts.zip branches).lookup wanted = some branch →
    Valid root branch v
  shapes : left ≠ 0 → ∀ branches, find s "oneOf" = some (.array branches) → .boolean true ∉ branches

variable {root : Json} {left : Nat} {keywords : JsonObject} {v : Json} {subject : String}

/-! ## One value -/

/-- A type that JSON Schema accepts, the check accepts, or it is an integer written as a real. -/
theorem checkType_complete (ha : Asserts keywords v) (hp : Plain root left (.object keywords) v) :
    checkType (.object keywords) v subject = none := by
  have hnumber : ∀ q text, v = .real q text → matchesType "number" v = true := by
    rintro q text rfl
    rfl
  rw [checkType_eq_none]
  constructor
  · intro name hname
    rcases ha.type name hname with h | ⟨rfl, q, text, hv, hq⟩
    · exact h
    · have htypes : typesOf (.object keywords) = ["integer"] := by simp only [typesOf, find, hname]
      have := hp.integers q text hv hq (by simp [htypes])
      simp [htypes] at this
  · intro names hnames
    refine .inr ?_
    have htypes : typesOf (.object keywords) = strings names := by simp only [typesOf, find, hnames]
    obtain ⟨name, hmem, h | ⟨rfl, q, text, hv, hq⟩⟩ := ha.types names hnames
    · exact ⟨name, mem_strings.mpr hmem, h⟩
    · refine ⟨"number", ?_, hnumber q text hv⟩
      rw [← htypes]
      exact hp.integers q text hv hq (by rw [htypes, mem_strings]; exact hmem)

theorem checkConst_complete (ht : WellTyped root keywords) (hv : v.HoldsDoubles) (ha : Asserts keywords v) :
    checkConst (.object keywords) v subject = none := by
  rw [checkConst_eq_none]
  intro fixed hfixed
  exact Json.equals_of_sameValue (ht.const fixed hfixed) hv (ha.const fixed hfixed)

theorem checkEnum_complete (ht : WellTyped root keywords) (hv : v.HoldsDoubles) (ha : Asserts keywords v) :
    checkEnum (.object keywords) v subject = none := by
  rw [checkEnum_eq_none]
  intro options hoptions
  obtain ⟨option, hmem, hsame⟩ := ha.enum options hoptions
  have hdouble := Json.elementsHoldDoubles_iff.mp (ht.enum _ hoptions).1 option hmem
  exact .inr ⟨option, hmem, Json.equals_of_sameValue hdouble hv hsame⟩

theorem checkRange_complete (ht : WellTyped root keywords) (hv : v.HoldsDoubles) (ha : Asserts keywords v) :
    checkRange (.object keywords) v subject = none := by
  rw [checkRange_eq_none]
  intro n hn
  obtain ⟨m, hm⟩ := number_of_double hn
  constructor
  · intro b hb
    obtain ⟨hlookup, hdouble⟩ := doubleKeyword_spec hb
    obtain ⟨l, hl⟩ := number_of_double hdouble
    exact Json.double_mono (ht.range _ (by simp) _ hlookup).1 hv hl hm hdouble hn
      (ha.minimum _ _ _ hlookup hl hm)
  · intro b hb
    obtain ⟨hlookup, hdouble⟩ := doubleKeyword_spec hb
    obtain ⟨l, hl⟩ := number_of_double hdouble
    exact Json.double_mono hv (ht.range _ (by simp) _ hlookup).1 hm hl hn hdouble
      (ha.maximum _ _ _ hlookup hl hm)

theorem checkBounds_complete (search : String → String → Option Bool) (ht : WellTyped root keywords)
    (hv : v.HoldsDoubles) (ha : Asserts keywords v) (hp : Plain root left (.object keywords) v) :
    checkBounds search (.object keywords) v subject = none := by
  have hsize : ∀ {key}, key ∈ sizeKeywords → ∀ b, sizeKeyword (.object keywords) key = some b →
      keywords.lookup key = some b.json ∧ b.json.number = some (b.value : Rat) := fun hkey _ =>
    sizeKeyword_spec ht hkey
  unfold checkBounds
  split
  · rename_i text
    rw [checkLength_eq_none search (pattern_eq_none ht)]
    constructor
    · intro b hb
      obtain ⟨hlookup, hnumber⟩ := hsize (by decide) b hb
      exact_mod_cast ha.minLength _ _ _ hlookup hnumber rfl
    · intro b hb
      obtain ⟨hlookup, hnumber⟩ := hsize (by decide) b hb
      exact_mod_cast ha.maxLength _ _ _ hlookup hnumber rfl
  · rename_i vs
    rw [checkCounts_eq_none]
    refine ⟨⟨?_, ?_⟩, ?_⟩
    · intro b hb
      obtain ⟨hlookup, hnumber⟩ := hsize (by decide) b hb
      exact_mod_cast ha.minItems _ _ _ hlookup hnumber rfl
    · intro b hb
      obtain ⟨hlookup, hnumber⟩ := hsize (by decide) b hb
      exact_mod_cast ha.maxItems _ _ _ hlookup hnumber rfl
    · intro hunique
      refine ((ha.uniqueItems hunique vs rfl).and (hp.entries hunique vs rfl)).imp ?_
      rintro a b ⟨hdiffer, hsame⟩
      rw [← Bool.not_eq_true]
      intro hequal
      rw [hsame hequal] at hdiffer
      cases hdiffer
  · exact checkRange_complete ht hv ha

/-! ## Parts -/

/-- A value that satisfies a branch has the text that the branch pins. -/
theorem tag_of_satisfies {branch : Json} {tag text wanted : String} {members : JsonObject}
    (hbranch : branchTag branch = some (tag, text)) (hwanted : members.lookup tag = some (.string wanted))
    (h : Satisfies root branch (.object members)) : text = wanted := by
  obtain ⟨keywords, properties, schema, rfl, hproperties, hmem, hconst⟩ := branchTag_spec hbranch
  cases h with
  | object asserts parts chosen there satisfied =>
    have hpart := parts schema (.string wanted) (.property hproperties hmem (List.mem_of_lookup hwanted))
    cases schema with
    | object inner =>
      cases hpart with
      | object asserts parts chosen there satisfied =>
        have hsame := asserts.const _ hconst
        simpa [Json.sameValue] using hsame
    | _ => cases hconst

theorem Valid.parts (h : Valid root (.object keywords) v) :
    Asserts keywords v ∧ ∀ s' v', Requires root keywords v s' v' → Valid root s' v' := by
  cases h with
  | object asserts parts chosen there valid others => exact ⟨asserts, parts⟩

theorem Valid.branch (h : Valid root (.object keywords) v) {branches : List Json}
    (hbranches : branchesOf keywords = some branches) : ∃ branch ∈ branches, Valid root branch v := by
  cases h with
  | object asserts parts chosen there valid others =>
    have hbranch := List.getElem?_eq_getElem (there branches hbranches)
    exact ⟨_, List.mem_of_getElem? hbranch, valid branches _ hbranches hbranch⟩

/-- Under the text that a valid value has there is a branch. -/
theorem lookup_of_valid {branches : List Json} {tag wanted : String} {texts : List String}
    {members : JsonObject} (htagged : taggedUnion branches = some (tag, texts))
    (hwanted : members.lookup tag = some (.string wanted)) {branch : Json} (hmem : branch ∈ branches)
    (h : Valid root branch (.object members)) : ∃ first, (texts.zip branches).lookup wanted = some first := by
  obtain ⟨i, hi⟩ := List.mem_iff_getElem?.mp hmem
  obtain ⟨hlength, hpinned⟩ := List.forall₂_iff_get.mp (taggedUnion_spec htagged)
  obtain ⟨hlt, hget⟩ := List.getElem?_eq_some_iff.mp hi
  have htag := hpinned i hlt (by omega)
  rw [List.get_eq_getElem, hget] at htag
  have htext := tag_of_satisfies htag hwanted h.satisfies
  have hzip : (wanted, branch) ∈ texts.zip branches := by
    refine List.mem_of_getElem? (List.getElem?_zip_eq_some.mpr ⟨?_, hi⟩)
    rw [← htext]
    exact List.getElem?_eq_getElem _
  rw [← Option.isSome_iff_exists, Option.isSome_iff_ne_none]
  intro hnone
  simpa using List.lookup_eq_none_iff.mp hnone _ hzip

theorem checkOneOf_complete {deeper : Option Check} (hleft : deeper ≠ none → left ≠ 0)
    (hp : Plain root left (.object keywords) v)
    (h : Valid root (.object keywords) v)
    (hcheck : ∀ check branches branch, deeper = some check → branchesOf keywords = some branches →
      branch ∈ branches → Valid root branch v → check branch v subject = none) :
    checkOneOf deeper root (.object keywords) v subject = none := by
  unfold checkOneOf
  split
  · rename_i branches check hlookup
    have hsome : left ≠ 0 := hleft (Option.some_ne_none check)
    have hbranches := branchesOf_eq.mpr hlookup
    obtain ⟨branch, hmem, hvalid⟩ := h.branch hbranches
    have huntagged : checkBranches check root v subject branches = none := by
      refine checkBranches_eq_none.mpr ⟨branch, hmem, ?_, hcheck check branches branch rfl hbranches hmem hvalid⟩
      cases hvalid with
      | always => exact absurd hmem (hp.shapes hsome branches hlookup)
      | object => rfl
    split_ifs
    · rfl
    · split
      · rename_i members tag texts htagged
        split
        · rename_i wanted hwanted
          obtain ⟨first, hfirst⟩ := lookup_of_valid htagged hwanted hmem hvalid
          have hfirstMem := (List.of_mem_zip (List.mem_of_lookup hfirst)).2
          have hfirstValid := hp.tags hsome branches tag texts members wanted first hlookup htagged rfl hwanted hfirst
          exact checkTagged_eq_none.mpr
            ⟨first, hfirst, hcheck check branches first rfl hbranches hfirstMem hfirstValid⟩
        · exact huntagged
      · exact huntagged
  · rfl

theorem append_ne_empty {a b : String} (h : b ≠ "") : a ++ b ≠ "" := by
  intro hempty
  apply h
  apply String.toList_injective
  have := congrArg String.toList hempty
  rw [String.toList_append, String.toList_empty] at this
  exact (List.append_eq_nil_iff.mp this).2

theorem checkObject_complete {deeper : Option Check} {members : JsonObject}
    (hrequired : ∀ names name, keywords.lookup "required" = some (.array names) → .string name ∈ names →
      (members.lookup name).isSome)
    (hclosed : isClosed (.object keywords) subject = true →
      ∀ e ∈ members, ((propertiesOf (.object keywords)).lookup e.1).isSome)
    (hcheck : ∀ check declared key x subject, deeper = some check → subject ≠ "" →
      (propertiesOf (.object keywords)).lookup key = some (.object declared) → (key, x) ∈ members →
      check (.object declared) x subject = none) :
    checkObject deeper (.object keywords) members subject = none := by
  rw [checkObject_eq_none, checkNames_eq_none]
  refine ⟨⟨?_, hclosed⟩, ?_⟩
  · intro name hname
    unfold requiredNames find at hname
    dsimp only at hname
    split at hname
    · rename_i names hnames
      exact hrequired names name hnames (mem_strings.mp hname)
    · cases hname
  · intro check hdeeper
    rw [checkProperties_eq_none]
    rintro ⟨key, x⟩ hmem declared hdeclared
    refine hcheck check declared key x _ hdeeper ?_ hdeclared hmem
    split_ifs
    · rw [String.append_assoc]
      exact append_ne_empty (by simp)
    · exact append_ne_empty (by simp [quoted])

theorem entry_ne_empty (i : Nat) : subject ++ " entry " ++ toString i ≠ "" := by
  rw [String.append_assoc]
  apply append_ne_empty
  intro h
  have := congrArg String.toList h
  simp at this

theorem checkEntries_complete {check : Check} {vs : List Json} (hleft : left ≠ 0)
    (hp : Plain root left (.object keywords) (.array vs))
    (hparts : ∀ s' v', Requires root keywords (.array vs) s' v' → Valid root s' v')
    (hcheck : ∀ schema x subject, subject ≠ "" → Looks root (.object keywords, .array vs) (schema, x) →
      Valid root schema x → check schema x subject = none) :
    checkEntries check (.object keywords) vs subject = none := by
  rw [checkEntries_eq_none]
  constructor
  · intro schemas hschemas i schema x hschema hx hobject
    exact hcheck schema x _ (entry_ne_empty i) (.position hschemas hschema hx)
      (hparts _ _ (.position hschemas hschema hx))
  · intro items hitems i x hx
    refine hcheck _ x _ (entry_ne_empty i) (.entry hitems hx) ?_
    by_cases hi : prefixLength keywords ≤ i
    · exact hparts _ _ (.item hitems hi hx)
    · -- the entry is covered by a position, and `items` is checked all the same
      unfold prefixLength at hi
      split at hi
      · rename_i schemas hschemas
        exact hp.covered hleft schemas items vs i x hschemas hitems rfl (by omega) hx
      · omega

/-- **One level passes what is valid**, where the position is plain and the levels below it do. -/
theorem checkValueAt_complete (search : String → String → Option Bool) {deeper : Option Check} {s : Json}
    (hs : IsSchema root s) (hv : v.HoldsDoubles) (hsubject : subject ≠ "") (hp : Plain root left s v)
    (h : Valid root s v) (hleft : deeper ≠ none → left ≠ 0)
    (hdeeper : ∀ check s' v' subject, deeper = some check → subject ≠ "" → Looks root (s, v) (s', v') →
      Valid root s' v' → check s' v' subject = none) :
    checkValueAt search root deeper s v subject = none := by
  cases s with
  | object keywords =>
    have ht := hs.typed
    obtain ⟨asserts, hparts⟩ := h.parts
    rw [checkValueAt_eq_none]
    refine ⟨?_, checkType_complete asserts hp, checkConst_complete ht hv asserts,
      checkEnum_complete ht hv asserts, checkBounds_complete search ht hv asserts hp, ?_, ?_⟩
    · rw [checkReference_eq_none]
      intro check target hcheck htarget
      obtain ⟨name, hname, hdefinition⟩ := resolveLocalRef_spec htarget
      exact hdeeper check target v subject hcheck hsubject (.ref hname hdefinition)
        (hparts _ _ (.ref hname hdefinition))
    · refine checkOneOf_complete hleft hp h ?_
      intro check branches branch hcheck hbranches hmem hvalid
      exact hdeeper check branch v subject hcheck hsubject (.branch hbranches hmem hvalid) hvalid
    · rw [checkParts_eq_none]
      constructor
      · rintro check vs hcheck rfl
        exact checkEntries_complete (hleft (hcheck ▸ Option.some_ne_none check)) hp hparts
          fun schema x subject => hdeeper check schema x subject hcheck
      · rintro members rfl
        refine checkObject_complete (fun names name hnames hname => asserts.required _ _ _ hnames hname rfl) ?_ ?_
        swap
        · intro check declared key x subject hcheck hnamed hdeclared hmem
          obtain ⟨properties, hlookup, hschema⟩ := propertiesOf_spec hdeclared
          exact hdeeper check _ x subject hcheck hnamed (.property hlookup hschema hmem)
            (hparts _ _ (.property hlookup hschema hmem))
        intro hclosed e hmem
        unfold isClosed at hclosed
        rw [Bool.or_eq_true, saysClosed_iff] at hclosed
        rcases hclosed with hfalse | htop
        · rw [Option.isSome_iff_ne_none]
          intro hkey
          cases hparts (.boolean false) e.2 (.additional hfalse hmem hkey)
        · simp [hsubject] at htop
  | _ => rfl

/-- **Every level passes what is valid**, where all positions that it comes to are plain. -/
theorem checkValue_complete (search : String → String → Option Bool) (hroot : IsSchema root root) {n : Nat}
    {s : Json} (hs : IsSchema root s) (hv : v.HoldsDoubles) (hsubject : subject ≠ "")
    (hp : ∀ left s' v', Within root n (s, v) left (s', v') → Plain root left s' v') (h : Valid root s v) :
    checkValue search root n s v subject = none := by
  induction n generalizing s v subject with
  | zero =>
    refine checkValueAt_complete search hs hv hsubject (hp 0 s v (.here 0 _)) h (fun hnone => absurd rfl hnone) ?_
    intro check s' v' subject hcheck
    cases hcheck
  | succ n ih =>
    refine checkValueAt_complete search hs hv hsubject (hp (n + 1) s v (.here (n + 1) _)) h
      (fun _ => Nat.succ_ne_zero n) ?_
    intro check s' v' subject' hcheck hnamed hlooks hvalid
    cases hcheck
    refine ih (hlooks.isSchema hroot hs) (hlooks.holdsDoubles hv) hnamed ?_ hvalid
    intro left s'' v'' hwithin
    exact hp left s'' v'' (.look hlooks hwithin)

/-! ## A call's arguments -/

/-- The published schema of arguments, with a top level that says nothing read as closed. -/
def closedTop (schema : Json) : Json :=
  match schema with
  | .object keywords =>
    if (keywords.lookup "additionalProperties").isNone then
      .object (keywords ++ [("additionalProperties", .boolean false)])
    else schema
  | schema => schema

theorem closedTop_object (keywords : JsonObject) : ∃ closed, closedTop (.object keywords) = .object closed ∧
    (∀ key, key ≠ "additionalProperties" → closed.lookup key = keywords.lookup key) ∧
    closed.lookup "additionalProperties" =
      some ((keywords.lookup "additionalProperties").getD (.boolean false)) := by
  unfold closedTop
  dsimp only
  cases h : keywords.lookup "additionalProperties" with
  | none =>
    refine ⟨_, rfl, ?_, ?_⟩
    · intro key hkey
      have hbeq : (key == "additionalProperties") = false := by simpa using hkey
      simp [List.lookup_append, List.lookup_cons, List.lookup_nil, hbeq]
    · simp [List.lookup_append, h]
  | some additional => exact ⟨keywords, rfl, fun _ _ => rfl, h⟩

/-- A top level that refuses what it does not declare is closed as published. -/
theorem closedTop_of_isClosed {closed : JsonObject} (h : isClosed (.object keywords) subject = true)
    (hclosed : closed.lookup "additionalProperties" =
      some ((keywords.lookup "additionalProperties").getD (.boolean false))) :
    closed.lookup "additionalProperties" = some (.boolean false) := by
  rw [hclosed]
  unfold isClosed saysClosed topLevelArgumentsAreClosed find at h
  dsimp only at h
  cases hlookup : keywords.lookup "additionalProperties" with
  | none => rfl
  | some additional =>
    cases additional with
    | boolean b =>
      cases b with
      | false => rfl
      | true => simp [hlookup] at h
    | _ => simp [hlookup] at h

theorem mem_of_lookup_isSome {names : List String} (h : ∀ e ∈ keywords, e.1 ∈ names) (key : String)
    (hkey : (keywords.lookup key).isSome) : key ∈ names := by
  obtain ⟨value, hvalue⟩ := Option.isSome_iff_exists.mp hkey
  exact h _ (List.mem_of_lookup hvalue)

/-- The schema of an integer, or of a text as well. -/
def sampleEntry (text : Bool) : Json :=
  if text then .object [("type", .array [.string "string", .string "integer"])]
  else .object [("type", .string "integer")]

/-- A text or an integer, and then integers. -/
def sampleCell : Json :=
  .object [("prefixItems", .array [sampleEntry true]), ("items", sampleEntry false)]

def sampleSchema : Json := .object [("properties", .object [("cell", sampleCell)])]

theorem sampleEntry_isSchema (root : Json) (text : Bool) : IsSchema root (sampleEntry text) := by
  have htypes : ∀ v, Json.array [.string "string", .string "integer"] = v →
      ∃ names : List String, names ≠ [] ∧ (∀ name ∈ names, name ∈ typeNames) ∧ v = .array (names.map .string) := by
    rintro v rfl
    exact ⟨["string", "integer"], by decide, by decide, rfl⟩
  cases text with
  | false =>
    refine .object ?_ ?_
    · constructor
      · exact mem_of_lookup_isSome (by decide)
      all_goals simp [List.lookup_cons, List.lookup_nil, sizeKeywords, typeNames]
    · intro schema hschema
      cases hschema <;> simp_all [List.lookup_cons, List.lookup_nil]
  | true =>
    refine .object ?_ ?_
    · constructor
      · exact mem_of_lookup_isSome (by decide)
      · exact fun v h => .inr (htypes v (Option.some.inj h))
      all_goals simp [List.lookup_cons, List.lookup_nil, sizeKeywords]
    · intro schema hschema
      cases hschema <;> simp_all [List.lookup_cons, List.lookup_nil]

theorem sampleSchema_isSchema (root : Json) : IsSchema root sampleSchema := by
  have hcell : IsSchema root sampleCell := by
    refine .object ?_ ?_
    · constructor
      · exact mem_of_lookup_isSome (by decide)
      all_goals simp [List.lookup_cons, List.lookup_nil, sizeKeywords]
    · intro schema hschema
      cases hschema with
      | position h hschema =>
        cases h
        rw [List.mem_singleton.mp hschema]
        exact sampleEntry_isSchema root true
      | item h =>
        cases h
        exact sampleEntry_isSchema root false
      | _ h => cases h
  refine .object ?_ ?_
  · constructor
    · exact mem_of_lookup_isSome (by decide)
    all_goals simp [List.lookup_cons, List.lookup_nil, sizeKeywords]
  · intro schema hschema
    cases hschema with
    | property h hschema =>
      cases h
      cases List.mem_singleton.mp hschema
      exact hcell
    | _ h => cases h

/-- A schema without a `oneOf` holds when its own keywords and its parts do. -/
theorem valid_of_parts (asserts : Asserts keywords v) (hbranches : branchesOf keywords = none)
    (parts : ∀ s' v', Requires root keywords v s' v' → Valid root s' v') : Valid root (.object keywords) v := by
  refine .object asserts parts 0 ?_ ?_ ?_
  · intro branches h
    rw [hbranches] at h
    cases h
  · intro branches branch h
    rw [hbranches] at h
    cases h
  · intro branches i branch h
    rw [hbranches] at h
    cases h

theorem sampleEntry_valid (root : Json) {text : Bool} {v : Json}
    (h : matchesType "integer" v = true ∨ text = true ∧ matchesType "string" v = true) :
    Valid root (sampleEntry text) v := by
  cases text with
  | false =>
    refine valid_of_parts ?_ rfl ?_
    · constructor <;> simp_all [List.lookup_cons, List.lookup_nil, HasType]
    · intro s' v' hrequires
      cases hrequires <;> simp_all [List.lookup_cons, List.lookup_nil]
  | true =>
    refine valid_of_parts ?_ rfl ?_
    · constructor <;> simp_all [List.lookup_cons, List.lookup_nil, HasType]
      grind
    · intro s' v' hrequires
      cases hrequires <;> simp_all [List.lookup_cons, List.lookup_nil]

theorem sampleSchema_valid (root first : Json)
    (h : matchesType "integer" first = true ∨ true = true ∧ matchesType "string" first = true) :
    Valid root (closedTop sampleSchema) (.object [("cell", .array [first, .integer 1])]) := by
  have hcell : Valid root sampleCell (.array [first, .integer 1]) := by
    refine valid_of_parts ?_ rfl ?_
    · constructor <;> simp [List.lookup_cons, List.lookup_nil]
    · intro s' v' hrequires
      cases hrequires with
      | @position _ _ i _ _ hschemas hschema hv =>
        cases hschemas
        cases i with
        | zero =>
          cases hschema
          cases hv
          exact sampleEntry_valid root h
        | succ i => cases hschema
      | @item _ i _ _ hitems hi hv =>
        cases hitems
        obtain rfl : i = 1 := by
          have hlt := (List.getElem?_eq_some_iff.mp hv).1
          simp [prefixLength] at hi hlt
          omega
        cases hv
        exact sampleEntry_valid root (.inl rfl)
      | _ h => cases h
  refine valid_of_parts ?_ rfl ?_
  · constructor <;> simp [List.lookup_cons, List.lookup_nil]
  · intro s' v' hrequires
    cases hrequires with
    | property hproperties hschema hmember =>
      cases hproperties
      cases List.mem_singleton.mp hschema
      cases List.mem_singleton.mp hmember
      exact hcell
    | additional hadditional hmember hkey =>
      cases List.mem_singleton.mp hmember
      cases hkey
    | _ h => cases h

theorem sampleEntry_looks {text : Bool} {i : Int} {q : Json × Json} : ¬ Looks root (sampleEntry text, .integer i) q := by
  intro h
  cases text <;> cases h with
  | ref h htarget => cases h
  | branch h hbranch valid => cases h

theorem sampleEntry_plain (root : Json) (left : Nat) (text : Bool) (i : Int) :
    Plain root left (sampleEntry text) (.integer i) := by
  cases text <;> constructor <;> simp [sampleEntry, find, List.lookup_cons, List.lookup_nil]

theorem sampleCell_plain (root : Json) {n : Nat} {s v : Json}
    (h : Within root n (sampleCell, .array [.integer 2, .integer 1]) left (s, v)) : Plain root left s v := by
  have hentry : ∀ {n text} {i : Int}, Within root n (sampleEntry text, .integer i) left (s, v) → Plain root left s v := by
    intro n text i hwithin
    cases hwithin with
    | here => exact sampleEntry_plain root _ text i
    | look h rest => exact absurd h sampleEntry_looks
  cases h with
  | here =>
    constructor
    case covered =>
      intro _ schemas items vs i x hschemas hitems hvs hi hx
      cases hschemas
      cases hvs
      obtain rfl : i = 0 := by simpa using hi
      cases hitems
      cases hx
      exact @sampleEntry_valid root false _ (.inl rfl)
    all_goals simp [sampleCell, find, List.lookup_cons, List.lookup_nil]
  | look h rest =>
    have hmem : ∀ {i : Nat} {x : Json}, [Json.integer 2, .integer 1][i]? = some x → ∃ k, x = .integer k := by
      intro i x hx
      have := List.mem_of_getElem? hx
      simp only [List.mem_cons, List.not_mem_nil, or_false] at this
      rcases this with rfl | rfl
      · exact ⟨2, rfl⟩
      · exact ⟨1, rfl⟩
    cases h with
    | position hschemas hschema hx =>
      cases hschemas
      obtain ⟨k, rfl⟩ := hmem hx
      rw [List.mem_singleton.mp (List.mem_of_getElem? hschema)] at rest
      exact hentry rest
    | entry hitems hx =>
      cases hitems
      obtain ⟨k, rfl⟩ := hmem hx
      exact hentry rest
    | ref h htarget => cases h
    | branch h hbranch valid => cases h

end Didi.Schema
