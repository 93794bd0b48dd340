import Didi.Json.Names
import Didi.Tres.Spelled

/-!
# The literals of scalars and of vectors

* `Written` : a literal whose scalars are all of a value but what is lost;
* `accounts_numbers` : the scalars of an object that is written from the numbers under some keys;
* `written_component`, `written_packed` : vectors and colours, alone and in a packed array.
-/

namespace Didi.Tres
open Json (isNumber)
open Config (Text bytesOf commaSeparated isPlain Numeral PrintsNumbers)
variable {members : JsonObject} {type : ComponentType} {name : String} {s s' : Option ReferenceScope}

/-! ## Steps of the writer -/

section Steps
variable {α β : Type}

theorem bind_ok {x : Write α} {f : α → Write β} {b : β} :
    (x >>= f) s = .ok (b, s') ↔ ∃ a s₁, x s = .ok (a, s₁) ∧ f a s₁ = .ok (b, s') := by
  show (x s >>= fun next => f next.1 next.2) = _ ↔ _
  cases x s with
  | error e => simp [bind, Except.bind]
  | ok next =>
    constructor
    · exact fun h => ⟨next.1, next.2, rfl, h⟩
    · rintro ⟨a, s₁, hnext, h⟩
      cases hnext
      exact h

theorem pure_ok {a b : α} : (pure a : Write α) s = .ok (b, s') ↔ a = b ∧ s = s' := by
  show Except.ok (a, s) = .ok (b, s') ↔ _
  simp

theorem mapM_ok {f : α → Write β} {l : List α} {bs : List β} (h : l.mapM f s = .ok (bs, s')) :
    List.Forall₂ (fun a b => ∃ s s', f a s = .ok (b, s')) l bs := by
  induction l generalizing s s' bs with
  | nil =>
    rw [List.mapM_nil] at h
    obtain ⟨rfl, -⟩ := pure_ok.mp h
    exact .nil
  | cons a l ih =>
    rw [List.mapM_cons] at h
    obtain ⟨b, s₁, hb, h⟩ := bind_ok.mp h
    obtain ⟨others, s₂, hothers, h⟩ := bind_ok.mp h
    obtain ⟨rfl, -⟩ := pure_ok.mp h
    exact .cons ⟨s, s₁, hb⟩ (ih hothers)

end Steps

/-! ## Values that the library holds -/

/-- A value whose members are sorted by name, each once, and whose reals print as numbers. -/
structure Fine (value : Json) : Prop where
  sorted : value.Named fun _ => True
  prints : PrintsNumbers value

section Fine
variable {items : List Json}

theorem Fine.element (h : Fine (.array items)) {value : Json} (hmem : value ∈ items) : Fine value :=
  ⟨Json.named_array.mp h.sorted value hmem, Json.RealTexts.of_mem h.prints hmem⟩

theorem Fine.member (h : Fine (.object members)) {member : String × Json} (hmem : member ∈ members) : Fine member.2 :=
  ⟨((Json.named_object.mp h.sorted).2 member hmem).2, Json.RealTexts.of_member h.prints hmem⟩

theorem Fine.nodup (h : Fine (.object members)) : (members.map Prod.fst).Nodup :=
  List.pairwise_map.mpr ((Json.named_object.mp h.sorted).1.imp fun hlt => hlt.ne)

theorem Fine.lookup (h : Fine (.object members)) {member : String × Json} (hmem : member ∈ members) :
    members.lookup member.1 = some member.2 := List.lookup_of_mem (Json.named_object.mp h.sorted).1 hmem

end Fine

theorem mem_keys_iff {key : String} :
    key ∈ members.map Prod.fst ↔ (members.lookup key).isSome = true := by
  rw [List.lookup_isSome_iff, List.mem_map]
  constructor
  · rintro ⟨member, hmem, rfl⟩
    exact ⟨member, hmem, beq_self_eq_true member.1⟩
  · rintro ⟨member, hmem, hkey⟩
    exact ⟨member, hmem, (beq_iff_eq.mp hkey).symm⟩

/-! ## Scalars -/

theorem lexes_numberText {number : Json} (hnumber : isNumber number = true) (hfine : Fine number) :
    Lexes (numberText number) [numberText number] := by
  cases number with
  | integer i => exact lexes_numeral (Config.numeral_integer i)
  | real value text => exact lexes_numeral hfine.prints
  | _ => cases hnumber

theorem lexes_scalarText {value : Json} (h : value.isStructured = false) (hfine : Fine value) :
    Lexes (scalarText value) [scalarText value] := by
  cases value with
  | null => exact lexes_plain (by decide) (List.all_eq_true.mp (by decide))
  | boolean b =>
    cases b with
    | false => exact lexes_plain (by decide) (List.all_eq_true.mp (by decide))
    | true => exact lexes_plain (by decide) (List.all_eq_true.mp (by decide))
  | integer i => exact lexes_numberText rfl hfine
  | real value text => exact lexes_numberText rfl hfine
  | string s => exact lexes_quoted s
  | array items => cases h
  | object members => cases h

theorem scalarText_number {number : Json} (h : isNumber number = true) : scalarText number = numberText number := by
  cases number with
  | integer i => rfl
  | real value text => rfl
  | _ => cases h

theorem not_isStructured_of_isNumber {number : Json} (h : isNumber number = true) : number.isStructured = false := by
  cases number with
  | integer i => rfl
  | real value text => rfl
  | _ => cases h

section Written
variable (w : Writer)

/-- A literal whose scalars are all of a value but what is lost. -/
def Written (place : Place) (value : Json) (literal : Text) : Prop :=
  ∃ scalars, Lexes literal scalars ∧ Accounts w place value scalars

/-- Literals of the elements of an array. -/
def WrittenAll (place : Place) (values : List Json) (pieces : List Text) : Prop :=
  ∃ scalars : List (List Text), List.Forall₂ Lexes pieces scalars ∧ List.Forall₂ (Accounts w place) values scalars

variable {w}

theorem written_scalar {declaredType : Option String} {value : Json} (h : value.isStructured = false)
    (hfine : Fine value) : Written w (.value declaredType) value (scalarText value) :=
  ⟨[scalarText value], lexes_scalarText h hfine, accounts_scalar h⟩

/-- The form of an object is all that matters of its place. -/
theorem Accounts.congr {place place' : Place} {scalars : List Text} (h : Accounts w place (.object members) scalars)
    (hform : place.form members = place'.form members) :
    Accounts w place' (.object members) scalars := by
  obtain ⟨hwhole, hcount⟩ := h
  refine ⟨fun hlost => ?_, ?_⟩
  · rw [Spells, ← hform, ← Spells]
    apply hwhole
    rw [lost, hform]
    rwa [lost] at hlost
  · rw [lost, scalarCount, ← hform]
    rwa [lost, scalarCount] at hcount

/-! ## Vectors and colours -/

theorem componentText_ok {member : String} {text : Text} (h : componentText w type members member s = .ok (text, s')) :
    ∃ number, members.lookup member = some number ∧ isNumber number = true ∧ text = numberText number := by
  unfold componentText at h
  cases hfound : (members.lookup member).filter isNumber with
  | none =>
    rw [hfound] at h
    cases h
  | some number =>
    obtain ⟨hlookup, hnumber⟩ := Option.filter_eq_some_iff.mp hfound
    refine ⟨number, hlookup, hnumber, ?_⟩
    rw [hfound] at h
    cases hintegral : type.integral with
    | false =>
      rw [hintegral] at h
      exact (pure_ok.mp h).1.symm
    | true =>
      rw [hintegral] at h
      cases number with
      | real value text => cases h
      | _ => exact (pure_ok.mp h).1.symm

theorem tresComponentComponents_ok {components : List Text}
    (h : tresComponentComponents w type members s = .ok (components, s')) :
    components = numbersOf members type.members ∧
      ∀ member ∈ type.members, ∃ number, members.lookup member = some number ∧ isNumber number = true := by
  unfold tresComponentComponents at h
  have hall := mapM_ok h
  unfold numbersOf
  generalize type.members = keys at hall
  clear h
  induction hall with
  | nil => exact ⟨rfl, by simp⟩
  | cons htext _ ih =>
    obtain ⟨s, s', htext⟩ := htext
    obtain ⟨number, hlookup, hnumber, rfl⟩ := componentText_ok htext
    obtain ⟨hothers, hnumbers⟩ := ih
    rw [List.map_cons, List.forall_mem_cons, hlookup, ← hothers]
    exact ⟨rfl, ⟨number, rfl, hnumber⟩, hnumbers⟩

/-- What holds of each type that has components. -/
structure IsComponent (type : ComponentType) : Prop where
  nodup : type.members.Nodup
  unnamed : "type" ∉ type.members
  colour : type.name = "Color" → type.members = kRGBA
  ne : bytesOf type.name ≠ []
  plain : ∀ c ∈ bytesOf type.name, isPlain c = true
  constructor : isReference (bytesOf type.name) = false

theorem isComponent_of_find (h : findComponentType name = some type) :
    IsComponent type ∧ type.name = name := by
  have hmem := List.mem_of_find?_eq_some h
  have hname : type.name = name := by simpa using List.find?_some h
  refine ⟨?_, hname⟩
  fin_cases hmem <;> exact ⟨by decide, by decide, by decide, by decide, List.all_eq_true.mp (by decide), by decide⟩

/-- The numbers of a constructor are its scalars. -/
theorem lexes_constructor (hne : bytesOf name ≠ []) (hplain : ∀ c ∈ bytesOf name, isPlain c = true)
    (hreference : isReference (bytesOf name) = false) {pieces : List Text} {scalars : List (List Text)}
    (h : List.Forall₂ Lexes pieces scalars) : Lexes (constructorLiteral name pieces) scalars.flatten :=
  lexes_call hne hplain hreference (lexes_commaSeparated h)

theorem forall₂_singletons {pieces : List Text} (h : ∀ piece ∈ pieces, Lexes piece [piece]) :
    List.Forall₂ Lexes pieces (pieces.map fun piece => [piece]) :=
  List.forall₂_map_right_iff.mpr (List.forall₂_same.mpr h)

theorem flatten_singletons (pieces : List Text) : (pieces.map fun piece => [piece]).flatten = pieces := by
  rw [← List.flatMap_def, List.flatMap_singleton']

theorem lexes_numbers (hne : bytesOf name ≠ []) (hplain : ∀ c ∈ bytesOf name, isPlain c = true)
    (hreference : isReference (bytesOf name) = false) {numbers : List Text} (h : ∀ text ∈ numbers, Lexes text [text]) :
    Lexes (constructorLiteral name numbers) numbers := by
  have hlexes := lexes_constructor hne hplain hreference (forall₂_singletons h)
  rwa [flatten_singletons] at hlexes

theorem lookup_withAlpha {key : String} {value : Json}
    (h : members.lookup key = some value) : (withAlpha type members).lookup key = some value := by
  unfold withAlpha
  split_ifs
  · rw [List.lookup_append, h]
    rfl
  · exact h

/-- The number of a key, as the scalars that it spells. -/
def spelledNumber (members : JsonObject) (key : String) : List Text := [((members.lookup key).map numberText).getD []]

theorem flatMap_spelledNumber (members : JsonObject) (keys : List String) :
    keys.flatMap (spelledNumber members) = numbersOf members keys := by
  induction keys with
  | nil => rfl
  | cons key keys ih =>
    rw [List.flatMap_cons, ih]
    rfl

/-- **The numbers under these keys are what an object spells that is written from them.** -/
theorem accounts_numbers {place : Place} {form : Form} (hform : place.form members = form)
    (hfine : Fine (.object members)) {keys : List String} (hnodup : keys.Nodup)
    (hkeys : ∀ key, key ∈ keys ↔ key ∈ members.map Prod.fst ∧ key ∉ form.naming ∧ form.takes key = true)
    (hinside : form.inside = .value none)
    (hnumbers : ∀ key ∈ keys, ∃ number, members.lookup key = some number ∧ isNumber number = true) :
    Accounts w place (.object members) (numbersOf members keys ++ form.alpha) := by
  rw [← flatMap_spelledNumber]
  refine accounts_object hform hfine.nodup hnodup hkeys fun member hmem hkey => ?_
  obtain ⟨number, hlookup, hnumber⟩ := hnumbers member.1 hkey
  rw [hfine.lookup hmem] at hlookup
  obtain rfl := Option.some.inj hlookup
  have haccounts := @accounts_scalar w (.value none) member.2 (not_isStructured_of_isNumber hnumber)
  have hspelled : spelledNumber members member.1 = [spelling w (.value none) member.2] := by
    unfold spelledNumber
    rw [hfine.lookup hmem]
    exact congrArg (fun text => [text]) (scalarText_number hnumber).symm
  rw [hinside, hspelled]
  exact haccounts

/-- The texts of numbers that are found are numbers. -/
theorem lexes_numbersOf (hfine : Fine (.object members)) {keys : List String}
    (hnumbers : ∀ key ∈ keys, ∃ number, members.lookup key = some number ∧ isNumber number = true) :
    ∀ text ∈ numbersOf members keys, Lexes text [text] := by
  intro text hmem
  obtain ⟨key, hkey, rfl⟩ := List.mem_map.mp hmem
  obtain ⟨number, hlookup, hnumber⟩ := hnumbers key hkey
  rw [hlookup]
  exact lexes_numberText hnumber (hfine.member (List.mem_of_lookup hlookup))

/-- A vector or a colour, and an alpha where none is given. -/
theorem accounts_component (htype : IsComponent type) {place : Place}
    (hform : place.form members = componentForm type members) (hfine : Fine (.object members))
    (hnumbers : ∀ key ∈ type.members, ∃ number, (withAlpha type members).lookup key = some number ∧
      isNumber number = true) :
    Accounts w place (.object members) (numbersOf (withAlpha type members) type.members) ∧
      ∀ text ∈ numbersOf (withAlpha type members) type.members, Lexes text [text] := by
  have htakes : ∀ key, (componentForm type members).takes key = true ↔ key ∈ type.members := by
    intro key
    simp [Form.takes, componentForm]
  have hnaming : ∀ key ∈ type.members, key ∉ (componentForm type members).naming := by
    rintro key hkey hmem
    simp only [componentForm] at hmem
    split_ifs at hmem
    · obtain rfl := List.mem_singleton.mp hmem
      exact htype.unnamed hkey
    · cases hmem
  by_cases halpha : (type.name = "Color" && (members.lookup "a").isNone) = true
  · obtain ⟨hcolour, hnone⟩ := Bool.and_eq_true_iff.mp halpha
    have hmembers := htype.colour (by simpa using hcolour)
    have habsent : members.lookup "a" = none := by simpa using hnone
    have hwith : withAlpha type members = members ++ [("a", .real 1 "1.0")] := if_pos halpha
    have hfound : ∀ key ∈ ["r", "g", "b"], ∃ number, members.lookup key = some number ∧ isNumber number = true := by
      intro key hkey
      obtain ⟨number, hlookup, hnumber⟩ := hnumbers key (by
        rw [hmembers]
        exact List.mem_append_left ["a"] hkey)
      have hother : [("a", Json.real 1 "1.0")].lookup key = none := by
        fin_cases hkey <;> rfl
      rw [hwith, List.lookup_append, hother, Option.or_none] at hlookup
      exact ⟨number, hlookup, hnumber⟩
    have hnumbersOf : numbersOf (withAlpha type members) type.members =
        numbersOf members ["r", "g", "b"] ++ ["1.0".toList] := by
      have hsame : ∀ key ∈ ["r", "g", "b"], (withAlpha type members).lookup key = members.lookup key := by
        intro key hkey
        obtain ⟨number, hlookup, -⟩ := hfound key hkey
        rw [lookup_withAlpha hlookup, hlookup]
      have hlast : (withAlpha type members).lookup "a" = some (.real 1 "1.0") := by
        rw [hwith, List.lookup_append, habsent]
        rfl
      rw [hmembers]
      show numbersOf (withAlpha type members) (["r", "g", "b"] ++ ["a"]) = _
      unfold numbersOf
      rw [List.map_append, List.map_congr_left fun key hkey => by rw [hsame key hkey], List.map_singleton, hlast]
      rfl
    have hone : Lexes "1.0".toList ["1.0".toList] := lexes_plain (by decide) (List.all_eq_true.mp (by decide))
    rw [hnumbersOf]
    constructor
    · have hform' : (componentForm type members).alpha = ["1.0".toList] := if_pos halpha
      rw [← hform']
      refine accounts_numbers hform hfine (by decide) (fun key => ?_) rfl hfound
      rw [mem_keys_iff, htakes, hmembers]
      constructor
      · intro hkey
        obtain ⟨number, hlookup, -⟩ := hfound key hkey
        have hmem : key ∈ kRGBA := List.mem_append_left ["a"] hkey
        exact ⟨by rw [hlookup]; rfl, hnaming key (by rwa [hmembers]), hmem⟩
      · rintro ⟨hsome, -, hmem⟩
        rcases List.mem_append.mp (show key ∈ ["r", "g", "b"] ++ ["a"] from hmem) with hkey | hkey
        · exact hkey
        · obtain rfl := List.mem_singleton.mp hkey
          rw [habsent] at hsome
          cases hsome
    · intro text hmem
      rcases List.mem_append.mp hmem with hmem | hmem
      · exact lexes_numbersOf hfine hfound text hmem
      · obtain rfl := List.mem_singleton.mp hmem
        exact hone
  · have hwith : withAlpha type members = members := if_neg halpha
    rw [hwith] at hnumbers ⊢
    refine ⟨?_, lexes_numbersOf hfine hnumbers⟩
    have hnone : (componentForm type members).alpha = [] := if_neg halpha
    have haccounts := @accounts_numbers members w place _ hform hfine type.members htype.nodup (fun key => by
      rw [mem_keys_iff, htakes]
      constructor
      · intro hkey
        obtain ⟨number, hlookup, -⟩ := hnumbers key hkey
        exact ⟨by rw [hlookup]; rfl, hnaming key hkey, hkey⟩
      · exact fun h => h.2.2) rfl hnumbers
    rwa [hnone, List.append_nil] at haccounts

theorem written_component (hfind : findComponentType name = some type) {place : Place}
    (hform : place.form members = componentForm type members) (hfine : Fine (.object members)) {literal : Text}
    (h : tresComponentLiteral w type members s = .ok (literal, s')) : Written w place (.object members) literal := by
  obtain ⟨components, s₁, hcomponents, h⟩ := bind_ok.mp h
  obtain ⟨rfl, -⟩ := pure_ok.mp h
  obtain ⟨htype, -⟩ := isComponent_of_find hfind
  obtain ⟨rfl, hnumbers⟩ := tresComponentComponents_ok hcomponents
  obtain ⟨haccounts, hlexes⟩ := accounts_component htype hform hfine hnumbers
  exact ⟨_, lexes_numbers htype.ne htype.plain htype.constructor hlexes, haccounts⟩

/-! ## Packed arrays -/

/-- The name of a packed array is a word, and no reference. -/
theorem packed_name (h : kPackedArrayTypes.contains name = true) :
    bytesOf name ≠ [] ∧ (∀ c ∈ bytesOf name, isPlain c = true) ∧ isReference (bytesOf name) = false := by
  have hnames : (kPackedArrayTypes.all fun name => decide (bytesOf name ≠ []) && (bytesOf name).all isPlain &&
      !isReference (bytesOf name)) = true := by
    decide
  have hname := List.all_eq_true.mp hnames name (List.contains_iff_mem.mp h)
  rw [Bool.and_eq_true, Bool.and_eq_true, Bool.not_eq_true'] at hname
  exact ⟨of_decide_eq_true hname.1.1, List.all_eq_true.mp hname.1.2, hname.2⟩

theorem find_of_packedElementType (h : packedElementType name = some type) :
    findComponentType type.name = some type := by
  unfold packedElementType at h
  split_ifs at h <;> · cases h; rfl

theorem packedElement_ok (hfind : findComponentType type.name = some type) {value : Json}
    (hvalue : isNumber value = true ∨ value.isObject = true) (hfine : Fine value) {components : List Text}
    (h : packedElement w name type value s = .ok (components, s')) :
    Accounts w (.component type) value components ∧ ∀ text ∈ components, Lexes text [text] := by
  have hnumber : isNumber value = true → packedElement w name type value s = .ok ([numberText value], s) := by
    intro hnumber
    cases value with
    | object members => cases hnumber
    | _ => rfl
  rcases hvalue with hvalue | hvalue
  · rw [hnumber hvalue] at h
    cases h
    have haccounts := @accounts_scalar w (.component type) value (not_isStructured_of_isNumber hvalue)
    have hspelling : spelling w (.component type) value = numberText value := scalarText_number hvalue
    rw [hspelling] at haccounts
    refine ⟨haccounts, fun text hmem => ?_⟩
    obtain rfl := List.mem_singleton.mp hmem
    exact lexes_numberText hvalue hfine
  · cases value with
    | object members =>
      have hcomponents : tresComponentComponents w type (withAlpha type members) s = .ok (components, s') := by
        rw [packedElement] at h
        cases hnamed : (namedType members).filter (· ≠ type.name) with
        | some named =>
          rw [hnamed] at h
          cases h
        | none => rwa [hnamed] at h
      obtain ⟨rfl, hnumbers⟩ := tresComponentComponents_ok hcomponents
      exact accounts_component (isComponent_of_find hfind).1 rfl hfine hnumbers
    | _ => cases hvalue

/-- A packed array of vectors or colours is the run of the components of all its elements. -/
theorem written_packedComponents (hname : kPackedArrayTypes.contains name = true)
    (htype : packedElementType name = some type) {items : List Json} (hfine : Fine (.array items)) {literal : Text}
    (h : packedComponents w name type items s = .ok (literal, s')) :
    Written w (.packed name) (.array items) literal := by
  obtain ⟨hne, hplain, hreference⟩ := packed_name hname
  unfold packedComponents at h
  split_ifs at h with hkinds hmixed hwhole
  · cases h
  · cases h
  · cases h
  · obtain ⟨components, s₁, hcomponents, h⟩ := bind_ok.mp h
    obtain ⟨rfl, -⟩ := pure_ok.mp h
    have hkind : ∀ value ∈ items, isNumber value = true ∨ value.isObject = true := by
      simpa [or_iff_not_imp_left] using hkinds
    have hkept := (List.forall₂_and_left _ _).mpr
      ⟨fun value hmem => And.intro (hkind value hmem) (hfine.element hmem), mapM_ok hcomponents⟩
    have hall : List.Forall₂ (fun value components => Accounts w (.component type) value components ∧
        ∀ text ∈ components, Lexes text [text]) items components := by
      refine hkept.imp ?_
      rintro value components ⟨⟨hvalue, hfine⟩, s, s', hcomponents⟩
      exact packedElement_ok (find_of_packedElementType htype) hvalue hfine hcomponents
    have hnumbers : List.Forall₂ (fun own value => (∀ text ∈ own, Lexes text [text]) ∧
        Accounts w (.component type) value own) components items := (hall.imp fun _ _ h => h.symm).flip
    have helements : (Place.packed name).elements = .component type := by
      rw [Place.elements, htype]
      rfl
    refine ⟨components.flatten, lexes_numbers hne hplain hreference fun text hmem => ?_, accounts_array ?_⟩
    · obtain ⟨own, hown, htext⟩ := List.mem_flatten.mp hmem
      exact ((List.forall₂_and_left _ _).mp hnumbers).1 own hown text htext
    · rw [helements]
      exact hall.imp fun _ _ h => h.1

theorem written_packed (hname : kPackedArrayTypes.contains name = true) {items : List Json}
    (hfine : Fine (.array items)) {pieces : Write (List Text)}
    (hpieces : ∀ s s' texts, pieces s = .ok (texts, s') → WrittenAll w (.value none) items texts) {literal : Text}
    (h : packedLiteral w name items pieces s = .ok (literal, s')) :
    Written w (.packed name) (.array items) literal := by
  unfold packedLiteral at h
  cases htype : packedElementType name with
  | some type =>
    rw [htype] at h
    exact written_packedComponents hname htype hfine h
  | none =>
    rw [htype] at h
    obtain ⟨texts, s₁, htexts, h⟩ := bind_ok.mp h
    obtain ⟨rfl, -⟩ := pure_ok.mp h
    obtain ⟨scalars, hlexes, haccounts⟩ := hpieces s s₁ texts htexts
    obtain ⟨hne, hplain, hreference⟩ := packed_name hname
    have helements : (Place.packed name).elements = .value none := by
      rw [Place.elements, htype]
      rfl
    exact ⟨scalars.flatten, lexes_constructor hne hplain hreference hlexes, accounts_array (helements ▸ haccounts)⟩

end Written

end Didi.Tres
