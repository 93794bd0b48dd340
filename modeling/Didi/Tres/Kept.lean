import Didi.Tres.Written

/-!
# What a literal keeps of its value

* `written_reference`, `written_named` : the literal of an object that names its type;
* `written_shape`, `written_dictionary` : the literals of the other objects;
* `written_tres` : the literal of every value;
* `keeps_iff` : a literal keeps its value where nothing stands in a field that no constructor takes.
-/

namespace Didi.Tres
open Json (isNumber isArray)
open Config (Text bytesOf commaSeparated isPlain Numeral PrintsNumbers)
variable {name : String} {members : JsonObject} {s s' : Option ReferenceScope} {place : Place} {literal : Text}
  {value : Json} {declaredType : Option String}

/-! ## Ids -/

theorem bytesOf_ascii {s : String} (h : ∀ c ∈ s.toList, c.toNat < 128) : bytesOf s = s.toList := by
  have hchar : ∀ c ∈ s.toList, (String.utf8EncodeChar c).map (fun b => Char.ofNat b.toNat) = [c] := by
    intro c hc
    have hlt : c.val.toNat ≤ 0x7f := Nat.le_of_lt_succ (h c hc)
    rw [String.utf8EncodeChar, if_pos hlt, List.map_singleton,
      UInt8.toNat_ofNat_of_lt' (Nat.lt_of_le_of_lt hlt (by decide))]
    exact congrArg (fun d => [d]) (Char.ofNat_toNat c)
  rw [bytesOf, List.map_flatMap, List.flatMap_congr hchar, List.flatMap_singleton']

theorem escape_id {id : String} (h : id.toList.all isIdCharacter = true) :
    escapeTresString (bytesOf id) = bytesOf id := by
  have hid : ∀ c ∈ id.toList, isIdCharacter c = true := List.all_eq_true.mp h
  rw [bytesOf_ascii fun c hc => ?_, escapeTresString, Config.escapeSettingString]
  · rw [List.flatMap_congr fun c hc => ?_, List.flatMap_singleton']
    have hne : ∀ d, isIdCharacter d = false → c ≠ d := by
      rintro d hd rfl
      rw [hid c hc] at hd
      cases hd
    rw [if_neg (hne '\\' (by decide)), if_neg (hne '"' (by decide)), if_neg (hne '\n' (by decide)),
      if_neg (hne '\r' (by decide)), if_neg (hne '\t' (by decide))]
  · have hc := hid c hc
    simp only [isIdCharacter, Char.isAlphanum, Bool.or_eq_true, decide_eq_true_eq] at hc
    have hval : ∀ d : UInt32, c.val ≤ d → c.toNat ≤ d.toNat := fun d hle => UInt32.le_iff_toNat_le.mp hle
    rcases hc with ((hc | hc) | rfl) | rfl
    · rcases Bool.or_eq_true_iff.mp hc with hupper | hlower
      · exact Nat.lt_of_le_of_lt (hval _ (of_decide_eq_true hupper).2) (by decide)
      · exact Nat.lt_of_le_of_lt (hval _ (of_decide_eq_true (Bool.and_eq_true_iff.mp hlower).2)) (by decide)
    · exact Nat.lt_of_le_of_lt (hval _ (of_decide_eq_true (Bool.and_eq_true_iff.mp hc).2)) (by decide)
    · decide
    · decide

section Kept
variable {w : Writer}

theorem externalId_ok {reference : ExternalReference} {id : String}
    (h : externalId w reference s = .ok (id, s')) : id.toList.all isIdCharacter = true := by
  obtain ⟨found, s₁, hget, h⟩ := bind_ok.mp h
  cases hget
  cases s with
  | none => cases h
  | some scope =>
    dsimp only at h
    cases hfind : scope.externals.find? fun existing => existing.path = reference.path with
    | some existing =>
      rw [hfind] at h
      obtain ⟨rfl, -⟩ := pure_ok.mp h
      exact scope.made existing (List.mem_of_find?_eq_some hfind)
    | none =>
      rw [hfind] at h
      cases h
      exact isIdCharacter_externalIdOf _

theorem subResourceId_ok {id : String}
    (h : subResourceId w members s = .ok (id, s')) : id.toList.all isIdCharacter = true := by
  obtain ⟨found, s₁, hget, h⟩ := bind_ok.mp h
  cases hget
  cases hid : (stringField members "id").filter fun id => !id.isEmpty with
  | none =>
    rw [hid] at h
    cases h
  | some named =>
    rw [hid] at h
    dsimp only at h
    split_ifs at h with hvisible
    · obtain ⟨rfl, -⟩ := pure_ok.mp h
      cases s with
      | none => cases hvisible
      | some scope =>
        have husable := scope.usable named (List.contains_iff_mem.mp hvisible)
        exact (Bool.and_eq_true_iff.mp husable).2
    · cases h

theorem referenceId_ok {id : String}
    (h : referenceId w name members s = .ok (id, s')) : id.toList.all isIdCharacter = true := by
  unfold referenceId at h
  split_ifs at h with hexternal
  · obtain ⟨reference, s₁, -, h⟩ := bind_ok.mp h
    exact externalId_ok h
  · exact subResourceId_ok h

/-! ## Objects that name a type -/

theorem lookup_of_stringField {key text : String} (h : stringField members key = some text) :
    members.lookup key = some (.string text) := by
  unfold stringField at h
  split at h
  · cases h
    assumption
  · cases h

/-- An object that is written from the one field that its form takes. -/
theorem Accounts.ofField {form : Form} (hform : place.form members = form) {key : String}
    (hfields : form.fields = some [key]) (hnaming : form.naming = ["type"]) (hne : key ≠ "type")
    (halpha : form.alpha = []) (hfine : Fine (.object members)) (hlookup : members.lookup key = some value)
    {scalars : List Text} (h : Accounts w form.inside value scalars) :
    Accounts w place (.object members) scalars := by
  have hkeys : ∀ k, k ∈ [key] ↔ k ∈ members.map Prod.fst ∧ k ∉ form.naming ∧ form.takes k = true := by
    intro k
    have htakes : form.takes k = true ↔ k = key := by simp [Form.takes, hfields]
    rw [htakes, hnaming, mem_keys_iff, List.mem_singleton, List.mem_singleton]
    constructor
    · rintro rfl
      exact ⟨by rw [hlookup]; rfl, hne, rfl⟩
    · exact fun h => h.2.2
  have haccounts := @accounts_object w form members (fun _ => scalars) place hform hfine.nodup [key] (by simp) hkeys
    fun member hmem hkey => by
      obtain rfl := List.mem_singleton.mp hkey
      rw [hfine.lookup hmem] at hlookup
      obtain rfl := Option.some.inj hlookup
      exact h
  rwa [halpha, List.append_nil, List.flatMap_singleton] at haccounts

/-- An object of which nothing is written but a reference. -/
theorem Accounts.ofNone {form : Form} (hform : place.form members = form) (hfields : form.fields = some [])
    (halpha : form.alpha = []) (hfine : Fine (.object members)) :
    Accounts w place (.object members) [] := by
  have haccounts := @accounts_object w form members (fun _ => []) place hform hfine.nodup [] List.nodup_nil
    (fun k => by simp [Form.takes, hfields]) (fun _ _ hkey => absurd hkey List.not_mem_nil)
  rwa [halpha, List.append_nil, List.flatMap_nil] at haccounts

theorem written_reference (hname : name = "ExtResource" ∨ name = "SubResource")
    (hform : place.form members = namedForm name members) (hfine : Fine (.object members))
    (h : referenceLiteral w name members s = .ok (literal, s')) :
    Written w place (.object members) literal := by
  obtain ⟨found, s₁, hget, h⟩ := bind_ok.mp h
  cases hget
  cases s with
  | none => cases h
  | some scope =>
    obtain ⟨id, s₂, hid, h⟩ := bind_ok.mp h
    obtain ⟨rfl, -⟩ := pure_ok.mp h
    have hescape := escape_id (referenceId_ok hid)
    refine ⟨[], ?_, ?_⟩
    · rcases hname with rfl | rfl
      · exact lexes_reference (by decide) (List.all_eq_true.mp (by decide)) (by decide) hescape
      · exact lexes_reference (by decide) (List.all_eq_true.mp (by decide)) (by decide) hescape
    · rcases hname with rfl | rfl
      · exact .ofNone hform rfl rfl hfine
      · exact .ofNone hform rfl rfl hfine

theorem written_stringType (hname : kStringTypes.contains name = true)
    (hform : place.form members = namedForm name members) (hfine : Fine (.object members))
    (h : stringTypeLiteral w name members s = .ok (literal, s')) :
    Written w place (.object members) literal := by
  unfold stringTypeLiteral at h
  cases hfield : stringField members "value" with
  | none =>
    rw [hfield] at h
    cases h
  | some text =>
    rw [hfield] at h
    obtain ⟨rfl, -⟩ := pure_ok.mp h
    have hlookup := lookup_of_stringField hfield
    have haccounts : Accounts w (.value none) (.string text) [quotedTres text] := accounts_scalar rfl
    have hmem := List.contains_iff_mem.mp hname
    refine ⟨[quotedTres text], ?_, ?_⟩
    · fin_cases hmem
      · exact lexes_call (by decide) (List.all_eq_true.mp (by decide)) (by decide) (lexes_quoted text)
      · exact lexes_marked (by decide) (lexes_quoted text)
    · fin_cases hmem
      · exact .ofField hform rfl rfl (by decide) rfl hfine hlookup haccounts
      · exact .ofField hform rfl rfl (by decide) rfl hfine hlookup haccounts

theorem Written.ofValues (hname : kPackedArrayTypes.contains name = true)
    (hform : place.form members = namedForm name members) (hfine : Fine (.object members)) {items : List Json}
    (hlookup : members.lookup "values" = some (.array items))
    (h : Written w (.packed name) (.array items) literal) : Written w place (.object members) literal := by
  obtain ⟨scalars, hlexes, haccounts⟩ := h
  have hpacked : namedForm name members =
      { naming := ["type"], fields := some ["values"], inside := .packed name } := by
    have hmem := List.contains_iff_mem.mp hname
    fin_cases hmem <;> rfl
  exact ⟨scalars, hlexes, .ofField (hform.trans hpacked) rfl rfl (by decide) rfl hfine hlookup haccounts⟩

/-- The array under `values`, and that its elements are written. -/
def ValuesWritten (w : Writer) (members : JsonObject) : Prop := ∀ items pieces,
  valuesLiterals w members = some (items, pieces) → members.lookup "values" = some (.array items) ∧
    ∀ s s' texts, pieces s = .ok (texts, s') → WrittenAll w (.value none) items texts

theorem written_named (hform : place.form members = namedForm name members) (hfine : Fine (.object members))
    (hvalues : ValuesWritten w members)
    (h : tresNamedTypeLiteral w name members (valuesLiterals w members) s = .ok (literal, s')) :
    Written w place (.object members) literal := by
  unfold tresNamedTypeLiteral at h
  cases hfind : findComponentType name with
  | some type =>
    rw [hfind] at h
    have hcomponent : namedForm name members = componentForm type members := by rw [namedForm, hfind]
    exact written_component hfind (hform.trans hcomponent) hfine h
  | none =>
    rw [hfind] at h
    dsimp only at h
    split_ifs at h with hstring hpacked hreference
    · exact written_stringType hstring hform hfine h
    · cases hliterals : valuesLiterals w members with
      | none =>
        rw [hliterals] at h
        cases h
      | some values =>
        rw [hliterals] at h
        obtain ⟨hlookup, hpieces⟩ := hvalues values.1 values.2 hliterals
        exact .ofValues hpacked hform hfine hlookup
          (written_packed hpacked (hfine.member (List.mem_of_lookup hlookup)) hpieces h)
    · exact written_reference (by simpa using hreference) hform hfine h
    · cases h

/-! ## Numbers whose type is named -/

/-- The library prints a double as a number. -/
def Writer.Prints (w : Writer) : Prop := ∀ q, Numeral (bytesOf (w.dumpReal q))

theorem lexes_namedScalarText (hdump : w.Prints) {type : ScalarType} {number : Json}
    (hnumber : isNumber number = true) (hfine : Fine number) {text : Text}
    (h : namedScalarText w type number = some text) : Lexes text [text] := by
  cases type with
  | float =>
    cases number with
    | integer i =>
      cases h
      exact lexes_numeral (hdump _)
    | real value text =>
      cases h
      exact lexes_numberText hnumber hfine
    | _ => cases hnumber
  | int =>
    cases number with
    | integer i =>
      cases h
      exact lexes_numberText hnumber hfine
    | real value text =>
      unfold namedScalarText at h
      dsimp only at h
      split_ifs at h
      cases h
      exact lexes_numeral (Config.numeral_integer value.num)
    | _ => cases hnumber

theorem written_number (hdump : w.Prints) {type : ScalarType} (htype : namedScalarType members = some type)
    (hfine : Fine (.object members)) (h : numberLiteral w declaredType type members s = .ok (literal, s')) :
    Written w (.value declaredType) (.object members) literal := by
  have hform : (Place.value declaredType).form members =
      { naming := ["type"], fields := some ["value"], inside := .number type } := by
    show objectForm declaredType members = _
    rw [objectForm, htype]
  unfold numberLiteral at h
  cases hfound : (members.lookup "value").filter isNumber with
  | none =>
    rw [hfound] at h
    cases h
  | some number =>
    obtain ⟨hlookup, hnumber⟩ := Option.filter_eq_some_iff.mp hfound
    rw [hfound] at h
    obtain ⟨-, s₁, -, h⟩ := bind_ok.mp h
    unfold namedScalarLiteral at h
    cases htext : namedScalarText w type number with
    | none =>
      rw [htext] at h
      cases h
    | some text =>
      rw [htext] at h
      obtain ⟨rfl, -⟩ := pure_ok.mp h
      have haccounts := @accounts_scalar w (.number type) number (not_isStructured_of_isNumber hnumber)
      have hspelling : spelling w (.number type) number = text := by
        rw [spelling, htext]
        rfl
      rw [hspelling] at haccounts
      exact ⟨[text], lexes_namedScalarText hdump hnumber (hfine.member (List.mem_of_lookup hlookup)) htext,
        .ofField hform rfl rfl (by decide) rfl hfine hlookup haccounts⟩

/-! ## Objects that name no type -/

/-- An object whose shape is that of a constructor. -/
theorem written_shape (hname : name ∈ ["Color", "Vector2", "Vector3", "Vector4"]) {keys : List String}
    {alpha : List Text} (hform : place.form members = { fields := some keys, alpha }) (hfine : Fine (.object members))
    (hnodup : keys.Nodup) (halpha : ∀ text ∈ alpha, Lexes text [text]) (hkeys : hasNumericKeys members keys = true) :
    Written w place (.object members) (constructorLiteral name (numbersOf members keys ++ alpha)) := by
  have hnumbers : ∀ key ∈ keys, ∃ number, members.lookup key = some number ∧ isNumber number = true := by
    intro key hkey
    exact (Option.any_eq_true _ _).mp (List.all_eq_true.mp hkeys key hkey)
  have haccounts := @accounts_numbers members w place _ hform hfine keys hnodup (fun key => by
    rw [mem_keys_iff]
    constructor
    · intro hkey
      obtain ⟨number, hlookup, -⟩ := hnumbers key hkey
      exact ⟨by rw [hlookup]; rfl, List.not_mem_nil, List.contains_iff_mem.mpr hkey⟩
    · exact fun h => List.contains_iff_mem.mp h.2.2) rfl hnumbers
  refine ⟨_, ?_, haccounts⟩
  have hlexes : ∀ text ∈ numbersOf members keys ++ alpha, Lexes text [text] := by
    intro text hmem
    rcases List.mem_append.mp hmem with hmem | hmem
    · exact lexes_numbersOf hfine hnumbers text hmem
    · exact halpha text hmem
  fin_cases hname <;> exact lexes_numbers (by decide) (List.all_eq_true.mp (by decide)) (by decide) hlexes

theorem written_shaped (hform : place.form members = shapedForm members) (hfine : Fine (.object members))
    (h : shapedLiteral members = some literal) :
    Written w place (.object members) literal := by
  unfold shapedLiteral at h
  unfold shapedForm at hform
  have hone : ∀ text ∈ [['1']], Lexes text [text] := by
    intro text hmem
    obtain rfl := List.mem_singleton.mp hmem
    exact lexes_plain (by decide) (List.all_eq_true.mp (by decide))
  have hnone : ∀ text ∈ ([] : List Text), Lexes text [text] := fun text hmem => absurd hmem List.not_mem_nil
  have hwritten : ∀ {name keys}, name ∈ ["Color", "Vector2", "Vector3", "Vector4"] → keys.Nodup →
      place.form members = { fields := some keys } → hasNumericKeys members keys = true →
      Written w place (.object members) (constructorLiteral name (numbersOf members keys)) := by
    intro name keys hname hnodup hform hkeys
    have hshape := @written_shape name members place w hname keys [] hform hfine hnodup hnone hkeys
    rwa [List.append_nil] at hshape
  split_ifs at h hform with hrgba hrgb hxyzw hxyz hxy
  · cases h
    exact hwritten (by decide) (by decide) hform (Bool.and_eq_true_iff.mp hrgba).2
  · cases h
    exact written_shape (by decide) hform hfine (by decide) hone (Bool.and_eq_true_iff.mp hrgb).2
  · cases h
    exact hwritten (by decide) (by decide) hform hxyzw
  · cases h
    exact hwritten (by decide) (by decide) hform hxyz
  · cases h
    exact hwritten (by decide) (by decide) hform hxy

/-- The entries of a dictionary. -/
def EntriesWritten (w : Writer) (members : JsonObject) (pieces : List Text) : Prop :=
  ∃ scalars : List (List Text), List.Forall₂ Lexes pieces scalars ∧
    List.Forall₂ (fun member own => Accounts w (.value none) member.2 own) members scalars

/-- Keys that are not repeated can have any values. -/
theorem exists_map_eq {keys : List String} (h : keys.Nodup) {values : List (List Text)}
    (hlength : keys.length = values.length) : ∃ f : String → List Text, keys.map f = values := by
  refine ⟨fun key => values.getD (keys.idxOf key) [], ?_⟩
  apply List.ext_getElem
  · rw [List.length_map, hlength]
  · intro i hi hi'
    rw [List.getElem_map, List.Nodup.idxOf_getElem h, List.getD_eq_getElem?_getD, List.getElem?_eq_getElem hi',
      Option.getD_some]

theorem written_dictionary (hform : place.form members = {}) (hfine : Fine (.object members)) {pieces : List Text}
    (h : EntriesWritten w members pieces) :
    Written w place (.object members) ('\x7b' :: commaSeparated pieces ++ ['\x7d']) := by
  obtain ⟨scalars, hlexes, haccounts⟩ := h
  have hlength : (members.map Prod.fst).length = scalars.length := by
    rw [List.length_map]
    exact haccounts.length_eq
  obtain ⟨spelled, rfl⟩ := exists_map_eq hfine.nodup hlength
  rw [List.map_map, List.forall₂_map_right_iff] at haccounts
  have hobject := @accounts_object w {} members spelled place hform hfine.nodup (members.map Prod.fst) hfine.nodup
    (fun key => by simp [Form.takes]) fun member hmem _ => List.forall₂_same.mp haccounts member hmem
  rw [List.append_nil, List.flatMap_def] at hobject
  exact ⟨_, lexes_bracketed (by decide) (by decide) (by simp) (lexes_commaSeparated hlexes), hobject⟩

/-! ## Values -/

theorem tresLiteral_scalar (h : value.isStructured = false) :
    tresLiteral w declaredType value = do
      checkDeclared w declaredType value
      return scalarText value := by
  cases value with
  | array items => cases h
  | object members => cases h
  | _ => rw [tresLiteral] <;> simp

theorem written_scalarLiteral (h : value.isStructured = false) (hfine : Fine value)
    (hliteral : tresLiteral w declaredType value s = .ok (literal, s')) :
    Written w (.value declaredType) value literal := by
  rw [tresLiteral_scalar h] at hliteral
  obtain ⟨-, s₁, -, hliteral⟩ := bind_ok.mp hliteral
  obtain ⟨rfl, -⟩ := pure_ok.mp hliteral
  exact written_scalar h hfine

/-- Where the elements of an array stand, by the packed type of each. -/
def elementPlace (elementType : Option String) : Place := (elementType.map Place.packed).getD (.value none)

theorem WrittenAll.cons {values : List Json} {pieces : List Text} (h : Written w place value literal)
    (hall : WrittenAll w place values pieces) :
    WrittenAll w place (value :: values) (literal :: pieces) := by
  obtain ⟨own, hlexes, haccounts⟩ := h
  obtain ⟨scalars, hpieces, hvalues⟩ := hall
  exact ⟨own :: scalars, .cons hlexes hpieces, .cons haccounts hvalues⟩

theorem elementLiterals_none {values : List Json} :
    elementLiterals w none (value :: values) = do
      let literal ← tresLiteral w none value
      return literal :: (← elementLiterals w none values) := by
  cases value <;> rfl

theorem not_elementLiterals_scalar {element : String} {values : List Json} (hvalue : value.isStructured = false)
    {pieces : List Text} (h : elementLiterals w (some element) (value :: values) s = .ok (pieces, s')) : False := by
  cases value with
  | array items => cases hvalue
  | object members => cases hvalue
  | _ => cases h

/-- What stands under another key, or is no array, is passed over. -/
theorem ValuesWritten.skip {key : String} (hvalue : isArray value = false)
    (h : ValuesWritten w members) : ValuesWritten w ((key, value) :: members) := by
  intro items pieces hliterals
  have hskip : valuesLiterals w ((key, value) :: members) =
      if key = "values" then none else valuesLiterals w members := by
    cases value with
    | array items => cases hvalue
    | _ => rfl
  rw [hskip] at hliterals
  split_ifs at hliterals with hkey
  rw [List.lookup_cons, beq_eq_false_iff_ne.mpr (Ne.symm hkey)]
  exact h items pieces hliterals

theorem packed_of_packedElementTypeOf {element : String}
    (h : packedElementTypeOf declaredType = some element) : kPackedArrayTypes.contains element = true := by
  cases declaredType with
  | none => cases h
  | some declaredType =>
    unfold packedElementTypeOf at h
    dsimp only at h
    split_ifs at h
    exact (Option.filter_eq_some_iff.mp h).2

/-- What an object is written as that names no number, `hvalues` and `hentries` about its members. -/
theorem written_object (hdump : w.Prints) (hfine : Fine (.object members)) (hvalues : ValuesWritten w members)
    (hentries : ∀ s s' pieces, entryLiterals w members s = .ok (pieces, s') → EntriesWritten w members pieces)
    (h : tresLiteral w declaredType (.object members) s = .ok (literal, s')) :
    Written w (.value declaredType) (.object members) literal := by
  rw [tresLiteral] at h
  cases hscalar : namedScalarType members with
  | some type =>
    rw [hscalar] at h
    exact written_number hdump hscalar hfine h
  | none =>
    rw [hscalar] at h
    obtain ⟨-, s₁, -, h⟩ := bind_ok.mp h
    cases hnamed : namedType members with
    | some named =>
      rw [hnamed] at h
      obtain ⟨-, s₂, -, h⟩ := bind_ok.mp h
      have hform : (Place.value declaredType).form members = namedForm named members := by
        show objectForm declaredType members = _
        rw [objectForm, hscalar, hnamed]
      exact written_named hform hfine hvalues h
    | none =>
      rw [hnamed] at h
      dsimp only at h
      cases hdeclared : (declaredType.bind findComponentType).filter fun _ => !members.isEmpty with
      | some type =>
        rw [hdeclared] at h
        have hform : (Place.value declaredType).form members = componentForm type members := by
          show objectForm declaredType members = _
          rw [objectForm, hscalar, hnamed]
          dsimp only
          rw [hdeclared]
        obtain ⟨hbind, -⟩ := Option.filter_eq_some_iff.mp hdeclared
        obtain ⟨name, -, hfind⟩ := Option.bind_eq_some_iff.mp hbind
        exact written_component hfind hform hfine h
      | none =>
        rw [hdeclared] at h
        have hform : (Place.value declaredType).form members = shapedForm members := by
          show objectForm declaredType members = _
          rw [objectForm, hscalar, hnamed]
          dsimp only
          rw [hdeclared]
        cases hshaped : shapedLiteral members with
        | some shaped =>
          rw [hshaped] at h
          obtain ⟨rfl, -⟩ := pure_ok.mp h
          exact written_shaped hform hfine hshaped
        | none =>
          rw [hshaped] at h
          obtain ⟨pieces, s₂, hpieces, h⟩ := bind_ok.mp h
          obtain ⟨rfl, -⟩ := pure_ok.mp h
          have hplain : shapedForm members = {} := by
            unfold shapedLiteral at hshaped
            unfold shapedForm
            split_ifs at hshaped ⊢
            rfl
          exact written_dictionary (hform.trans hplain) hfine (hentries s₁ s₂ pieces hpieces)

mutual

theorem written_tres (hdump : w.Prints) : ∀ (declaredType : Option String) (value : Json), Fine value →
    ∀ (s s' : Option ReferenceScope) (literal : Text), tresLiteral w declaredType value s = .ok (literal, s') →
      Written w (.value declaredType) value literal
  | declaredType, .array items, hfine, s, s', literal, h => by
    rw [tresLiteral] at h
    obtain ⟨-, s₁, -, h⟩ := bind_ok.mp h
    obtain ⟨pieces, s₂, hpieces, h⟩ := bind_ok.mp h
    obtain ⟨rfl, -⟩ := pure_ok.mp h
    obtain ⟨scalars, hlexes, haccounts⟩ := written_elements hdump (packedElementTypeOf declaredType)
      (fun _ => packed_of_packedElementTypeOf) items (fun _ => hfine.element) s₁ s₂ pieces hpieces
    exact ⟨_, lexes_bracketed (by decide) (by decide) (by simp) (lexes_commaSeparated hlexes),
      accounts_array haccounts⟩
  | declaredType, .object members, hfine, s, s', literal, h =>
    written_object hdump hfine (written_values hdump members fun _ => hfine.member)
      (written_entries hdump members fun _ => hfine.member) h
  | declaredType, .null, hfine, s, s', literal, h => written_scalarLiteral rfl hfine h
  | declaredType, .boolean b, hfine, s, s', literal, h => written_scalarLiteral rfl hfine h
  | declaredType, .integer i, hfine, s, s', literal, h => written_scalarLiteral rfl hfine h
  | declaredType, .real v t, hfine, s, s', literal, h => written_scalarLiteral rfl hfine h
  | declaredType, .string t, hfine, s, s', literal, h => written_scalarLiteral rfl hfine h

theorem written_elements (hdump : w.Prints) : ∀ (elementType : Option String),
    (∀ element, elementType = some element → kPackedArrayTypes.contains element = true) →
    ∀ (values : List Json), (∀ value ∈ values, Fine value) → ∀ (s s' : Option ReferenceScope) (pieces : List Text),
      elementLiterals w elementType values s = .ok (pieces, s') →
        WrittenAll w (elementPlace elementType) values pieces
  | elementType, hpacked, [], hfine, s, s', pieces, h => by
    rw [elementLiterals] at h
    obtain ⟨rfl, -⟩ := pure_ok.mp h
    exact ⟨[], .nil, .nil⟩
  | none, hpacked, value :: values, hfine, s, s', pieces, h => by
    rw [elementLiterals_none] at h
    obtain ⟨literal, s₁, hliteral, h⟩ := bind_ok.mp h
    obtain ⟨others, s₂, hothers, h⟩ := bind_ok.mp h
    obtain ⟨rfl, -⟩ := pure_ok.mp h
    obtain ⟨hvalue, hvalues⟩ := List.forall_mem_cons.mp hfine
    exact .cons (written_tres hdump none value hvalue s s₁ literal hliteral)
      (written_elements hdump none hpacked values hvalues s₁ s₂ others hothers)
  | some element, hpacked, .array items :: values, hfine, s, s', pieces, h => by
    rw [elementLiterals] at h
    obtain ⟨literal, s₁, hliteral, h⟩ := bind_ok.mp h
    obtain ⟨others, s₂, hothers, h⟩ := bind_ok.mp h
    obtain ⟨rfl, -⟩ := pure_ok.mp h
    obtain ⟨hitems, hvalues⟩ := List.forall_mem_cons.mp hfine
    refine .cons ?_ (written_elements hdump (some element) hpacked values hvalues s₁ s₂ others hothers)
    exact written_packed (hpacked element rfl) hitems
      (written_elements hdump none (fun _ h => nomatch h) items fun _ => hitems.element) hliteral
  | some element, hpacked, .object members :: values, hfine, s, s', pieces, h => by
    rw [elementLiterals] at h
    split_ifs at h
    · obtain ⟨literal, s₁, hliteral, h⟩ := bind_ok.mp h
      obtain ⟨others, s₂, hothers, h⟩ := bind_ok.mp h
      obtain ⟨rfl, -⟩ := pure_ok.mp h
      obtain ⟨hmembers, hvalues⟩ := List.forall_mem_cons.mp hfine
      refine .cons ?_ (written_elements hdump (some element) hpacked values hvalues s₁ s₂ others hothers)
      obtain ⟨scalars, hlexes, haccounts⟩ := written_tres hdump none (.object members) hmembers s s₁ literal hliteral
      exact ⟨scalars, hlexes, haccounts.congr rfl⟩
    · cases h
  | some element, _, .null :: values, _, _, _, _, h => (not_elementLiterals_scalar rfl h).elim
  | some element, _, .boolean b :: values, _, _, _, _, h => (not_elementLiterals_scalar rfl h).elim
  | some element, _, .integer i :: values, _, _, _, _, h => (not_elementLiterals_scalar rfl h).elim
  | some element, _, .real v t :: values, _, _, _, _, h => (not_elementLiterals_scalar rfl h).elim
  | some element, _, .string t :: values, _, _, _, _, h => (not_elementLiterals_scalar rfl h).elim

theorem written_values (hdump : w.Prints) : ∀ (members : List (String × Json)), (∀ member ∈ members, Fine member.2) →
    ValuesWritten w members
  | [], hfine, items, pieces, h => nomatch h
  | (key, .array items) :: members, hfine, items', pieces, h => by
    rw [valuesLiterals] at h
    obtain ⟨hitems, hmembers⟩ := List.forall_mem_cons.mp hfine
    split_ifs at h with hkey
    · cases h
      refine ⟨by rw [hkey, List.lookup_cons_self], ?_⟩
      exact written_elements hdump none (fun _ h => nomatch h) items fun _ => hitems.element
    · rw [List.lookup_cons, beq_eq_false_iff_ne.mpr (Ne.symm hkey)]
      exact written_values hdump members hmembers items' pieces h
  | (key, .object others) :: members, hfine, items, pieces, h =>
    (written_values hdump members (List.forall_mem_cons.mp hfine).2).skip rfl items pieces h
  | (key, .null) :: members, hfine, items, pieces, h =>
    (written_values hdump members (List.forall_mem_cons.mp hfine).2).skip rfl items pieces h
  | (key, .boolean b) :: members, hfine, items, pieces, h =>
    (written_values hdump members (List.forall_mem_cons.mp hfine).2).skip rfl items pieces h
  | (key, .integer i) :: members, hfine, items, pieces, h =>
    (written_values hdump members (List.forall_mem_cons.mp hfine).2).skip rfl items pieces h
  | (key, .real v t) :: members, hfine, items, pieces, h =>
    (written_values hdump members (List.forall_mem_cons.mp hfine).2).skip rfl items pieces h
  | (key, .string t) :: members, hfine, items, pieces, h =>
    (written_values hdump members (List.forall_mem_cons.mp hfine).2).skip rfl items pieces h

theorem written_entries (hdump : w.Prints) : ∀ (members : List (String × Json)), (∀ member ∈ members, Fine member.2) →
    ∀ (s s' : Option ReferenceScope) (pieces : List Text), entryLiterals w members s = .ok (pieces, s') →
      EntriesWritten w members pieces
  | [], hfine, s, s', pieces, h => by
    rw [entryLiterals] at h
    obtain ⟨rfl, -⟩ := pure_ok.mp h
    exact ⟨[], .nil, .nil⟩
  | (key, value) :: members, hfine, s, s', pieces, h => by
    rw [entryLiterals] at h
    obtain ⟨literal, s₁, hliteral, h⟩ := bind_ok.mp h
    obtain ⟨others, s₂, hothers, h⟩ := bind_ok.mp h
    obtain ⟨rfl, -⟩ := pure_ok.mp h
    obtain ⟨hvalue, hmembers⟩ := List.forall_mem_cons.mp hfine
    obtain ⟨own, hlexes, haccounts⟩ := written_tres hdump none value hvalue s s₁ literal hliteral
    obtain ⟨scalars, hpieces, hvalues⟩ := written_entries hdump members hmembers s₁ s₂ others hothers
    exact ⟨own :: scalars, .cons (lexes_entry key hlexes) hpieces, .cons haccounts hvalues⟩

end

/-! ## The claim of a literal -/

/-- A literal keeps its value: outside strings no line breaks and every bracket is matched, and its scalars are those
of the value. -/
def Keeps (w : Writer) (declaredType : Option String) (value : Json) (literal : Text) : Prop :=
  ∃ scalars, scalarsOf literal = some scalars ∧ Spells w (.value declaredType) value scalars

/-- Whatever is lost, no line breaks outside strings and every bracket is matched. -/
theorem scalarsOf_tresLiteral (hdump : w.Prints) (hfine : Fine value)
    (h : tresLiteral w declaredType value s = .ok (literal, s')) :
    ∃ scalars, scalarsOf literal = some scalars ∧ Accounts w (.value declaredType) value scalars := by
  obtain ⟨scalars, hlexes, haccounts⟩ := written_tres hdump declaredType value hfine s s' literal h
  exact ⟨scalars, hlexes.scalarsOf, haccounts⟩

/-- **A literal keeps its value exactly where nothing stands in a field that no constructor takes.** -/
theorem keeps_iff (hdump : w.Prints) {value : Json} (hfine : Fine value) {declaredType : Option String}
    {s s' : Option ReferenceScope} {literal : Text} (h : tresLiteral w declaredType value s = .ok (literal, s')) :
    Keeps w declaredType value literal ↔ lost (.value declaredType) value = 0 := by
  obtain ⟨scalars, hscalars, haccounts⟩ := scalarsOf_tresLiteral hdump hfine h
  rw [← haccounts.iff]
  constructor
  · rintro ⟨others, hothers, hspells⟩
    obtain rfl := Option.some.inj (hscalars.symm.trans hothers)
    exact hspells
  · exact fun hspells => ⟨scalars, hscalars, hspells⟩

end Kept

/-! ### A point, and one with a name -/

def offsetWriter : Writer where
  dumpReal _ := "1.0"
  apiVersion := "4.7"
  findExact _ := none
  property := "offset"

/-- A point among other values, with a line break in a string. -/
def gate : Json :=
  .object [("at", .object [("x", .integer 1), ("y", .integer 2)]), ("names", .array [.string "in\n", .boolean true])]

def gateLiteral : Text := "\x7b\"at\": Vector2(1, 2), \"names\": [\"in\\n\", true]\x7d".toList

theorem keeps_gate : tresLiteral offsetWriter none gate none = .ok (gateLiteral, none) ∧
    Keeps offsetWriter none gate gateLiteral := by
  have hwritten : tresLiteral offsetWriter none gate none = .ok (gateLiteral, none) := rfl
  have hfine : Fine gate := by
    constructor <;> repeat' first | decide | trivial
  exact ⟨hwritten, (keeps_iff (fun _ => Config.numeral_one) hfine hwritten).mpr (by decide)⟩

/-- A point and its name. -/
def named : Json := .object [("name", .string "door"), ("x", .integer 1), ("y", .integer 2)]

/-- The name is in no part of the literal. -/
theorem not_keeps : tresLiteral offsetWriter none named none = .ok ("Vector2(1, 2)".toList, none) ∧
    ¬ Keeps offsetWriter none named "Vector2(1, 2)".toList := by
  refine ⟨rfl, ?_⟩
  rintro ⟨scalars, hscalars, hspells⟩
  have hread : scalarsOf "Vector2(1, 2)".toList = some [['1'], ['2']] := by decide
  obtain rfl := Option.some.inj (hread.symm.trans hscalars)
  exact absurd (length_of_spells _ _ _ _ hspells) (by decide)

end Didi.Tres
