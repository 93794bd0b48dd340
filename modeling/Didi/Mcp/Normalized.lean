import Mathlib.Data.Nat.Digits.Defs
import Mathlib.Data.Option.Basic
import Didi.Mcp.Normalization

/-!
# What normalization changes

* `SameInteger`, `SameComponent`, `SamePoint` : a value and what it is normalized to;
* `Changed` : an object whose fields of some names are related to what they were, and the others are what they were;
* `normalizeToolArguments_keeps` : the result is valid, differs in the listed fields only, and is its own normal form as
  far as the budget covers it.
-/

namespace Didi.Mcp
variable {doubles : Doubles} {v v' : Json} {path : String}

/-! ## Numbers -/

/-- The number of a text: decimal digits, with a minus before them if it is negative. -/
def Denotes (text : String) (i : Int) : Prop :=
  ∃ digits : List Char, digits ≠ [] ∧ (∀ c ∈ digits, c.isDigit = true) ∧
    let n : Nat := Nat.ofDigits 10 (digits.map fun c => c.toNat - '0'.toNat).reverse
    (text.toList = digits ∧ i = n) ∨ (text.toList = '-' :: digits ∧ i = -n)

theorem decimalOf_eq (digits : List Char) :
    decimalOf digits = Nat.ofDigits 10 (digits.map fun c => c.toNat - '0'.toNat).reverse := by
  rw [Nat.ofDigits_eq_foldr, List.foldr_reverse, List.foldl_map, decimalOf]
  congr 1
  funext n c
  simp only [Nat.cast_id]
  omega

theorem signedDecimal_eq {negative : Bool} {digits : List Char} {i : Int} (h : signedDecimal negative digits = some i) :
    digits ≠ [] ∧ (∀ c ∈ digits, c.isDigit = true) ∧
      i = (if negative then -(decimalOf digits : Int) else decimalOf digits) ∧ i < 2 ^ 63 := by
  unfold signedDecimal at h
  by_cases hdigits : (digits.isEmpty || !digits.all (·.isDigit)) = true
  · rw [if_pos hdigits] at h
    cases h
  · rw [if_neg hdigits, Option.ite_none_right_eq_some] at h
    obtain ⟨hrange, hi⟩ := h
    cases hi
    simp only [Bool.or_eq_true, List.isEmpty_iff, Bool.not_eq_true', not_or, Bool.not_eq_false, List.all_eq_true] at hdigits
    exact ⟨hdigits.1, hdigits.2, rfl, hrange.2⟩

theorem fromChars_denotes {text : String} {i : Int} (h : fromChars text = some i) : Denotes text i ∧ i < 2 ^ 63 := by
  unfold fromChars at h
  split at h
  · rename_i digits htext
    obtain ⟨hne, hall, hi, hlt⟩ := signedDecimal_eq h
    rw [decimalOf_eq] at hi
    exact ⟨⟨digits, hne, hall, .inr ⟨htext, hi.trans (if_pos rfl)⟩⟩, hlt⟩
  · obtain ⟨hne, hall, hi, hlt⟩ := signedDecimal_eq h
    rw [decimalOf_eq] at hi
    exact ⟨⟨text.toList, hne, hall, .inl ⟨rfl, hi.trans (if_neg Bool.false_ne_true)⟩⟩, hlt⟩

def SameInteger (v v' : Json) : Prop :=
  ∃ i : Int, i < 2 ^ 63 ∧ v' = .integer i ∧ (v = .integer i ∨ ∃ text, v = .string text ∧ Denotes text i)

theorem integer_same (h : integer v path = .ok v') : SameInteger v v' := by
  unfold integer at h
  split at h
  · rename_i text
    split at h
    · rename_i i hread
      cases h
      obtain ⟨hdenotes, hlt⟩ := fromChars_denotes hread
      exact ⟨i, hlt, rfl, .inr ⟨text, rfl, hdenotes⟩⟩
    · cases h
  · rename_i i
    split_ifs at h with hlt
    cases h
    exact ⟨i, hlt, rfl, .inl rfl⟩
  · cases h

theorem integer_fixed (h : SameInteger v v') : integer v' path = .ok v' := by
  obtain ⟨i, hlt, rfl, -⟩ := h
  rw [integer, if_pos hlt]

/-- A component and the double it is normalized to. -/
def SameComponent (doubles : Doubles) (v v' : Json) : Prop :=
  ∃ q t, v' = .real q t ∧
    (v = .real q t ∨ (∃ i : Int, v = .integer i ∧ q = i ∧ |i| ≤ kExactDoubleInteger) ∨
      ∃ text, v = .string text ∧ doubles.fromChars text = some (.finite q t) ∧ |q| < kExactDoubleInteger)

theorem component_same (h : component doubles v path = .ok v') : SameComponent doubles v v' := by
  unfold component at h
  split at h
  · rename_i text
    split at h
    · cases h
    · rename_i q t hread
      split_ifs at h with hlarge
      cases h
      split_ifs at hread
      exact ⟨q, t, rfl, .inr (.inr ⟨text, rfl, hread, not_le.mp hlarge⟩)⟩
    · cases h
  · rename_i i
    split_ifs at h with hlarge
    cases h
    refine ⟨i, _, rfl, .inr (.inl ⟨i, rfl, rfl, ?_⟩)⟩
    rw [abs_le]
    omega
  · rename_i q t
    cases h
    exact ⟨q, t, rfl, .inl rfl⟩
  · cases h

theorem component_fixed (h : SameComponent doubles v v') : component doubles v' path = .ok v' := by
  obtain ⟨q, t, rfl, -⟩ := h
  rfl

/-! ## Fields -/

/-- The members of the names are related to what they were, and the others are what they were. -/
structure Changed (names : List String) (R : Json → Json → Prop) (m m' : JsonObject) : Prop where
  keys : m'.map Prod.fst = m.map Prod.fst
  named : ∀ name ∈ names, Option.Rel R (m.lookup name) (m'.lookup name)
  others : ∀ key, key ∉ names → m'.lookup key = m.lookup key

variable {R : Json → Json → Prop} {m m₁ m' : JsonObject} {name : String} {names : List String}

theorem map_fst_alterKey (key : String) (f : Json → Json) (m : JsonObject) :
    (m.alterKey key f).map Prod.fst = m.map Prod.fst := by
  induction m with
  | nil => rfl
  | cons e m ih =>
    obtain ⟨key', v⟩ := e
    rw [List.alterKey]
    split_ifs
    · rfl
    · rw [List.map_cons, List.map_cons, ih]

theorem changed_alterKey (hlookup : m.lookup name = some v) (hR : R v v') :
    Changed [name] R m (m.alterKey name fun _ => v') := by
  refine ⟨map_fst_alterKey _ _ _, ?_, ?_⟩
  · intro name' hname
    rw [List.mem_singleton.mp hname, List.lookup_alterKey, if_pos rfl, hlookup]
    exact .some hR
  · intro key hkey
    rw [List.lookup_alterKey, if_neg (mt List.mem_singleton.mpr hkey)]

theorem changed_none (hlookup : m.lookup name = none) : Changed [name] R m m := by
  refine ⟨rfl, ?_, fun _ _ => rfl⟩
  intro name' hname
  rw [List.mem_singleton.mp hname, hlookup]
  exact .none

theorem changed_nil : Changed [] R m m := ⟨rfl, fun _ h => (nomatch h), fun _ _ => rfl⟩

theorem Changed.cons (h : Changed [name] R m m₁) (h' : Changed names R m₁ m') (hname : name ∉ names) :
    Changed (name :: names) R m m' := by
  refine ⟨h'.keys.trans h.keys, ?_, ?_⟩
  · intro name' hname'
    rcases List.mem_cons.mp hname' with rfl | hmem
    · rw [h'.others _ hname]
      exact h.named _ (List.mem_singleton_self _)
    · rw [← h.others name' fun hsame => hname (List.mem_singleton.mp hsame ▸ hmem)]
      exact h'.named name' hmem
  · intro key hkey
    rw [h'.others key fun hmem => hkey (List.mem_cons_of_mem _ hmem),
      h.others key fun hmem => hkey (List.mem_singleton.mp hmem ▸ List.mem_cons_self)]

theorem normalizeInteger_changed (h : normalizeInteger m name = .ok m') : Changed [name] SameInteger m m' := by
  unfold normalizeInteger at h
  split at h
  · rename_i hlookup
    cases h
    exact changed_none hlookup
  · rename_i v hlookup
    cases hinteger : integer v ("/arguments/" ++ name) with
    | error e =>
      rw [hinteger] at h
      cases h
    | ok v' =>
      rw [hinteger] at h
      cases h
      exact changed_alterKey hlookup (integer_same hinteger)

theorem normalizeIntegers_changed (hnodup : names.Nodup) (h : names.foldlM normalizeInteger m = .ok m') :
    Changed names SameInteger m m' := by
  induction names generalizing m with
  | nil =>
    cases h
    exact changed_nil
  | cons name names ih =>
    rw [List.foldlM_cons] at h
    cases hfirst : normalizeInteger m name with
    | error e =>
      rw [hfirst] at h
      cases h
    | ok m₁ =>
      rw [hfirst] at h
      have hcons := List.nodup_cons.mp hnodup
      exact (normalizeInteger_changed hfirst).cons (ih hcons.2 h) hcons.1

theorem normalizeIntegers_fixed (h : ∀ name ∈ names, ∀ v, m.lookup name = some v → ∃ v₀, SameInteger v₀ v) :
    names.foldlM normalizeInteger m = .ok m := by
  induction names with
  | nil => rfl
  | cons name names ih =>
    have hfirst : normalizeInteger m name = .ok m := by
      unfold normalizeInteger
      split
      · rfl
      · rename_i v hlookup
        obtain ⟨v₀, hsame⟩ := h name List.mem_cons_self v hlookup
        rw [integer_fixed hsame]
        exact congrArg Except.ok (Json.alterKey_self hlookup)
    rw [List.foldlM_cons, hfirst]
    exact ih fun name hmem => h name (List.mem_cons_of_mem _ hmem)

/-- A point of two components, as an array or an object, and the object it is normalized to. -/
def SamePoint (doubles : Doubles) (v v' : Json) : Prop :=
  ∃ x y x' y', SameComponent doubles x x' ∧ SameComponent doubles y y' ∧
    ((v = .array [x, y] ∧ v' = .object [("x", x'), ("y", y')]) ∨
      ∃ m m', v = .object m ∧ v' = .object m' ∧ m.length = 2 ∧ m.lookup "x" = some x ∧ m.lookup "y" = some y ∧
        m'.map Prod.fst = m.map Prod.fst ∧ m'.lookup "x" = some x' ∧ m'.lookup "y" = some y')

theorem point_same (h : point doubles v = .ok v') : SamePoint doubles v v' := by
  unfold point at h
  split at h
  · rename_i x y
    cases hx : component doubles x "/arguments/point/0" with
    | error e => simp only [hx, bind, Except.bind, reduceCtorEq] at h
    | ok x' =>
      cases hy : component doubles y "/arguments/point/1" with
      | error e => simp only [hx, hy, bind, Except.bind, reduceCtorEq] at h
      | ok y' =>
        rw [hx, hy] at h
        cases h
        exact ⟨x, y, x', y', component_same hx, component_same hy, .inl ⟨rfl, rfl⟩⟩
  · cases h
  · rename_i m
    split at h
    · rename_i x y hlength hlookupx hlookupy
      cases hx : component doubles x "/arguments/point/x" with
      | error e => simp only [hx, bind, Except.bind, reduceCtorEq] at h
      | ok x' =>
        cases hy : component doubles y "/arguments/point/y" with
        | error e => simp only [hx, hy, bind, Except.bind, reduceCtorEq] at h
        | ok y' =>
          rw [hx, hy] at h
          cases h
          refine ⟨x, y, x', y', component_same hx, component_same hy,
            .inr ⟨m, _, rfl, rfl, by simpa using hlength, hlookupx, hlookupy, ?_, ?_, ?_⟩⟩
          · rw [map_fst_alterKey, map_fst_alterKey]
          · rw [List.lookup_alterKey, if_neg (by decide), List.lookup_alterKey, if_pos rfl, hlookupx]
            rfl
          · rw [List.lookup_alterKey, if_pos rfl, List.lookup_alterKey, if_neg (by decide), hlookupy]
            rfl
    · cases h
  · cases h

theorem point_object {x y x' y' : Json} (hlength : m.length = 2) (hlookupx : m.lookup "x" = some x')
    (hlookupy : m.lookup "y" = some y') (hx : SameComponent doubles x x') (hy : SameComponent doubles y y') :
    point doubles (.object m) = .ok (.object m) := by
  rw [point, hlength, hlookupx, hlookupy]
  change (do
    let x ← component doubles x' "/arguments/point/x"
    let y ← component doubles y' "/arguments/point/y"
    return Json.object ((m.alterKey "x" fun _ => x).alterKey "y" fun _ => y)) = _
  rw [component_fixed hx, component_fixed hy]
  change Except.ok (Json.object ((m.alterKey "x" fun _ => x').alterKey "y" fun _ => y')) = _
  rw [Json.alterKey_self hlookupx, Json.alterKey_self hlookupy]

theorem point_fixed (h : SamePoint doubles v v') : point doubles v' = .ok v' := by
  obtain ⟨x, y, x', y', hx, hy, ⟨-, rfl⟩ | ⟨m, m', -, rfl, hlength, -, -, hkeys, hlookupx, hlookupy⟩⟩ := h
  · exact point_object rfl rfl rfl hx hy
  · rw [← List.length_map (f := Prod.fst), ← hkeys, List.length_map] at hlength
    exact point_object hlength hlookupx hlookupy hx hy

theorem normalizePoint_changed (h : normalizePoint doubles m = .ok m') : Changed ["point"] (SamePoint doubles) m m' := by
  unfold normalizePoint at h
  split at h
  · rename_i hlookup
    cases h
    exact changed_none hlookup
  · rename_i v hlookup
    cases hpoint : point doubles v with
    | error e =>
      rw [hpoint] at h
      cases h
    | ok v' =>
      rw [hpoint] at h
      cases h
      exact changed_alterKey hlookup (point_same hpoint)

theorem normalizePoint_fixed (h : ∀ v, m.lookup "point" = some v → ∃ v₀, SamePoint doubles v₀ v) :
    normalizePoint doubles m = .ok m := by
  unfold normalizePoint
  split
  · rfl
  · rename_i v hlookup
    obtain ⟨v₀, hsame⟩ := h v hlookup
    rw [point_fixed hsame]
    exact congrArg Except.ok (Json.alterKey_self hlookup)

/-! ## Arguments -/

def pointFields (tool : String) : List String := if tool = "ui_hit_test" then ["point"] else []

/-- Arguments that differ in the integer fields and the point of the tool only. -/
structure Normalized (doubles : Doubles) (tool : String) (m m' : JsonObject) : Prop where
  keys : m'.map Prod.fst = m.map Prod.fst
  integers : ∀ name ∈ integerFields tool, Option.Rel SameInteger (m.lookup name) (m'.lookup name)
  point : ∀ name ∈ pointFields tool, Option.Rel (SamePoint doubles) (m.lookup name) (m'.lookup name)
  others : ∀ key, key ∉ integerFields tool → key ∉ pointFields tool → m'.lookup key = m.lookup key

variable {search : String → String → Option Bool} {tool : String} {schema arguments r : Json}

theorem integerFields_nodup (tool : String) : (integerFields tool).Nodup := by
  unfold integerFields
  split_ifs <;> decide

theorem point_not_integer {name : String} (h : name ∈ pointFields tool) : name ∉ integerFields tool := by
  unfold pointFields at h
  by_cases htool : tool = "ui_hit_test"
  · rw [if_pos htool] at h
    rw [List.mem_singleton.mp h, htool]
    decide
  · rw [if_neg htool] at h
    cases h

theorem normalized_of_changed (hintegers : Changed (integerFields tool) SameInteger m m₁)
    (hpoint : Changed (pointFields tool) (SamePoint doubles) m₁ m') : Normalized doubles tool m m' := by
  refine ⟨hpoint.keys.trans hintegers.keys, ?_, ?_, ?_⟩
  · intro name hname
    rw [hpoint.others name fun hmem => point_not_integer hmem hname]
    exact hintegers.named name hname
  · intro name hname
    rw [← hintegers.others name (point_not_integer hname)]
    exact hpoint.named name hname
  · intro key hinteger hkey
    rw [hpoint.others key hkey, hintegers.others key hinteger]

theorem exists_of_rel {R : Json → Json → Prop} {a b : Option Json} (h : Option.Rel R a b) (hb : b = some v) :
    ∃ v₀, R v₀ v := by
  cases h with
  | some hR =>
    cases hb
    exact ⟨_, hR⟩
  | none => cases hb

theorem normalize_normalized (h : normalize doubles tool m = .ok m') : Normalized doubles tool m m' := by
  unfold normalize at h
  cases hintegers : (integerFields tool).foldlM normalizeInteger m with
  | error e =>
    rw [hintegers] at h
    cases h
  | ok m₁ =>
    rw [hintegers] at h
    refine normalized_of_changed (normalizeIntegers_changed (integerFields_nodup tool) hintegers) ?_
    change (if tool = "ui_hit_test" then normalizePoint doubles m₁ else .ok m₁) = .ok m' at h
    rw [pointFields]
    split_ifs at h ⊢
    · exact normalizePoint_changed h
    · cases h
      exact changed_nil

theorem normalize_fixed (h : Normalized doubles tool m m') : normalize doubles tool m' = .ok m' := by
  unfold normalize
  rw [normalizeIntegers_fixed fun name hname v hlookup => exists_of_rel (h.integers name hname) hlookup]
  change (if tool = "ui_hit_test" then normalizePoint doubles m' else .ok m') = .ok m'
  split_ifs with htool
  · refine normalizePoint_fixed fun v hlookup => exists_of_rel (h.point "point" ?_) hlookup
    rw [pointFields, if_pos htool]
    exact List.mem_singleton_self _
  · rfl

theorem normalizeToolArguments_object (m : JsonObject) (hsupported : supportsArgumentNormalization tool = true)
    (hbudget : withinBudget (.object m) = true) :
    normalizeToolArguments doubles search tool schema (.object m) =
      (do
        let m' ← normalize doubles tool m
        if (Schema.validateAgainstSchema search schema (.object m')).isSome then
          .error (refusal "/arguments" "schema_validation_failed" "the tool's published inputSchema")
        else return .object m') := by
  unfold normalizeToolArguments
  rw [hsupported, hbudget]
  rfl

/-- What is accepted is valid and differs in the listed fields only, and it is accepted again, as it is, exactly if the
budget covers it. -/
theorem normalizeToolArguments_keeps (h : normalizeToolArguments doubles search tool schema arguments = .ok r) :
    Schema.validateAgainstSchema search schema r = none ∧
      (∃ m m', arguments = .object m ∧ r = .object m' ∧ Normalized doubles tool m m') ∧
      normalizeToolArguments doubles search tool schema r = if withinBudget r then .ok r else .error overBudget := by
  cases hsupported : supportsArgumentNormalization tool with
  | false =>
    unfold normalizeToolArguments at h
    rw [hsupported] at h
    cases h
  | true =>
  cases hbudget : withinBudget arguments with
  | false =>
    unfold normalizeToolArguments at h
    rw [hsupported, hbudget] at h
    cases h
  | true =>
  cases arguments with
  | object m =>
    rw [normalizeToolArguments_object m hsupported hbudget] at h
    cases hnormal : normalize doubles tool m with
    | error e =>
      rw [hnormal] at h
      cases h
    | ok m' =>
      rw [hnormal] at h
      change (if (Schema.validateAgainstSchema search schema (.object m')).isSome then Except.error _ else .ok _) =
        Except.ok r at h
      split_ifs at h with hvalid
      cases h
      have hnormalized := normalize_normalized hnormal
      refine ⟨by simpa using hvalid, ⟨m, m', rfl, rfl, hnormalized⟩, ?_⟩
      split_ifs with hwithin
      · rw [normalizeToolArguments_object m' hsupported hwithin, normalize_fixed hnormalized]
        exact if_neg hvalid
      · unfold normalizeToolArguments
        rw [hsupported, Bool.eq_false_of_not_eq_true hwithin]
        rfl
  | _ =>
    unfold normalizeToolArguments at h
    rw [hsupported, hbudget] at h
    cases h

/-! ## A call that is normalized over its budget -/

/-- The published input schema of `scene_get_hierarchy`, without its descriptions. -/
def sceneGetHierarchySchema : Json :=
  .object [("additionalProperties", .boolean false),
    ("properties", .object [
      ("class_filter", .object [("items", .object [("type", .string "string")]), ("maxItems", .integer 64),
        ("minItems", .integer 1), ("type", .string "array")]),
      ("include_properties", .object [("default", .boolean true), ("type", .string "boolean")]),
      ("max_depth", .object [("default", .integer 10), ("maximum", .integer 64), ("minimum", .integer 0),
        ("type", .string "integer")]),
      ("max_nodes", .object [("maximum", .integer 100000), ("minimum", .integer 1), ("type", .string "integer")]),
      ("root_path", .object [("default", .string "/root"), ("type", .string "string")]),
      ("summary", .object [("default", .boolean false), ("type", .string "boolean")])]),
    ("type", .string "object")]

def plainDoubles : Doubles := ⟨fun _ => none, fun i => toString i ++ ".0"⟩

theorem normalizeToolArguments_keeps_depth :
    Schema.validateAgainstSchema (fun _ _ => none) sceneGetHierarchySchema (.object [("max_depth", .integer 12)]) = none :=
  (@normalizeToolArguments_keeps plainDoubles _ "scene_get_hierarchy" _
    (.object [("max_depth", .string "12")]) _ (by rfl)).1

def longPath : String := String.ofList (List.replicate 10901 'x')

theorem utf8ByteSize_xs (n : Nat) : (String.ofList (List.replicate n 'x')).utf8ByteSize = n := by
  induction n with
  | zero => rfl
  | succ n ih =>
    rw [List.replicate_succ, String.ofList_cons, String.utf8ByteSize_append, String.utf8ByteSize_singleton, ih,
      Nat.add_comm]
    rfl

/-- An integer costs more of the budget than the text it was read from. -/
theorem normalized_over_budget :
    normalizeToolArguments plainDoubles (fun _ _ => none) "scene_get_hierarchy" sceneGetHierarchySchema
        (.object [("max_depth", .string "5"), ("root_path", .string longPath)]) =
      .ok (.object [("max_depth", .integer 5), ("root_path", .string longPath)]) ∧
    normalizeToolArguments plainDoubles (fun _ _ => none) "scene_get_hierarchy" sceneGetHierarchySchema
        (.object [("max_depth", .integer 5), ("root_path", .string longPath)]) = .error overBudget := by
  have hkeys : "max_depth".utf8ByteSize = 9 ∧ "root_path".utf8ByteSize = 9 ∧ "5".utf8ByteSize = 1 := by decide
  have hpath : longPath.utf8ByteSize = 10901 := utf8ByteSize_xs _
  refine ⟨?_, ?_⟩
  · rw [normalizeToolArguments_object _ rfl]
    · rfl
    · simp [withinBudget, Budget.visit, Budget.visitMembers, Budget.text, Budget.charge, hkeys, hpath, kMaxNodes, kMaxBytes,
        kMaxArgumentDepth]
  · have hbudget : withinBudget (.object [("max_depth", .integer 5), ("root_path", .string longPath)]) = false := by
      simp [withinBudget, Budget.visit, Budget.visitMembers, Budget.text, Budget.charge, hkeys, hpath, kMaxNodes, kMaxBytes,
        kMaxArgumentDepth]
    unfold normalizeToolArguments
    rw [hbudget]
    rfl

end Didi.Mcp
