import Didi.Import.Options

/-!
# The loop window of a WAV import

* `planOption_wav` : a change of a WAV import is within its own bounds;
* `WellFormed` : the mode and both ends with the changes applied;
* `window_iff` : an accepted window is well formed iff what the call leaves in the sidecar is sensible.
-/

namespace Didi.Import
open Didi.Config
variable {key : String}

/-! ## One change -/

theorem integerOf_toInt64 (i : Int) : integerOf (.integer (toInt64 i)) = some (toInt64 i) := by
  rw [integerOf, toInt64, toInt64]
  congr 1
  omega

theorem integerOf_bounds {value : Json} {n : Int} (h : integerOf value = some n) : integerOf (.integer n) = some n := by
  cases value with
  | integer i =>
    rw [integerOf] at h
    rw [← Option.some.inj h]
    exact integerOf_toInt64 i
  | _ => cases h

/-- What a change of a WAV import writes. -/
structure Bounded (change : ImportOptionChange) : Prop where
  mode : change.key = "edit/loop_mode" → ∃ m, integerOf change.value = some m ∧ m ≤ 4
  begins : change.key = "edit/loop_begin" → ∃ b, integerOf change.value = some b ∧ 0 ≤ b
  ends : change.key = "edit/loop_end" → ∃ e, integerOf change.value = some e

theorem ruleFor_wav {rule : OptionRule} (h : ruleFor "wav" key = some rule) :
    (key = "edit/loop_mode" ∧ rule.kind = .loopMode) ∨
      ((key = "edit/loop_begin" ∨ key = "edit/loop_end") ∧ rule.kind = .frames) := by
  have hmem := List.mem_of_find?_eq_some h
  have htest := List.find?_some h
  rw [Bool.and_eq_true, decide_eq_true_eq, decide_eq_true_eq] at htest
  obtain ⟨himporter, rfl⟩ := htest
  simp only [kRules, List.mem_cons, List.not_mem_nil, or_false] at hmem
  rcases hmem with rfl | rfl | rfl | rfl | rfl | rfl | rfl | rfl
  · exact .inl ⟨rfl, rfl⟩
  · exact .inr ⟨.inl rfl, rfl⟩
  · exact .inr ⟨.inr rfl, rfl⟩
  all_goals exact absurd himporter (by decide)

theorem checkValue_loopMode {platform : Platform} {value : Json} {stream : Option ImportedStreamFacts}
    {written : Json × String} (h : checkValue platform .loopMode key value stream = .ok written) :
    ∃ m, integerOf written.1 = some m ∧ m ≤ 4 := by
  rw [checkValue] at h
  cases hmode : modeOf value with
  | none =>
    rw [hmode] at h
    cases h
  | some mode =>
    rw [hmode] at h
    simp only at h
    split_ifs at h with hbounds
    cases h
    refine ⟨mode, ?_, by omega⟩
    rw [integerOf, toInt64]
    congr 1
    omega

theorem checkValue_frames {platform : Platform} {value : Json} {stream : Option ImportedStreamFacts}
    {written : Json × String} (h : checkValue platform .frames key value stream = .ok written) :
    ∃ n, integerOf written.1 = some n ∧ (key = "edit/loop_begin" → 0 ≤ n) := by
  rw [checkValue] at h
  cases hframes : integerOf value with
  | none =>
    rw [hframes] at h
    cases h
  | some frames =>
    rw [hframes] at h
    simp only at h
    split_ifs at h with hbegin hend
    cases h
    refine ⟨frames, integerOf_bounds hframes, fun hkey => ?_⟩
    by_contra hneg
    exact hbegin ⟨hkey, by omega⟩

section Plan
variable {platform : Platform} {planAnimationLoops : AnimationPlan} {sidecar : ImportSidecar}
  {stream : Option ImportedStreamFacts}

/-- An option of a WAV import adds one change, within its bounds. -/
theorem planOption_wav (hwav : sidecar.importer = "wav") {before after : List ImportOptionChange}
    {option : String × Json} (h : planOption platform planAnimationLoops sidecar stream before option = .ok after) :
    ∃ change, after = before ++ [change] ∧ change.key = option.1 ∧ Bounded change := by
  rw [planOption, hwav] at h
  cases hrule : ruleFor "wav" option.1 with
  | none =>
    rw [hrule] at h
    cases h
  | some rule =>
    rw [hrule] at h
    simp only at h
    cases hentry : (paramsEntries sidecar option.1).getLast? with
    | none =>
      rw [hentry] at h
      cases h
    | some entry =>
      rw [hentry] at h
      have hkind := ruleFor_wav hrule
      simp only at h
      rw [if_neg (by rcases hkind with ⟨-, hk⟩ | ⟨-, hk⟩ <;> rw [hk] <;> decide)] at h
      cases hvalue : checkValue platform rule.kind option.1 option.2 stream with
      | error error =>
        rw [hvalue] at h
        cases h
      | ok written =>
        rw [hvalue] at h
        cases h
        refine ⟨_, rfl, rfl, ?_⟩
        rcases hkind with ⟨hkey, hk⟩ | ⟨hkey, hk⟩
        · rw [hk] at hvalue
          refine ⟨fun _ => checkValue_loopMode hvalue, fun hb => ?_, fun he => ?_⟩
          · exact absurd (hkey.symm.trans hb) (by decide)
          · exact absurd (hkey.symm.trans he) (by decide)
        · rw [hk] at hvalue
          obtain ⟨n, hn, hbegin⟩ := checkValue_frames hvalue
          refine ⟨fun hm => ?_, fun hb => ⟨n, hn, hbegin hb⟩, fun _ => ⟨n, hn⟩⟩
          rcases hkey with hkey | hkey
          · exact absurd (hkey.symm.trans hm) (by decide)
          · exact absurd (hkey.symm.trans hm) (by decide)

/-- The options of a WAV import become one change each. -/
theorem planOptions_wav (hwav : sidecar.importer = "wav") {options : JsonObject}
    {before after : List ImportOptionChange}
    (h : options.foldlM (planOption platform planAnimationLoops sidecar stream) before = .ok after)
    (hbefore : ∀ change ∈ before, Bounded change) :
    after.map ImportOptionChange.key = before.map ImportOptionChange.key ++ options.map Prod.fst ∧
      ∀ change ∈ after, Bounded change := by
  induction options generalizing before with
  | nil =>
    cases h
    exact ⟨(List.append_nil _).symm, hbefore⟩
  | cons option options ih =>
    rw [List.foldlM_cons] at h
    cases hone : planOption platform planAnimationLoops sidecar stream before option with
    | error error =>
      rw [hone] at h
      cases h
    | ok middle =>
      rw [hone] at h
      obtain ⟨change, rfl, hkey, hbounded⟩ := planOption_wav hwav hone
      have hmiddle : ∀ c ∈ before ++ [change], Bounded c := by
        intro c hc
        rcases List.mem_append.mp hc with hc | hc
        · exact hbefore c hc
        · rw [List.mem_singleton.mp hc]
          exact hbounded
      obtain ⟨hkeys, hall⟩ := ih h hmiddle
      refine ⟨?_, hall⟩
      rw [hkeys, List.map_append, List.map_singleton, hkey, List.map_cons, List.append_assoc, List.singleton_append]

end Plan

/-! ## The changes in their order -/

theorem mem_of_changed {changes : List ImportOptionChange} {change : ImportOptionChange}
    (h : changed changes key = some change) : change ∈ changes ∧ change.key = key := by
  have htest := List.find?_some h
  exact ⟨List.mem_of_find?_eq_some h, of_decide_eq_true htest⟩

theorem changed_eq_none {changes : List ImportOptionChange} :
    changed changes key = none ↔ ∀ change ∈ changes, change.key ≠ key := by
  rw [changed, List.find?_eq_none]
  simp only [decide_eq_true_eq]

/-- With distinct keys, it does not matter where the change of a key stands. -/
theorem changed_perm {changes changes' : List ImportOptionChange} (hperm : changes.Perm changes')
    (hkeys : (changes.map ImportOptionChange.key).Nodup) (key : String) : changed changes key = changed changes' key := by
  cases hfirst : changed changes key with
  | none =>
    rw [changed_eq_none] at hfirst
    exact (changed_eq_none.mpr fun change hchange => hfirst change (hperm.mem_iff.mpr hchange)).symm
  | some a =>
    obtain ⟨ha, hakey⟩ := mem_of_changed hfirst
    cases hsecond : changed changes' key with
    | none => exact absurd hakey (changed_eq_none.mp hsecond a (hperm.mem_iff.mp ha))
    | some b =>
      obtain ⟨hb, hbkey⟩ := mem_of_changed hsecond
      rw [List.inj_on_of_nodup_map hkeys ha (hperm.mem_iff.mpr hb) (hakey.trans hbkey.symm)]

theorem changed_isSome {changes : List ImportOptionChange} :
    (changed changes key).isSome = true ↔ key ∈ changes.map ImportOptionChange.key := by
  rw [changed, List.find?_isSome, List.mem_map]
  constructor
  · rintro ⟨change, hmem, hkey⟩
    exact ⟨change, hmem, of_decide_eq_true hkey⟩
  · rintro ⟨change, hmem, hkey⟩
    exact ⟨change, hmem, decide_eq_true hkey⟩

section Window
variable (platform : Platform) (sidecar : ImportSidecar) (changes : List ImportOptionChange)

theorem applied_of_changed {change : ImportOptionChange} (h : changed changes key = some change) :
    applied platform sidecar changes key = integerOf change.value := by
  rw [applied, h]

theorem applied_of_not_changed (h : key ∉ changes.map ImportOptionChange.key) :
    applied platform sidecar changes key = currentInteger platform sidecar key := by
  rw [applied, Option.not_isSome_iff_eq_none.mp fun hsome => h (changed_isSome.mp hsome)]

/-- With the changes applied, the mode has a window, and the window is inside the stream. -/
def WellFormed (frames : Int) : Prop :=
  ∃ mode b e, applied platform sidecar changes "edit/loop_mode" = some mode ∧
    applied platform sidecar changes "edit/loop_begin" = some b ∧
    applied platform sidecar changes "edit/loop_end" = some e ∧ 2 ≤ mode ∧ mode ≤ 4 ∧ 0 ≤ b ∧
    b < (if e = -1 then frames else e) ∧ (if e = -1 then frames else e) ≤ frames

/-- What a call of these options leaves in the sidecar: a mode that is one, a begin that is not counted back from the
end, and an end. -/
structure Sensible (options : JsonObject) : Prop where
  mode : "edit/loop_mode" ∉ options.map Prod.fst →
    ∀ m, currentInteger platform sidecar "edit/loop_mode" = some m → m ≤ 4
  begins : "edit/loop_begin" ∉ options.map Prod.fst →
    ∃ b, currentInteger platform sidecar "edit/loop_begin" = some b ∧ 0 ≤ b
  ends : "edit/loop_end" ∉ options.map Prod.fst → ∃ e, currentInteger platform sidecar "edit/loop_end" = some e

variable {platform sidecar changes} {stream : Option ImportedStreamFacts} {frames : Int} {options : JsonObject}

/-- A check that refuses nothing goes on. -/
theorem passed {α : Type} {c : Prop} [Decidable c] {error : Error} {next : Except Error α} {a : α}
    (h : (if c then .error error else next) = .ok a) : ¬ c ∧ next = .ok a := by
  by_cases hc : c
  · rw [if_pos hc] at h
    cases h
  · rw [if_neg hc] at h
    exact ⟨hc, h⟩

/-- What the check of the whole window has seen. -/
theorem checkWindow_ok (hframes : framesOf platform stream = some frames)
    (hchanges : (changed changes "edit/loop_begin").isSome = true ∨ (changed changes "edit/loop_end").isSome = true)
    (h : checkWindow platform sidecar stream changes = .ok ()) :
    (∃ mode, applied platform sidecar changes "edit/loop_mode" = some mode ∧ 2 ≤ mode) ∧
      (∀ b, applied platform sidecar changes "edit/loop_begin" = some b → b < frames) ∧
      (∀ e, applied platform sidecar changes "edit/loop_end" = some e → e ≤ frames) ∧
      ∀ b e, applied platform sidecar changes "edit/loop_begin" = some b →
        applied platform sidecar changes "edit/loop_end" = some e → e ≠ -1 → b < e := by
  have hsome : ((changed changes "edit/loop_begin").isNone && (changed changes "edit/loop_end").isNone) = false := by
    rw [Bool.and_eq_false_iff, Option.isNone_eq_false_iff, Option.isNone_eq_false_iff]
    exact hchanges
  unfold checkWindow at h
  rw [hsome, if_neg Bool.false_ne_true, hframes] at h
  dsimp only at h
  obtain ⟨hmode, h⟩ := passed h
  obtain ⟨hbegin, h⟩ := passed h
  obtain ⟨hend, h⟩ := passed h
  obtain ⟨hbelow, -⟩ := passed h
  refine ⟨?_, ?_, ?_, ?_⟩
  · cases happlied : applied platform sidecar changes "edit/loop_mode" with
    | none =>
      rw [happlied] at hmode
      exact absurd rfl hmode
    | some mode =>
      rw [happlied, Option.all_some, decide_eq_true_eq] at hmode
      exact ⟨mode, rfl, by omega⟩
  · intro b hb
    rw [hb, Option.any_some, Option.any_some, decide_eq_true_eq] at hbegin
    omega
  · intro e he
    rw [he, Option.any_some, Option.any_some, decide_eq_true_eq] at hend
    omega
  · intro b e hb he hne
    rw [he, if_neg fun h => hne (Option.some.inj h), hb, Option.any_some, Option.any_some, Bool.and_eq_true,
      decide_eq_true_eq, decide_eq_true_eq] at hbelow
    by_contra hle
    exact hbelow ⟨hne, by omega⟩

/-- The change of a key, or what the sidecar holds. -/
theorem applied_cases (hkeys : changes.map ImportOptionChange.key = options.map Prod.fst)
    (hbounded : ∀ change ∈ changes, Bounded change) (key : String) :
    (∃ change, Bounded change ∧ change.key = key ∧
        applied platform sidecar changes key = integerOf change.value) ∨
      (key ∉ options.map Prod.fst ∧
        applied platform sidecar changes key = currentInteger platform sidecar key) := by
  by_cases hmem : key ∈ changes.map ImportOptionChange.key
  · obtain ⟨change, hchange⟩ := Option.isSome_iff_exists.mp (changed_isSome.mpr hmem)
    obtain ⟨hin, hkey⟩ := mem_of_changed hchange
    exact .inl ⟨change, hbounded change hin, hkey, applied_of_changed platform sidecar changes hchange⟩
  · exact .inr ⟨hkeys ▸ hmem, applied_of_not_changed platform sidecar changes hmem⟩

end Window

/-- **An accepted window is well formed iff what the call leaves in the sidecar is sensible.** -/
theorem window_iff (platform : Platform) (planAnimationLoops : AnimationPlan) {sidecar : ImportSidecar}
    {stream : Option ImportedStreamFacts} {options : JsonObject} {changes : List ImportOptionChange} {frames : Int}
    (hwav : sidecar.importer = "wav") (hkeys : (options.map Prod.fst).Nodup)
    (hframes : framesOf platform stream = some frames)
    (haccepted : planImportChanges platform planAnimationLoops sidecar options stream = .ok changes)
    (hwindow : "edit/loop_begin" ∈ options.map Prod.fst ∨ "edit/loop_end" ∈ options.map Prod.fst) :
    WellFormed platform sidecar changes frames ↔ Sensible platform sidecar options := by
  have hconfigurable : configurableImporter sidecar.importer = true := by
    rw [hwav]
    rfl
  rw [planImportChanges, hconfigurable, Bool.not_true, if_neg Bool.false_ne_true] at haccepted
  cases hplan : options.foldlM (planOption platform planAnimationLoops sidecar stream) [] with
  | error error =>
    rw [hplan] at haccepted
    cases haccepted
  | ok planned =>
    rw [hplan] at haccepted
    obtain ⟨hplanned, hbounded⟩ := planOptions_wav hwav hplan fun change hchange => by cases hchange
    rw [List.map_nil, List.nil_append] at hplanned
    simp only [hwav, if_true] at haccepted
    change (checkWindow platform sidecar stream planned >>= fun _ => Except.ok (planned.mergeSort changeLe)) =
      .ok changes at haccepted
    cases hcheck : checkWindow platform sidecar stream planned with
    | error error =>
      rw [hcheck] at haccepted
      cases haccepted
    | ok _ =>
      rw [hcheck] at haccepted
      cases haccepted
      have happlied : ∀ key, applied platform sidecar (planned.mergeSort changeLe) key =
          applied platform sidecar planned key := by
        intro key
        have hkeys' : (planned.map ImportOptionChange.key).Nodup := hplanned ▸ hkeys
        rw [applied, applied, changed_perm (List.mergeSort_perm planned changeLe).symm hkeys' key]
      have hchanged : (changed planned "edit/loop_begin").isSome = true ∨
          (changed planned "edit/loop_end").isSome = true := by
        rw [changed_isSome, changed_isSome, hplanned]
        exact hwindow
      obtain ⟨⟨mode, hmode, hmode2⟩, hbegin, hend, hbelow⟩ := checkWindow_ok hframes hchanged hcheck
      have hcases := fun key => @applied_cases platform sidecar planned options hplanned hbounded key
      rw [WellFormed, happlied, happlied, happlied]
      constructor
      · rintro ⟨mode', b, e, hmode', hb, he, -, hmode4, hb0, -, -⟩
        refine ⟨fun hnot m hm => ?_, fun hnot => ⟨b, ?_, hb0⟩, fun hnot => ⟨e, ?_⟩⟩
        · rw [applied_of_not_changed platform sidecar planned (hplanned ▸ hnot), hm] at hmode'
          rw [Option.some.inj hmode']
          exact hmode4
        · rw [applied_of_not_changed platform sidecar planned (hplanned ▸ hnot)] at hb
          exact hb
        · rw [applied_of_not_changed platform sidecar planned (hplanned ▸ hnot)] at he
          exact he
      · intro hsensible
        have hmode4 : mode ≤ 4 := by
          rcases hcases "edit/loop_mode" with ⟨change, hbounded, hkey, hvalue⟩ | ⟨hnot, hvalue⟩
          · obtain ⟨m, hm, hm4⟩ := hbounded.mode hkey
            rw [hvalue, hm] at hmode
            rw [← Option.some.inj hmode]
            exact hm4
          · rw [hvalue] at hmode
            exact hsensible.mode hnot mode hmode
        obtain ⟨b, hb, hb0⟩ : ∃ b, applied platform sidecar planned "edit/loop_begin" = some b ∧ 0 ≤ b := by
          rcases hcases "edit/loop_begin" with ⟨change, hbounded, hkey, hvalue⟩ | ⟨hnot, hvalue⟩
          · rw [hvalue]
            exact hbounded.begins hkey
          · rw [hvalue]
            exact hsensible.begins hnot
        obtain ⟨e, he⟩ : ∃ e, applied platform sidecar planned "edit/loop_end" = some e := by
          rcases hcases "edit/loop_end" with ⟨change, hbounded, hkey, hvalue⟩ | ⟨hnot, hvalue⟩
          · rw [hvalue]
            exact hbounded.ends hkey
          · rw [hvalue]
            exact hsensible.ends hnot
        refine ⟨mode, b, e, hmode, hb, he, hmode2, hmode4, hb0, ?_⟩
        split_ifs with hlast
        · exact ⟨hbegin b hb, le_rfl⟩
        · exact ⟨hbelow b e hb he hlast, hend e he⟩

/-! ## A sidecar that is not sensible -/

/-- A platform that tells no doubles apart, on which whole lengths have whole frames. -/
def wholePlatform : Platform where
  strtod := fun _ => none
  dumpReal := fun _ => "0.0"
  numberText := fun _ => "0.0"
  llround := fun length rate => length.num * rate / length.den

def noLoops : AnimationPlan := fun _ _ _ changes => .ok changes

def wavSidecar (begins : String) : ImportSidecar where
  scan := scan ("[params]\n\nedit/loop_mode=2\nedit/loop_begin=" ++ begins ++ "\nedit/loop_end=100\n").toList
  importer := "wav"

def twoSeconds : ImportedStreamFacts := { lengthSeconds := some 2, mixRate := some 500 }

/-- A call that sets the end of the window alone. -/
def endOption : JsonObject := [("edit/loop_end", .integer 50)]

/-- A plan that is checked without an error is accepted. -/
theorem planImportChanges_isOk {platform : Platform} {planAnimationLoops : AnimationPlan} {sidecar : ImportSidecar}
    {stream : Option ImportedStreamFacts} {options : JsonObject} (hwav : sidecar.importer = "wav")
    (h : (do
      let planned ← options.foldlM (planOption platform planAnimationLoops sidecar stream) []
      checkWindow platform sidecar stream planned).isOk = true) :
    ∃ changes, planImportChanges platform planAnimationLoops sidecar options stream = .ok changes := by
  have hconfigurable : configurableImporter sidecar.importer = true := by
    rw [hwav]
    rfl
  rw [planImportChanges, hconfigurable, Bool.not_true, if_neg Bool.false_ne_true]
  cases hplan : options.foldlM (planOption platform planAnimationLoops sidecar stream) [] with
  | error error =>
    rw [hplan] at h
    cases h
  | ok planned =>
    rw [hplan] at h
    simp only [hwav, if_true]
    cases hcheck : checkWindow platform sidecar stream planned with
    | error error =>
      change (checkWindow platform sidecar stream planned).isOk = true at h
      rw [hcheck] at h
      cases h
    | ok _ =>
      refine ⟨planned.mergeSort changeLe, ?_⟩
      change (checkWindow platform sidecar stream planned >>= fun _ => Except.ok (planned.mergeSort changeLe)) = _
      rw [hcheck]
      rfl

theorem endOption_accepted {begins : String}
    (h : (do
      let planned ← endOption.foldlM (planOption wholePlatform noLoops (wavSidecar begins) (some twoSeconds)) []
      checkWindow wholePlatform (wavSidecar begins) (some twoSeconds) planned).isOk = true) :
    ∃ changes, planImportChanges wholePlatform noLoops (wavSidecar begins) endOption (some twoSeconds) = .ok changes :=
  planImportChanges_isOk rfl h

/-- A begin that is counted back from the end is accepted as it is held. -/
theorem not_window_accepted :
    ¬ ∀ (platform : Platform) (planAnimationLoops : AnimationPlan) (sidecar : ImportSidecar)
      (stream : Option ImportedStreamFacts) (options : JsonObject) (changes : List ImportOptionChange) (frames : Int),
      sidecar.importer = "wav" → (options.map Prod.fst).Nodup → framesOf platform stream = some frames →
      planImportChanges platform planAnimationLoops sidecar options stream = .ok changes →
      ("edit/loop_begin" ∈ options.map Prod.fst ∨ "edit/loop_end" ∈ options.map Prod.fst) →
      WellFormed platform sidecar changes frames := by
  intro h
  obtain ⟨changes, haccepted⟩ := @endOption_accepted "-5" (by decide +kernel)
  have hframes : framesOf wholePlatform (some twoSeconds) = some 1000 := by decide +kernel
  have hwindow : "edit/loop_begin" ∈ endOption.map Prod.fst ∨ "edit/loop_end" ∈ endOption.map Prod.fst :=
    .inr List.mem_cons_self
  have hkeys : (endOption.map Prod.fst).Nodup := List.nodup_singleton _
  have hformed := h wholePlatform noLoops (wavSidecar "-5") (some twoSeconds) endOption changes 1000 rfl hkeys hframes
    haccepted hwindow
  have hsensible := (window_iff wholePlatform noLoops rfl hkeys hframes haccepted hwindow).mp hformed
  obtain ⟨b, hb, hb0⟩ := hsensible.begins (by decide)
  have hheld : currentInteger wholePlatform (wavSidecar "-5") "edit/loop_begin" = some (-5) := by decide +kernel
  rw [hheld] at hb
  have hneg := Option.some.inj hb
  omega

theorem window_iff_sample :
    ∃ changes, planImportChanges wholePlatform noLoops (wavSidecar "10") endOption (some twoSeconds) = .ok changes ∧
      (WellFormed wholePlatform (wavSidecar "10") changes 1000 ↔
        Sensible wholePlatform (wavSidecar "10") endOption) := by
  obtain ⟨changes, haccepted⟩ := @endOption_accepted "10" (by decide +kernel)
  have hframes : framesOf wholePlatform (some twoSeconds) = some 1000 := by decide +kernel
  exact ⟨changes, haccepted, window_iff wholePlatform noLoops rfl (List.nodup_singleton _) hframes haccepted
    (.inr List.mem_cons_self)⟩

end Didi.Import
