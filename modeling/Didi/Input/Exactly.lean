import Didi.Input.Literal

/-!
# What an action says of its descriptors

* `SaysIntegers` : the integers of an event are those of its descriptor;
* `saysIntegers_iff` : they are, but for a device that reads as the one that stands for all of them;
* `says_iff` : the same of a list of descriptors, and the literal is one value on one line.
-/

namespace Didi.Input
open Config (Text bytesOf toInt64 Numeral PrintsNumbers Rendered valueProblem Stays)

/-! ## Integers -/

/-- An integer that the library can hold, which is a signed or an unsigned one of 64 bits. -/
def IsHeld : Json → Prop
  | .integer i => -2 ^ 63 ≤ i ∧ i < 2 ^ 64
  | _ => True

theorem isHeld_integer {i : Int} (h : -2 ^ 63 ≤ i ∧ i < 2 ^ 64) : IsHeld (.integer i) := h

/-- The integer that a property holds. -/
def integerOf (members : JsonObject) (key : String) : Option Int :=
  match members.lookup key with
  | some (.integer i) => some i
  | _ => none

/-- A negative number is read only from itself or from one too large to be signed. -/
theorem toInt64_cases {i : Int} (h : -2 ^ 63 ≤ i ∧ i < 2 ^ 64) :
    (i < 2 ^ 63 ∧ toInt64 i = i) ∨ (2 ^ 63 ≤ i ∧ toInt64 i = i - 2 ^ 64) := by
  unfold toInt64
  omega

theorem toInt64_of_nonneg {i : Int} (h : -2 ^ 63 ≤ i ∧ i < 2 ^ 64) (hnonneg : 0 ≤ toInt64 i) : toInt64 i = i := by
  rcases toInt64_cases h with ⟨-, hsame⟩ | ⟨-, hwrapped⟩
  · exact hsame
  · omega

theorem toInt64_of_device {i : Int} (h : -2 ^ 63 ≤ i ∧ i < 2 ^ 64) (hdevice : -1 ≤ toInt64 i) :
    toInt64 i = i ↔ i ≠ 2 ^ 64 - 1 := by
  rcases toInt64_cases h with ⟨hlow, hsame⟩ | ⟨hhigh, hwrapped⟩
  · exact ⟨fun _ => by omega, fun _ => hsame⟩
  · constructor
    · omega
    · intro hne
      omega

/-! ## What each check accepts -/

section Checks
variable {members : JsonObject} {key : String}

theorem integerOf_held (h : ∀ member ∈ members, IsHeld member.2) {i : Int}
    (hi : members.lookup key = some (.integer i)) : -2 ^ 63 ≤ i ∧ i < 2 ^ 64 :=
  h _ (List.mem_of_lookup hi)

theorem readDevice_ok {device : Int} (h : readDevice members = .ok device) : -1 ≤ device ∧
    ((members.lookup "device" = none ∧ device = -1) ∨
      ∃ i, members.lookup "device" = some (.integer i) ∧ device = toInt64 i) := by
  unfold readDevice at h
  dsimp only at h
  split at h
  · rename_i hnone
    cases h
    exact ⟨le_rfl, .inl ⟨hnone, rfl⟩⟩
  · rename_i i hsome
    split_ifs at h with hlow
    cases h
    exact ⟨Int.not_lt.mp hlow, .inr ⟨i, hsome, rfl⟩⟩
  · cases h

theorem readCode_ok (hheld : ∀ member ∈ members, IsHeld member.2) {code : Option Int}
    (h : readCode members key = .ok code) : code = integerOf members key := by
  unfold readCode at h
  unfold integerOf
  dsimp only at h
  split at h
  · rename_i hnone
    cases h
    rw [hnone]
  · rename_i i hsome
    split_ifs at h with hlow
    cases h
    rw [hsome]
    exact congrArg some (toInt64_of_nonneg (integerOf_held hheld hsome) (by omega))
  · cases h

/-- A property that the type does not take is not there. -/
theorem integerOf_eq_none {type : EventType} (h : checkProperties members type = .ok ()) (hkey : key ∉ type.allowed) :
    integerOf members key = none := by
  have hlookup : members.lookup key = none := by
    by_contra hsome
    obtain ⟨value, hvalue⟩ := Option.ne_none_iff_exists'.mp hsome
    unfold checkProperties at h
    split at h
    · rename_i hnone
      have hallowed := List.find?_eq_none.mp hnone _ (List.mem_of_lookup hvalue)
      exact hkey (by simpa using hallowed)
    · cases h
  unfold integerOf
  rw [hlookup]

end Checks

/-! ## One event -/

/-- The codes, the button and the axis of an event are those of its descriptor. -/
structure SaysCodes (members : JsonObject) (event : InputEventSpec) : Prop where
  keycode : event.keycode = integerOf members "keycode"
  physicalKeycode : event.physicalKeycode = integerOf members "physical_keycode"
  unicode : event.unicode = integerOf members "unicode"
  buttonIndex : event.buttonIndex = integerOf members "button_index"
  axis : event.axis = integerOf members "axis"

/-- Every integer of an event is that of its descriptor, and the device that is not given is all of them. -/
structure SaysIntegers (members : JsonObject) (event : InputEventSpec) : Prop extends SaysCodes members event where
  device : members.lookup "device" = none ∧ event.device = -1 ∨ integerOf members "device" = some event.device

section Events
variable {members : JsonObject} {event : InputEventSpec} {device : Int}

theorem keyEvent_ok (hheld : ∀ member ∈ members, IsHeld member.2) (hchecked : checkProperties members .key = .ok ())
    (h : keyEvent members device = .ok event) :
    SaysCodes members event ∧ event.device = device ∧ event.axisValue = none := by
  unfold keyEvent at h
  obtain ⟨keycode, hkeycode, h⟩ := Except.bind_eq_ok.mp h
  obtain ⟨physicalKeycode, hphysical, h⟩ := Except.bind_eq_ok.mp h
  obtain ⟨unicode, hunicode, h⟩ := Except.bind_eq_ok.mp h
  obtain ⟨-, -, h⟩ := Except.bind_eq_ok.mp h
  obtain ⟨shiftPressed, -, h⟩ := Except.bind_eq_ok.mp h
  obtain ⟨altPressed, -, h⟩ := Except.bind_eq_ok.mp h
  obtain ⟨ctrlPressed, -, h⟩ := Except.bind_eq_ok.mp h
  obtain ⟨metaPressed, -, h⟩ := Except.bind_eq_ok.mp h
  cases h
  exact ⟨⟨readCode_ok hheld hkeycode, readCode_ok hheld hphysical, readCode_ok hheld hunicode,
    (integerOf_eq_none hchecked (by decide)).symm, (integerOf_eq_none hchecked (by decide)).symm⟩, rfl, rfl⟩

theorem buttonEvent_ok {type : EventType} {minimum maximum : Int} (hminimum : 0 ≤ minimum)
    (hallowed : type.allowed = ["type", "button_index", "device"]) (hheld : ∀ member ∈ members, IsHeld member.2)
    (hchecked : checkProperties members type = .ok ()) (h : buttonEvent members type minimum maximum device = .ok event) :
    SaysCodes members event ∧ event.device = device ∧ event.axisValue = none := by
  have habsent : ∀ key ∉ ["type", "button_index", "device"], integerOf members key = none :=
    fun key hkey => integerOf_eq_none hchecked (hallowed ▸ hkey)
  unfold buttonEvent at h
  split at h
  · rename_i i hsome
    split_ifs at h with hrange
    cases h
    have hin : minimum ≤ toInt64 i ∧ toInt64 i ≤ maximum := by simpa using hrange
    refine ⟨⟨(habsent _ (by decide)).symm, (habsent _ (by decide)).symm, (habsent _ (by decide)).symm, ?_,
      (habsent _ (by decide)).symm⟩, rfl, rfl⟩
    rw [integerOf, hsome]
    exact congrArg some (toInt64_of_nonneg (integerOf_held hheld hsome) (by omega))
  · cases h

variable {dumpReal : Rat → String}

theorem joypadMotionEvent_ok (hheld : ∀ member ∈ members, IsHeld member.2)
    (hchecked : checkProperties members .joypadMotion = .ok ())
    (h : joypadMotionEvent members dumpReal device = .ok event) :
    SaysCodes members event ∧ event.device = device ∧
      event.axisValue = (members.lookup "axis_value").bind (doubleOf dumpReal) := by
  have habsent : ∀ key ∉ EventType.joypadMotion.allowed, integerOf members key = none :=
    fun key hkey => integerOf_eq_none hchecked hkey
  unfold joypadMotionEvent at h
  obtain ⟨axis, haxis, h⟩ := Except.bind_eq_ok.mp h
  obtain ⟨axisValue, hvalue, h⟩ := Except.bind_eq_ok.mp h
  cases h
  refine ⟨⟨(habsent _ (by decide)).symm, (habsent _ (by decide)).symm, (habsent _ (by decide)).symm,
    (habsent _ (by decide)).symm, ?_⟩, rfl, ?_⟩
  · unfold readAxis at haxis
    dsimp only at haxis
    split at haxis
    · rename_i i hsome
      split_ifs at haxis with hrange
      cases haxis
      have hin : 0 ≤ toInt64 i ∧ toInt64 i ≤ 9 := by simpa using hrange
      rw [integerOf, hsome]
      exact congrArg some (toInt64_of_nonneg (integerOf_held hheld hsome) hin.1)
    · cases haxis
  · unfold readAxisValue at hvalue
    dsimp only at hvalue
    split at hvalue
    · rename_i number hsome
      split_ifs at hvalue
      cases hvalue
      exact hsome.symm
    · cases hvalue

/-- What every event that is accepted was read from. -/
theorem eventOf_ok {type : EventType} (hheld : ∀ member ∈ members, IsHeld member.2)
    (h : eventOf members dumpReal type = .ok event) : SaysCodes members event ∧
      readDevice members = .ok event.device ∧
      ∀ number ∈ event.axisValue, (members.lookup "axis_value").bind (doubleOf dumpReal) = some number := by
  unfold eventOf at h
  obtain ⟨⟨⟩, hchecked, h⟩ := Except.bind_eq_ok.mp h
  obtain ⟨device, hdevice, h⟩ := Except.bind_eq_ok.mp h
  have hresult : SaysCodes members event ∧ event.device = device ∧
      (event.axisValue = none ∨ event.axisValue = (members.lookup "axis_value").bind (doubleOf dumpReal)) := by
    cases type with
    | key =>
      obtain ⟨hcodes, hsame, hnone⟩ := keyEvent_ok hheld hchecked h
      exact ⟨hcodes, hsame, .inl hnone⟩
    | mouseButton =>
      obtain ⟨hcodes, hsame, hnone⟩ := buttonEvent_ok (by decide) rfl hheld hchecked h
      exact ⟨hcodes, hsame, .inl hnone⟩
    | joypadButton =>
      obtain ⟨hcodes, hsame, hnone⟩ := buttonEvent_ok (by decide) rfl hheld hchecked h
      exact ⟨hcodes, hsame, .inl hnone⟩
    | joypadMotion =>
      obtain ⟨hcodes, hsame, hvalue⟩ := joypadMotionEvent_ok hheld hchecked h
      exact ⟨hcodes, hsame, .inr hvalue⟩
  obtain ⟨hcodes, rfl, hvalue⟩ := hresult
  refine ⟨hcodes, hdevice, fun number hnumber => ?_⟩
  rcases hvalue with hnone | hvalue
  · rw [hnone] at hnumber
    cases hnumber
  · rw [← hvalue]
    exact hnumber

theorem parse_ok {descriptor : Json} (h : parseInputEventDescriptor dumpReal descriptor = .ok event) :
    ∃ members type, descriptor = .object members ∧ eventOf members dumpReal type = .ok event := by
  unfold parseInputEventDescriptor at h
  dsimp only at h
  split at h
  · rename_i members
    split at h
    · split at h
      · rename_i type _
        exact ⟨members, type, rfl, h⟩
      · cases h
    · cases h
  · cases h

/-- **An accepted event says the integers of its descriptor, but for a device that is read as all of them.** -/
theorem saysIntegers_iff {type : EventType} (hheld : ∀ member ∈ members, IsHeld member.2)
    (h : eventOf members dumpReal type = .ok event) :
    SaysIntegers members event ↔ integerOf members "device" ≠ some (2 ^ 64 - 1) := by
  obtain ⟨hcodes, hdevice, -⟩ := eventOf_ok hheld h
  obtain ⟨hlow, ⟨hnone, hall⟩ | ⟨i, hsome, hread⟩⟩ := readDevice_ok hdevice
  · constructor
    · intro _
      simp [integerOf, hnone]
    · exact fun _ => ⟨hcodes, .inl ⟨hnone, hall⟩⟩
  · have hinteger : integerOf members "device" = some i := by rw [integerOf, hsome]
    have hsame := toInt64_of_device (integerOf_held hheld hsome) (hread ▸ hlow)
    rw [hinteger, ne_eq, Option.some.injEq, ← ne_eq, ← hsame, ← hread]
    constructor
    · rintro ⟨-, ⟨hnone, -⟩ | hspoken⟩
      · rw [hnone] at hsome
        cases hsome
      · rw [hinteger] at hspoken
        exact (Option.some.inj hspoken).symm
    · exact fun hequal => ⟨hcodes, .inr (by rw [hinteger, hequal])⟩

/-- A real of an event is one that its descriptor holds, or that an integer was read as. -/
theorem prints_axisValue {type : EventType} (hdump : ∀ value, Numeral (bytesOf (dumpReal value)))
    (hheld : ∀ member ∈ members, IsHeld member.2 ∧ PrintsNumbers member.2)
    (h : eventOf members dumpReal type = .ok event) : ∀ number ∈ event.axisValue, number.Prints := by
  intro number hnumber
  obtain ⟨-, -, hvalue⟩ := eventOf_ok (fun member hmem => (hheld member hmem).1) h
  obtain ⟨value, hlookup, hdouble⟩ := Option.bind_eq_some_iff.mp (hvalue number hnumber)
  have hprints := (hheld _ (List.mem_of_lookup hlookup)).2
  cases value with
  | integer i =>
    cases hdouble
    exact hdump _
  | real value text =>
    cases hdouble
    exact hprints
  | _ => cases hdouble

end Events

/-! ## The action -/

/-- A text on one line that is accepted for a value, and is read back as it is whatever comes after it. -/
def IsOneValue (literal : Text) : Prop :=
  ('\n' ∉ literal ∧ '\r' ∉ literal) ∧ valueProblem literal = none ∧ ∀ rest, Stays literal rest

theorem isOneValue_of_rendered {literal : Text} (h : Rendered literal) : IsOneValue literal :=
  ⟨⟨h.contained.newline, h.cr⟩, h.reads.valueProblem, h.stays⟩

section Action
variable {dumpReal : Rat → String}

/-- What is known of an event that is accepted. -/
theorem event_of_parse (hdump : ∀ value, Numeral (bytesOf (dumpReal value))) {descriptor : Json} {event : InputEventSpec}
    (hheld : ∀ member ∈ descriptor.members, IsHeld member.2 ∧ PrintsNumbers member.2)
    (h : parseInputEventDescriptor dumpReal descriptor = .ok event) :
    (SaysIntegers descriptor.members event ↔ integerOf descriptor.members "device" ≠ some (2 ^ 64 - 1)) ∧
      -1 ≤ event.device ∧ ∀ number ∈ event.axisValue, number.Prints := by
  obtain ⟨members, type, rfl, hevent⟩ := parse_ok h
  have hintegers : ∀ member ∈ members, IsHeld member.2 := fun member hmem => (hheld member hmem).1
  obtain ⟨-, hdevice, -⟩ := eventOf_ok hintegers hevent
  exact ⟨saysIntegers_iff hintegers hevent, (readDevice_ok hdevice).1, prints_axisValue hdump hheld hevent⟩

/-- **An action says exactly what its descriptors said, where no device is the largest integer.** -/
theorem says_iff (hdump : ∀ value, Numeral (bytesOf (dumpReal value))) {deadzone : Double}
    (hdeadzone : deadzone.Prints) {descriptors : List Json}
    (hheld : ∀ descriptor ∈ descriptors, ∀ member ∈ descriptor.members, IsHeld member.2 ∧ PrintsNumbers member.2)
    {events : List InputEventSpec} (h : descriptors.mapM (parseInputEventDescriptor dumpReal) = .ok events) :
    (List.Forall₂ (fun descriptor event => SaysIntegers descriptor.members event) descriptors events ∧
        (∀ event ∈ events, -1 ≤ event.device) ∧ IsOneValue (inputActionLiteral deadzone events)) ↔
      ∀ descriptor ∈ descriptors, integerOf descriptor.members "device" ≠ some (2 ^ 64 - 1) := by
  have hpairs := Except.forall₂_of_mapM_eq_ok h
  have hevents : ∀ event ∈ events, -1 ≤ event.device ∧ ∀ number ∈ event.axisValue, number.Prints := by
    intro event hmem
    obtain ⟨descriptor, hdescriptor, hparse⟩ := Except.exists_of_mem_mapM h hmem
    exact (event_of_parse hdump (hheld descriptor hdescriptor) hparse).2
  have hvalue : IsOneValue (inputActionLiteral deadzone events) :=
    isOneValue_of_rendered (rendered_inputActionLiteral hdeadzone fun event hmem => (hevents event hmem).2)
  have hspoken : List.Forall₂ (fun descriptor event => SaysIntegers descriptor.members event) descriptors events ↔
      ∀ descriptor ∈ descriptors, integerOf descriptor.members "device" ≠ some (2 ^ 64 - 1) := by
    clear h hevents hvalue
    induction hpairs with
    | nil => simp
    | cons hparse _ ih =>
      rw [List.forall_mem_cons] at hheld
      rw [List.forall₂_cons, List.forall_mem_cons, ih hheld.2, (event_of_parse hdump hheld.1 hparse).1]
  rw [hspoken]
  exact ⟨fun h => h.1, fun h => ⟨h, fun event hmem => (hevents event hmem).1, hvalue⟩⟩

end Action

/-- The text of one. -/
def one : Double := ⟨1, "1.0"⟩

/-- A motion along an axis whose value is given as an integer. -/
def motion : Json := .object [("axis", .integer 0), ("axis_value", .integer 1), ("device", .integer 3),
  ("type", .string "joypad_motion")]

def motionEvent : InputEventSpec :=
  { type := .joypadMotion, device := 3, axis := some 0, axisValue := some one }

theorem says_iff_motion : [motion].mapM (parseInputEventDescriptor fun _ => "1.0") = .ok [motionEvent] ∧
    ((List.Forall₂ (fun descriptor event => SaysIntegers descriptor.members event) [motion] [motionEvent] ∧
        (∀ event ∈ [motionEvent], -1 ≤ event.device) ∧ IsOneValue (inputActionLiteral one [motionEvent])) ↔
      ∀ descriptor ∈ [motion], integerOf descriptor.members "device" ≠ some (2 ^ 64 - 1)) := by
  have hheld : ∀ descriptor ∈ [motion], ∀ member ∈ descriptor.members,
      IsHeld member.2 ∧ PrintsNumbers member.2 := by
    rw [List.forall_mem_singleton]
    intro member hmem
    have hmem : member ∈ [("axis", Json.integer 0), ("axis_value", .integer 1), ("device", .integer 3),
      ("type", .string "joypad_motion")] := hmem
    fin_cases hmem
    · exact ⟨isHeld_integer (by decide), trivial⟩
    · exact ⟨isHeld_integer (by decide), trivial⟩
    · exact ⟨isHeld_integer (by decide), trivial⟩
    · exact ⟨trivial, trivial⟩
  exact ⟨rfl, says_iff (fun _ => Config.numeral_one) (show one.Prints from Config.numeral_one) hheld rfl⟩

/-- A key on the device that no signed integer numbers. -/
def unsignedDevice : Json := .object [("device", .integer 18446744073709551615), ("keycode", .integer 65),
  ("type", .string "key")]

/-- The largest unsigned integer is taken for the device that stands for all of them. -/
theorem not_says : ¬ ∀ (descriptors : List Json) (events : List InputEventSpec),
    (∀ descriptor ∈ descriptors, ∀ member ∈ descriptor.members, IsHeld member.2 ∧ PrintsNumbers member.2) →
      descriptors.mapM (parseInputEventDescriptor fun _ => "1.0") = .ok events →
        List.Forall₂ (fun descriptor event => SaysIntegers descriptor.members event) descriptors events := by
  intro h
  have hheld : ∀ descriptor ∈ [unsignedDevice], ∀ member ∈ descriptor.members,
      IsHeld member.2 ∧ PrintsNumbers member.2 := by
    rw [List.forall_mem_singleton]
    intro member hmem
    have hmem : member ∈ [("device", Json.integer 18446744073709551615), ("keycode", .integer 65),
      ("type", .string "key")] := hmem
    fin_cases hmem
    · exact ⟨isHeld_integer (by decide), trivial⟩
    · exact ⟨isHeld_integer (by decide), trivial⟩
    · exact ⟨trivial, trivial⟩
  have hspoken := h [unsignedDevice] [{ type := .key, device := -1, keycode := some 65 }] hheld rfl
  rcases (List.forall₂_cons.mp hspoken).1.device with ⟨hnone, -⟩ | hsame
  · exact absurd hnone (by decide)
  · exact absurd hsame (by decide)

end Didi.Input
