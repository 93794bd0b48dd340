import Didi.Config.Rendered
import Didi.Input.Actions

/-!
# The literal of an input action

* `Skips` : a piece that the walk of brackets passes over;
* `element_eventLiteral` : the literal of an event may stand in an array;
* `rendered_inputActionLiteral` : so the literal of an action is one that both walks take for one value.
-/

namespace Didi.Input
open Config

/-! ## The walk of brackets -/

/-- A piece that the walk passes over; a walk that runs out of steps answers as one with none left. -/
def Skips (piece : Text) : Prop := ∀ fuel rest depth, 0 < depth → ∃ fuel',
  skipBalanced fuel (piece ++ rest) depth = skipBalanced fuel' rest depth

theorem skipBalanced_zero (text : Text) (depth : Nat) : skipBalanced 0 text depth = .ok [] := by
  rw [skipBalanced]

theorem skips_nil : Skips [] := fun fuel _ _ _ => ⟨fuel, rfl⟩

theorem Skips.append {piece piece' : Text} (h : Skips piece) (h' : Skips piece') : Skips (piece ++ piece') := by
  intro fuel rest depth hdepth
  obtain ⟨fuel₁, hfirst⟩ := h fuel (piece' ++ rest) depth hdepth
  obtain ⟨fuel₂, hsecond⟩ := h' fuel₁ rest depth hdepth
  exact ⟨fuel₂, by rw [List.append_assoc, hfirst, hsecond]⟩

theorem skips_singleton {c : Char} (h : Inert c) : Skips [c] := by
  intro fuel rest depth _
  cases fuel with
  | zero => exact ⟨0, by rw [skipBalanced_zero, skipBalanced_zero]⟩
  | succ fuel =>
    refine ⟨fuel, ?_⟩
    rw [List.singleton_append, skipBalanced, if_neg h.quote, if_neg (by simp [h.opener]), if_neg (by simp [h.closer])]

theorem skips_of_inert {piece : Text} (h : ∀ c ∈ piece, Inert c) : Skips piece := by
  induction piece with
  | nil => exact skips_nil
  | cons c piece ih =>
    exact (skips_singleton (h c List.mem_cons_self)).append (ih fun d hd => h d (List.mem_cons_of_mem c hd))

theorem skips_quoted (text : Text) : Skips (quotedLiteral text) := by
  intro fuel rest depth _
  cases fuel with
  | zero => exact ⟨0, by rw [skipBalanced_zero, skipBalanced_zero]⟩
  | succ fuel =>
    have hquoted : quotedLiteral text ++ rest = '"' :: (escapeSettingString text ++ '"' :: rest) := by
      simp [quotedLiteral]
    refine ⟨fuel, ?_⟩
    rw [hquoted, skipBalanced, if_pos rfl, skipString_escaped]
    rfl

/-- A call of a constructor is read to the bracket that closes it. -/
theorem reads_call {name inner : Text} (hname : ∀ c ∈ name, isIdentifierChar c = true)
    (hstart : ∃ c rest, name = c :: rest ∧ isIdentifierStart c = true) (hinner : Skips inner) :
    Reads (name ++ '(' :: inner ++ [')']) := by
  apply reads_of_step
  intro fuel depth rest _ hdepth
  obtain ⟨c, t, rfl, hc⟩ := hstart
  have hplain : isPlain c = true := by simp [isPlain, hname c List.mem_cons_self]
  have hne : ∀ d, isPlain d = false → c ≠ d := fun d => ne_of_isPlain hplain
  have hcall : c :: t ++ '(' :: inner ++ [')'] ++ rest = (c :: t) ++ ('(' :: (inner ++ ')' :: rest)) := by simp
  have hidentifier : readIdentifier fuel ((c :: t) ++ ('(' :: (inner ++ ')' :: rest))) =
      skipBalanced fuel ('(' :: (inner ++ ')' :: rest)) 0 := by
    unfold readIdentifier
    rw [List.takeWhile_append_of_pos hname, List.dropWhile_append_of_pos hname]
    rfl
  have hskips : skipBalanced fuel ('(' :: (inner ++ ')' :: rest)) 0 = .ok rest ∨
      skipBalanced fuel ('(' :: (inner ++ ')' :: rest)) 0 = .ok [] := by
    cases fuel with
    | zero => exact .inr (skipBalanced_zero _ _)
    | succ fuel =>
      rw [skipBalanced, if_neg (by decide), if_pos (by decide)]
      obtain ⟨fuel', hinside⟩ := hinner fuel (')' :: rest) 1 Nat.one_pos
      rw [hinside]
      cases fuel' with
      | zero => exact .inr (skipBalanced_zero _ _)
      | succ fuel' =>
        rw [skipBalanced, if_neg (by decide), if_neg (by decide), if_pos (by decide), if_pos (by decide)]
        exact .inl rfl
  rw [hcall, List.cons_append, readValue_cons (not_isSpace_of_isPlain hplain) fuel hdepth]
  rw [if_neg (by simp [hne ')' (by decide), hne ']' (by decide), hne '\x7d' (by decide), hne ',' (by decide),
    hne ':' (by decide), hne '(' (by decide)]), if_neg (hne '"' (by decide)),
    if_neg (by simp [hne '&' (by decide), hne '@' (by decide)]), if_pos hc, ← List.cons_append, hidentifier]
  exact hskips

/-! ## The parts of a literal -/

/-- A piece inside brackets that both walks pass over, on one line. -/
structure Piece (piece : Text) : Prop where
  skips : Skips piece
  passes : Passes piece
  newline : '\n' ∉ piece
  cr : '\r' ∉ piece

theorem piece_nil : Piece [] := ⟨skips_nil, passes_nil, by simp, by simp⟩

theorem Piece.append {piece piece' : Text} (h : Piece piece) (h' : Piece piece') : Piece (piece ++ piece') :=
  ⟨h.skips.append h'.skips, h.passes.append h'.passes, by simp [h.newline, h'.newline], by simp [h.cr, h'.cr]⟩

theorem piece_of_plain {piece : Text} (h : ∀ c ∈ piece, isPlain c = true) : Piece piece :=
  ⟨skips_of_inert fun c hc => inert_of_isPlain (h c hc), passes_of_inert fun c hc => inert_of_isPlain (h c hc),
    fun hmem => absurd (h _ hmem) (by decide), fun hmem => absurd (h _ hmem) (by decide)⟩

theorem piece_quoted (text : Text) : Piece (quotedLiteral text) :=
  ⟨skips_quoted text, passes_quoted text, (contained_quoted text).newline, (rendered_quoted text).cr⟩

/-- What separates a name from what is before it and from its value. -/
theorem piece_separator {c : Char} (h : c = ',' ∨ c = ':') : Piece [c] := by
  have hinert : Inert c := by
    rcases h with rfl | rfl
    · exact ⟨by decide, by decide, rfl, rfl⟩
    · exact ⟨by decide, by decide, rfl, rfl⟩
  refine ⟨skips_singleton hinert, passes_singleton hinert, ?_, ?_⟩
  · rcases h with rfl | rfl <;> decide
  · rcases h with rfl | rfl <;> decide

/-- A name that is quoted as it is, with a number or a word for its value. -/
def IsPlain (property : Property) : Prop :=
  escapeSettingString property.1.toList = property.1.toList ∧ ∀ c ∈ property.2, isPlain c = true

theorem piece_propertyText {property : Property} (h : IsPlain property) : Piece (propertyText property) := by
  have hquoted : propertyText property = [','] ++ quotedLiteral property.1.toList ++ [':'] ++ property.2 := by
    unfold propertyText quotedLiteral
    rw [h.1]
    simp
  rw [hquoted]
  exact (((piece_separator (.inl rfl)).append (piece_quoted _)).append (piece_separator (.inr rfl))).append
    (piece_of_plain h.2)

theorem isPlain_flag {name : String} (hname : escapeSettingString name.toList = name.toList) (value : Option Bool) :
    ∀ property ∈ flag name value, IsPlain property := by
  intro property hmem
  cases value with
  | none => cases hmem
  | some b =>
    obtain rfl := List.mem_singleton.mp hmem
    cases b with
    | false => exact ⟨hname, List.all_eq_true.mp (show "false".toList.all isPlain = true by decide)⟩
    | true => exact ⟨hname, List.all_eq_true.mp (show "true".toList.all isPlain = true by decide)⟩

theorem isPlain_integer {name : String} (hname : escapeSettingString name.toList = name.toList) (value : Option Int) :
    ∀ property ∈ integer name value, IsPlain property := by
  intro property hmem
  cases value with
  | none => cases hmem
  | some i =>
    obtain rfl := List.mem_singleton.mp hmem
    exact ⟨hname, (numeral_integer i).plain⟩

/-- The text of a double is that of a number. -/
def Double.Prints (number : Double) : Prop := Numeral (bytesOf number.text)

theorem isPlain_properties {event : InputEventSpec} (h : ∀ number ∈ event.axisValue, number.Prints) :
    ∀ property ∈ event.properties, IsPlain property := by
  unfold InputEventSpec.properties
  simp only [List.forall_mem_append]
  refine ⟨⟨⟨⟨⟨⟨⟨⟨⟨⟨isPlain_integer (by decide) _, isPlain_flag (by decide) _⟩, isPlain_flag (by decide) _⟩,
    isPlain_flag (by decide) _⟩, isPlain_flag (by decide) _⟩, isPlain_integer (by decide) _⟩,
    isPlain_integer (by decide) _⟩, isPlain_integer (by decide) _⟩, isPlain_integer (by decide) _⟩,
    isPlain_integer (by decide) _⟩, ?_⟩
  intro property hmem
  obtain ⟨number, hnumber, rfl⟩ := by simpa using hmem
  exact ⟨show escapeSettingString "axis_value".toList = "axis_value".toList by decide,
    (Numeral.pointed (h number hnumber)).plain⟩

/-! ## The literal -/

/-- The literal of an event may stand in an array. -/
theorem element_eventLiteral {event : InputEventSpec} (h : ∀ number ∈ event.axisValue, number.Prints) :
    Element (eventLiteral event) := by
  have hclass : Piece event.type.className.toList := by
    apply piece_of_plain
    cases event.type with
    | key => exact List.all_eq_true.mp (by decide)
    | mouseButton => exact List.all_eq_true.mp (by decide)
    | joypadButton => exact List.all_eq_true.mp (by decide)
    | joypadMotion => exact List.all_eq_true.mp (by decide)
  have hproperties : ∀ properties : List Property, (∀ property ∈ properties, IsPlain property) →
      Piece (properties.flatMap propertyText) := by
    intro properties hplain
    induction properties with
    | nil => exact piece_nil
    | cons property properties ih =>
      rw [List.flatMap_cons]
      exact (piece_propertyText (hplain property List.mem_cons_self)).append
        (ih fun property' hmem => hplain property' (List.mem_cons_of_mem property hmem))
  have hinner := hclass.append (hproperties event.properties (isPlain_properties h))
  have hobject : Piece ['O', 'b', 'j', 'e', 'c', 't'] := piece_of_plain (List.all_eq_true.mp (by decide))
  have hliteral : eventLiteral event = ['O', 'b', 'j', 'e', 'c', 't'] ++ '(' ::
      (event.type.className.toList ++ event.properties.flatMap propertyText) ++ [')'] := by
    unfold eventLiteral
    rw [show "Object(".toList = ['O', 'b', 'j', 'e', 'c', 't', '('] from by decide]
    simp only [List.append_assoc, List.cons_append, List.nil_append]
  rw [hliteral]
  generalize event.type.className.toList ++ event.properties.flatMap propertyText = inner at hinner
  refine ⟨⟨'O', _, rfl, by decide, by decide⟩, reads_call (List.all_eq_true.mp (by decide)) ⟨'O', _, rfl, by decide⟩
    hinner.skips, ?_, ?_, ?_⟩
  · rw [List.append_assoc]
    exact hobject.passes.append (passes_bracketed (by decide) (by decide) hinner.passes)
  · simp [hinner.newline]
  · simp [hinner.cr]

/-- **The literal of an action is one that both walks take for one value.** -/
theorem rendered_inputActionLiteral {deadzone : Double} {events : List InputEventSpec} (hdeadzone : deadzone.Prints)
    (h : ∀ event ∈ events, ∀ number ∈ event.axisValue, number.Prints) :
    Rendered (inputActionLiteral deadzone events) := by
  have hobject : inputActionLiteral deadzone events = '\x7b' :: commaSeparated
      [quotedLiteral "deadzone".toList ++ [':', ' '] ++ numberLiteral deadzone,
        quotedLiteral "events".toList ++ [':', ' '] ++ ('[' :: commaSeparated (events.map eventLiteral) ++ [']'])] ++
        ['\x7d'] := by
    have hopening : "\x7b\"deadzone\": ".toList = '\x7b' :: (quotedLiteral "deadzone".toList ++ [':', ' ']) := by
      decide
    have hbetween : ", \"events\": [".toList =
        [',', ' '] ++ (quotedLiteral "events".toList ++ [':', ' ']) ++ ['['] := by
      decide
    have hclosing : "]\x7d".toList = [']', '\x7d'] := by decide
    unfold inputActionLiteral
    rw [hopening, hbetween, hclosing]
    simp only [commaSeparated, List.append_assoc, List.cons_append, List.nil_append]
  rw [hobject]
  apply rendered_object
  intro piece hmem
  rcases List.mem_pair.mp hmem with rfl | rfl
  · exact ⟨_, _, rfl, (Numeral.pointed hdeadzone).rendered⟩
  · refine ⟨_, _, rfl, rendered_array fun piece hpiece => ?_⟩
    obtain ⟨event, hevent, rfl⟩ := List.mem_map.mp hpiece
    exact element_eventLiteral (h event hevent)

end Didi.Input
