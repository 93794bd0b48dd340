import Didi.Config.Settings
import Didi.Json.Value

/-!
# The events of an input action

* `parseInputEventDescriptor` : an event as a call describes it, checked;
* `inputActionLiteral` : what the project file holds for an action, on one line.

A `Double` is a finite double. `dumpReal` is the text that the JSON library prints for one.
-/

namespace Didi.Input
open Config (Text bytesOf toInt64 pointed commaSeparated)

/-! ## Doubles -/

/-- A finite double and its text; a negative zero differs from zero by the text alone. -/
structure Double where
  value : Rat
  text : String

/-- `get<double>()` of a number. -/
def doubleOf (dumpReal : Rat → String) : Json → Option Double
  | .integer i => some ⟨Json.toDouble i, dumpReal (Json.toDouble i)⟩
  | .real value text => some ⟨value, text⟩
  | _ => none

/-- `settingLiteral` has a literal for every double, so the other way to spell one is never taken. -/
def numberLiteral (number : Double) : Text := pointed (bytesOf number.text)

/-! ## Events -/

inductive EventType
  | key
  | mouseButton
  | joypadButton
  | joypadMotion
  deriving DecidableEq

namespace EventType

def ofName (name : String) : Option EventType :=
  if name = "key" then some .key
  else if name = "mouse_button" then some .mouseButton
  else if name = "joypad_button" then some .joypadButton
  else if name = "joypad_motion" then some .joypadMotion
  else none

/-- The class that the engine builds for it. -/
def className : EventType → String
  | .key => "InputEventKey"
  | .mouseButton => "InputEventMouseButton"
  | .joypadButton => "InputEventJoypadButton"
  | .joypadMotion => "InputEventJoypadMotion"

def label : EventType → String
  | .key => "Key event"
  | .mouseButton => "Mouse-button event"
  | .joypadButton => "Joypad-button event"
  | .joypadMotion => "Joypad-motion event"

def allowed : EventType → List String
  | .key => ["type", "keycode", "physical_keycode", "unicode", "shift_pressed", "alt_pressed", "ctrl_pressed",
      "meta_pressed", "shift", "alt", "ctrl", "meta", "device"]
  | .mouseButton => ["type", "button_index", "device"]
  | .joypadButton => ["type", "button_index", "device"]
  | .joypadMotion => ["type", "axis", "axis_value", "device"]

end EventType

/-- An event with no device is bound to all of them. -/
structure InputEventSpec where
  type : EventType
  device : Int := -1
  keycode : Option Int := none
  physicalKeycode : Option Int := none
  unicode : Option Int := none
  shiftPressed : Option Bool := none
  altPressed : Option Bool := none
  ctrlPressed : Option Bool := none
  metaPressed : Option Bool := none
  buttonIndex : Option Int := none
  axis : Option Int := none
  axisValue : Option Double := none

/-! ## The checks of a descriptor -/

section Parse
variable (members : JsonObject)

def unknownPropertyDetail (offender : String) (allowed : List String) : String :=
  "Unknown property '" ++ offender ++ "'. This event type accepts: " ++ ", ".intercalate allowed ++ "."

/-- Every property is one that the type takes. -/
def checkProperties (type : EventType) : Except Error Unit :=
  match members.find? fun member => !type.allowed.contains member.1 with
  | none => .ok ()
  | some member =>
    .error (Error.invalidArgument (type.label ++ ": " ++ unknownPropertyDetail member.1 type.allowed))

def readDevice : Except Error Int :=
  let refused := .error (Error.invalidArgument "Input event device must be an integer >= -1")
  match members.lookup "device" with
  | none => .ok (-1)
  | some (.integer i) => if toInt64 i < -1 then refused else .ok (toInt64 i)
  | some _ => refused

/-- A key code, if it is given. -/
def readCode (key : String) : Except Error (Option Int) :=
  let refused := .error (Error.invalidArgument (key ++ " must be a positive integer"))
  match members.lookup key with
  | none => .ok none
  | some (.integer i) => if toInt64 i ≤ 0 then refused else .ok (some (toInt64 i))
  | some _ => refused

/-- One modifier, under either spelling. -/
def modifierFlag (name : String) : Except Error (Option Bool) :=
  let engine := name ++ "_pressed"
  let differ := match members.lookup engine, members.lookup name with
    | some value, some short => !value.equals short
    | _, _ => false
  if differ then
    .error (Error.invalidArgument ("Input event sets '" ++ engine ++ "' and '" ++ name ++
      "' to different values, and they are the same modifier. Send one, preferably '" ++ engine ++
      "', which is Godot's own name for it."))
  else
    match (members.lookup engine).or (members.lookup name) with
    | none => .ok none
    | some (.boolean b) => .ok (some b)
    | some _ =>
      .error (Error.invalidArgument
        ((if (members.lookup engine).isSome then engine else name) ++ " must be boolean"))

/-- One of the codes has to be given. -/
def checkCodes (codes : List (Option Int)) : Except Error Unit :=
  if codes.all Option.isNone then
    .error (Error.invalidArgument "Key event requires keycode, physical_keycode, or unicode")
  else .ok ()

def keyEvent (device : Int) : Except Error InputEventSpec := do
  let keycode ← readCode members "keycode"
  let physicalKeycode ← readCode members "physical_keycode"
  let unicode ← readCode members "unicode"
  checkCodes [keycode, physicalKeycode, unicode]
  let shiftPressed ← modifierFlag members "shift"
  let altPressed ← modifierFlag members "alt"
  let ctrlPressed ← modifierFlag members "ctrl"
  let metaPressed ← modifierFlag members "meta"
  return { type := .key, device, keycode, physicalKeycode, unicode, shiftPressed, altPressed, ctrlPressed, metaPressed }

/-- An event of a button whose index is from `minimum` to `maximum`. -/
def buttonEvent (type : EventType) (minimum maximum : Int) (device : Int) : Except Error InputEventSpec :=
  match members.lookup "button_index" with
  | some (.integer i) =>
    if toInt64 i < minimum || maximum < toInt64 i then
      .error (Error.invalidArgument "button_index is outside the supported range")
    else .ok { type, device, buttonIndex := some (toInt64 i) }
  | _ => .error (Error.invalidArgument "button_index is required and must be an integer")

def mouseButtonEvent : Int → Except Error InputEventSpec := buttonEvent members .mouseButton 1 9

def joypadButtonEvent : Int → Except Error InputEventSpec := buttonEvent members .joypadButton 0 127

def readAxis : Except Error Int :=
  let refused := .error (Error.invalidArgument "axis is required and must be in 0..9")
  match members.lookup "axis" with
  | some (.integer i) => if toInt64 i < 0 || 9 < toInt64 i then refused else .ok (toInt64 i)
  | _ => refused

variable (dumpReal : Rat → String)

def readAxisValue : Except Error Double :=
  let refused := .error (Error.invalidArgument "axis_value is required and must be finite within -1.0..1.0")
  match (members.lookup "axis_value").bind (doubleOf dumpReal) with
  | some number => if number.value < -1 || 1 < number.value then refused else .ok number
  | none => refused

def joypadMotionEvent (device : Int) : Except Error InputEventSpec := do
  let axis ← readAxis members
  let axisValue ← readAxisValue members dumpReal
  return { type := .joypadMotion, device, axis := some axis, axisValue := some axisValue }

/-- The event of a type that is known. -/
def eventOf (type : EventType) : Except Error InputEventSpec := do
  checkProperties members type
  let device ← readDevice members
  match type with
  | .key => keyEvent members device
  | .mouseButton => mouseButtonEvent members device
  | .joypadButton => joypadButtonEvent members device
  | .joypadMotion => joypadMotionEvent members dumpReal device

def parseInputEventDescriptor (descriptor : Json) : Except Error InputEventSpec :=
  let refused := .error (Error.invalidArgument "Each input event must be an object with a string type")
  match descriptor with
  | .object members =>
    match members.lookup "type" with
    | some (.string name) =>
      match EventType.ofName name with
      | some type => eventOf members dumpReal type
      | none =>
        .error (Error.invalidArgument ("Unsupported input event type: " ++ name ++
          ". This tool accepts: key, mouse_button, joypad_button, joypad_motion."))
    | _ => refused
  | _ => refused

end Parse

/-! ## The literal of an action -/

/-- A property that is written, by its name and the text of its value. -/
abbrev Property := String × Text

def flag (name : String) (value : Option Bool) : List Property :=
  (value.map fun b => (name, if b then "true".toList else "false".toList)).toList

def integer (name : String) (value : Option Int) : List Property :=
  (value.map fun i => (name, (toString i).toList)).toList

namespace InputEventSpec

/-- The properties that are set, in the engine's own order. -/
def properties (event : InputEventSpec) : List Property :=
  integer "device" (some event.device) ++
  flag "alt_pressed" event.altPressed ++
  flag "shift_pressed" event.shiftPressed ++
  flag "ctrl_pressed" event.ctrlPressed ++
  flag "meta_pressed" event.metaPressed ++
  integer "keycode" event.keycode ++
  integer "physical_keycode" event.physicalKeycode ++
  integer "unicode" event.unicode ++
  integer "button_index" event.buttonIndex ++
  integer "axis" event.axis ++
  (event.axisValue.map fun value => ("axis_value", numberLiteral value)).toList

end InputEventSpec

def propertyText (property : Property) : Text :=
  [',', '"'] ++ property.1.toList ++ ['"', ':'] ++ property.2

def eventLiteral (event : InputEventSpec) : Text :=
  "Object(".toList ++ event.type.className.toList ++ event.properties.flatMap propertyText ++ [')']

def inputActionLiteral (deadzone : Double) (events : List InputEventSpec) : Text :=
  "\x7b\"deadzone\": ".toList ++ numberLiteral deadzone ++ ", \"events\": [".toList ++
    commaSeparated (events.map eventLiteral) ++ "]\x7d".toList

end Didi.Input
