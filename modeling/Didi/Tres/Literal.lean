import Didi.Config.Settings

/-!
# The literal of a value in a text resource

* `ComponentType` : the vectors and the colour, by their members;
* `asksForANamedType`, `namedScalarType` : the objects that name a type;
* `declaredTypeAccepts` : what a property of a declared type holds;
* `tresComponentLiteral`, `packedComponents` : vectors and colours, alone and in a packed array;
* `tresNamedTypeLiteral` : an object that names its type;
* `tresLiteral` : a value, and what the header of the file has to declare for it.

`dumpReal` is the text that the JSON library prints for a double, `apiVersion` the version that the class reference
describes and `findExact` what the index holds at a path.
-/

namespace Didi.Tres
open Config (Text bytesOf commaSeparated)
open Json (isNumber isString isBoolean isArray)

structure ComponentType where
  name : String
  members : List String
  integral : Bool
  deriving DecidableEq

def kXY : List String := ["x", "y"]

def kXYZ : List String := ["x", "y", "z"]

def kXYZW : List String := ["x", "y", "z", "w"]

def kRGBA : List String := ["r", "g", "b", "a"]

def kComponentTypes : List ComponentType :=
  [⟨"Vector2", kXY, false⟩, ⟨"Vector2i", kXY, true⟩, ⟨"Vector3", kXYZ, false⟩, ⟨"Vector3i", kXYZ, true⟩,
    ⟨"Vector4", kXYZW, false⟩, ⟨"Vector4i", kXYZW, true⟩, ⟨"Quaternion", kXYZW, false⟩, ⟨"Color", kRGBA, false⟩]

def kPackedArrayTypes : List String :=
  ["PackedByteArray", "PackedInt32Array", "PackedInt64Array", "PackedFloat32Array", "PackedFloat64Array",
    "PackedStringArray", "PackedVector2Array", "PackedVector3Array", "PackedVector4Array", "PackedColorArray"]

/-- The types whose payload is a single string. -/
def kStringTypes : List String := ["NodePath", "StringName"]

def findComponentType (name : String) : Option ComponentType := kComponentTypes.find? fun entry => entry.name = name

/-- The element type of a packed array whose element is itself composite. -/
def packedElementType (name : String) : Option ComponentType :=
  if name = "PackedVector2Array" then findComponentType "Vector2"
  else if name = "PackedVector3Array" then findComponentType "Vector3"
  else if name = "PackedVector4Array" then findComponentType "Vector4"
  else if name = "PackedColorArray" then findComponentType "Color"
  else none

/-- The text of a property. -/
def stringField (members : JsonObject) (key : String) : Option String :=
  match members.lookup key with
  | some (.string s) => some s
  | _ => none

def startsWithCapital (name : String) : Bool :=
  match name.toList with
  | [] => false
  | c :: _ => 'A' ≤ c && c ≤ 'Z'

/-- The type that an object asks for, if it names one. -/
def namedType (members : JsonObject) : Option String := (stringField members "type").filter startsWithCapital

def asksForANamedType : Json → Bool
  | .object members => (namedType members).isSome
  | _ => false

/-- Which of the two kinds of number an object spells; the exact two members count. -/
inductive ScalarType
  | float
  | int
  deriving DecidableEq

def ScalarType.name : ScalarType → String
  | .float => "float"
  | .int => "int"

def namedScalarType (members : JsonObject) : Option ScalarType :=
  if members.length ≠ 2 || (members.lookup "value").isNone then none
  else
    match stringField members "type" with
    | some "float" => some .float
    | some "int" => some .int
    | _ => none

def isWholeNumber : Json → Bool
  | .integer _ => true
  | .real value _ => value.den = 1
  | _ => false

def hasNumericKeys (members : JsonObject) (keys : List String) : Bool :=
  keys.all fun key => (members.lookup key).any isNumber

def jsonKindOf : Json → String
  | .string _ => "a string"
  | .boolean _ => "a boolean"
  | .integer _ => "a number"
  | .real _ _ => "a number"
  | .array _ => "an array"
  | .object _ => "an object"
  | .null => "that"

/-! ## Declared types -/

def kTyped : String := "typedarray::"

def isTypedArray (declaredType : String) : Bool := kTyped.toList.isPrefixOf declaredType.toList

def isArrayType (declaredType : String) : Bool :=
  declaredType = "Array" || isTypedArray declaredType || kPackedArrayTypes.contains declaredType

def isStringType (declaredType : String) : Bool := declaredType = "String" || kStringTypes.contains declaredType

/-- The members of a type as a list in words. -/
def listed : List String → String
  | [] => ""
  | [member] => "\"" ++ member ++ "\""
  | [member, last] => "\"" ++ member ++ "\" and \"" ++ last ++ "\""
  | member :: members => "\"" ++ member ++ "\", " ++ listed members

def wantedFor (declaredType : String) : String :=
  if declaredType = "int" then "a whole number"
  else if declaredType = "float" then "a number"
  else if declaredType = "bool" then "true or false"
  else if isStringType declaredType then "a string"
  else if declaredType = "Color" then
    "an object with \"r\", \"g\" and \"b\", or a colour string such as \"#ff8800\""
  else
    match findComponentType declaredType with
    | some component => "an object with " ++ listed component.members
    | none => if isArrayType declaredType then "an array" else ""

/-- Whether a value of this kind survives being written into a slot of a declared type. -/
def declaredTypeAccepts (declaredType : String) (value : Json) : Bool :=
  if declaredType = "int" then isWholeNumber value
  else if declaredType = "float" then isNumber value
  else if declaredType = "bool" then isBoolean value
  else if isStringType declaredType then isString value || asksForANamedType value
  else if declaredType = "Color" then isString value || value.isObject
  else if (findComponentType declaredType).isSome then value.isObject
  else if isArrayType declaredType then isArray value || asksForANamedType value
  else true

/-- The packed array type that a declared array holds, if it holds one. -/
def packedElementTypeOf (declaredType : Option String) : Option String :=
  match declaredType with
  | some declaredType =>
    if isTypedArray declaredType then
      (some (String.ofList (declaredType.toList.drop kTyped.toList.length))).filter fun element =>
        kPackedArrayTypes.contains element
    else none
  | none => none

/-! ## The literal of a value in a text resource -/

def escapeTresString (text : Text) : Text := Config.escapeSettingString text

/-- What refers to another file, in the header. -/
structure ExternalReference where
  path : String
  type : String
  uid : String
  id : String

def isIdCharacter (c : Char) : Bool := c.isAlphanum || c = '_' || c = '-'

def isUsableSubResourceId (id : String) : Bool :=
  !id.isEmpty && id.utf8ByteSize ≤ 128 && id.toList.all isIdCharacter

/-- What the values so far refer to. The caller checks an id before it can be named, and the other ids are made here. -/
structure ReferenceScope where
  externals : List ExternalReference := []
  visibleSubIds : List String := []
  made : ∀ reference ∈ externals, reference.id.toList.all isIdCharacter = true
  usable : ∀ id ∈ visibleSubIds, isUsableSubResourceId id = true

def externalIdOf (number : Nat) : String := toString number ++ "_didi"

theorem isIdCharacter_externalIdOf (number : Nat) : (externalIdOf number).toList.all isIdCharacter = true := by
  rw [externalIdOf, String.toList_append, List.all_append, Nat.toString_eq_ofList_toDigits, String.toList_ofList,
    Bool.and_eq_true_iff, List.all_eq_true]
  refine ⟨fun c hc => ?_, by decide⟩
  have hdigit : c.isDigit = true := Nat.isDigit_of_mem_toDigits (by decide) (by decide) hc
  simp [isIdCharacter, Char.isAlphanum, hdigit]

/-- A reference joins the header under a new id. -/
def ReferenceScope.add (scope : ReferenceScope) (reference : ExternalReference) : ReferenceScope where
  externals := scope.externals ++ [{ reference with id := externalIdOf (scope.externals.length + 1) }]
  visibleSubIds := scope.visibleSubIds
  made := by
    intro existing hmem
    rcases List.mem_append.mp hmem with hmem | hmem
    · exact scope.made existing hmem
    · obtain rfl := List.mem_singleton.mp hmem
      exact isIdCharacter_externalIdOf _
  usable := scope.usable

/-- What the index holds of a resource. -/
structure IndexedResource where
  declaredType : String
  type : String
  uid : String

/-- What a value is written within. -/
structure Writer where
  dumpReal : Rat → String
  apiVersion : String
  findExact : String → Option IndexedResource
  property : String

/-- A step of the writer; there may be no scope. -/
abbrev Write := StateT (Option ReferenceScope) (Except Error)

section Write
variable (w : Writer)

def refuse {α : Type} (message : String) : Write α := throw (Error.invalidArgument message)

/-- The refusal of a property whose type is named. -/
def refuseType {α : Type} (type rest : String) : Write α :=
  refuse ("Property \"" ++ w.property ++ "\" declares type " ++ type ++ rest)

/-- The refusal of a property whose type the class reference declares. -/
def refuseDeclared {α : Type} (type rest : String) : Write α :=
  refuse ("Property \"" ++ w.property ++ "\" is declared " ++ type ++ " by " ++ w.apiVersion ++ rest)

/-! ## Scalars -/

/-- The text that is dumped for a number. -/
def numberText : Json → Text
  | .integer i => (toString i).toList
  | .real _ text => bytesOf text
  | _ => []

def quotedTres (s : String) : Text := '"' :: escapeTresString (bytesOf s) ++ ['"']

def scalarText : Json → Text
  | .string s => quotedTres s
  | .boolean b => if b then "true".toList else "false".toList
  | .null => "null".toList
  | value => numberText value

/-- The text of a number whose type is named, if it is one of that type. -/
def namedScalarText (type : ScalarType) (number : Json) : Option Text :=
  match type, number with
  | .float, .integer i => some (bytesOf (w.dumpReal (Json.toDouble i)))
  | .float, number => some (numberText number)
  | .int, .real value _ =>
    if value.den ≠ 1 || 9200000000000000000 ≤ |value| then none else some (toString value.num).toList
  | .int, number => some (numberText number)

def namedScalarLiteral (type : ScalarType) (number : Json) : Write Text :=
  match namedScalarText w type number with
  | some text => return text
  | none => refuseType w "int" (", and " ++ String.ofList (numberText number) ++ " is not a whole number.")

/-- A slot of a declared type refuses what the engine would drop from it. -/
def checkDeclared (declaredType : Option String) (value : Json) : Write Unit :=
  match declaredType with
  | none => return
  | some declaredType =>
    match value with
    | .null => return
    | value =>
      if declaredTypeAccepts declaredType value then return
      else if declaredType = "int" && isNumber value then
        refuseDeclared w "int" ", and Godot truncates a fraction written into it on load. Send a whole number."
      else
        refuseDeclared w declaredType (", and " ++ jsonKindOf value ++
          " written into it is dropped when Godot loads the file. Send " ++ wantedFor declaredType ++ ".")

/-! ## Vectors and colours -/

/-- The text of one component. -/
def componentText (type : ComponentType) (members : JsonObject) (member : String) : Write Text :=
  match (members.lookup member).filter isNumber with
  | none => refuseType w type.name (", which needs a number under \"" ++ member ++ "\"")
  | some number =>
    match type.integral, number with
    | true, .real _ _ => refuseType w type.name (", whose \"" ++ member ++ "\" must be a whole number")
    | _, number => return numberText number

/-- The components of one composite value. -/
def tresComponentComponents (type : ComponentType) (members : JsonObject) : Write (List Text) :=
  type.members.mapM (componentText w type members)

/-- An alpha that is left out defaults. -/
def withAlpha (type : ComponentType) (members : JsonObject) : JsonObject :=
  if type.name = "Color" && (members.lookup "a").isNone then members ++ [("a", .real 1 "1.0")] else members

def constructorLiteral (name : String) (arguments : List Text) : Text :=
  bytesOf name ++ '(' :: commaSeparated arguments ++ [')']

def tresComponentLiteral (type : ComponentType) (members : JsonObject) : Write Text := do
  let components ← tresComponentComponents w type (withAlpha type members)
  return constructorLiteral type.name components

/-- The components of one element of a packed array. -/
def packedElement (name : String) (type : ComponentType) : Json → Write (List Text)
  | .object members =>
    match (namedType members).filter (· ≠ type.name) with
    | some named => refuseType w name (", whose elements are " ++ type.name ++ ", and one of them is a " ++ named)
    | none => tresComponentComponents w type (withAlpha type members)
  | number => return [numberText number]

/-- The composite packed arrays are one flat run of components. -/
def packedComponents (name : String) (type : ComponentType) (items : List Json) : Write Text := do
  if items.any fun element => !isNumber element && !element.isObject then
    refuseType w name (", whose elements are each a " ++ type.name ++ " object or a run of plain numbers")
  else if items.any isNumber && items.any Json.isObject then
    refuseType w name (", and its \"values\" mixes " ++ type.name ++
      " objects with plain numbers. Send one or the other.")
  else if items.any isNumber && items.length % type.members.length ≠ 0 then
    refuseType w name (" and was given " ++ toString items.length ++ " numbers, which is not a whole number of " ++
      type.name ++ "s. Godot drops the trailing part-element on load.")
  else
    let components ← items.mapM (packedElement w name type)
    return constructorLiteral name components.flatten

/-- A packed array of these elements, `pieces` their literals. -/
def packedLiteral (name : String) (items : List Json) (pieces : Write (List Text)) : Write Text :=
  match packedElementType name with
  | some type => packedComponents w name type items
  | none => return constructorLiteral name (← pieces)

/-! ## References -/

def referencePath (members : JsonObject) : Write String :=
  match (stringField members "path").filter fun path => !path.isEmpty with
  | none => refuseType w "ExtResource" ", which needs the resource it points at under \"path\""
  | some path =>
    if "res://".toList.isPrefixOf path.toList then return path
    else refuseType w "ExtResource" (" with path \"" ++ path ++ "\", which must be a res:// path inside this project")

/-- What the caller says wins over what the index says. -/
def referenceType (members : JsonObject) (found : IndexedResource) : Write String :=
  match members.lookup "resource_type" with
  | none => return if found.declaredType.isEmpty then found.type else found.declaredType
  | some _ =>
    match (stringField members "resource_type").filter fun type => !type.isEmpty with
    | some type => return type
    | none =>
      refuse ("Property \"" ++ w.property ++
        "\" declares an ExtResource whose resource_type must be a non-empty string")

/-- Whether the project holds this path, and what Godot calls it. -/
def resolveExternalReference (members : JsonObject) : Write ExternalReference := do
  let path ← referencePath w members
  match w.findExact path with
  | none =>
    throw (Error.notFound ("Property \"" ++ w.property ++ "\" declares type ExtResource pointing at " ++ path ++
      ", which is not in this project. A .tres naming a file that is not there loads with nothing in that slot."))
  | some found =>
    let type ← referenceType w members found
    if type.isEmpty then
      refuse ("Property \"" ++ w.property ++ "\" declares an ExtResource pointing at " ++ path ++
        ", whose resource type could not be determined. Pass resource_type to name it.")
    else return { path, type, uid := found.uid, id := "" }

/-- One header entry for a path, however many properties name it. -/
def externalId (reference : ExternalReference) : Write String := do
  match ← get with
  | none => refuseType w "ExtResource" ", which is only meaningful inside a resource this writer is assembling."
  | some scope =>
    match scope.externals.find? fun existing => existing.path = reference.path with
    | some existing => return existing.id
    | none =>
      set (some (scope.add reference))
      return externalIdOf (scope.externals.length + 1)

def subResourceId (members : JsonObject) : Write String := do
  let scope ← get
  match (stringField members "id").filter fun id => !id.isEmpty with
  | none => refuseType w "SubResource" ", which needs the id of a sub_resources entry under \"id\""
  | some id =>
    if ((scope.map ReferenceScope.visibleSubIds).getD []).contains id then return id
    else
      refuse ("Property \"" ++ w.property ++ "\" names sub-resource \"" ++ id ++
        "\", which is not declared above it. Add it to sub_resources, and put it before anything that references " ++
        "it: Godot resolves SubResource against what it has already read, so a later one reads as null.")

def referenceId (name : String) (members : JsonObject) : Write String := do
  if name = "ExtResource" then externalId w (← resolveExternalReference w members) else subResourceId w members

def referenceLiteral (name : String) (members : JsonObject) : Write Text := do
  match ← get with
  | none => refuseType w name ", which is only meaningful inside a resource this writer is assembling."
  | some _ =>
    let id ← referenceId w name members
    return bytesOf name ++ "(\"".toList ++ bytesOf id ++ "\")".toList

/-! ## Named types -/

/-- The literal of a type whose payload is a single string. -/
def stringTypeLiteral (name : String) (members : JsonObject) : Write Text :=
  match stringField members "value" with
  | none => refuseType w name ", which needs its text under \"value\""
  | some text =>
    return if name = "StringName" then '&' :: quotedTres text else bytesOf name ++ '(' :: quotedTres text ++ [')']

/-- An object that names its type; `values` is the array under `values`, and the literals of its elements. -/
def tresNamedTypeLiteral (name : String) (members : JsonObject) (values : Option (List Json × Write (List Text))) :
    Write Text :=
  match findComponentType name with
  | some type => tresComponentLiteral w type members
  | none =>
    if kStringTypes.contains name then stringTypeLiteral w name members
    else if kPackedArrayTypes.contains name then
      match values with
      | some (items, pieces) => packedLiteral w name items pieces
      | none => refuseType w name ", which needs its elements under \"values\""
    else if name = "ExtResource" || name = "SubResource" then referenceLiteral w name members
    else
      refuseType w name (", which resource_create cannot write. It writes the vector and colour types, NodePath, " ++
        "StringName, the packed arrays, and the ExtResource and SubResource references.")

/-! ## Shapes -/

/-- The numbers of these members, in their order. -/
def numbersOf (members : JsonObject) (keys : List String) : List Text :=
  keys.map fun key => ((members.lookup key).map numberText).getD []

/-- No named type and nothing declared, so the shape decides. -/
def shapedLiteral (members : JsonObject) : Option Text :=
  if members.length = 4 && hasNumericKeys members kRGBA then
    some (constructorLiteral "Color" (numbersOf members kRGBA))
  else if members.length = 3 && hasNumericKeys members ["r", "g", "b"] then
    some (constructorLiteral "Color" (numbersOf members ["r", "g", "b"] ++ [['1']]))
  else if hasNumericKeys members kXYZW then some (constructorLiteral "Vector4" (numbersOf members kXYZW))
  else if hasNumericKeys members kXYZ then some (constructorLiteral "Vector3" (numbersOf members kXYZ))
  else if hasNumericKeys members kXY then some (constructorLiteral "Vector2" (numbersOf members kXY))
  else none

/-- The type that an object names is the one that its slot declares. -/
def checkNamed (declared : Option ComponentType) (named : String) : Write Unit :=
  match declared.filter fun type => type.name ≠ named with
  | none => return
  | some type =>
    refuseDeclared w type.name (", and a " ++ named ++
      " written into it is dropped when Godot loads the file. Send it as " ++ type.name ++
      ", or leave the type out and it will be written as one.")

/-- A number whose type is named; its slot still rules on the number. -/
def numberLiteral (declaredType : Option String) (type : ScalarType) (members : JsonObject) : Write Text := do
  match (members.lookup "value").filter isNumber with
  | none => refuseType w type.name ", which needs its number under \"value\""
  | some number =>
    checkDeclared w declaredType number
    namedScalarLiteral w type number

def entryText (key : String) (literal : Text) : Text := quotedTres key ++ [':', ' '] ++ literal

/-- The refusal of an element that is not the packed array that its slot declares. -/
def refuseElement {α : Type} (element : String) : Write α :=
  refuse ("Property \"" ++ w.property ++ "\" is declared Array[" ++ element ++ "] by " ++ w.apiVersion ++
    ", so each element is a " ++ element ++ ". Send each as an array of its values, or as \x7b\"type\": \"" ++
    element ++ "\", \"values\": [...]\x7d.")

/-! ## Values -/

mutual

/-- The declared type decides before the shape of the value does, at the top level of a property only. -/
def tresLiteral (declaredType : Option String) : Json → Write Text
  | .array items => do
    checkDeclared w declaredType (.array items)
    let pieces ← elementLiterals (packedElementTypeOf declaredType) items
    return '[' :: commaSeparated pieces ++ [']']
  | .object members =>
    match namedScalarType members with
    | some type => numberLiteral w declaredType type members
    | none => do
      checkDeclared w declaredType (.object members)
      match namedType members with
      | some named =>
        checkNamed w (declaredType.bind findComponentType) named
        tresNamedTypeLiteral w named members (valuesLiterals members)
      | none =>
        match (declaredType.bind findComponentType).filter fun _ => !members.isEmpty with
        | some type => tresComponentLiteral w type members
        | none =>
          match shapedLiteral members with
          | some literal => return literal
          | none => return '\x7b' :: commaSeparated (← entryLiterals members) ++ ['\x7d']
  | value => do
    checkDeclared w declaredType value
    return scalarText value

/-- The elements of an array, each a packed array of that type where there is one. -/
def elementLiterals (elementType : Option String) : List Json → Write (List Text)
  | [] => return []
  | .array items :: elements => do
    let literal ← match elementType with
      | none => tresLiteral none (.array items)
      | some element => packedLiteral w element items (elementLiterals none items)
    return literal :: (← elementLiterals elementType elements)
  | .object members :: elements => do
    let literal ← match elementType with
      | none => tresLiteral none (.object members)
      | some element =>
        if namedType members = some element then tresLiteral none (.object members) else refuseElement w element
    return literal :: (← elementLiterals elementType elements)
  | value :: elements => do
    let literal ← match elementType with
      | none => tresLiteral none value
      | some element => refuseElement w element
    return literal :: (← elementLiterals elementType elements)

/-- The array under `values`, and the literals of its elements. -/
def valuesLiterals : List (String × Json) → Option (List Json × Write (List Text))
  | [] => none
  | (key, .array items) :: members =>
    if key = "values" then some (items, elementLiterals none items) else valuesLiterals members
  | (key, _) :: members => if key = "values" then none else valuesLiterals members

def entryLiterals : List (String × Json) → Write (List Text)
  | [] => return []
  | (key, value) :: members => do
    let literal ← tresLiteral none value
    return entryText key literal :: (← entryLiterals members)

end

end Write

end Didi.Tres
