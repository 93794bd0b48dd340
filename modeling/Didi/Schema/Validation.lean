import Didi.Json.Pointer
import Didi.Json.Doubles

/-!
# The check of arguments against a published schema

* `checkType`, `checkBounds` : the keywords that look at one value;
* `checkOneOf`, `checkEntries`, `checkObject` : those that look into it, with the check of the parts as a
  parameter;
* `checkValue n` : the check of a value with `n` levels left below it; at the last level nothing is looked
  into and no reference is followed;
* `validateAgainstSchema` : the check of a call's arguments.

A check answers what is wrong, if anything is. `search` runs a regular expression on a text; it answers
nothing where the expression does not compile.
-/

namespace Didi.Schema
open Json (find)

def kMaxDepth : Nat := 8

/-! ## Wording -/

def typeNameOf : Json → String
  | .null => "null"
  | .boolean _ => "a boolean"
  | .integer _ => "an integer"
  | .real _ _ => "a number"
  | .string _ => "a string"
  | .array _ => "an array"
  | .object _ => "an object"

def articled (type : String) : String :=
  if type = "integer" || type = "array" || type = "object" then "an " ++ type
  else if type = "null" then "null"
  else "a " ++ type

def joinNames (names : List String) : String := ", ".intercalate names

def quoted (name : String) : String := "'" ++ name ++ "'"

def counted (bound : Json) (singular plural : String) : String :=
  bound.dump ++ " " ++ if Json.equals bound (.integer 1) then singular else plural

/-! ## One value -/

def matchesType (type : String) (value : Json) : Bool :=
  if type = "string" then value matches .string _
  else if type = "integer" then value matches .integer _
  else if type = "number" then value matches .integer _ | .real _ _
  else if type = "boolean" then value matches .boolean _
  else if type = "array" then value matches .array _
  else if type = "object" then value matches .object _
  else if type = "null" then value matches .null
  else true

/-- The strings of a list. -/
def strings (values : List Json) : List String :=
  values.filterMap fun
    | .string s => some s
    | _ => none

def checkType (schema value : Json) (subject : String) : Option String :=
  match find schema "type" with
  | some (.string wanted) =>
    if matchesType wanted value then none
    else some (subject ++ " must be " ++ articled wanted ++ ", not " ++ typeNameOf value ++ ".")
  | some (.array types) =>
    let wanted := strings types
    if wanted.any fun type => matchesType type value then none
    else if wanted.isEmpty then none
    else some (subject ++ " must be one of these types: " ++ joinNames wanted ++ ". It is " ++
      typeNameOf value ++ ".")
  | _ => none

/-- A keyword as it stands, and as it is read. -/
structure Bound (α : Type) where
  json : Json
  value : α

/-- A keyword that is read as a `size_t`. -/
def sizeKeyword (schema : Json) (key : String) : Option (Bound Nat) :=
  match find schema key with
  | some (.integer i) => some ⟨.integer i, (i % 2 ^ 64).toNat⟩
  | _ => none

/-- A keyword that is read as a double. -/
def doubleKeyword (schema : Json) (key : String) : Option (Bound Rat) := do
  let json ← find schema key
  let value ← json.double
  return ⟨json, value⟩

/-- The message about a keyword whose bound is broken. -/
def broken {α : Type} (bound : Option (Bound α)) (breaks : α → Bool) (message : Json → String) :
    Option String :=
  bound.bind fun b => if breaks b.value then some (message b.json) else none

section Checks
variable (search : String → String → Option Bool)

def checkLength (schema : Json) (text subject : String) : Option String :=
  let short := broken (sizeKeyword schema "minLength") (text.length < ·) fun bound =>
    if Json.equals bound (.integer 1) then subject ++ " must not be empty."
    else subject ++ " must be at least " ++ counted bound "character" "characters" ++ " long."
  let long := broken (sizeKeyword schema "maxLength") (· < text.length) fun bound =>
    subject ++ " must be at most " ++ counted bound "character" "characters" ++ " long."
  let unmatched := match find schema "pattern" with
    | some (.string pattern) =>
      if search pattern text = some false then some (subject ++ " must match the pattern " ++ pattern ++ ".")
      else none
    | _ => none
  (short.or long).or unmatched

def checkRange (schema value : Json) (subject : String) : Option String :=
  match value.double with
  | none => none
  | some number =>
    (broken (doubleKeyword schema "minimum") (number < ·) fun bound =>
      subject ++ " must be at least " ++ bound.dump ++ ".").or
    (broken (doubleKeyword schema "maximum") (· < number) fun bound =>
      subject ++ " must be at most " ++ bound.dump ++ ".")

/-- The first entry that equals an earlier one. -/
def firstRepeated (seen : List Json) : List Json → Option Json
  | [] => none
  | v :: vs => if seen.any fun w => Json.equals v w then some v else firstRepeated (seen ++ [v]) vs

def checkUnique (schema : Json) (entries : List Json) (subject : String) : Option String :=
  match find schema "uniqueItems" with
  | some (.boolean true) =>
    (firstRepeated [] entries).map fun v =>
      subject ++ " must not repeat an entry, and " ++ v.dump ++ " appears more than once."
  | _ => none

def checkCounts (schema : Json) (entries : List Json) (subject : String) : Option String :=
  let few := broken (sizeKeyword schema "minItems") (entries.length < ·) fun bound =>
    subject ++ " must have at least " ++ counted bound "entry" "entries" ++ "."
  let many := broken (sizeKeyword schema "maxItems") (· < entries.length) fun bound =>
    subject ++ " must have at most " ++ counted bound "entry" "entries" ++ "."
  (few.or many).or (checkUnique schema entries subject)

def checkBounds (schema value : Json) (subject : String) : Option String :=
  match value with
  | .string text => checkLength search schema text subject
  | .array entries => checkCounts schema entries subject
  | value => checkRange schema value subject

end Checks

/-! ## Parts -/

/-- The check of a part: what its schema is, its value, and how a problem names it. -/
abbrev Check := Json → Json → String → Option String

/-- The definition of a document under a name. -/
def definition (root : Json) (name : String) : Option Json := do
  find (← find root "$defs") name

def kPrefix : String := "#/$defs/"

/-- A local reference, resolved against the document that carries it. -/
def resolveLocalRef (schema root : Json) : Option Json :=
  match find schema "$ref" with
  | some (.string pointer) =>
    match pointer.toList.dropPrefix? kPrefix.toList with
    | none => none
    | some name =>
      if name.isEmpty || name.contains '/' then none
      else (definition root (String.ofList name)).filter Json.isObject
  | _ => none

/-- Whether a branch's declared type can hold this value at all. -/
def branchTypeAccepts (branch value root : Json) : Bool :=
  let schema := if (find branch "type").isNone then (resolveLocalRef branch root).getD branch else branch
  match find schema "type" with
  | some (.string name) => matchesType name value
  | some (.array names) => (strings names).any fun name => matchesType name value
  | _ => true

/-- The property that a branch pins to a text, and the text. -/
def branchTag (branch : Json) : Option (String × String) :=
  match find branch "properties" with
  | some (.object properties) => properties.findSome? fun (key, schema) =>
    match find schema "const" with
    | some (.string text) => some (key, text)
    | _ => none
  | _ => none

/-- The text that a branch pins the property `tag` to. -/
def textUnder (tag : String) (branch : Json) : Option String :=
  match branchTag branch with
  | some (key, text) => if key = tag then some text else none
  | none => none

/-- The one property that every branch pins to a text, with the text of each branch. -/
def taggedUnion (branches : List Json) : Option (String × List String) := do
  let first ← branches.head?
  let (tag, _) ← branchTag first
  if tag = "" then none
  else
    let texts ← branches.mapM (textUnder tag)
    return (tag, texts)

/-- What the branch demands is behind its reference when it has one. -/
def demanded (branch root : Json) : Json :=
  if (find branch "required").isNone then (resolveLocalRef branch root).getD branch else branch

def requiredNames (schema : Json) : List String :=
  match find schema "required" with
  | some (.array names) => strings names
  | _ => []

def hasMember (value : Json) (name : String) : Bool := (find value name).isSome

/-- Whether the caller meant this branch: all that it requires is there. -/
def isCandidate (value root branch : Json) : Bool :=
  (requiredNames (demanded branch root)).all (hasMember value) && branchTypeAccepts branch value root

def demandOf (root branch : Json) : String :=
  let schema := demanded branch root
  let names := requiredNames schema
  if names.isEmpty then
    match find schema "type", find schema "minItems" with
    | some (.string "array"), some (.integer least) => "an array of " ++ toString least ++ " entries"
    | _, _ => "no required properties"
  else joinNames names

def checkBranches (check : Check) (root value : Json) (subject : String) (branches : List Json) :
    Option String :=
  let shapes := branches.filter Json.isObject
  if shapes.any fun branch => (check branch value subject).isNone then none
  else
    match shapes.filter (isCandidate value root) with
    | [branch] => check branch value subject
    | _ => some (subject ++ " does not match any accepted shape. One of these is needed: " ++
      "; or ".intercalate (shapes.map (demandOf root)) ++ ".")

def checkTagged (check : Check) (value : Json) (subject : String) (branches : List Json) (tag : String)
    (texts : List String) (wanted : String) : Option String :=
  match (texts.zip branches).lookup wanted with
  | some branch => check branch value subject
  | none => some (subject ++ " has " ++ tag ++ " \"" ++ wanted ++ "\", which is not one of: " ++
    joinNames texts ++ ".")

def checkOneOf (deeper : Option Check) (root schema value : Json) (subject : String) : Option String :=
  match find schema "oneOf", deeper with
  | some (.array branches), some check =>
    if branches.isEmpty then none
    else
      match value, taggedUnion branches with
      | .object members, some (tag, texts) =>
        match members.lookup tag with
        | some (.string wanted) => checkTagged check value subject branches tag texts wanted
        | _ => checkBranches check root value subject branches
      | _, _ => checkBranches check root value subject branches
  | _, _ => none

def oneOfNamesObjectShapes (schema root : Json) : Bool :=
  match find schema "oneOf" with
  | some (.array branches) => !branches.isEmpty && branches.all fun branch =>
    let shape := if (find branch "type").isNone then (resolveLocalRef branch root).getD branch else branch
    branch.isObject && (match find shape "type", find shape "required" with
      | some (.string "object"), some (.array required) => !required.isEmpty
      | _, _ => false)
  | _ => false

def topLevelArgumentsAreClosed (schema : Json) : Bool :=
  schema.isObject &&
    match find schema "additionalProperties" with
    | none => true
    | some (.boolean additional) => !additional
    | some _ => false

def propertiesOf (schema : Json) : JsonObject :=
  match find schema "properties" with
  | some (.object properties) => properties
  | _ => []

/-- The answer to missing and unknown arguments, both at once. -/
def argumentsProblem (missing unknown accepted : List String) : String :=
  let missed := match missing with
    | [] => ""
    | [name] => "Missing required argument " ++ name ++ "."
    | names => "Missing required arguments " ++ joinNames names ++ "."
  let strange := match unknown with
    | [] => ""
    | [name] => "Unknown argument " ++ name ++ "."
    | names => "Unknown arguments " ++ joinNames names ++ "."
  let list := if accepted.isEmpty then "It takes no arguments."
    else "This tool accepts: " ++ joinNames (accepted.mergeSort fun a b => a ≤ b) ++ "."
  missed ++ (if missed ≠ "" && strange ≠ "" then " " else "") ++ strange ++ " " ++ list

def missingNames (schema : Json) (members : JsonObject) : List String :=
  (requiredNames schema).filter fun name => (members.lookup name).isNone

def saysClosed (schema : Json) : Bool :=
  match find schema "additionalProperties" with
  | some (.boolean additional) => !additional
  | _ => false

/-- Whether a member that the schema does not declare is refused. -/
def isClosed (schema : Json) (subject : String) : Bool :=
  saysClosed schema || (subject = "" && topLevelArgumentsAreClosed schema)

def unknownNames (schema : Json) (members : JsonObject) (subject : String) : List String :=
  if isClosed schema subject then
    (members.map Prod.fst).filter fun name => ((propertiesOf schema).lookup name).isNone
  else []

def namesProblem (schema : Json) (missing unknown : List String) (subject : String) : String :=
  if subject ≠ "" then
    match missing with
    | name :: _ => subject ++ " is missing required property " ++ quoted name ++ "."
    | [] => subject ++ " has an unknown property " ++ quoted (unknown.headD "") ++ "."
  else argumentsProblem (missing.map quoted) (unknown.map quoted) ((propertiesOf schema).map Prod.fst)

def checkNames (schema : Json) (members : JsonObject) (subject : String) : Option String :=
  let missing := missingNames schema members
  let unknown := unknownNames schema members subject
  if missing.isEmpty && unknown.isEmpty then none else some (namesProblem schema missing unknown subject)

def checkProperties (check : Check) (schema : Json) (members : JsonObject) (subject : String) :
    Option String :=
  members.findSome? fun (key, value) =>
    match (propertiesOf schema).lookup key with
    | some (.object declared) =>
      check (.object declared) value
        (if subject ≠ "" then subject ++ "." ++ key else "Argument " ++ quoted key)
    | _ => none

def checkObject (deeper : Option Check) (schema : Json) (members : JsonObject) (subject : String) :
    Option String :=
  (checkNames schema members subject).or <|
    match deeper with
    | none => none
    | some check => checkProperties check schema members subject

/-- The entries from the number `index` on, against the schemas of their positions. -/
def checkPrefix (check : Check) (subject : String) : Nat → List Json → List Json → Option String
  | index, schema :: schemas, value :: values =>
    (if schema.isObject then check schema value (subject ++ " entry " ++ toString index) else none).or
      (checkPrefix check subject (index + 1) schemas values)
  | _, _, _ => none

def checkItems (check : Check) (items : Json) (subject : String) : Nat → List Json → Option String
  | index, value :: values =>
    (check items value (subject ++ " entry " ++ toString index)).or
      (checkItems check items subject (index + 1) values)
  | _, [] => none

def checkEntries (check : Check) (schema : Json) (entries : List Json) (subject : String) : Option String :=
  let positions := match find schema "prefixItems" with
    | some (.array schemas) => checkPrefix check subject 0 schemas entries
    | _ => none
  let all := match find schema "items" with
    | some (.object items) => checkItems check (.object items) subject 0 entries
    | _ => none
  positions.or all

def pinReason (schema : Json) : String :=
  match find schema "description" with
  | some (.string description) => " " ++ description
  | _ => ""

def checkConst (schema value : Json) (subject : String) : Option String :=
  (find schema "const").bind fun fixed =>
    if Json.equals fixed value then none
    else some (subject ++ " must be " ++ fixed.dump ++ "." ++ pinReason schema)

def checkEnum (schema value : Json) (subject : String) : Option String :=
  match find schema "enum" with
  | some (.array options) =>
    if options.isEmpty || options.any fun option => Json.equals option value then none
    else some (subject ++ " must be one of: " ++ (Json.array options).dump ++ "." ++
      if options.length = 1 then pinReason schema else "")
  | _ => none

/-- A value of the wrong type is answered with what says more than the type does, where something does. -/
def typeProblem (deeper : Option Check) (root schema value : Json) (subject problem : String) : String :=
  match find schema "const" with
  | some fixed => subject ++ " must be " ++ fixed.dump ++ "." ++ pinReason schema
  | none =>
    if oneOfNamesObjectShapes schema root then
      (checkOneOf deeper root schema value subject).getD problem
    else problem

def checkReference (deeper : Option Check) (root schema value : Json) (subject : String) : Option String := do
  let check ← deeper
  let target ← resolveLocalRef schema root
  check target value subject

def checkParts (deeper : Option Check) (schema value : Json) (subject : String) : Option String :=
  match value, deeper with
  | .array entries, some check => checkEntries check schema entries subject
  | .object members, deeper => checkObject deeper schema members subject
  | _, _ => none

section Levels
variable (search : String → String → Option Bool)

/-- The check of a value, its parts being checked by `deeper` if there are levels left. -/
def checkValueAt (root : Json) (deeper : Option Check) : Check := fun schema value subject =>
  if !schema.isObject then none
  else
    (checkReference deeper root schema value subject).or <|
      match checkType schema value subject with
      | some problem => some (typeProblem deeper root schema value subject problem)
      | none =>
        ((((checkConst schema value subject).or (checkEnum schema value subject)).or
          (checkBounds search schema value subject)).or (checkOneOf deeper root schema value subject)).or
          (checkParts deeper schema value subject)

def checkValue (root : Json) : Nat → Check
  | 0 => checkValueAt search root none
  | n + 1 => checkValueAt search root (some (checkValue root n))

def validateAgainstSchema (schema arguments : Json) : Option String :=
  if !schema.isObject then none
  else
    match arguments with
    | .object members => checkObject (some (checkValue search schema (kMaxDepth - 1))) schema members ""
    | arguments =>
      if find schema "type" matches some (.string "object") || (find schema "properties").isSome ||
          (find schema "required").isSome then
        some ("Arguments must be an object, not " ++ typeNameOf arguments ++ ".")
      else none

end Levels

end Didi.Schema
