import Didi.Common
import Didi.Schema.Validation

/-!
# Arguments normalized before a call

* `Budget.visit` : the work that the arguments may cost, charged on their own spelling;
* `integer`, `component` : a decimal text read as the number that the schema asks for;
* `normalizeToolArguments` : the arguments that the call gets.

`Doubles` is the floating point of the platform: how a decimal text is rounded, and how a double is printed.
-/

namespace Didi.Mcp

def kMaxNodes : Nat := 4096
def kMaxBytes : Nat := 65536
def kMaxArgumentDepth : Nat := 8
def kExactDoubleInteger : Int := 9007199254740992

def refusal (field reason expected : String) : Error :=
  ⟨400, "Arguments could not be normalized using safe-v1.",
    .object [("code", .string "invalid_arguments"), ("expected", .string expected), ("field", .string field),
      ("reason", .string reason), ("retryable", .boolean false)]⟩

/-! ## The budget -/

structure Budget where
  nodes : Nat := kMaxNodes
  bytes : Nat := kMaxBytes

namespace Budget

def charge (budget : Budget) (count : Nat) : Option Budget :=
  if count > budget.bytes then none else some { budget with bytes := budget.bytes - count }

/-- The size of a text in which every byte needs the longest escape. -/
def text (budget : Budget) (count : Nat) : Option Budget := do
  let budget ← budget.charge 2
  if count > budget.bytes / 6 then none else budget.charge (count * 6)

mutual

def visit (value : Json) (depth : Nat) (budget : Budget) : Option Budget :=
  if depth > kMaxArgumentDepth || budget.nodes = 0 then none
  else do
    let budget ← { budget with nodes := budget.nodes - 1 }.charge 2
    match value with
    | .string s => budget.text s.utf8ByteSize
    | .array elements => visitElements elements (depth + 1) budget
    | .object members => visitMembers members (depth + 1) budget
    | _ => budget.charge 32

def visitElements (elements : List Json) (depth : Nat) (budget : Budget) : Option Budget :=
  match elements with
  | [] => some budget
  | value :: elements => do
    let budget ← visit value depth budget
    visitElements elements depth budget

def visitMembers (members : List (String × Json)) (depth : Nat) (budget : Budget) : Option Budget :=
  match members with
  | [] => some budget
  | (key, value) :: members => do
    let budget ← budget.text key.utf8ByteSize
    let budget ← visit value depth budget
    visitMembers members depth budget

end

end Budget

/-- The budget covers the value. -/
def withinBudget (value : Json) : Bool := (Budget.visit value 0 {}).isSome

/-! ## Numbers -/

/-- What a whole text is read as. -/
inductive Double
  | finite (value : Rat) (text : String)
  | infiniteOrNan

structure Doubles where
  fromChars : String → Option Double
  dump : Int → String

def decimalOf (digits : List Char) : Nat := digits.foldl (fun n c => 10 * n + (c.toNat - '0'.toNat)) 0

def signedDecimal (negative : Bool) (digits : List Char) : Option Int :=
  if digits.isEmpty || !digits.all (·.isDigit) then none
  else
    let i : Int := if negative then -decimalOf digits else decimalOf digits
    if -2 ^ 63 ≤ i ∧ i < 2 ^ 63 then some i else none

/-- The signed 64-bit integer that a whole text is read as. -/
def fromChars (text : String) : Option Int :=
  match text.toList with
  | '-' :: digits => signedDecimal true digits
  | digits => signedDecimal false digits

def integer (value : Json) (path : String) : Except Error Json :=
  match value with
  | .string text =>
    match fromChars text with
    | some i => .ok (.integer i)
    | none => .error (refusal path "expected_integer" "complete signed 64-bit decimal integer")
  | .integer i =>
    if i < 2 ^ 63 then .ok (.integer i) else .error (refusal path "expected_integer" "signed 64-bit integer")
  | _ => .error (refusal path "expected_integer" "signed 64-bit integer")

section Doubles
variable (doubles : Doubles)

def component (value : Json) (path : String) : Except Error Json :=
  match value with
  | .string text =>
    match if text = "" then none else doubles.fromChars text with
    | none => .error (refusal path "expected_finite_number" "complete finite decimal number")
    | some (.finite q t) =>
      if kExactDoubleInteger ≤ |q| then
        .error (refusal path "inexact_integer" "numeric string with magnitude below 2^53")
      else .ok (.real q t)
    | some .infiniteOrNan => .error (refusal path "expected_finite_number" "finite number")
  | .integer i =>
    if i < -kExactDoubleInteger ∨ i > kExactDoubleInteger then
      .error (refusal path "inexact_integer" "integer within [-2^53, 2^53]")
    else .ok (.real i (doubles.dump i))
  | .real q t => .ok (.real q t)
  | _ => .error (refusal path "expected_finite_number" "finite number")

/-! ## Arguments -/

def supportsArgumentNormalization (tool : String) : Bool :=
  tool = "scene_get_hierarchy" || tool = "ui_list_controls" || tool = "ui_hit_test"

def integerFields (tool : String) : List String :=
  if tool = "scene_get_hierarchy" then ["max_depth", "max_nodes"] else ["max_results"]

def normalizeInteger (members : JsonObject) (name : String) : Except Error JsonObject :=
  match members.lookup name with
  | none => .ok members
  | some value => do
    let value ← integer value ("/arguments/" ++ name)
    return members.alterKey name fun _ => value

def invalidShape : Error :=
  refusal "/arguments/point" "invalid_vector_shape" "[x,y] or an object containing only x and y"

def point : Json → Except Error Json
  | .array [x, y] => do
    let x ← component doubles x "/arguments/point/0"
    let y ← component doubles y "/arguments/point/1"
    return .object [("x", x), ("y", y)]
  | .array _ => .error (refusal "/arguments/point" "invalid_vector_shape" "exactly two components")
  | .object members =>
    match members.length == 2, members.lookup "x", members.lookup "y" with
    | true, some x, some y => do
      let x ← component doubles x "/arguments/point/x"
      let y ← component doubles y "/arguments/point/y"
      return .object ((members.alterKey "x" fun _ => x).alterKey "y" fun _ => y)
    | _, _, _ => .error invalidShape
  | _ => .error invalidShape

def normalizePoint (members : JsonObject) : Except Error JsonObject :=
  match members.lookup "point" with
  | none => .ok members
  | some value => do
    let value ← point doubles value
    return members.alterKey "point" fun _ => value

/-- The conversions of the tool. -/
def normalize (tool : String) (members : JsonObject) : Except Error JsonObject := do
  let members ← (integerFields tool).foldlM normalizeInteger members
  if tool = "ui_hit_test" then normalizePoint doubles members else .ok members

def overBudget : Error :=
  refusal "/arguments" "input_budget_exceeded" "depth <= 8, nodes <= 4096, conservative JSON bytes <= 65536"

def normalizeToolArguments (search : String → String → Option Bool) (tool : String) (schema arguments : Json) :
    Except Error Json :=
  if !supportsArgumentNormalization tool then
    .error (refusal "/name" "unsupported_tool" "an advertised read-only normalization tool")
  else if !withinBudget arguments then .error overBudget
  else
    match arguments with
    | .object members => do
      let members ← normalize doubles tool members
      if (Schema.validateAgainstSchema search schema (.object members)).isSome then
        .error (refusal "/arguments" "schema_validation_failed" "the tool's published inputSchema")
      else return .object members
    | _ => .error (refusal "/arguments" "expected_object" "object")

end Doubles

end Didi.Mcp
