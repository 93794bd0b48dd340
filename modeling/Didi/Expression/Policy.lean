import Didi.Expression.Tokens
import Didi.Lib.Brackets
import Didi.Lib.Locked

/-!
# What a read-only expression may hold

`validateTokens` looks at every token with its neighbours; `validate` is the policy for a whole source.

* `checkMember`, `checkBracket`, `checkName`, `checkCall`, `checkDispatch` : the checks of one token, in their order;
* `receiverKind` : what stands before the dot of a method call.

No check but `readsInTokens` asks where a token stands in the source, so they are stated for lexemes.
-/

namespace Didi.Expression
open Didi.Config (Text isIdentifierStart isContinuation)
open Brackets (openingBefore)

def allowedGlobalCallables : List String := ["min", "max", "abs", "clamp", "snapped", "Vector2", "Vector3", "Color"]

def forbiddenIdentifiers : List String :=
  ["OS", "FileAccess", "DirAccess", "ResourceLoader", "ResourceSaver", "ProjectSettings",
    "Engine", "ClassDB", "JavaScriptBridge", "IP", "HTTPClient", "HTTPRequest", "TCPServer",
    "StreamPeerTCP", "PacketPeerUDP", "TLSOptions", "ZIPReader", "ZIPPacker", "WorkerThreadPool",
    "load", "preload", "execute", "open", "remove", "rename", "store", "str",
    "get_property_list", "set", "set_deferred",
    "set_indexed", "set_meta", "remove_meta", "call", "callv", "call_deferred", "rpc", "rpc_id",
    "emit_signal", "queue_free", "free", "quit", "change_scene", "change_scene_to_file",
    "change_scene_to_packed", "reload_current_scene", "add_child", "remove_child", "reparent",
    "set_owner", "set_script", "get_script", "get_source_code", "connect", "disconnect",
    "while", "for", "in", "match", "func", "class", "class_name", "extends", "signal", "var", "const",
    "enum", "return", "break", "continue", "pass", "await", "yield", "assert", "static", "lambda"]

def boundBareIdentifiers : List String :=
  ["node", "tree", "true", "false", "null", "and", "or", "not", "in", "if", "else", "INF", "NAN", "PI", "TAU"]

def constructors : List String := ["Vector2", "Vector3", "Color"]

inductive ReceiverKind
  | none
  | node
  | stringLiteral
  | arrayLiteral
  | dictionaryLiteral
  | mathLiteral
deriving DecidableEq

/-! ## Tokens by their place -/

section
variable (tokens : List Lexeme)

def textIs (index : Nat) (text : String) : Bool := tokens[index]?.any fun token => token.text = text

def kindIs (index : Nat) (kind : TokenKind) : Bool := tokens[index]?.any fun token => token.kind = kind

/-- The text of the token before. -/
def previousIs (index : Nat) (text : String) : Bool := 0 < index && textIs tokens (index - 1) text

def previousKindIs (index : Nat) (kind : TokenKind) : Bool := 0 < index && kindIs tokens (index - 1) kind

/-! ## Receivers -/

def isLiteralIdentifier (token : Lexeme) : Bool :=
  token.kind = .identifier && token.text ∈ ["true", "false", "null"]

/-- What a container of literals may hold. -/
def isSourceLocal (token : Lexeme) : Bool :=
  token.kind = .string || token.kind = .number || isLiteralIdentifier token ||
    token.text ∈ [",", ":", "[", "]", "\x7b", "\x7d", "+", "-"]

/-- The place of the opening bracket that the closing one at `receiverEnd` belongs to. -/
def openingOf (receiverEnd : Nat) (opening closing : String) : Option Nat :=
  openingBefore (fun token => token.text = opening) (fun token => token.text = closing) tokens (receiverEnd + 1) 0

def isSourceLocalContainer (receiverEnd : Nat) (opening closing : String) : Bool :=
  match openingOf tokens receiverEnd opening closing with
  | none => false
  | some openingIndex =>
    openingIndex ≠ receiverEnd && ((tokens.take receiverEnd).drop (openingIndex + 1)).all isSourceLocal

/-- The name before an opening bracket when it is that of a math constructor. -/
def constructorName (index : Nat) : String :=
  match tokens[index]? with
  | some name => if name.kind = .identifier ∧ name.text ∈ constructors then name.text else ""
  | none => ""

def mathConstructorAt (receiverEnd : Nat) : String :=
  if textIs tokens receiverEnd ")" then
    match openingOf tokens receiverEnd "(" ")" with
    | some (index + 1) => constructorName tokens index
    | _ => ""
  else ""

def isPreboundPropertyRead (receiverEnd : Nat) : Bool :=
  5 ≤ receiverEnd && textIs tokens receiverEnd ")" && kindIs tokens (receiverEnd - 1) .string &&
    textIs tokens (receiverEnd - 2) "(" && kindIs tokens (receiverEnd - 3) .identifier &&
    textIs tokens (receiverEnd - 3) "get" && textIs tokens (receiverEnd - 4) "." &&
    kindIs tokens (receiverEnd - 5) .identifier && textIs tokens (receiverEnd - 5) "node"

def isPreboundComponent (component : String) : Bool := component ∈ ["x", "y", "z", "r", "g", "b", "a"]

def isMathComponent (constructor component : String) : Bool :=
  if constructor = "Vector2" then component ∈ ["x", "y"]
  else if constructor = "Vector3" then component ∈ ["x", "y", "z"]
  else if constructor = "Color" then component ∈ ["r", "g", "b", "a"]
  else false

def receiverKind (callIndex : Nat) : ReceiverKind :=
  if callIndex < 2 || !textIs tokens (callIndex - 1) "." then .none
  else
    let receiverEnd := callIndex - 2
    if kindIs tokens receiverEnd .identifier && textIs tokens receiverEnd "node" then .node
    else if kindIs tokens receiverEnd .string then .stringLiteral
    else if textIs tokens receiverEnd "]" && isSourceLocalContainer tokens receiverEnd "[" "]" then .arrayLiteral
    else if textIs tokens receiverEnd "\x7d" && isSourceLocalContainer tokens receiverEnd "\x7b" "\x7d" then
      .dictionaryLiteral
    else if mathConstructorAt tokens receiverEnd ≠ "" then .mathLiteral
    else .none

/-! ## Arguments -/

def hasNoArguments (callIndex : Nat) : Bool := textIs tokens (callIndex + 2) ")"

def hasOneStringLiteralArgument (callIndex : Nat) : Bool :=
  kindIs tokens (callIndex + 2) .string && textIs tokens (callIndex + 3) ")"

def hasOneScalarLiteralArgument (callIndex : Nat) : Bool :=
  (kindIs tokens (callIndex + 2) .string || kindIs tokens (callIndex + 2) .number ||
      tokens[callIndex + 2]?.any isLiteralIdentifier) && textIs tokens (callIndex + 3) ")"

/-- The place of the bracket that brings the depth to zero, from `index` on. -/
def closingFrom : Nat → Int → List Lexeme → Option Nat
  | _, _, [] => none
  | index, depth, token :: rest =>
    if token.text = "(" then closingFrom (index + 1) (depth + 1) rest
    else if token.text = ")" then
      (if depth - 1 = 0 then some index else closingFrom (index + 1) (depth - 1) rest)
    else closingFrom (index + 1) depth rest

def hasOneMathConstructorArgument (callIndex : Nat) : Bool :=
  let argumentStart := callIndex + 2
  kindIs tokens argumentStart .identifier && textIs tokens (argumentStart + 1) "(" &&
    match closingFrom (argumentStart + 1) 0 (tokens.drop (argumentStart + 1)) with
    | none => false
    | some index => mathConstructorAt tokens index ≠ "" && textIs tokens (index + 1) ")"

/-- What the arguments of a global call may hold. -/
def isSourceLocalNumeric (token : Lexeme) : Bool :=
  token.kind = .number || token.text ∈ [",", "+", "-"] ||
    (token.kind = .identifier && token.text ∈ ["INF", "NAN", "PI", "TAU"])

/-- Whether nothing but numbers stands before the first closing bracket. -/
def numericUpToClosing : List Lexeme → Bool
  | [] => false
  | token :: rest => if token.text = ")" then true else isSourceLocalNumeric token && numericUpToClosing rest

def hasOnlySourceLocalNumericArguments (callIndex : Nat) : Bool := numericUpToClosing (tokens.drop (callIndex + 2))

/-! ## The checks of a token -/

def checkMember (index : Nat) (token : Lexeme) : Except Error Unit :=
  let methodCall := kindIs tokens (index + 1) .identifier && textIs tokens (index + 2) "("
  let component := (tokens[index + 1]?.map Lexeme.text).getD ""
  let componentRead := !methodCall && 0 < index && kindIs tokens (index + 1) .identifier &&
    isMathComponent (mathConstructorAt tokens (index - 1)) component
  let preboundComponentRead := !methodCall && 0 < index && kindIs tokens (index + 1) .identifier &&
    isPreboundComponent component && isPreboundPropertyRead tokens (index - 1)
  .require (token.text = "." → methodCall || componentRead || preboundComponentRead)
    (.invalidArgument ("Object member/property reads are forbidden in read-only expressions, " ++
      "because reading through an object can run a script getter. Read a " ++
      "native property of the context node with node.get(\"position\"), or " ++ "use scene_get_property."))

def checkBracket (index : Nat) (token : Lexeme) : Except Error Unit :=
  let startsLiteral := previousKindIs tokens index .operator ||
    ["(", "[", "\x7b", ",", ":", "and", "or", "not", "in", "if", "else"].any (previousIs tokens index)
  .require (token.text = "[" → 0 < index → startsLiteral)
    (.invalidArgument "Dynamic indexed reads are forbidden in read-only expressions")

/-- A name by itself: neither a member nor a receiver nor a call. -/
def isBare (index : Nat) : Bool :=
  !previousIs tokens index "." && !(textIs tokens (index + 1) "." || textIs tokens (index + 1) "(")

def checkName (index : Nat) (token : Lexeme) : Except Error Unit := do
  .require (token.kind = .identifier → token.text ≠ "self")
    (.invalidArgument ("self is not bound in a read-only expression: there is no script instance " ++
      "for it to be. The context node is bound as node, so read a native property " ++
      "with node.get(\"position\") or call one of the allowed node methods."))
  .require (token.kind = .identifier → token.text ∉ forbiddenIdentifiers)
    (.invalidArgument "Expression contains a forbidden identifier")
  .require (token.kind = .identifier → ¬ "__didi_".toList <+: token.text.toList)
    (.invalidArgument "Expression contains a reserved sandbox identifier")
  .require (token.kind = .identifier → isBare tokens index → token.text ∈ boundBareIdentifiers)
    (.invalidArgument ("'" ++ token.text ++ "' is not bound in a read-only expression. The context " ++
      "node is bound as node, and that is the only name: read a native property " ++
      "with node.get(\"position\"), call one of the allowed node methods, or use " ++
      "scene_get_property. Engine singletons and project globals are not reachable " ++ "here."))

/-- The number that digits stand for, `none` where it would not fit. -/
def repeatCount (digits : Text) : Option Nat :=
  digits.foldlM (fun count c =>
    if !c.isDigit || (2 ^ 64 - 1 - 9) / 10 < count then none else some (count * 10 + (c.toNat - 48))) 0

def checkRepeat (index : Nat) : Except Error Unit := do
  .require (kindIs tokens (index + 2) .number ∧ textIs tokens (index + 3) ")")
    (.invalidArgument "repeat is restricted to a bounded string literal and integer literal")
  let textAt := fun index => (tokens[index]?.map Lexeme.text).getD ""
  match repeatCount (textAt (index + 2)).toList with
  | none => throw (.invalidArgument "repeat count must be a bounded integer literal")
  | some count =>
    let literalBytes := (textAt (index - 2)).length - 2
    .require (¬ (512 * 1024 < count ∨ literalBytes ≠ 0 ∧ 512 * 1024 / literalBytes < count))
      (.invalidArgument "repeat output is limited to 512 KiB")

def nodeZeroArgumentMethods : List String := ["get_child_count", "get_path", "get_class"]

def nodeStringArgumentMethods : List String := ["is_class", "is_in_group", "has_method", "has_meta"]

def mathZeroArgumentMethods : List String :=
  ["length", "length_squared", "normalized", "abs", "sign", "floor", "ceil", "round", "angle", "aspect",
    "is_normalized", "is_finite", "min_axis_index", "max_axis_index"]

def mathVectorArgumentMethods : List String :=
  ["dot", "cross", "distance_to", "distance_squared_to", "angle_to", "angle_to_point"]

def methodCallRefused : Error :=
  .invalidArgument "Method calls require an exact direct Node receiver or a source-local literal receiver"

def checkNodeCall (index : Nat) (token : Lexeme) : Except Error Unit :=
  if token.text = "get" then
    .require (hasOneStringLiteralArgument tokens index)
      (.invalidArgument "get is restricted to direct node.get(<string literal>) property reads")
  else
    .require ((token.text ∈ nodeZeroArgumentMethods ∧ hasNoArguments tokens index) ∨
        (token.text ∈ nodeStringArgumentMethods ∧ hasOneStringLiteralArgument tokens index))
      (.invalidArgument "Only exact direct constant-space native scalar Node calls are permitted")

def checkStringCall (index : Nat) (token : Lexeme) : Except Error Unit :=
  if token.text = "repeat" then checkRepeat tokens index
  else
    .require ((token.text ∈ ["size", "is_empty"] ∧ hasNoArguments tokens index) ∨
      (token.text ∈ ["find", "count"] ∧ hasOneStringLiteralArgument tokens index)) methodCallRefused

def checkCall (index : Nat) (token : Lexeme) : Except Error Unit :=
  match receiverKind tokens index with
  | .none =>
    .require (previousIs tokens index "." = false ∧ token.text ∈ allowedGlobalCallables ∧
        hasOnlySourceLocalNumericArguments tokens index)
      (.invalidArgument "Global calls require source-local numeric arguments and no receiver")
  | .node => checkNodeCall tokens index token
  | .stringLiteral => checkStringCall tokens index token
  | .arrayLiteral =>
    .require ((token.text ∈ ["size", "is_empty"] ∧ hasNoArguments tokens index) ∨
      (token.text ∈ ["find", "count", "has"] ∧ hasOneScalarLiteralArgument tokens index)) methodCallRefused
  | .dictionaryLiteral =>
    .require ((token.text ∈ ["size", "is_empty"] ∧ hasNoArguments tokens index) ∨
      (token.text = "has" ∧ hasOneStringLiteralArgument tokens index)) methodCallRefused
  | .mathLiteral =>
    .require ((token.text ∈ mathZeroArgumentMethods ∧ hasNoArguments tokens index) ∨
        (token.text ∈ mathVectorArgumentMethods ∧ hasOneMathConstructorArgument tokens index))
      (.invalidArgument "Only pure geometry calls on source-local Vector or Color literals are permitted")

def checkDispatch (index : Nat) (token : Lexeme) : Except Error Unit :=
  let called := !previousKindIs tokens index .identifier &&
    (previousIs tokens index "]" || previousIs tokens index ")" || previousKindIs tokens index .string ||
      previousKindIs tokens index .number)
  .require (token.text = "(" → called = false) (.invalidArgument "Dynamic callable dispatch is forbidden")

def checkToken (index : Nat) (token : Lexeme) : Except Error Unit := do
  checkMember tokens index token
  checkBracket tokens index token
  checkName tokens index token
  if token.kind = .identifier ∧ textIs tokens (index + 1) "(" then checkCall tokens index token
  else checkDispatch tokens index token

def validateTokens : Except Error Unit := tokens.zipIdx.forM fun place => checkToken tokens place.2 place.1

end

/-! ## The source -/

structure DirectPropertyRead where
  start : Nat
  stop : Nat
  property : String

/-- The property that a quoted literal names. -/
def propertyName (literal : String) : Except Error String := do
  let bytes := literal.toList
  .require (2 ≤ bytes.length ∧ bytes.head? = bytes.getLast?)
    (.invalidArgument "node.get property name must be a quoted string literal")
  let property := bytes.tail.dropLast
  .require (property ≠ []) (.invalidArgument "node.get property name may not be empty")
  .require (property.all isIdentifierContinue)
    (.invalidArgument "node.get property name must be an unescaped ASCII property identifier")
  pure (String.ofList property)

/-- The read at a place. The tokens that its name is read from are there once the tokens are valid. -/
def readAt (tokens : List Token) (index : Nat) : Except Error (Option DirectPropertyRead) :=
  match tokens[index]?, tokens[index + 1]?, tokens[index + 2]? with
  | some token, some next, some literal =>
    if token.kind = .identifier ∧ token.text = "get" ∧ next.text = "(" then do
      let property ← propertyName literal.text
      pure (some { start := (tokens[index - 2]?.map Token.start).getD 0,
                   stop := (tokens[index + 3]?.map Token.stop).getD 0, property })
    else pure none
  | _, _, _ => pure none

def readsInTokens (tokens : List Token) : Except Error (List DirectPropertyRead) :=
  (·.filterMap id) <$> (List.range tokens.length).mapM (readAt tokens)

def isValidUtf8 : Text → Bool
  | [] => true
  | first :: rest =>
    let byte := first.toNat
    if byte ≤ 0x7F then isValidUtf8 rest
    else if 0xC2 ≤ byte ∧ byte ≤ 0xDF then
      match rest with
      | second :: rest => isContinuation second && isValidUtf8 rest
      | _ => false
    else if 0xE0 ≤ byte ∧ byte ≤ 0xEF then
      match rest with
      | second :: third :: rest =>
        isContinuation second && isContinuation third && !(byte = 0xE0 && second.toNat < 0xA0) &&
          !(byte = 0xED && 0xA0 ≤ second.toNat) && isValidUtf8 rest
      | _ => false
    else if 0xF0 ≤ byte ∧ byte ≤ 0xF4 then
      match rest with
      | second :: third :: fourth :: rest =>
        isContinuation second && isContinuation third && isContinuation fourth &&
          !(byte = 0xF0 && second.toNat < 0x90) && !(byte = 0xF4 && 0x90 ≤ second.toNat) && isValidUtf8 rest
      | _ => false
    else false

/-- `ExpressionPolicy::validate`. -/
def validate (source : Text) : Except Error Unit := do
  .require (source ≠ [] ∧ source.length ≤ kMaxSourceBytes ∧ '\x00' ∉ source ∧ isValidUtf8 source)
    (.invalidArgument "expression must be 1..2048 bytes of valid UTF-8 without NUL")
  let tokens ← scanExpression source
  validateTokens (tokens.map Token.toLexeme)
  let _ ← readsInTokens tokens
  pure ()

end Didi.Expression
