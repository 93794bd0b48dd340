import Didi.Common
import Didi.Config.Text

/-!
# The tokens of a read-only expression

* `scanExpression` : the tokens of a source, or what it holds that no expression may;
* `Lexeme.Scanned` : what the text of a token begins with tells its kind (`scanned_of_scanExpression`).
-/

namespace Didi.Expression
open Didi.Config (Text isIdentifierStart isHexDigit)

def kMaxSourceBytes : Nat := 2048

def isIdentifierContinue (value : Char) : Bool := isIdentifierStart value || value.isDigit

inductive TokenKind
  | identifier
  | number
  | string
  | punctuation
  | operator
deriving DecidableEq, Repr

structure Lexeme where
  kind : TokenKind
  text : String
deriving DecidableEq, Repr

structure Token extends Lexeme where
  start : Nat
  stop : Nat
deriving DecidableEq, Repr

/-! ## One token -/

def isNumberByte (c : Char) : Bool := c.isDigit || c = '_' || c = '.'

/-- The bytes of a number that follow its first digit. -/
def numberLength : Text → Nat
  | [] => 0
  | [c] => if isNumberByte c then 1 else 0
  | c :: d :: rest =>
    if isNumberByte c then 1 + numberLength (d :: rest)
    else if c = 'e' || c = 'E' then
      if d = '+' || d = '-' then 2 + numberLength rest else 1 + numberLength (d :: rest)
    else 0

def allowedEscapes : List Char := "abefnrtv0\\'\"".toList

/-- The bytes of an escape that follow its backslash. -/
def escapeLength : Text → Except Error Nat
  | [] => throw (.invalidArgument "Expression string ends with an incomplete escape")
  | escaped :: rest =>
    if escaped = 'x' ∨ escaped = 'u' ∨ escaped = 'U' then
      let digits := if escaped = 'x' then 2 else if escaped = 'u' then 4 else 8
      if rest.length < digits then
        throw (.invalidArgument "Expression string contains an incomplete hexadecimal escape")
      else if (rest.take digits).all isHexDigit then pure (1 + digits)
      else throw (.invalidArgument "Expression string contains an invalid hexadecimal escape")
    else if escaped ∈ allowedEscapes then pure 1
    else throw (.invalidArgument "Expression string contains an unsupported escape")

/-- The bytes of a string that follow its opening quote. Those of an escape are counted by `skip`. -/
def stringLength (quote : Char) : Nat → Text → Except Error Nat
  | _, [] => throw (.invalidArgument "Expression contains an unterminated string")
  | skip + 1, _ :: rest => (· + 1) <$> stringLength quote skip rest
  | 0, current :: rest =>
    if current = quote then pure 1
    else if current = '\n' ∨ current = '\r' ∨ current = '\x00' then
      throw (.invalidArgument "Expression string contains a forbidden control character")
    else if current ≠ '\\' then (· + 1) <$> stringLength quote 0 rest
    else do
      let length ← escapeLength rest
      (· + 1) <$> stringLength quote length rest

/-- The bytes of an operator. -/
def operatorLength (character : Char) (rest : Text) : Except Error Nat :=
  if character = '=' then
    if rest.head? = some '=' then pure 2
    else throw (.invalidArgument "Assignments are forbidden in read-only expressions")
  else if character ∈ ['!', '<', '>'] ∧ rest.head? = some '=' then pure 2
  else if character ∈ ['&', '|', '<', '>', '*'] ∧ rest.head? = some character then pure 2
  else if character ∈ ['+', '-', '*', '/', '!', '<', '>', '&', '|', '^', '~'] then pure 1
  else throw (.invalidArgument "Expression contains forbidden statement or dispatch punctuation")

/-- What a token is, how many bytes it has and how deep in braces it leaves the rest. -/
structure Read where
  kind : TokenKind
  length : Nat
  braceDepth : Nat

def readToken (braceDepth : Nat) (character : Char) (rest : Text) : Except Error Read :=
  if isIdentifierStart character then
    pure { kind := .identifier, length := 1 + (rest.takeWhile isIdentifierContinue).length, braceDepth }
  else if character.isDigit then pure { kind := .number, length := 1 + numberLength rest, braceDepth }
  else if character = '\'' ∨ character = '"' then do
    let length ← stringLength character 0 rest
    pure { kind := .string, length := 1 + length, braceDepth }
  else if character = '{' then pure { kind := .punctuation, length := 1, braceDepth := braceDepth + 1 }
  else if character = '}' then
    if braceDepth = 0 then throw (.invalidArgument "Expression contains an unmatched closing brace")
    else pure { kind := .punctuation, length := 1, braceDepth := braceDepth - 1 }
  else if character = ':' then
    if braceDepth = 0 then throw (.invalidArgument "Statement separators and type annotations are forbidden")
    else pure { kind := .punctuation, length := 1, braceDepth }
  else if character ∈ ['(', ')', '[', ']', ',', '.'] then pure { kind := .punctuation, length := 1, braceDepth }
  else do
    let length ← operatorLength character rest
    pure { kind := .operator, length, braceDepth }

/-! ## The source -/

/-- The tokens from byte `index` on, whose own bytes are counted by `skip`. -/
def scanFrom : Nat → Nat → Nat → Text → Except Error (List Token)
  | _, _, braceDepth, [] =>
    if braceDepth ≠ 0 then throw (.invalidArgument "Expression contains an unmatched opening brace") else pure []
  | index, skip + 1, braceDepth, _ :: rest => scanFrom (index + 1) skip braceDepth rest
  | index, 0, braceDepth, byte :: rest =>
    if byte = ' ' ∨ byte = '\t' then scanFrom (index + 1) 0 braceDepth rest
    else if byte.toNat < 32 ∨ 128 ≤ byte.toNat then
      throw (.invalidArgument "Expression contains a forbidden control or non-ASCII token outside a string")
    else do
      let read ← readToken braceDepth byte rest
      let tokens ← scanFrom (index + 1) (read.length - 1) read.braceDepth rest
      pure ({ kind := read.kind, text := String.ofList ((byte :: rest).take read.length), start := index,
              stop := index + read.length } :: tokens)

def scanExpression (source : Text) : Except Error (List Token) := do
  let tokens ← scanFrom 0 0 0 source
  if tokens = [] then throw (.invalidArgument "Expression must contain a value") else pure tokens

/-! ## What a scan tells of its tokens -/

def punctuations : List String := ["\x7b", "\x7d", ":", "(", ")", "[", "]", ",", "."]

def operators : List String :=
  ["==", "!=", "<=", ">=", "&&", "||", "<<", ">>", "**", "+", "-", "*", "/", "!", "<", ">", "&", "|", "^", "~"]

/-- What the text of a token begins with tells its kind. -/
def Lexeme.Scanned (l : Lexeme) : Prop :=
  match l.kind with
  | .identifier => l.text.toList.head?.any isIdentifierStart = true
  | .number => l.text.toList.head?.any Char.isDigit = true
  | .string => l.text.toList.head? = some '\'' ∨ l.text.toList.head? = some '"'
  | .punctuation => l.text ∈ punctuations
  | .operator => l.text ∈ operators

instance : DecidablePred Lexeme.Scanned := fun l => by
  unfold Lexeme.Scanned
  split <;> infer_instance

theorem scanned_operator {character : Char} {rest : Text} {length : Nat}
    (h : operatorLength character rest = .ok length) :
    0 < length ∧ String.ofList ((character :: rest).take length) ∈ operators := by
  have hhead : ∀ c, rest.head? = some c → rest.take 1 = [c] := by
    intro c hc
    cases rest with
    | nil => cases hc
    | cons d rest => rw [Option.some.inj hc, List.take_one, List.head?_cons]; rfl
  unfold operatorLength at h
  split_ifs at h with h1 h2 h3 h4 h5 <;> cases h
  · rw [List.take_succ_cons, hhead _ h2, h1]
    decide
  · obtain ⟨hmem, hnext⟩ := h3
    rw [List.take_succ_cons, hhead _ hnext]
    refine ⟨by decide, ?_⟩
    fin_cases hmem <;> decide
  · obtain ⟨hmem, hnext⟩ := h4
    rw [List.take_succ_cons, hhead _ hnext]
    refine ⟨by decide, ?_⟩
    fin_cases hmem <;> decide
  · refine ⟨by decide, ?_⟩
    rw [List.take_succ_cons, List.take_zero]
    fin_cases h5 <;> decide

/-- The text of a token that was read. -/
theorem scanned_readToken {braceDepth : Nat} {character : Char} {rest : Text} {read : Read}
    (h : readToken braceDepth character rest = .ok read) :
    Lexeme.Scanned ⟨read.kind, String.ofList ((character :: rest).take read.length)⟩ := by
  have hone : ∀ n, (String.ofList ((character :: rest).take (1 + n))).toList.head? = some character := by
    intro n
    rw [Nat.add_comm, List.take_succ_cons, String.toList_ofList, List.head?_cons]
  unfold readToken at h
  split_ifs at h with hstart hdigit hquote hopen hclose hdepth hcolon hdepth hmem
  · cases h
    simp only [Lexeme.Scanned]
    rw [hone]
    exact hstart
  · cases h
    simp only [Lexeme.Scanned]
    rw [hone]
    exact hdigit
  · cases hlength : stringLength character 0 rest with
    | error e => rw [hlength] at h; cases h
    | ok length =>
      rw [hlength] at h
      cases h
      simp only [Lexeme.Scanned]
      rw [hone]
      exact hquote.imp (congrArg some) (congrArg some)
  · cases h
    subst hopen
    exact (by decide : "\x7b" ∈ punctuations)
  · cases h
    subst hclose
    exact (by decide : "\x7d" ∈ punctuations)
  · cases h
    subst hcolon
    exact (by decide : ":" ∈ punctuations)
  · cases h
    show String.ofList [character] ∈ punctuations
    fin_cases hmem <;> decide
  · cases hlength : operatorLength character rest with
    | error e => rw [hlength] at h; cases h
    | ok length =>
      rw [hlength] at h
      cases h
      exact (scanned_operator hlength).2

theorem scanned_of_scanFrom {index skip braceDepth : Nat} {source : Text} {tokens : List Token}
    (h : scanFrom index skip braceDepth source = .ok tokens) : ∀ token ∈ tokens, token.toLexeme.Scanned := by
  induction source generalizing index skip braceDepth tokens with
  | nil =>
    simp only [scanFrom] at h
    split_ifs at h
    cases h
    exact List.forall_mem_nil _
  | cons byte rest ih =>
    cases skip with
    | succ skip => exact ih h
    | zero =>
      rw [scanFrom] at h
      split_ifs at h with hblank hforbidden
      · exact ih h
      · cases hread : readToken braceDepth byte rest with
        | error e => rw [hread] at h; cases h
        | ok read =>
          rw [hread] at h
          cases htail : scanFrom (index + 1) (read.length - 1) read.braceDepth rest with
          | error e => simp only [htail, bind, Except.bind] at h; cases h
          | ok tail =>
            simp only [htail, bind, Except.bind, pure, Except.pure] at h
            cases h
            intro token htoken
            rcases List.mem_cons.mp htoken with rfl | htoken
            · exact scanned_readToken hread
            · exact ih htail token htoken

theorem scanned_of_scanExpression {source : Text} {tokens : List Token} (h : scanExpression source = .ok tokens) :
    ∀ token ∈ tokens, token.toLexeme.Scanned := by
  cases hscan : scanFrom 0 0 0 source with
  | error e => simp only [scanExpression, hscan, bind, Except.bind] at h; cases h
  | ok found =>
    simp only [scanExpression, hscan, bind, Except.bind] at h
    split_ifs at h
    cases h
    exact scanned_of_scanFrom hscan

end Didi.Expression
