import Didi.Expression.Policy

/-!
# The trees of an expression

* `Phrase.lexemes` : what a tree is written as;
* `Phrase.Confined` : a tree that reads and calls nothing beyond the list;
* `Phrase.balanced` : the brackets of a tree are balanced, one kind at a time;
* `Phrase.exists_init` : the last lexeme of an operand;
* `Phrase.numeric_of`, `Phrase.literal_of` : a tree without calls and members is what its lexemes are.

`Phrase c` are the parse trees of GDScript's expressions, over the lexemes of `scanExpression`. A postfix binds to an
operand, so a tree cannot bind it to less than what is complete before it; between operators any grouping is a tree.
-/

namespace Didi.Expression

inductive Category
  | operand
  | expression
  | elements
  | entries

/-- The operators spelled with letters, which are no names. -/
def words : List String := ["and", "or", "not", "in", "is", "as", "if", "else"]

abbrev Name := { text : String // text ∉ words }

inductive Sigil
  | stringName
  | nodePath

inductive UnaryOperator
  | minus
  | plus
  | complement
  | bang
  | not

inductive BinaryOperator
  | symbol (text : String) (h : text ∈ ["==", "!=", "<=", ">=", "<", ">", "&&", "||", "<<", ">>", "**", "+", "-", "*",
      "/", "%", "&", "|", "^"])
  | and
  | or
  | in
  | notIn
  | is
  | isNot
  | as

def assignments : List String := ["=", "+=", "-=", "*=", "/=", "**=", "%=", "&=", "|=", "^=", "<<=", ">>="]

abbrev AssignmentOperator := { text : String // text ∈ assignments }

/-- `{a = 1}` is left out: a scan refuses every `=` but those of comparisons. -/
inductive Phrase : Category → Type
  | name (name : Name) : Phrase .operand
  | number (text : String) : Phrase .operand
  | string (sigil : Option Sigil) (text : String) : Phrase .operand
  | group (inner : Phrase .expression) : Phrase .operand
  | array (elements : Phrase .elements) : Phrase .operand
  | dictionary (entries : Phrase .entries) : Phrase .operand
  | member (receiver : Phrase .operand) (name : String) : Phrase .operand
  | index (receiver : Phrase .operand) (key : Phrase .expression) : Phrase .operand
  | call (callee : Phrase .operand) (arguments : Phrase .elements) : Phrase .operand
  | operand (operand : Phrase .operand) : Phrase .expression
  | unary (operator : UnaryOperator) (argument : Phrase .expression) : Phrase .expression
  | binary (left : Phrase .expression) (operator : BinaryOperator) (right : Phrase .expression) : Phrase .expression
  | ternary (value condition otherwise : Phrase .expression) : Phrase .expression
  | assignment (target : Phrase .expression) (operator : AssignmentOperator) (value : Phrase .expression) :
      Phrase .expression
  | none : Phrase .elements
  | last (element : Phrase .expression) : Phrase .elements
  | more (element : Phrase .expression) (rest : Phrase .elements) : Phrase .elements
  | noEntry : Phrase .entries
  | lastEntry (key value : Phrase .expression) : Phrase .entries
  | moreEntries (key value : Phrase .expression) (rest : Phrase .entries) : Phrase .entries

/-! ## What a tree is written as -/

def mark (text : String) : Lexeme := ⟨.punctuation, text⟩

def word (text : String) : Lexeme := ⟨.identifier, text⟩

def Sigil.lexeme : Sigil → Lexeme
  | .stringName => ⟨.operator, "&"⟩
  | .nodePath => ⟨.operator, "^"⟩

def UnaryOperator.lexeme : UnaryOperator → Lexeme
  | .minus => ⟨.operator, "-"⟩
  | .plus => ⟨.operator, "+"⟩
  | .complement => ⟨.operator, "~"⟩
  | .bang => ⟨.operator, "!"⟩
  | .not => word "not"

def BinaryOperator.lexemes : BinaryOperator → List Lexeme
  | .symbol text _ => [⟨.operator, text⟩]
  | .and => [word "and"]
  | .or => [word "or"]
  | .in => [word "in"]
  | .notIn => [word "not", word "in"]
  | .is => [word "is"]
  | .isNot => [word "is", word "not"]
  | .as => [word "as"]

namespace Phrase

def lexemes : {c : Category} → Phrase c → List Lexeme
  | _, .name n => [⟨.identifier, n⟩]
  | _, .number text => [⟨.number, text⟩]
  | _, .string sigil text => sigil.toList.map Sigil.lexeme ++ [⟨.string, text⟩]
  | _, .group inner => mark "(" :: (inner.lexemes ++ [mark ")"])
  | _, .array elements => mark "[" :: (elements.lexemes ++ [mark "]"])
  | _, .dictionary entries => mark "\x7b" :: (entries.lexemes ++ [mark "\x7d"])
  | _, .member receiver n => receiver.lexemes ++ [mark ".", ⟨.identifier, n⟩]
  | _, .index receiver key => receiver.lexemes ++ mark "[" :: (key.lexemes ++ [mark "]"])
  | _, .call callee arguments => callee.lexemes ++ mark "(" :: (arguments.lexemes ++ [mark ")"])
  | _, .operand o => o.lexemes
  | _, .unary operator argument => operator.lexeme :: argument.lexemes
  | _, .binary left operator right => left.lexemes ++ (operator.lexemes ++ right.lexemes)
  | _, .ternary value condition otherwise =>
    value.lexemes ++ word "if" :: (condition.lexemes ++ word "else" :: otherwise.lexemes)
  | _, .assignment target operator value => target.lexemes ++ ⟨.operator, operator⟩ :: value.lexemes
  | _, .none => []
  | _, .last element => element.lexemes
  | _, .more element rest => element.lexemes ++ mark "," :: rest.lexemes
  | _, .noEntry => []
  | _, .lastEntry key value => key.lexemes ++ mark ":" :: value.lexemes
  | _, .moreEntries key value rest => key.lexemes ++ mark ":" :: (value.lexemes ++ mark "," :: rest.lexemes)

/-! ## Trees that reach nothing -/

/-- Arguments of number literals and constants, with signs and sums of them. -/
def Numeric : {c : Category} → Phrase c → Prop
  | _, .number _ => True
  | _, .name n => n.val ∈ ["INF", "NAN", "PI", "TAU"]
  | _, .operand o => o.Numeric
  | _, .unary operator argument => operator.lexeme.text ∈ ["+", "-"] ∧ argument.Numeric
  | _, .binary left operator right =>
    (∀ l ∈ operator.lexemes, l.text ∈ ["+", "-"]) ∧ left.Numeric ∧ right.Numeric
  | _, .none => True
  | _, .last element => element.Numeric
  | _, .more element rest => element.Numeric ∧ rest.Numeric
  | _, _ => False

/-- What is built of literals, with signs and sums of them. -/
def Literal : {c : Category} → Phrase c → Prop
  | _, .number _ => True
  | _, .string _ _ => True
  | _, .name n => n.val ∈ ["true", "false", "null"]
  | _, .array elements => elements.Literal
  | _, .dictionary entries => entries.Literal
  | _, .operand o => o.Literal
  | _, .unary operator argument => operator.lexeme.text ∈ ["+", "-"] ∧ argument.Literal
  | _, .binary left operator right =>
    (∀ l ∈ operator.lexemes, l.text ∈ ["+", "-"]) ∧ left.Literal ∧ right.Literal
  | _, .none => True
  | _, .last element => element.Literal
  | _, .more element rest => element.Literal ∧ rest.Literal
  | _, .noEntry => True
  | _, .lastEntry key value => key.Literal ∧ value.Literal
  | _, .moreEntries key value rest => key.Literal ∧ value.Literal ∧ rest.Literal
  | _, _ => False

/-- One string literal. -/
def IsString (arguments : Phrase .elements) : Prop :=
  ∃ text, arguments = .last (.operand (.string Option.none text))

/-- A method of the node or of a value that is written out. -/
def MethodListed : Phrase .operand → String → Phrase .elements → Prop
  | .name n, method, arguments =>
    n.val = "node" ∧ (method ∈ nodeZeroArgumentMethods ∧ arguments = .none ∨
      method ∈ "get" :: nodeStringArgumentMethods ∧ arguments.IsString)
  | .string _ _, method, _ => method ∈ ["size", "is_empty", "find", "count", "repeat"]
  | .array elements, method, _ => elements.Literal ∧ method ∈ ["size", "is_empty", "find", "count", "has"]
  | .dictionary entries, method, _ => entries.Literal ∧ method ∈ ["size", "is_empty", "has"]
  | .call (.name n) arguments, method, _ =>
    n.val ∈ constructors ∧ arguments.Numeric ∧ method ∈ mathZeroArgumentMethods ++ mathVectorArgumentMethods
  | _, _, _ => False

/-- A component of a constructor call, or of what `node.get` reads. -/
def ComponentListed : Phrase .operand → String → Prop
  | .call (.name n) _, component => isMathComponent n component
  | .call (.member (.name n) method) arguments, component =>
    n.val = "node" ∧ method = "get" ∧ arguments.IsString ∧ isPreboundComponent component
  | _, _ => False

def CallListed : Phrase .operand → Phrase .elements → Prop
  | .name n, arguments => n.val ∈ allowedGlobalCallables ∧ arguments.Numeric
  | .member receiver method, arguments => MethodListed receiver method arguments
  | _, _ => False

/-- No assignment, no indexing, no member read and no call but those listed. A member that is `called` is a method. -/
def Confined : {c : Category} → Bool → Phrase c → Prop
  | _, _, .name _ => True
  | _, _, .number _ => True
  | _, _, .string _ _ => True
  | _, _, .group inner => inner.Confined false
  | _, _, .array elements => elements.Confined false
  | _, _, .dictionary entries => entries.Confined false
  | _, called, .member receiver n => (called = true ∨ ComponentListed receiver n) ∧ receiver.Confined false
  | _, _, .index _ _ => False
  | _, _, .call callee arguments => CallListed callee arguments ∧ callee.Confined true ∧ arguments.Confined false
  | _, _, .operand o => o.Confined false
  | _, _, .unary _ argument => argument.Confined false
  | _, _, .binary left _ right => left.Confined false ∧ right.Confined false
  | _, _, .ternary value condition otherwise =>
    value.Confined false ∧ condition.Confined false ∧ otherwise.Confined false
  | _, _, .assignment _ _ _ => False
  | _, _, .none => True
  | _, _, .last element => element.Confined false
  | _, _, .more element rest => element.Confined false ∧ rest.Confined false
  | _, _, .noEntry => True
  | _, _, .lastEntry key value => key.Confined false ∧ value.Confined false
  | _, _, .moreEntries key value rest => key.Confined false ∧ value.Confined false ∧ rest.Confined false

end Phrase

/-- The tokens are those of the tree. -/
def Parses (tokens : List Token) (tree : Phrase .expression) : Prop := tokens.map Token.toLexeme = tree.lexemes

/-! ## Texts that are told apart -/

open Brackets

/-- A text that begins otherwise is another one. -/
theorem Lexeme.Scanned.text_ne {kind : TokenKind} {text other : String} (h : Lexeme.Scanned ⟨kind, text⟩)
    (hother : ¬ Lexeme.Scanned ⟨kind, other⟩) : text ≠ other := by
  rintro rfl
  exact hother h

/-! ## Brackets -/

/-- The brackets of one kind. -/
structure Pair where
  opening : String
  closing : String
deriving DecidableEq

def pairs : List Pair := [⟨"(", ")"⟩, ⟨"[", "]"⟩, ⟨"\x7b", "\x7d"⟩]

namespace Pair

def Opens (pair : Pair) (l : Lexeme) : Bool := l.text = pair.opening

def Closes (pair : Pair) (l : Lexeme) : Bool := l.text = pair.closing

variable {pair : Pair}

theorem disjoint (hpair : pair ∈ pairs) (l : Lexeme) (h : pair.Closes l = true) : pair.Opens l = false := by
  have htext : l.text = pair.closing := by simpa [Closes] using h
  unfold Opens
  rw [htext]
  revert hpair
  clear h htext
  intro hpair
  fin_cases hpair <;> decide

/-- Neither an opening nor a closing bracket. -/
def IsPlain (l : Lexeme) : Prop := l.text ∉ ["(", ")", "[", "]", "\x7b", "\x7d"]

instance : DecidablePred IsPlain := fun l => inferInstanceAs (Decidable (l.text ∉ _))

theorem not_bracket (hpair : pair ∈ pairs) {l : Lexeme} (h : IsPlain l) :
    pair.Opens l = false ∧ pair.Closes l = false := by
  have hne : ∀ text ∈ ["(", ")", "[", "]", "\x7b", "\x7d"], l.text ≠ text := by
    intro text htext heq
    exact h (heq ▸ htext)
  constructor
  · fin_cases hpair <;> simp [Opens, hne]
  · fin_cases hpair <;> simp [Closes, hne]

theorem balanced_plain (hpair : pair ∈ pairs) {l : Lexeme} (h : IsPlain l) :
    Balanced pair.Opens pair.Closes [l] := .plain (not_bracket hpair h).1 (not_bracket hpair h).2

theorem balanced_between (hpair : pair ∈ pairs) {other : Pair} (hother : other ∈ pairs) {l : List Lexeme}
    (h : Balanced pair.Opens pair.Closes l) :
    Balanced pair.Opens pair.Closes (mark other.opening :: (l ++ [mark other.closing])) := by
  by_cases heq : pair = other
  · subst heq
    exact .wrap (by simp [Opens, mark]) (by simp [Closes, mark]) h
  · refine .append (.plain (a := mark other.opening) ?_ ?_) (.append h (.plain (a := mark other.closing) ?_ ?_))
    all_goals fin_cases hpair <;> fin_cases hother <;> first | exact absurd rfl heq | decide

end Pair

theorem isPlain_of_scanned {l : Lexeme} (h : l.Scanned) (hkind : l.kind ≠ .punctuation) : Pair.IsPlain l := by
  obtain ⟨kind, text⟩ := l
  intro hmem
  have hmem : text ∈ ["(", ")", "[", "]", "\x7b", "\x7d"] := hmem
  cases kind with
  | punctuation => exact hkind rfl
  | identifier => fin_cases hmem <;> exact absurd h (by decide)
  | number => fin_cases hmem <;> exact absurd h (by decide)
  | string => fin_cases hmem <;> exact absurd h (by decide)
  | operator => fin_cases hmem <;> exact absurd h (by decide)

theorem UnaryOperator.isPlain (operator : UnaryOperator) : Pair.IsPlain operator.lexeme := by
  cases operator <;> decide

theorem BinaryOperator.isPlain (operator : BinaryOperator) : ∀ l ∈ operator.lexemes, Pair.IsPlain l := by
  cases operator with
  | symbol text h =>
    intro l hl
    obtain rfl := List.mem_singleton.mp hl
    fin_cases h <;> decide
  | and | or | «in» | notIn | is | isNot | as => decide

theorem isPlain_assignment (operator : AssignmentOperator) : Pair.IsPlain ⟨.operator, operator⟩ := by
  obtain ⟨text, h⟩ := operator
  fin_cases h <;> decide

namespace Phrase
variable {c : Category} {pair : Pair}

theorem balanced (hpair : pair ∈ pairs) (p : Phrase c) (hscanned : ∀ l ∈ p.lexemes, l.Scanned) :
    Balanced pair.Opens pair.Closes p.lexemes := by
  have hplain : ∀ {l : Lexeme}, Pair.IsPlain l → Balanced pair.Opens pair.Closes [l] :=
    fun h => Pair.balanced_plain hpair h
  have hround : (⟨"(", ")"⟩ : Pair) ∈ pairs := by decide
  have hsquare : (⟨"[", "]"⟩ : Pair) ∈ pairs := by decide
  have hcurly : (⟨"\x7b", "\x7d"⟩ : Pair) ∈ pairs := by decide
  have hcomma : Pair.IsPlain (mark ",") := by decide
  have hcolon : Pair.IsPlain (mark ":") := by decide
  have hdot : Pair.IsPlain (mark ".") := by decide
  induction p with
  | name n => exact hplain (isPlain_of_scanned (hscanned _ List.mem_cons_self) nofun)
  | number text => exact hplain (isPlain_of_scanned (hscanned _ List.mem_cons_self) nofun)
  | string sigil text =>
    refine .append ?_ (hplain (isPlain_of_scanned (hscanned ⟨.string, text⟩ (by simp [lexemes])) nofun))
    rcases sigil with - | sigil
    · exact .nil
    · cases sigil <;> exact hplain (by decide)
  | group inner ih =>
    exact Pair.balanced_between hpair hround (ih fun l hl => hscanned l (by simp [lexemes, hl]))
  | array elements ih =>
    exact Pair.balanced_between hpair hsquare (ih fun l hl => hscanned l (by simp [lexemes, hl]))
  | dictionary entries ih =>
    exact Pair.balanced_between hpair hcurly (ih fun l hl => hscanned l (by simp [lexemes, hl]))
  | member receiver n ih =>
    refine .append (ih fun l hl => hscanned l (by simp [lexemes, hl])) (.append (hplain hdot) (hplain ?_))
    exact isPlain_of_scanned (hscanned ⟨.identifier, n⟩ (by simp [lexemes])) nofun
  | index receiver key ihr ihk =>
    exact .append (ihr fun l hl => hscanned l (by simp [lexemes, hl]))
      (Pair.balanced_between hpair hsquare (ihk fun l hl => hscanned l (by simp [lexemes, hl])))
  | call callee arguments ihc iha =>
    exact .append (ihc fun l hl => hscanned l (by simp [lexemes, hl]))
      (Pair.balanced_between hpair hround (iha fun l hl => hscanned l (by simp [lexemes, hl])))
  | operand o ih => exact ih hscanned
  | unary operator argument ih =>
    exact .append (hplain operator.isPlain) (ih fun l hl => hscanned l (by simp [lexemes, hl]))
  | binary left operator right ihl ihr =>
    refine .append (ihl fun l hl => hscanned l (by simp [lexemes, hl])) (.append ?_ ?_)
    · refine Balanced.of_plain fun l hl => ?_
      have h := operator.isPlain l hl
      exact Pair.not_bracket hpair h
    · exact ihr fun l hl => hscanned l (by simp [lexemes, hl])
  | ternary value condition otherwise ihv ihc iho =>
    refine .append (ihv fun l hl => hscanned l (by simp [lexemes, hl])) (.append (hplain (by decide)) ?_)
    refine .append (ihc fun l hl => hscanned l (by simp [lexemes, hl])) (.append (hplain (by decide)) ?_)
    exact iho fun l hl => hscanned l (by simp [lexemes, hl])
  | assignment target operator value iht ihv =>
    exact .append (iht fun l hl => hscanned l (by simp [lexemes, hl]))
      (.append (hplain (isPlain_assignment operator)) (ihv fun l hl => hscanned l (by simp [lexemes, hl])))
  | none => exact .nil
  | last element ih => exact ih hscanned
  | more element rest ihe ihr =>
    exact .append (ihe fun l hl => hscanned l (by simp [lexemes, hl]))
      (.append (hplain hcomma) (ihr fun l hl => hscanned l (by simp [lexemes, hl])))
  | noEntry => exact .nil
  | lastEntry key value ihk ihv =>
    exact .append (ihk fun l hl => hscanned l (by simp [lexemes, hl]))
      (.append (hplain hcolon) (ihv fun l hl => hscanned l (by simp [lexemes, hl])))
  | moreEntries key value rest ihk ihv ihr =>
    refine .append (ihk fun l hl => hscanned l (by simp [lexemes, hl])) (.append (hplain hcolon) ?_)
    exact .append (ihv fun l hl => hscanned l (by simp [lexemes, hl]))
      (.append (hplain hcomma) (ihr fun l hl => hscanned l (by simp [lexemes, hl])))

/-! ## Literals and numbers -/

section
variable {allowed : Lexeme → Bool}

/-- What may stand among literals or numbers: no mark of a call or a member, no word and no operator but the signs. -/
structure Signs (allowed : Lexeme → Bool) : Prop where
  round : allowed (mark "(") = false
  dot : allowed (mark ".") = false
  letters : ∀ text ∈ words, allowed (word text) = false
  operator : ∀ l : Lexeme, l.kind = .operator → allowed l = true → l.text ∈ operators → l.text ∈ ["+", "-"]

theorem Signs.unary (h : Signs allowed) {operator : UnaryOperator} (ha : allowed operator.lexeme = true) :
    operator.lexeme.text ∈ ["+", "-"] := by
  cases operator with
  | not => cases (h.letters "not" (by decide)).symm.trans ha
  | minus | plus | complement | bang => exact h.operator _ rfl ha (by decide)

theorem Signs.binary (h : Signs allowed) {operator : BinaryOperator}
    (hscanned : ∀ l ∈ operator.lexemes, l.Scanned) (ha : ∀ l ∈ operator.lexemes, allowed l = true) :
    ∀ l ∈ operator.lexemes, l.text ∈ ["+", "-"] := by
  have hword : ∀ text ∈ words, word text ∉ operator.lexemes := by
    intro text htext hmem
    cases (h.letters text htext).symm.trans (ha _ hmem)
  cases operator with
  | symbol text _ =>
    intro l hl
    obtain rfl := List.mem_singleton.mp hl
    exact h.operator _ rfl (ha _ hl) (hscanned _ hl)
  | and => exact absurd List.mem_cons_self (hword "and" (by decide))
  | or => exact absurd List.mem_cons_self (hword "or" (by decide))
  | «in» => exact absurd List.mem_cons_self (hword "in" (by decide))
  | notIn => exact absurd List.mem_cons_self (hword "not" (by decide))
  | is => exact absurd List.mem_cons_self (hword "is" (by decide))
  | isNot => exact absurd List.mem_cons_self (hword "is" (by decide))
  | as => exact absurd List.mem_cons_self (hword "as" (by decide))

end

theorem signs_numeric : Signs isSourceLocalNumeric where
  round := by decide
  dot := by decide
  letters := by decide
  operator := by
    rintro ⟨kind, text⟩ rfl ha hmem
    fin_cases hmem <;> revert ha <;> decide

theorem signs_literal : Signs isSourceLocal where
  round := by decide
  dot := by decide
  letters := by decide
  operator := by
    rintro ⟨kind, text⟩ rfl ha hmem
    fin_cases hmem <;> revert ha <;> decide

theorem isSourceLocalNumeric_name {text : String} (hscanned : Lexeme.Scanned ⟨.identifier, text⟩)
    (h : isSourceLocalNumeric ⟨.identifier, text⟩ = true) : text ∈ ["INF", "NAN", "PI", "TAU"] := by
  have hno : text ∉ [",", "+", "-"] := by
    intro hmem
    fin_cases hmem <;> exact absurd hscanned (by decide)
  simpa [isSourceLocalNumeric, hno] using h

theorem isSourceLocalNumeric_string {text : String} (hscanned : Lexeme.Scanned ⟨.string, text⟩) :
    isSourceLocalNumeric ⟨.string, text⟩ = false := by
  have hno : text ∉ [",", "+", "-"] := by
    intro hmem
    fin_cases hmem <;> exact absurd hscanned (by decide)
  simp [isSourceLocalNumeric, hno]

theorem isSourceLocal_name {text : String} (hscanned : Lexeme.Scanned ⟨.identifier, text⟩)
    (h : isSourceLocal ⟨.identifier, text⟩ = true) : text ∈ ["true", "false", "null"] := by
  have hno : text ∉ [",", ":", "[", "]", "\x7b", "\x7d", "+", "-"] := by
    intro hmem
    fin_cases hmem <;> exact absurd hscanned (by decide)
  simpa [isSourceLocal, isLiteralIdentifier, hno] using h

theorem numeric_of (hc : c ≠ .entries) (p : Phrase c) (hscanned : ∀ l ∈ p.lexemes, l.Scanned)
    (hall : ∀ l ∈ p.lexemes, isSourceLocalNumeric l = true) : p.Numeric := by
  have hno : ∀ {l : Lexeme} {lexemes : List Lexeme}, (∀ l ∈ lexemes, isSourceLocalNumeric l = true) →
      isSourceLocalNumeric l = false → l ∉ lexemes := by
    intro l lexemes h hl hmem
    cases hl.symm.trans (h l hmem)
  induction p with
  | name n => exact isSourceLocalNumeric_name (hscanned _ List.mem_cons_self) (hall _ List.mem_cons_self)
  | number text => exact trivial
  | string sigil text =>
    have hmem : (⟨.string, text⟩ : Lexeme) ∈ lexemes (.string sigil text) := by simp [lexemes]
    exact absurd hmem (hno hall (isSourceLocalNumeric_string (hscanned _ hmem)))
  | group inner _ => exact absurd List.mem_cons_self (hno hall signs_numeric.round)
  | array elements _ => exact absurd List.mem_cons_self (hno hall (by decide))
  | dictionary entries _ => exact absurd List.mem_cons_self (hno hall (by decide))
  | member receiver n _ => exact absurd (by simp [lexemes]) (hno hall signs_numeric.dot)
  | index receiver key _ _ => exact absurd (by simp [lexemes]) (hno (l := mark "[") hall (by decide))
  | call callee arguments _ _ => exact absurd (by simp [lexemes]) (hno hall signs_numeric.round)
  | operand o ih => exact ih nofun hscanned hall
  | unary operator argument ih =>
    exact ⟨signs_numeric.unary (hall _ List.mem_cons_self),
      ih nofun (fun l hl => hscanned l (List.mem_cons_of_mem _ hl)) fun l hl => hall l (List.mem_cons_of_mem _ hl)⟩
  | binary left operator right ihl ihr =>
    refine ⟨signs_numeric.binary (fun l hl => hscanned l (by simp [lexemes, hl])) fun l hl =>
      hall l (by simp [lexemes, hl]), ?_, ?_⟩
    · exact ihl nofun (fun l hl => hscanned l (by simp [lexemes, hl])) fun l hl => hall l (by simp [lexemes, hl])
    · exact ihr nofun (fun l hl => hscanned l (by simp [lexemes, hl])) fun l hl => hall l (by simp [lexemes, hl])
  | ternary value condition otherwise _ _ _ =>
    exact absurd (by simp [lexemes]) (hno hall (signs_numeric.letters "if" (by decide)))
  | assignment target operator value _ _ =>
    have hmem : (⟨.operator, operator⟩ : Lexeme) ∈ lexemes (.assignment target operator value) := by simp [lexemes]
    obtain ⟨text, htext⟩ := operator
    have h := hall _ hmem
    fin_cases htext <;> exact absurd h (by decide)
  | none => exact trivial
  | last element ih => exact ih nofun hscanned hall
  | more element rest ihe ihr =>
    refine ⟨?_, ?_⟩
    · exact ihe nofun (fun l hl => hscanned l (by simp [lexemes, hl])) fun l hl => hall l (by simp [lexemes, hl])
    · exact ihr nofun (fun l hl => hscanned l (by simp [lexemes, hl])) fun l hl => hall l (by simp [lexemes, hl])
  | noEntry | lastEntry | moreEntries => exact absurd rfl hc

/-- What is built of literals is told from its lexemes once it indexes and assigns nothing. -/
theorem literal_of {called : Bool} (p : Phrase c) (hscanned : ∀ l ∈ p.lexemes, l.Scanned)
    (hall : ∀ l ∈ p.lexemes, isSourceLocal l = true) (hconfined : p.Confined called) : p.Literal := by
  have hno : ∀ {l : Lexeme} {lexemes : List Lexeme}, (∀ l ∈ lexemes, isSourceLocal l = true) →
      isSourceLocal l = false → l ∉ lexemes := by
    intro l lexemes h hl hmem
    cases hl.symm.trans (h l hmem)
  induction p generalizing called with
  | name n => exact isSourceLocal_name (hscanned _ List.mem_cons_self) (hall _ List.mem_cons_self)
  | number text => exact trivial
  | string sigil text => exact trivial
  | group inner _ => exact absurd List.mem_cons_self (hno hall signs_literal.round)
  | array elements ih =>
    exact ih (fun l hl => hscanned l (by simp [lexemes, hl])) (fun l hl => hall l (by simp [lexemes, hl])) hconfined
  | dictionary entries ih =>
    exact ih (fun l hl => hscanned l (by simp [lexemes, hl])) (fun l hl => hall l (by simp [lexemes, hl])) hconfined
  | member receiver n _ => exact absurd (by simp [lexemes]) (hno hall signs_literal.dot)
  | index receiver key _ _ => exact hconfined.elim
  | call callee arguments _ _ => exact absurd (by simp [lexemes]) (hno hall signs_literal.round)
  | operand o ih => exact ih hscanned hall hconfined
  | unary operator argument ih =>
    exact ⟨signs_literal.unary (hall _ List.mem_cons_self),
      ih (fun l hl => hscanned l (List.mem_cons_of_mem _ hl)) (fun l hl => hall l (List.mem_cons_of_mem _ hl)) hconfined⟩
  | binary left operator right ihl ihr =>
    obtain ⟨hleft, hright⟩ := hconfined
    refine ⟨signs_literal.binary (fun l hl => hscanned l (by simp [lexemes, hl])) fun l hl =>
      hall l (by simp [lexemes, hl]), ?_, ?_⟩
    · exact ihl (fun l hl => hscanned l (by simp [lexemes, hl])) (fun l hl => hall l (by simp [lexemes, hl])) hleft
    · exact ihr (fun l hl => hscanned l (by simp [lexemes, hl])) (fun l hl => hall l (by simp [lexemes, hl])) hright
  | ternary value condition otherwise _ _ _ =>
    exact absurd (by simp [lexemes]) (hno hall (signs_literal.letters "if" (by decide)))
  | assignment target operator value _ _ => exact hconfined.elim
  | none => exact trivial
  | last element ih => exact ih hscanned hall hconfined
  | more element rest ihe ihr =>
    obtain ⟨helement, hrest⟩ := hconfined
    refine ⟨?_, ?_⟩
    · exact ihe (fun l hl => hscanned l (by simp [lexemes, hl])) (fun l hl => hall l (by simp [lexemes, hl])) helement
    · exact ihr (fun l hl => hscanned l (by simp [lexemes, hl])) (fun l hl => hall l (by simp [lexemes, hl])) hrest
  | noEntry => exact trivial
  | lastEntry key value ihk ihv =>
    obtain ⟨hkey, hvalue⟩ := hconfined
    refine ⟨?_, ?_⟩
    · exact ihk (fun l hl => hscanned l (by simp [lexemes, hl])) (fun l hl => hall l (by simp [lexemes, hl])) hkey
    · exact ihv (fun l hl => hscanned l (by simp [lexemes, hl])) (fun l hl => hall l (by simp [lexemes, hl])) hvalue
  | moreEntries key value rest ihk ihv ihr =>
    obtain ⟨hkey, hvalue, hrest⟩ := hconfined
    refine ⟨?_, ?_, ?_⟩
    · exact ihk (fun l hl => hscanned l (by simp [lexemes, hl])) (fun l hl => hall l (by simp [lexemes, hl])) hkey
    · exact ihv (fun l hl => hscanned l (by simp [lexemes, hl])) (fun l hl => hall l (by simp [lexemes, hl])) hvalue
    · exact ihr (fun l hl => hscanned l (by simp [lexemes, hl])) (fun l hl => hall l (by simp [lexemes, hl])) hrest

/-! ## The last lexeme of an operand -/

def final : Phrase .operand → Lexeme
  | .name n => word n
  | .number text => ⟨.number, text⟩
  | .string _ text => ⟨.string, text⟩
  | .group _ => mark ")"
  | .array _ => mark "]"
  | .dictionary _ => mark "\x7d"
  | .member _ n => word n
  | .index _ _ => mark "]"
  | .call _ _ => mark ")"

theorem exists_init (o : Phrase .operand) : ∃ init, o.lexemes = init ++ [o.final] := by
  cases o with
  | name n => exact ⟨[], rfl⟩
  | number text => exact ⟨[], rfl⟩
  | string sigil text => exact ⟨_, rfl⟩
  | group inner => exact ⟨mark "(" :: inner.lexemes, rfl⟩
  | array elements => exact ⟨mark "[" :: elements.lexemes, rfl⟩
  | dictionary entries => exact ⟨mark "\x7b" :: entries.lexemes, rfl⟩
  | member receiver n => exact ⟨receiver.lexemes ++ [mark "."], by simp [lexemes, final, word]⟩
  | index receiver key => exact ⟨receiver.lexemes ++ mark "[" :: key.lexemes, by simp [lexemes, final]⟩
  | call callee arguments => exact ⟨callee.lexemes ++ mark "(" :: arguments.lexemes, by simp [lexemes, final]⟩

theorem operand_ne_nil (o : Phrase .operand) : o.lexemes ≠ [] := by
  obtain ⟨init, h⟩ := o.exists_init
  simp [h]

theorem expression_ne_nil (e : Phrase .expression) : e.lexemes ≠ [] := by
  cases e with
  | operand o => exact o.operand_ne_nil
  | unary operator argument => simp [lexemes]
  | binary left operator right => cases operator <;> simp [lexemes, BinaryOperator.lexemes]
  | ternary value condition otherwise => simp [lexemes]
  | assignment target operator value => simp [lexemes]

theorem eq_none_of {arguments : Phrase .elements} (h : arguments.lexemes = []) : arguments = .none := by
  cases arguments with
  | none => rfl
  | last element => exact absurd h element.expression_ne_nil
  | more element rest => simp [lexemes] at h

/-- The only argument that is written as one string is a string literal. -/
theorem isString_of {arguments : Phrase .elements} {text : String}
    (h : arguments.lexemes = [⟨.string, text⟩]) : arguments.IsString := by
  have hpos : ∀ e : Phrase .expression, 0 < e.lexemes.length := fun e => List.length_pos_iff.mpr e.expression_ne_nil
  have hlen := congrArg List.length h
  cases arguments with
  | none => cases h
  | more element rest =>
    have := hpos element
    simp only [lexemes, List.length_append, List.length_cons, List.length_nil] at hlen
    omega
  | last e =>
    cases e with
    | operand o =>
      obtain ⟨init, hinit⟩ := o.exists_init
      have h : o.lexemes = [] ++ [⟨.string, text⟩] := h
      obtain ⟨hnil, hfinal⟩ := List.append_inj' (hinit.symm.trans h) rfl
      cases o with
      | string sigil body =>
        cases sigil with
        | none =>
          obtain rfl : body = text := by simpa [final] using hfinal
          exact ⟨body, rfl⟩
        | some sigil => simp [lexemes] at h
      | name | number | group | array | dictionary | member | index | call => simp [final, word, mark] at hfinal
    | unary operator argument =>
      have := hpos argument
      simp only [lexemes, List.length_cons, List.length_nil] at hlen
      omega
    | binary left operator right =>
      have hleft := hpos left
      have hright := hpos right
      simp only [lexemes, List.length_append, List.length_cons, List.length_nil] at hlen
      omega
    | ternary value condition otherwise =>
      have := hpos value
      simp only [lexemes, List.length_append, List.length_cons, List.length_nil] at hlen
      omega
    | assignment target operator value =>
      have := hpos target
      simp only [lexemes, List.length_append, List.length_cons, List.length_nil] at hlen
      omega

end Phrase
end Didi.Expression
