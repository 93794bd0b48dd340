import Didi.Config.Strings

/-!
# The header of a text resource, and its tags

* `resourceHeaderRange` : the tag that opens a scene or a resource, to the bracket that closes it;
* `decodeUid` : the uid that a quoted text spells;
* `inspectTextResourceUidHeader` : the uid of the tag;
* `Token`, `Value`, `Field` : what a tag holds, and how each is written;
* `Tag` : the tag that opens a scene or a resource, with what comes before it;
* `Tag.uid` : the uid that its last field of that name spells.

A position is the text from there on, and a limit is the end of that text.

A string is a list of pieces, so it holds no quote that ends it early and no escape that is cut short. A word
that runs on into the next name would be one with it, so something stands between them (`Apart`).
-/

namespace Didi.Resource
open Config (Text isSpace isIdentifierStart isIdentifierChar hexValue withoutMark)

/-! ## Blanks and comments -/

/-- The text after its blanks and comments; `commented` inside a comment. -/
def skipFrom : Text → Bool → Text
  | [], _ => []
  | c :: rest, true => skipFrom rest (c ≠ '\n')
  | c :: rest, false =>
    if isSpace c then skipFrom rest false
    else if c = ';' then skipFrom rest true
    else c :: rest

def skipSpaceAndComments (text : Text) : Text := skipFrom text false

/-! ## The range of the header -/

/-- How far through the header the walk is. -/
structure EndWalk where
  commented : Bool := false
  quoted : Bool := false
  escaped : Bool := false
  nested : Nat := 0

/-- What follows the bracket that closes the tag. -/
def headerEnd : Text → EndWalk → Option Text
  | [], _ => none
  | c :: rest, w =>
    if w.commented then headerEnd rest { w with commented := c ≠ '\n' }
    else if w.escaped then headerEnd rest { w with escaped := false }
    else if w.quoted && c = '\\' then headerEnd rest { w with escaped := true }
    else if !w.quoted && c = ';' then headerEnd rest { w with commented := true }
    else
      let w := if c = '"' then { w with quoted := !w.quoted } else w
      if !w.quoted && c = '[' then headerEnd rest { w with nested := w.nested + 1 }
      else if !w.quoted && c = ']' then
        if w.nested ≠ 0 then headerEnd rest { w with nested := w.nested - 1 } else some rest
      else headerEnd rest w

example : headerEnd (skipSpaceAndComments "; ]\n ] text".toList) {} = some " text".toList := by
  simp [skipSpaceAndComments, skipFrom, headerEnd, isSpace]

inductive HeaderRange
  | absent
  | unfinished
  | range (header : Text)

def isResourceTag (name : Text) : Bool := name = "gd_resource".toList || name = "gd_scene".toList

/-- What may follow the name of the tag. -/
def endsName (text : Text) : Bool :=
  match text with
  | [] => true
  | c :: _ => isSpace c || c = ';' || c = ']'

/-- Only the opening tag owns this resource's uid. A comment that does not end leaves no tag. -/
def resourceHeaderRange (text : Text) : HeaderRange :=
  match skipSpaceAndComments (withoutMark text) with
  | '[' :: rest =>
    let name := (skipSpaceAndComments rest).takeWhile isIdentifierChar
    let afterName := (skipSpaceAndComments rest).dropWhile isIdentifierChar
    if !isResourceTag name || !endsName afterName then .absent
    else
      match headerEnd afterName {} with
      | none => .unfinished
      | some after => .range (('[' :: rest).take (('[' :: rest).length - after.length))
  | _ => .absent

/-! ## Uids -/

/-- What is inside the quotes, from just past the first, and what follows the other. -/
def quotedEnd : Text → Option (Text × Text)
  | [] => none
  | c :: rest =>
    if c = '\\' then
      match rest with
      | [] => none
      | d :: rest => (quotedEnd rest).map fun (content, after) => (c :: d :: content, after)
    else if c = '"' then some ([], rest)
    else (quotedEnd rest).map fun (content, after) => (c :: content, after)

/-- The scheme, and then lower-case letters and digits. -/
def isResourceUidText (text : Text) : Bool :=
  "uid://".toList.length < text.length && "uid://".toList.isPrefixOf text &&
    (text.drop "uid://".toList.length).all fun c => ('a' ≤ c && c ≤ 'z') || ('0' ≤ c && c ≤ '9')

/-- The number that hexadecimal digits spell. -/
def hexNumber (digits : Text) : Option Nat :=
  digits.foldlM (fun unit digit => (hexValue digit).map fun value => unit * 16 + value) 0

/-- A uid cannot contain a character that is not ASCII. -/
def pushAscii (unit : Nat) (value : Option Text) : Option Text :=
  if 127 < unit then none else value.map (Char.ofNat unit :: ·)

/-- The characters of a quoted text, after the `skip` that an escape has read. -/
def decodeCharacters : Text → Nat → Option Text
  | [], _ => some []
  | _ :: rest, skip + 1 => decodeCharacters rest skip
  | c :: rest, 0 =>
    if c ≠ '\\' then pushAscii c.toNat (decodeCharacters rest 0)
    else
      match rest with
      | [] => none
      | next :: rest =>
        if next = 'u' || next = 'U' then
          let width := if next = 'u' then 4 else 6
          if rest.length < width then none
          else (hexNumber (rest.take width)).bind fun unit => pushAscii unit (decodeCharacters rest width)
        else if ['b', 't', 'n', 'f', 'r'].contains next then none
        else pushAscii next.toNat (decodeCharacters rest 0)

/-- The uid that a quoted text spells, or nothing. -/
def decodeUid (content : Text) : Text :=
  match decodeCharacters content 0 with
  | some value => if isResourceUidText value then value else []
  | none => []

/-! ## The uid of the header -/

/-- A name may be marked as one before its quote. -/
def skipNameMark : Text → Text
  | '&' :: rest => rest
  | '@' :: rest => rest
  | text => text

/-- The uid of the last field of that name, `uid` before this text. -/
def scanUid : Nat → Text → Text → Text
  | 0, _, uid => uid
  | fuel + 1, text, uid =>
    match skipSpaceAndComments text with
    | [] => uid
    | c :: rest =>
      if c = '"' then
        match quotedEnd rest with
        | none => uid
        | some (_, rest) => scanUid fuel rest uid
      else if !isIdentifierStart c then scanUid fuel rest uid
      else if c :: rest.takeWhile isIdentifierChar ≠ "uid".toList then
        scanUid fuel (rest.dropWhile isIdentifierChar) uid
      else
        match skipSpaceAndComments (rest.dropWhile isIdentifierChar) with
        | '=' :: rest =>
          match skipNameMark (skipSpaceAndComments rest) with
          | '"' :: rest =>
            match quotedEnd rest with
            | none => []
            | some (content, rest) => scanUid fuel rest (decodeUid content)
          | text => scanUid fuel text []
        | text => scanUid fuel text uid

structure ResourceUidHeader where
  isMatched : Bool := false
  complete : Bool := false
  uid : Text := []
  deriving DecidableEq

/-- The scan takes a step for every character at most. -/
def inspectTextResourceUidHeader (text : Text) : ResourceUidHeader :=
  match resourceHeaderRange text with
  | .absent => {}
  | .unfinished => { isMatched := true }
  | .range header => { isMatched := true, complete := true, uid := scanUid header.length (header.drop 1) [] }

/-! ## What stands between -/

inductive Separator
  | blank (c : Char) (h : isSpace c = true)
  | comment (text : Text) (h : '\n' ∉ text)

def Separator.render : Separator → Text
  | .blank c _ => [c]
  | .comment text _ => ';' :: text ++ ['\n']

abbrev Gap := List Separator

def Gap.render (gap : Gap) : Text := gap.flatMap Separator.render

/-! ## Strings -/

inductive StringPiece
  | char (c : Char) (h : c ≠ '"' ∧ c ≠ '\\')
  | escape (c : Char) (h : c ≠ 'u' ∧ c ≠ 'U')
  | unit (long : Bool) (digits : Text)
      (h : digits.length = (if long then 6 else 4) ∧ ∀ d ∈ digits, (hexValue d).isSome = true)

namespace StringPiece

def render : StringPiece → Text
  | .char c _ => [c]
  | .escape c _ => ['\\', c]
  | .unit long digits _ => '\\' :: (if long then 'U' else 'u') :: digits

/-- The character that a piece stands for. -/
def character : StringPiece → Char
  | .char c _ => c
  | .escape c _ =>
    if c = 'b' then '\x08'
    else if c = 't' then '\t'
    else if c = 'n' then '\n'
    else if c = 'f' then '\x0c'
    else if c = 'r' then '\r'
    else c
  | .unit _ digits _ => Char.ofNat (digits.foldl (fun unit d => unit * 16 + (hexValue d).getD 0) 0)

end StringPiece

abbrev StringBody := List StringPiece

def StringBody.render (body : StringBody) : Text := body.flatMap StringPiece.render

def quoted (body : StringBody) : Text := '"' :: body.render ++ ['"']

/-! ## Values -/

/-- A character that stands for itself outside strings. -/
def isLoose (c : Char) : Bool :=
  !isSpace c && !([';', '"', '=', '[', ']', '(', ')', '\x7b', '\x7d'].contains c)

inductive Bracket
  | square
  | round
  | curly

def Bracket.opener : Bracket → Char
  | .square => '['
  | .round => '('
  | .curly => '\x7b'

def Bracket.closer : Bracket → Char
  | .square => ']'
  | .round => ')'
  | .curly => '\x7d'

inductive Token
  | separator (s : Separator)
  | loose (c : Char) (h : isLoose c = true)
  | string (body : StringBody)
  | group (bracket : Bracket) (inner : List Token)

mutual

def Token.render : Token → Text
  | .separator s => s.render
  | .loose c _ => [c]
  | .string body => quoted body
  | .group bracket inner => bracket.opener :: renderTokens inner ++ [bracket.closer]

def renderTokens : List Token → Text
  | [] => []
  | token :: tokens => token.render ++ renderTokens tokens

end

/-- A token that a value other than a string begins with. -/
def Token.begins : Token → Bool
  | .loose c _ => c ≠ '&' && c ≠ '@'
  | .group _ _ => true
  | _ => false

/-- A string, which may be marked as a name, or a constant, a constructor or a collection. -/
inductive Value
  | string (mark : Option Bool) (body : StringBody)
  | tokens (first : Token) (rest : List Token) (h : first.begins = true)

namespace Value

def render : Value → Text
  | .string mark body => (mark.map fun old => if old then '@' else '&').toList ++ quoted body
  | .tokens first rest _ => first.render ++ renderTokens rest

/-- The uid that a value spells, or nothing. -/
def uid : Value → Text
  | .string _ body => if isResourceUidText (body.map StringPiece.character) then body.map StringPiece.character else []
  | .tokens _ _ _ => []

end Value

/-! ## Tags -/

def IsName (name : Text) : Prop :=
  ∃ c rest, name = c :: rest ∧ isIdentifierStart c = true ∧ ∀ d ∈ rest, isIdentifierChar d = true

structure Field where
  before : Gap
  name : Text
  isName : IsName name
  beforeEquals : Gap
  afterEquals : Gap
  value : Value

def Field.render (field : Field) : Text :=
  field.before.render ++ field.name ++ field.beforeEquals.render ++ '=' :: field.afterEquals.render ++ field.value.render

/-- Whether a word that a letter begins runs to the end of a text. -/
def endsInWord (text : Text) : Bool :=
  text.foldl (fun word c => if isIdentifierChar c then word || isIdentifierStart c else false) false

/-- No name runs on from a word before it. -/
def Apart : Bool → List Field → Prop
  | _, [] => True
  | word, field :: fields => (word = true → field.before ≠ []) ∧ Apart (endsInWord field.value.render) fields

/-- The tag that opens a scene or a resource, with what comes before it. -/
structure Tag where
  mark : Bool
  lead : Gap
  opened : Gap
  scene : Bool
  fields : List Field
  apart : Apart true fields
  closing : Gap

namespace Tag

def name (tag : Tag) : Text := if tag.scene then "gd_scene".toList else "gd_resource".toList

/-- What follows the name. -/
def body (tag : Tag) : Text := tag.fields.flatMap Field.render ++ tag.closing.render

def render (tag : Tag) : Text :=
  (if tag.mark then Config.kByteOrderMark else []) ++ tag.lead.render ++
    '[' :: tag.opened.render ++ tag.name ++ tag.body ++ [']']

/-- The last field named `uid` is the one that counts. -/
def uid (tag : Tag) : Text :=
  (((tag.fields.filter fun field => field.name = "uid".toList).getLast?).map fun field => field.value.uid).getD []

end Tag

end Didi.Resource
