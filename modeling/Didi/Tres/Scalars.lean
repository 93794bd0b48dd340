import Didi.Config.Rendered
import Didi.Tres.Literal

/-!
# The scalars of a literal

* `readScalars` : the strings, numbers and words of a literal, where its brackets match and no line breaks in it;
* `Lexes` : a piece that is read as these scalars, whatever stands behind it;
* `lexes_bracketed`, `lexes_call`, `lexes_entry`, `lexes_reference` : the pieces of a literal.

The name of a constructor, the key of a dictionary and the id of a reference are no scalars.
-/

namespace Didi.Tres
open Config (Text bytesOf commaSeparated isOpener isCloser isPlain isIdentifierChar)
variable {scalars : List Text}

/-! ## Reading -/

inductive Mode
  /-- Behind the bracket of a reference, where an id stands. -/
  | argument
  | between
  | word (read : Text)
  | string (read : Text) (escaped kept : Bool)
  | ended (read : Text) (kept : Bool)

def pairs (opener closer : Char) : Bool :=
  (opener = '(' && closer = ')') || (opener = '[' && closer = ']') || (opener = '\x7b' && closer = '\x7d')

/-- What a character begins outside strings and words, and the brackets that are open behind it. -/
def enter (c : Char) (opened : List Char) (kept : Bool) : Option (List Char × Mode) :=
  if c = '\n' || c = '\r' then none
  else if isOpener c then some (c :: opened, .between)
  else if isCloser c then
    match opened with
    | [] => none
    | opener :: opened => if pairs opener c then some (opened, .between) else none
  else if c = '"' then some (opened, .string ['"'] false kept)
  else if isPlain c then some (opened, .word [c])
  else some (opened, .between)

def isReference (name : Text) : Bool := name = "ExtResource".toList || name = "SubResource".toList

/-- The scalars from here on, with these brackets open. -/
def readScalars : Text → List Char → Mode → Option (List Text)
  | [], _ :: _, _ => none
  | [], [], .argument => some []
  | [], [], .between => some []
  | [], [], .word read => some [read]
  | [], [], .string _ _ _ => none
  | [], [], .ended read kept => some (if kept then [read] else [])
  | c :: rest, opened, .argument => do
    let (opened, mode) ← enter c opened false
    readScalars rest opened mode
  | c :: rest, opened, .between => do
    let (opened, mode) ← enter c opened true
    readScalars rest opened mode
  | c :: rest, opened, .word read =>
    if isPlain c then readScalars rest opened (.word (read ++ [c]))
    else if c = '(' then readScalars rest ('(' :: opened) (if isReference read then .argument else .between)
    else do
      let (opened, mode) ← enter c opened true
      return read :: (← readScalars rest opened mode)
  | c :: rest, opened, .string read escaped kept =>
    if escaped then readScalars rest opened (.string (read ++ [c]) false kept)
    else if c = '\\' then readScalars rest opened (.string (read ++ [c]) true kept)
    else if c = '"' then readScalars rest opened (.ended (read ++ [c]) kept)
    else readScalars rest opened (.string (read ++ [c]) false kept)
  | c :: rest, opened, .ended read kept =>
    if c = ':' then readScalars rest opened .between
    else do
      let (opened, mode) ← enter c opened true
      return (if kept then [read] else []) ++ (← readScalars rest opened mode)

def scalarsOf (literal : Text) : Option (List Text) := readScalars literal [] .between

example : scalarsOf [] = some [] := by rw [scalarsOf, readScalars]

/-! ## Pieces -/

/-- What may follow a value. -/
def Ends (rest : Text) : Prop := ∀ c, rest.head? = some c → c = ',' ∨ c = ')' ∨ c = ']' ∨ c = '\x7d'

/-- A piece that is read as these scalars. -/
def Lexes (piece : Text) (scalars : List Text) : Prop := ∀ rest opened, Ends rest →
  readScalars (piece ++ rest) opened .between = (readScalars rest opened .between).map (scalars ++ ·)

theorem Lexes.scalarsOf {literal : Text} (h : Lexes literal scalars) :
    scalarsOf literal = some scalars := by
  have hread := h [] [] (by simp [Ends])
  rw [List.append_nil] at hread
  rw [Tres.scalarsOf, hread]
  simp [readScalars]

theorem lexes_nil : Lexes [] [] := by
  intro rest opened _
  rw [List.nil_append]
  exact (congrFun Option.map_id _).symm

section Steps
variable {c : Char} {rest : Text} {opened : List Char}

theorem readScalars_between : readScalars (c :: rest) opened .between =
    (enter c opened true).bind fun (opened, mode) => readScalars rest opened mode := by
  rw [readScalars]
  rfl

/-- A character that stands for itself is passed over. -/
theorem readScalars_mark (h : c ∈ [',', ':', ' ', '&']) :
    readScalars (c :: rest) opened .between = readScalars rest opened .between := by
  rw [readScalars_between]
  have hbegin : enter c opened true = some (opened, .between) := by
    fin_cases h <;> rfl
  rw [hbegin]
  rfl

theorem readScalars_opener (h : isOpener c = true) :
    readScalars (c :: rest) opened .between = readScalars rest (c :: opened) .between := by
  have hmem : c ∈ ['[', '\x7b', '('] := by simpa [isOpener, or_assoc] using h
  rw [readScalars_between]
  have hbegin : enter c opened true = some (c :: opened, .between) := by
    fin_cases hmem <;> rfl
  rw [hbegin]
  rfl

theorem readScalars_closer {opener : Char} (h : pairs opener c = true) :
    readScalars (c :: rest) (opener :: opened) .between = readScalars rest opened .between := by
  have hmem : c ∈ [')', ']', '\x7d'] := by
    simp only [pairs, Bool.or_eq_true, Bool.and_eq_true, decide_eq_true_eq] at h
    rcases h with (⟨-, rfl⟩ | ⟨-, rfl⟩) | ⟨-, rfl⟩ <;> simp
  have hbegin : enter c (opener :: opened) true = some (opened, .between) := by
    unfold enter
    have hcases : (c = '\n' || c = '\r') = false ∧ isOpener c = false ∧ isCloser c = true := by
      fin_cases hmem <;> decide
    rw [hcases.1, hcases.2.1, hcases.2.2, if_neg (by simp), if_neg (by simp), if_pos rfl]
    exact if_pos h
  rw [readScalars_between, hbegin]
  rfl

theorem Ends.cases (h : Ends rest) :
    rest = [] ∨ ∃ c t, rest = c :: t ∧ c ∈ [',', ')', ']', '\x7d'] := by
  cases rest with
  | nil => exact .inl rfl
  | cons c t => exact .inr ⟨c, t, rfl, by simpa using h c rfl⟩

/-- A word ends where a value may end. -/
theorem readScalars_word (read : Text) (h : Ends rest) :
    readScalars rest opened (.word read) = (readScalars rest opened .between).map ([read] ++ ·) := by
  rcases h.cases with rfl | ⟨c, t, rfl, hc⟩
  · cases opened with
    | nil => rfl
    | cons opener opened => rfl
  · have hplain : isPlain c = false ∧ c ≠ '(' := by
      fin_cases hc <;> decide
    rw [readScalars_between, readScalars, if_neg (by simp [hplain.1]), if_neg hplain.2]
    cases hbegin : enter c opened true with
    | none => rfl
    | some next =>
      show (readScalars t next.1 next.2).bind _ = (readScalars t next.1 next.2).map _
      cases readScalars t next.1 next.2 with
      | none => rfl
      | some scalars => rfl

theorem readScalars_ended (read : Text) (kept : Bool) (h : Ends rest) :
    readScalars rest opened (.ended read kept) =
      (readScalars rest opened .between).map ((if kept then [read] else []) ++ ·) := by
  rcases h.cases with rfl | ⟨c, t, rfl, hc⟩
  · cases opened with
    | nil =>
      cases kept with
      | false => rfl
      | true => rfl
    | cons opener opened => rfl
  · have hcolon : c ≠ ':' := by
      rintro rfl
      exact absurd hc (by decide)
    rw [readScalars_between, readScalars, if_neg hcolon]
    cases hbegin : enter c opened true with
    | none => rfl
    | some next =>
      show (readScalars t next.1 next.2).bind _ = (readScalars t next.1 next.2).map _
      cases readScalars t next.1 next.2 with
      | none => rfl
      | some scalars => rfl

/-- A string with a colon behind it is a key. -/
theorem readScalars_key (read : Text) (kept : Bool) :
    readScalars (':' :: rest) opened (.ended read kept) = readScalars rest opened .between := by
  rw [readScalars, if_pos rfl]

/-- The characters of a word are read up to what is not one. -/
theorem readScalars_plain {word : Text} (h : ∀ c ∈ word, isPlain c = true) (read : Text) :
    readScalars (word ++ rest) opened (.word read) = readScalars rest opened (.word (read ++ word)) := by
  induction word generalizing read with
  | nil => rw [List.nil_append, List.append_nil]
  | cons c word ih =>
    rw [List.cons_append, readScalars, if_pos (h c List.mem_cons_self),
      ih (fun d hd => h d (List.mem_cons_of_mem c hd)), List.append_assoc, List.singleton_append]

theorem readScalars_startWord (h : isPlain c = true) :
    readScalars (c :: rest) opened .between = readScalars rest opened (.word [c]) := by
  have hne : ∀ d, isPlain d = false → c ≠ d := fun d => Config.ne_of_isPlain h
  have hinert := Config.inert_of_isPlain h
  have hbegin : enter c opened true = some (opened, .word [c]) := by
    unfold enter
    rw [if_neg (by simp [hne '\n' (by decide), hne '\r' (by decide)]), if_neg (by simp [hinert.opener]),
      if_neg (by simp [hinert.closer]), if_neg hinert.quote, if_pos h]
  rw [readScalars_between, hbegin]
  rfl

/-- An escaped text is read to its quote. -/
theorem readScalars_escaped (text read : Text) (kept : Bool) :
    readScalars (escapeTresString text ++ '"' :: rest) opened (.string read false kept) =
      readScalars rest opened (.ended (read ++ escapeTresString text ++ ['"']) kept) := by
  unfold escapeTresString
  induction text generalizing read with
  | nil =>
    rw [show Config.escapeSettingString [] = [] from rfl, List.nil_append, readScalars, if_neg (by simp),
      if_neg (by decide), if_pos rfl, List.append_nil]
  | cons c text ih =>
    have hescape : ∀ d, readScalars (['\\', d] ++ (Config.escapeSettingString text ++ '"' :: rest)) opened
        (.string read false kept) = readScalars rest opened
          (.ended (read ++ (['\\', d] ++ Config.escapeSettingString text) ++ ['"']) kept) := by
      intro d
      rw [List.cons_append, List.singleton_append, readScalars, if_neg (by simp), if_pos rfl, readScalars, if_pos rfl,
        ih]
      simp
    have hcons : Config.escapeSettingString (c :: text) = Config.escapeSettingString [c] ++
        Config.escapeSettingString text := by
      rw [Config.escapeSettingString, List.flatMap_cons]
      simp [Config.escapeSettingString]
    have hsingle : (∃ d, Config.escapeSettingString [c] = ['\\', d]) ∨
        Config.escapeSettingString [c] = [c] ∧ c ≠ '\\' ∧ c ≠ '"' := by
      simp only [Config.escapeSettingString, List.flatMap_cons, List.flatMap_nil, List.append_nil]
      split_ifs with hbackslash hquote
      · exact .inl ⟨_, rfl⟩
      · exact .inl ⟨_, rfl⟩
      · exact .inl ⟨_, rfl⟩
      · exact .inl ⟨_, rfl⟩
      · exact .inl ⟨_, rfl⟩
      · exact .inr ⟨rfl, hbackslash, hquote⟩
    rw [hcons, List.append_assoc]
    rcases hsingle with ⟨d, hd⟩ | ⟨hd, hbackslash, hquote⟩
    · rw [hd]
      exact hescape d
    · rw [hd, List.singleton_append, readScalars, if_neg (by simp), if_neg hbackslash, if_neg hquote, ih]
      simp

end Steps

/-! ### Scalars -/

theorem lexes_quoted (s : String) : Lexes (quotedTres s) [quotedTres s] := by
  intro rest opened hends
  have hquoted : quotedTres s ++ rest = '"' :: (escapeTresString (bytesOf s) ++ '"' :: rest) := by simp [quotedTres]
  rw [hquoted, readScalars_between]
  show readScalars _ opened (.string ['"'] false true) = _
  rw [readScalars_escaped, readScalars_ended _ _ hends]
  rfl

theorem lexes_plain {word : Text} (hne : word ≠ []) (h : ∀ c ∈ word, isPlain c = true) : Lexes word [word] := by
  intro rest opened hends
  obtain ⟨c, word, rfl⟩ := List.exists_cons_of_ne_nil hne
  rw [List.cons_append, readScalars_startWord (h c List.mem_cons_self),
    readScalars_plain (fun d hd => h d (List.mem_cons_of_mem c hd)), readScalars_word _ hends]
  rfl

theorem lexes_numeral {text : Text} (h : Config.Numeral text) : Lexes text [text] := by
  obtain ⟨c, rest, rfl, -⟩ := h.first
  exact lexes_plain (List.cons_ne_nil c rest) h.plain

/-! ### Collections -/

theorem lexes_marked {c : Char} (h : c ∈ [',', ':', ' ', '&']) {piece : Text}
    (hpiece : Lexes piece scalars) : Lexes (c :: piece) scalars := by
  intro rest opened hends
  rw [List.cons_append, readScalars_mark h, hpiece rest opened hends]

/-- The scalars of a list of pieces are those of the pieces in order. -/
theorem lexes_commaSeparated {pieces : List Text} {scalars : List (List Text)}
    (h : List.Forall₂ Lexes pieces scalars) : Lexes (commaSeparated pieces) scalars.flatten := by
  induction h with
  | nil => exact lexes_nil
  | @cons piece own pieces others hpiece hrest ih =>
    cases hrest with
    | nil =>
      rw [List.flatten_cons, List.flatten_nil, List.append_nil]
      exact hpiece
    | @cons piece' own' pieces others hpiece' hrest =>
      intro rest opened hends
      have hcomma : commaSeparated (piece :: piece' :: pieces) ++ rest =
          piece ++ ',' :: ' ' :: (commaSeparated (piece' :: pieces) ++ rest) := by
        simp [commaSeparated]
      rw [hcomma, hpiece _ opened (by simp [Ends]), readScalars_mark (by simp), readScalars_mark (by simp),
        ih rest opened hends, Option.map_map]
      congr 1
      funext after
      simp

theorem lexes_bracketed {opener closer : Char} (hopener : isOpener opener = true) (hpairs : pairs opener closer = true)
    (hcloser : closer = ')' ∨ closer =
    ']' ∨ closer = '\x7d') {inner : Text} (h : Lexes inner scalars) : Lexes (opener :: inner ++ [closer]) scalars := by
  intro rest opened _
  have hpiece : opener :: inner ++ [closer] ++ rest = opener :: (inner ++ closer :: rest) := by simp
  have hends : Ends (closer :: rest) := by
    intro c hc
    obtain rfl : closer = c := by simpa using hc
    exact .inr hcloser
  rw [hpiece, readScalars_opener hopener, h _ _ hends, readScalars_closer hpairs]

/-- A constructor holds the scalars of its arguments. -/
theorem lexes_call {name : Text} (hne : name ≠ []) (hname : ∀ c ∈ name, isPlain c = true)
    (hreference : isReference name = false) {inner : Text} (h : Lexes inner scalars) :
    Lexes (name ++ '(' :: inner ++ [')']) scalars := by
  intro rest opened _
  obtain ⟨c, name, rfl⟩ := List.exists_cons_of_ne_nil hne
  have hpiece : c :: name ++ '(' :: inner ++ [')'] ++ rest = c :: (name ++ '(' :: (inner ++ ')' :: rest)) := by simp
  rw [hpiece, readScalars_startWord (hname c List.mem_cons_self),
    readScalars_plain (fun d hd => hname d (List.mem_cons_of_mem c hd)), readScalars, if_neg (by decide), if_pos rfl,
    List.singleton_append, hreference, if_neg (by simp), h _ _ (by simp [Ends]), readScalars_closer rfl]

/-- A reference holds no scalar. -/
theorem lexes_reference {name id : Text} (hne : name ≠ []) (hname : ∀ c ∈ name, isPlain c = true)
    (hreference : isReference name = true) (hid : escapeTresString id = id) :
    Lexes (name ++ "(\"".toList ++ id ++ "\")".toList) [] := by
  intro rest opened _
  obtain ⟨c, name, rfl⟩ := List.exists_cons_of_ne_nil hne
  have hpiece : c :: name ++ "(\"".toList ++ id ++ "\")".toList ++ rest =
      c :: (name ++ '(' :: '"' :: (escapeTresString id ++ '"' :: ')' :: rest)) := by
    rw [hid, show "(\"".toList = ['(', '"'] from by decide, show "\")".toList = ['"', ')'] from by decide]
    simp
  rw [hpiece, readScalars_startWord (hname c List.mem_cons_self),
    readScalars_plain (fun d hd => hname d (List.mem_cons_of_mem c hd)), readScalars, if_neg (by decide), if_pos rfl,
    List.singleton_append, hreference, if_pos rfl]
  have hargument : readScalars ('"' :: (escapeTresString id ++ '"' :: ')' :: rest)) ('(' :: opened) .argument =
      readScalars (escapeTresString id ++ '"' :: ')' :: rest) ('(' :: opened) (.string ['"'] false false) := by
    rw [readScalars]
    rfl
  rw [hargument, readScalars_escaped, readScalars_ended _ _ (by simp [Ends]), readScalars_closer rfl]
  rfl

/-- An entry of a dictionary holds the scalars of its value. -/
theorem lexes_entry (key : String) {literal : Text} (h : Lexes literal scalars) :
    Lexes (entryText key literal) scalars := by
  intro rest opened hends
  have hentry : entryText key literal ++ rest =
      '"' :: (escapeTresString (bytesOf key) ++ '"' :: ':' :: ' ' :: (literal ++ rest)) := by
    simp [entryText, quotedTres]
  rw [hentry, readScalars_between]
  show readScalars _ opened (.string ['"'] false true) = _
  rw [readScalars_escaped, readScalars_key, readScalars_mark (by simp), h rest opened hends]

end Didi.Tres
