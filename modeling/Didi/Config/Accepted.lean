import Mathlib.Tactic.FinCases
import Mathlib.Tactic.IntervalCases
import Didi.Config.Settings

/-!
# What is accepted as a value

* `walkValue_token` and its like : one step of the walk;
* `Passes` : a piece of text that the walk passes over inside brackets;
* `Reads` : a literal that the walk of a value accepts, whatever follows it inside brackets;
* `reads_quoted`, `reads_array`, `reads_dictionary`, `Numeral.reads`, `reads_keyword` : the literals that are.
-/

namespace Didi.Config
variable {c : Char} {pieces : List Text}

/-! ## Characters -/

/-- A character of a number, of a keyword or of the name of a constructor. -/
def isPlain (c : Char) : Bool := isIdentifierChar c || c = '.' || c = '-' || c = '+'

theorem isPlain_of_isDigit (h : c.isDigit = true) : isPlain c = true := by
  simp [isPlain, isIdentifierChar, Char.isAlphanum, h]

theorem ne_of_isPlain {c d : Char} (h : isPlain c = true) (hd : isPlain d = false) : c ≠ d := by
  rintro rfl
  rw [h] at hd
  cases hd

theorem not_isSpace_of_isPlain (h : isPlain c = true) : isSpace c = false := by
  by_contra hspace
  have := isSpace_iff.mp (by simpa using hspace)
  fin_cases this <;> revert h <;> decide

/-- A character at which neither walk does anything but go on. -/
structure Inert (c : Char) : Prop where
  semicolon : c ≠ ';'
  quote : c ≠ '"'
  opener : isOpener c = false
  closer : isCloser c = false

theorem inert_of_isPlain (h : isPlain c = true) : Inert c := by
  have hne : ∀ d, isPlain d = false → c ≠ d := fun d => ne_of_isPlain h
  refine ⟨hne _ (by decide), hne _ (by decide), ?_, ?_⟩
  · simp [isOpener, hne '[' (by decide), hne '{' (by decide), hne '(' (by decide)]
  · simp [isCloser, hne ']' (by decide), hne '}' (by decide), hne ')' (by decide)]

/-! ## The walk to the end of a value -/

section Walk
variable {rest : Text} {s : ValueState} {word : Option Text} {index : Nat}

theorem walkValue_escape (hstring : s.inString = true) (d : Char) :
    walkValue ('\\' :: d :: rest) s word index = walkValue rest s word (index + 2) := by
  rw [walkValue.eq_def]
  dsimp only
  rw [if_pos hstring, if_pos rfl]

theorem walkValue_inString (hstring : s.inString = true) (hbackslash : c ≠ '\\') (hquote : c ≠ '"') :
    walkValue (c :: rest) s word index = walkValue rest s word (index + 1) := by
  rw [walkValue.eq_def]
  dsimp only
  rw [if_pos hstring, if_neg hbackslash, if_neg hquote]

/-- The quote that ends a string ends a value that is not inside brackets. -/
theorem walkValue_closeQuote (hstring : s.inString = true) : walkValue ('"' :: rest) s word index =
    if s.depth = 0 then ({ s with inString := false }, index + 1)
    else walkValue rest { s with inString := false } word (index + 1) := by
  rw [walkValue.eq_def]
  dsimp only
  rw [if_pos hstring, if_neg (by decide), if_pos rfl]

theorem walkValue_openQuote (hstring : s.inString = false) :
    walkValue ('"' :: rest) s word index = walkValue rest s.openString word (index + 1) := by
  rw [walkValue.eq_def]
  dsimp only
  rw [if_neg (by simp [hstring]), if_neg (by decide), if_pos rfl]

theorem walkValue_opener (hstring : s.inString = false) (hc : isOpener c = true) :
    walkValue (c :: rest) s word index = walkValue rest (s.openBracket c) word (index + 1) := by
  have hne : ∀ d, isOpener d = false → c ≠ d := by
    rintro d hd rfl
    rw [hc] at hd
    cases hd
  rw [walkValue.eq_def]
  dsimp only
  rw [if_neg (by simp [hstring]), if_neg (hne _ (by decide)), if_neg (hne _ (by decide)), if_pos hc]

theorem walkValue_closer (hstring : s.inString = false) (hc : isCloser c = true) :
    walkValue (c :: rest) s word index =
      if s.closeBracket.depth = 0 then
        if s.closeBracket.annotation then
          walkValue rest { s.closeBracket with annotation := false, awaitingCall := true } word (index + 1)
        else (s.closeBracket, index + 1)
      else walkValue rest s.closeBracket word (index + 1) := by
  have hne : ∀ d, isCloser d = false → c ≠ d := by
    rintro d hd rfl
    rw [hc] at hd
    cases hd
  have hopener : isOpener c = false := by
    simp [isOpener, hne '[' (by decide), hne '{' (by decide), hne '(' (by decide)]
  rw [walkValue.eq_def]
  dsimp only
  rw [if_neg (by simp [hstring]), if_neg (hne _ (by decide)), if_neg (hne _ (by decide)),
    if_neg (by simp [hopener]), if_pos hc]

theorem walkValue_token (hstring : s.inString = false) (hc : Inert c) (hspace : isSpace c = false) :
    walkValue (c :: rest) s word index = walkValue rest (s.readToken c) (s.readWord word c) (index + 1) := by
  rw [walkValue.eq_def]
  dsimp only
  rw [if_neg (by simp [hstring]), if_neg hc.semicolon, if_neg hc.quote, if_neg (by simp [hc.opener]),
    if_neg (by simp [hc.closer]), if_neg (by simp [hspace])]

theorem walkValue_space (hstring : s.inString = false) (hc : Inert c) (hspace : isSpace c = true)
    (hdepth : s.depth ≠ 0) : walkValue (c :: rest) s word index = walkValue rest s word (index + 1) := by
  rw [walkValue.eq_def]
  dsimp only
  rw [if_neg (by simp [hstring]), if_neg hc.semicolon, if_neg hc.quote, if_neg (by simp [hc.opener]),
    if_neg (by simp [hc.closer]), if_pos hspace, if_neg (by simp [hdepth])]

/-- Inside a string, an escaped text is passed over. -/
theorem walkValue_escaped (hstring : s.inString = true) (text : Text) :
    walkValue (escapeSettingString text ++ rest) s word index =
      walkValue rest s word (index + (escapeSettingString text).length) := by
  induction text generalizing index with
  | nil => rfl
  | cons c text ih =>
    unfold escapeSettingString at ih ⊢
    rw [List.flatMap_cons, List.append_assoc]
    split_ifs with hbackslash hquote
    all_goals
      simp only [List.cons_append, List.nil_append, List.length_cons]
      first
        | rw [walkValue_escape hstring, ih]
        | rw [walkValue_inString hstring hbackslash hquote, ih]
      congr 1
      omega

end Walk

/-- A piece that the walk passes over inside brackets. -/
def Passes (piece : Text) : Prop := ∀ rest s word index, 0 < s.depth → s.inString = false → s.seen = true →
  s.identifier = false → ∃ word', walkValue (piece ++ rest) s word index =
    walkValue rest s word' (index + piece.length)

theorem passes_nil : Passes [] := fun _ _ word _ _ _ _ _ => ⟨word, rfl⟩

theorem Passes.append {piece piece' : Text} (h : Passes piece) (h' : Passes piece') : Passes (piece ++ piece') := by
  intro rest s word index hdepth hstring hseen hidentifier
  obtain ⟨word₁, hfirst⟩ := h (piece' ++ rest) s word index hdepth hstring hseen hidentifier
  obtain ⟨word₂, hsecond⟩ := h' rest s word₁ (index + piece.length) hdepth hstring hseen hidentifier
  refine ⟨word₂, ?_⟩
  rw [List.append_assoc, hfirst, hsecond, List.length_append, Nat.add_assoc]

theorem passes_singleton (h : Inert c) : Passes [c] := by
  intro rest s word index hdepth hstring hseen hidentifier
  have hne : s.depth ≠ 0 := by omega
  rw [List.singleton_append]
  cases hspace : isSpace c with
  | true => exact ⟨word, walkValue_space hstring h hspace hne⟩
  | false =>
    have hsame : s.readToken c = s := by
      unfold ValueState.readToken
      rw [if_neg hne, ← hseen]
    refine ⟨s.readWord word c, ?_⟩
    rw [walkValue_token hstring h hspace, hsame]
    rfl

theorem passes_of_inert {piece : Text} (h : ∀ c ∈ piece, Inert c) : Passes piece := by
  induction piece with
  | nil => exact passes_nil
  | cons c piece ih =>
    exact (passes_singleton (h c List.mem_cons_self)).append (ih fun d hd => h d (List.mem_cons_of_mem c hd))

theorem passes_quoted (text : Text) : Passes (quotedLiteral text) := by
  intro rest s word index hdepth hstring hseen hidentifier
  have hopened : ({ s.openString with inString := false } : ValueState) = s := by
    unfold ValueState.openString
    cases s
    simp_all
  refine ⟨word, ?_⟩
  have hquoted : quotedLiteral text ++ rest = '"' :: (escapeSettingString text ++ '"' :: rest) := by
    simp [quotedLiteral]
  rw [hquoted, walkValue_openQuote hstring, walkValue_escaped rfl, walkValue_closeQuote rfl,
    if_neg (show s.openString.depth ≠ 0 by exact Nat.ne_of_gt hdepth), hopened]
  congr 1
  simp [quotedLiteral]
  omega

theorem passes_bracketed {opener closer : Char} {inner : Text} (hopener : isOpener opener = true)
    (hcloser : isCloser closer = true) (h : Passes inner) : Passes (opener :: inner ++ [closer]) := by
  intro rest s word index hdepth hstring hseen hidentifier
  have hne : s.depth ≠ 0 := by omega
  have hopened : s.openBracket opener = { s with depth := s.depth + 1 } := by
    unfold ValueState.openBracket
    rw [if_neg hne, ← hseen, ← hidentifier]
  obtain ⟨word', hinner⟩ := h (closer :: rest) { s with depth := s.depth + 1 } word (index + 1)
    (Nat.succ_pos _) hstring hseen hidentifier
  have hclosed : ValueState.closeBracket { s with depth := s.depth + 1 } = s := by
    unfold ValueState.closeBracket
    cases s
    simp_all
  have hpiece : opener :: inner ++ [closer] ++ rest = opener :: (inner ++ closer :: rest) := by simp
  refine ⟨word', ?_⟩
  have hcloses := @walkValue_closer closer rest { s with depth := s.depth + 1 } word' (index + 1 + inner.length)
    hstring hcloser
  rw [hpiece, walkValue_opener hstring hopener, hopened, hinner, hcloses, hclosed, if_neg hne]
  congr 1
  simp
  omega

/-! ## What is accepted as a value -/

/-- What may follow a value inside brackets. -/
def Follows (rest : Text) : Prop := ∀ c, rest.head? = some c → c = ',' ∨ c = ':' ∨ c = ']' ∨ c = '}'

/-- A literal that is accepted as a value; a walk that runs out of steps accepts what is left as well. -/
def Reads (literal : Text) : Prop := ∀ fuel depth rest, Follows rest →
  readValue fuel depth (literal ++ rest) = .ok rest ∨ readValue fuel depth (literal ++ rest) = .ok []

/-- A literal that neither a space nor a closing bracket begins. -/
def Begins (literal : Text) : Prop := ∃ c rest, literal = c :: rest ∧ isSpace c = false ∧ isCloser c = false

theorem Begins.dropWhile {literal : Text} (h : Begins literal) (rest : Text) :
    ∃ c t, (literal ++ rest).dropWhile isSpace = c :: t ∧ literal ++ rest = c :: t ∧ isCloser c = false := by
  obtain ⟨c, t, rfl, hspace, hcloser⟩ := h
  refine ⟨c, t ++ rest, ?_, rfl, hcloser⟩
  simp [hspace]

theorem readValue_space (fuel depth : Nat) (text : Text) :
    readValue fuel depth (' ' :: text) = readValue fuel depth text := by
  cases fuel with
  | zero => rw [readValue_zero, readValue_zero]
  | succ fuel =>
    simp only [readValue]
    rfl

theorem readArray_space (fuel depth : Nat) (text : Text) :
    readArray fuel depth (' ' :: text) = readArray fuel depth text := by
  cases fuel with
  | zero => simp only [readArray]
  | succ fuel =>
    simp only [readArray]
    rfl

theorem readDictionary_space (fuel depth : Nat) (text : Text) :
    readDictionary fuel depth (' ' :: text) = readDictionary fuel depth text := by
  cases fuel with
  | zero => simp only [readDictionary]
  | succ fuel =>
    simp only [readDictionary]
    rfl

/-- The elements of an array, from one that is read. -/
theorem readArray_element {fuel depth : Nat} {text t rest : Text} (htext : text.dropWhile isSpace = c :: t)
    (hc : isCloser c = false) (hread : readValue fuel (depth + 1) (c :: t) = .ok rest) :
    readArray (fuel + 1) depth text = (match rest.dropWhile isSpace with
      | [] => .ok []
      | ',' :: rest => readArray fuel depth rest
      | ']' :: rest => .ok rest
      | c :: _ => .error ("a ',' or a ']' has to follow an array element, not '" ++ String.ofList [c] ++ "'")) := by
  rw [readArray]
  split
  · rename_i hnil
    rw [htext] at hnil
    cases hnil
  · rename_i hcloser
    rw [htext] at hcloser
    cases hcloser
    exact absurd hc (by decide)
  · rw [htext, hread]
    rfl

theorem readArray_pieces (h : ∀ piece ∈ pieces, Begins piece ∧ Reads piece) (fuel depth : Nat) (rest : Text) :
    readArray fuel depth (commaSeparated pieces ++ ']' :: rest) = .ok rest ∨
      readArray fuel depth (commaSeparated pieces ++ ']' :: rest) = .ok [] := by
  induction pieces generalizing fuel with
  | nil =>
    cases fuel with
    | zero => exact .inr (readArray_zero _ _)
    | succ fuel => exact .inl (by simp only [readArray]; rfl)
  | cons piece pieces ih =>
    cases fuel with
    | zero => exact .inr (readArray_zero _ _)
    | succ fuel =>
      obtain ⟨hbegins, hreads⟩ := h piece List.mem_cons_self
      obtain ⟨after, hafter, hfollows, hnext⟩ : ∃ after,
          commaSeparated (piece :: pieces) ++ ']' :: rest = piece ++ after ∧ Follows after ∧
          ((after = ']' :: rest) ∨ after = ',' :: ' ' :: (commaSeparated pieces ++ ']' :: rest)) := by
        cases pieces with
        | nil => exact ⟨_, rfl, by simp [Follows], .inl rfl⟩
        | cons piece' pieces =>
          refine ⟨',' :: ' ' :: (commaSeparated (piece' :: pieces) ++ ']' :: rest), ?_, by simp [Follows], .inr rfl⟩
          simp [commaSeparated]
      obtain ⟨c, t, hdrop, hcons, hcloser⟩ := hbegins.dropWhile after
      rw [hafter]
      rcases hreads fuel (depth + 1) after hfollows with hread | hread
      · rw [hcons] at hread
        rw [readArray_element hdrop hcloser hread]
        rcases hnext with rfl | rfl
        · exact .inl rfl
        · show readArray fuel depth _ = _ ∨ readArray fuel depth _ = _
          rw [readArray_space]
          exact ih (fun piece' hmem => h piece' (List.mem_cons_of_mem piece hmem)) fuel
      · rw [hcons] at hread
        rw [readArray_element hdrop hcloser hread]
        exact .inr rfl

section Dictionary
variable {fuel depth : Nat} {text t more rest : Text}

/-- The entries of a dictionary, from a key that is read and from its value. -/
theorem readDictionary_entry (htext : text.dropWhile isSpace = c :: t) (hc : isCloser c = false)
    (hkey : readValue fuel (depth + 1) (c :: t) = .ok (':' :: more))
    (hvalue : readValue fuel (depth + 1) more = .ok rest) :
    readDictionary (fuel + 1) depth text = (match rest.dropWhile isSpace with
      | [] => .ok []
      | ',' :: rest => readDictionary fuel depth rest
      | '\x7d' :: rest => .ok rest
      | c :: _ =>
        .error ("a ',' or a '\x7d' has to follow a dictionary value, not '" ++ String.ofList [c] ++ "'")) := by
  rw [readDictionary]
  split
  · rename_i hnil
    rw [htext] at hnil
    cases hnil
  · rename_i hcloser
    rw [htext] at hcloser
    cases hcloser
    exact absurd hc (by decide)
  · rw [htext, hkey]
    show (readValue fuel (depth + 1) more >>= _) = _
    rw [hvalue]
    rfl

/-- A key after which nothing is left ends the dictionary. -/
theorem readDictionary_key (htext : text.dropWhile isSpace = c :: t) (hc : isCloser c = false)
    (hkey : readValue fuel (depth + 1) (c :: t) = .ok []) : readDictionary (fuel + 1) depth text = .ok [] := by
  rw [readDictionary]
  split
  · rfl
  · rename_i hcloser
    rw [htext] at hcloser
    cases hcloser
    exact absurd hc (by decide)
  · rw [htext, hkey]
    rfl

end Dictionary

/-- A key of a dictionary and its value. -/
def Member (piece : Text) : Prop := ∃ key literal, piece = key ++ [':', ' '] ++ literal ∧ Begins key ∧ Reads key ∧
  Reads literal

theorem readDictionary_pieces (h : ∀ piece ∈ pieces, Member piece) (fuel depth : Nat)
    (rest : Text) : readDictionary fuel depth (commaSeparated pieces ++ '}' :: rest) = .ok rest ∨
      readDictionary fuel depth (commaSeparated pieces ++ '}' :: rest) = .ok [] := by
  induction pieces generalizing fuel with
  | nil =>
    cases fuel with
    | zero => exact .inr (readDictionary_zero _ _)
    | succ fuel => exact .inl (by simp only [readDictionary]; rfl)
  | cons piece pieces ih =>
    cases fuel with
    | zero => exact .inr (readDictionary_zero _ _)
    | succ fuel =>
      obtain ⟨key, literal, rfl, hbegins, hkey, hliteral⟩ := h piece List.mem_cons_self
      obtain ⟨after, hafter, hfollows, hnext⟩ : ∃ after,
          commaSeparated ((key ++ [':', ' '] ++ literal) :: pieces) ++ '}' :: rest =
            key ++ ':' :: ' ' :: (literal ++ after) ∧ Follows after ∧
          ((after = '}' :: rest) ∨ after = ',' :: ' ' :: (commaSeparated pieces ++ '}' :: rest)) := by
        cases pieces with
        | nil => exact ⟨_, by simp [commaSeparated], by simp [Follows], .inl rfl⟩
        | cons piece' pieces =>
          refine ⟨',' :: ' ' :: (commaSeparated (piece' :: pieces) ++ '}' :: rest), ?_, by simp [Follows], .inr rfl⟩
          simp [commaSeparated]
      obtain ⟨c, t, hdrop, hcons, hcloser⟩ := hbegins.dropWhile (':' :: ' ' :: (literal ++ after))
      rw [hafter]
      rcases hkey fuel (depth + 1) (':' :: ' ' :: (literal ++ after)) (by simp [Follows]) with hread | hread
      · rw [hcons] at hread
        have hvalue := hliteral fuel (depth + 1) after hfollows
        rw [← readValue_space] at hvalue
        rcases hvalue with hvalue | hvalue
        · rw [readDictionary_entry hdrop hcloser hread hvalue]
          rcases hnext with rfl | rfl
          · exact .inl rfl
          · show readDictionary fuel depth _ = _ ∨ readDictionary fuel depth _ = _
            rw [readDictionary_space]
            exact ih (fun piece' hmem => h piece' (List.mem_cons_of_mem _ hmem)) fuel
        · rw [readDictionary_entry hdrop hcloser hread hvalue]
          exact .inr rfl
      · rw [hcons] at hread
        exact .inr (readDictionary_key hdrop hcloser hread)

/-! ### Strings -/

section Strings
variable {rest : Text} {w : StringWalk}

theorem decodeFrom_quote :
    decodeFrom ('"' :: rest) 0 w = ⟨w.bytes, w.refuseLead.problem, rest, true⟩ := by
  rw [decodeFrom.eq_def]
  rfl

theorem decodeFrom_byte (hquote : c ≠ '"') (hbackslash : c ≠ '\\') :
    decodeFrom (c :: rest) 0 w = decodeFrom rest 0 (w.byte c) := by
  rw [decodeFrom.eq_def]
  dsimp only
  rw [if_neg hquote, if_pos hbackslash]

/-- The escapes of a single character. -/
theorem decodeFrom_escape {next : Char} (h : next ∈ ['\\', '"', 'n', 'r', 't']) :
    ∃ d, decodeFrom ('\\' :: next :: rest) 0 w = decodeFrom rest 0 (w.byte d) := by
  obtain ⟨unit, hread, hlead, htrail⟩ : ∃ unit, readEscape next rest = (unit, 0, none) ∧
      unit / 2 ^ 10 ≠ 0xD800 / 2 ^ 10 ∧ unit / 2 ^ 10 ≠ 0xDC00 / 2 ^ 10 := by
    fin_cases h <;> exact ⟨_, rfl, by decide, by decide⟩
  refine ⟨if unit = 0 || 0xFF < unit then ' ' else Char.ofNat unit, ?_⟩
  rw [decodeFrom.eq_def]
  dsimp only
  rw [if_neg (by decide), if_neg (by simp), hread]
  show decodeFrom rest 0 (w.unit unit) = _
  unfold StringWalk.unit
  rw [if_neg hlead, if_neg htrail]

end Strings

/-- An escaped text is read to its quote, and nothing is wrong with it. -/
theorem decodeFrom_escaped (text rest : Text) (w : StringWalk) (hlead : w.lead = 0) (hproblem : w.problem = none) :
    (decodeFrom (escapeSettingString text ++ '"' :: rest) 0 w).problem = none ∧
      (decodeFrom (escapeSettingString text ++ '"' :: rest) 0 w).rest = rest := by
  induction text generalizing w with
  | nil =>
    rw [show escapeSettingString [] = [] from rfl, List.nil_append, decodeFrom_quote]
    simp [StringWalk.refuseLead, hlead, hproblem]
  | cons c text ih =>
    have hbyte : ∀ d, (w.byte d).lead = 0 ∧ (w.byte d).problem = none := by
      intro d
      simp [StringWalk.byte, StringWalk.refuseLead, hlead, hproblem]
    have hescape : ∀ next ∈ ['\\', '"', 'n', 'r', 't'],
        (decodeFrom ('\\' :: next :: (escapeSettingString text ++ '"' :: rest)) 0 w).problem = none ∧
          (decodeFrom ('\\' :: next :: (escapeSettingString text ++ '"' :: rest)) 0 w).rest = rest := by
      intro next hnext
      obtain ⟨d, hd⟩ := @decodeFrom_escape (escapeSettingString text ++ '"' :: rest) w next hnext
      rw [hd]
      exact ih _ (hbyte d).1 (hbyte d).2
    unfold escapeSettingString at ih hescape ⊢
    rw [List.flatMap_cons, List.append_assoc]
    split_ifs with hbackslash hquote
    · exact hescape '\\' (by decide)
    · exact hescape '"' (by decide)
    · exact hescape 'n' (by decide)
    · exact hescape 'r' (by decide)
    · exact hescape 't' (by decide)
    · rw [List.singleton_append, decodeFrom_byte hquote hbackslash]
      exact ih _ (hbyte c).1 (hbyte c).2

theorem skipString_escaped (text rest : Text) : skipString (escapeSettingString text ++ '"' :: rest) = .ok rest := by
  obtain ⟨hproblem, hrest⟩ := decodeFrom_escaped text rest {} rfl rfl
  unfold skipString decodeString
  rw [hproblem, hrest]

/-! ### The parts of a literal -/

/-- The walk of a value with nothing to skip before it. -/
theorem readValue_cons (hspace : isSpace c = false) (fuel : Nat) {depth : Nat} (hdepth : depth ≤ 32)
    (rest : Text) : readValue (fuel + 1) depth (c :: rest) =
      if c = ')' || c = ']' || c = '}' || c = ',' || c = ':' || c = '(' then
        .error ("a value cannot begin with '" ++ String.ofList [c] ++ "'")
      else if c = '"' then skipString rest
      else if c = '&' || c = '@' then
        match rest with
        | '"' :: rest => skipString rest
        | _ => .error ("'" ++ String.ofList [c] ++ "' begins a StringName and has to be followed straight " ++
            "away by a quoted string")
      else if isIdentifierStart c then readIdentifier fuel (c :: rest)
      else if c = '[' then readArray fuel depth rest
      else if c = '\x7b' then readDictionary fuel depth rest
      else .ok ((c :: rest).dropWhile fun c => !endsToken c) := by
  have hdrop : (c :: rest).dropWhile isSpace = c :: rest := by simp [hspace]
  rw [readValue, if_neg (by omega)]
  split
  · rename_i hnil
    rw [hdrop] at hnil
    cases hnil
  · rename_i hcons
    rw [hdrop] at hcons
    cases hcons
    rfl

/-- Where the walk has steps left and is not too deep. -/
theorem reads_of_step {literal : Text} (h : ∀ fuel depth rest, Follows rest → depth ≤ 32 →
    readValue (fuel + 1) depth (literal ++ rest) = .ok rest ∨ readValue (fuel + 1) depth (literal ++ rest) = .ok []) :
    Reads literal := by
  intro fuel depth rest hfollows
  cases fuel with
  | zero => exact .inr (readValue_zero _ _)
  | succ fuel =>
    by_cases hdepth : depth ≤ 32
    · exact h fuel depth rest hfollows hdepth
    · exact .inr (by rw [readValue, if_pos (by omega)])

theorem Follows.cases {rest : Text} (h : Follows rest) :
    rest = [] ∨ ∃ c t, rest = c :: t ∧ (c = ',' ∨ c = ':' ∨ c = ']' ∨ c = '}') := by
  cases rest with
  | nil => exact .inl rfl
  | cons c t => exact .inr ⟨c, t, rfl, h c rfl⟩

theorem reads_quoted (text : Text) : Reads (quotedLiteral text) := by
  apply reads_of_step
  intro fuel depth rest _ hdepth
  have hquoted : quotedLiteral text ++ rest = '"' :: (escapeSettingString text ++ '"' :: rest) := by
    simp [quotedLiteral]
  rw [hquoted, readValue_cons (by decide) fuel hdepth, if_neg (by decide), if_pos rfl, skipString_escaped]
  exact .inl rfl

theorem reads_array (h : ∀ piece ∈ pieces, Begins piece ∧ Reads piece) :
    Reads ('[' :: commaSeparated pieces ++ [']']) := by
  apply reads_of_step
  intro fuel depth rest _ hdepth
  have hbrackets : '[' :: commaSeparated pieces ++ [']'] ++ rest = '[' :: (commaSeparated pieces ++ ']' :: rest) := by
    simp
  rw [hbrackets, readValue_cons (by decide) fuel hdepth, if_neg (by decide), if_neg (by decide),
    if_neg (by decide), if_neg (by decide), if_pos rfl]
  exact readArray_pieces h fuel depth rest

theorem reads_dictionary (h : ∀ piece ∈ pieces, Member piece) :
    Reads ('{' :: commaSeparated pieces ++ ['}']) := by
  apply reads_of_step
  intro fuel depth rest _ hdepth
  have hbrackets : '{' :: commaSeparated pieces ++ ['}'] ++ rest = '{' :: (commaSeparated pieces ++ '}' :: rest) := by
    simp
  rw [hbrackets, readValue_cons (by decide) fuel hdepth, if_neg (by decide), if_neg (by decide),
    if_neg (by decide), if_neg (by decide), if_neg (by decide), if_pos rfl]
  exact readDictionary_pieces h fuel depth rest

/-- The text of a number. -/
structure Numeral (text : Text) : Prop where
  first : ∃ c rest, text = c :: rest ∧ (c.isDigit = true ∨ c = '-')
  plain : ∀ c ∈ text, isPlain c = true

theorem not_endsToken_of_isPlain (h : isPlain c = true) : endsToken c = false := by
  have hne : ∀ d, isPlain d = false → c ≠ d := fun d => ne_of_isPlain h
  simp [endsToken, not_isSpace_of_isPlain h, hne ',' (by decide), hne ':' (by decide), hne ')' (by decide),
    hne ']' (by decide), hne '}' (by decide)]

theorem not_isIdentifierStart_of_isDigit (h : c.isDigit = true ∨ c = '-') : isIdentifierStart c = false := by
  rcases h with h | rfl
  · have hrange : 48 ≤ c.toNat ∧ c.toNat ≤ 57 := by
      simpa [Char.isDigit, UInt32.le_iff_toNat_le] using h
    have hletter : c.isAlpha = false := by
      delta Char.isAlpha Char.isUpper Char.isLower
      simp [UInt32.le_iff_toNat_le]
      omega
    have hunderscore : c ≠ '_' := by
      rintro rfl
      exact absurd h (by decide)
    simp [isIdentifierStart, hletter, hunderscore]
  · decide

theorem Numeral.reads {text : Text} (h : Numeral text) : Reads text := by
  apply reads_of_step
  intro fuel depth rest hfollows hdepth
  obtain ⟨c, t, rfl, hfirst⟩ := h.first
  have hplain := h.plain c List.mem_cons_self
  have hne : ∀ d, isPlain d = false → c ≠ d := fun d => ne_of_isPlain hplain
  have hdrop : (c :: t ++ rest).dropWhile (fun c => !endsToken c) = rest := by
    rw [List.dropWhile_append_of_pos]
    · rcases hfollows.cases with rfl | ⟨d, t, rfl, rfl | rfl | rfl | rfl⟩ <;> rfl
    · intro d hd
      simp [not_endsToken_of_isPlain (h.plain d hd)]
  rw [List.cons_append, readValue_cons (not_isSpace_of_isPlain hplain) fuel hdepth]
  rw [if_neg (by simp [hne ')' (by decide), hne ']' (by decide), hne '}' (by decide), hne ',' (by decide),
    hne ':' (by decide), hne '(' (by decide)]), if_neg (hne '"' (by decide)),
    if_neg (by simp [hne '&' (by decide), hne '@' (by decide)]),
    if_neg (by simp [not_isIdentifierStart_of_isDigit hfirst]), if_neg (hne '[' (by decide)),
    if_neg (hne '{' (by decide)), ← List.cons_append, hdrop]
  exact .inl rfl

theorem reads_keyword {word : Text} (h : word ∈ ["null".toList, "true".toList, "false".toList]) : Reads word := by
  apply reads_of_step
  intro fuel depth rest hfollows hdepth
  obtain ⟨c, t, rfl, hspace, hstart, hchars, hkeyword⟩ : ∃ c t, word = c :: t ∧ isSpace c = false ∧
      isIdentifierStart c = true ∧ (∀ d ∈ c :: t, isIdentifierChar d = true) ∧ isValueKeyword (c :: t) = true := by
    fin_cases h <;> exact ⟨_, _, rfl, by decide, by decide, List.all_eq_true.mp (by decide), by decide⟩
  have hafter : rest.takeWhile isIdentifierChar = [] ∧ rest.dropWhile isIdentifierChar = rest := by
    rcases hfollows.cases with rfl | ⟨d, t, rfl, rfl | rfl | rfl | rfl⟩ <;> exact ⟨rfl, rfl⟩
  have hread : readIdentifier fuel (c :: t ++ rest) = .ok rest := by
    unfold readIdentifier
    rw [List.takeWhile_append_of_pos hchars, List.dropWhile_append_of_pos hchars, hafter.1, hafter.2,
      List.append_nil]
    rcases hfollows.cases with rfl | ⟨d, t, rfl, rfl | rfl | rfl | rfl⟩ <;> exact if_pos hkeyword
  have hplain : isPlain c = true := by
    simp [isPlain, hchars c List.mem_cons_self]
  have hne : ∀ d, isPlain d = false → c ≠ d := fun d => ne_of_isPlain hplain
  rw [List.cons_append, readValue_cons hspace fuel hdepth]
  rw [if_neg (by simp [hne ')' (by decide), hne ']' (by decide), hne '}' (by decide), hne ',' (by decide),
    hne ':' (by decide), hne '(' (by decide)]), if_neg (hne '"' (by decide)),
    if_neg (by simp [hne '&' (by decide), hne '@' (by decide)]), if_pos hstart, ← List.cons_append, hread]
  exact .inl rfl

end Didi.Config
