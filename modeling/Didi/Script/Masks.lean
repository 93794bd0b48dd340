import Mathlib.Data.Bool.AllAny
import Didi.Script.Declarations

/-!
# Two masks

* `maskGdscriptLine_eq` : the line that the search reads is the code of the line, with blanks after it;
* `codeFrom_return` : a carriage return at the end of a line does not change where its literals end;
* `declared_append` : a declaration that is read is read with more after it;
* `declared_spaces` : blanks after a line do not change what it declares.
-/

namespace Didi.Script
open Didi.Config

/-! ## Where the literals end -/

namespace Lexing

/-- The literal is one that a quote opens. -/
def Quoted : Lexing → Prop
  | .code => True
  | .multiline quote => isQuote quote = true
  | .quoted quote => isQuote quote = true

/-- The flags of the other mask. -/
def flags : Lexing → MaskState
  | .code => {}
  | .multiline quote => { tripleQuote := some quote }
  | .quoted quote => { single := quote = '\'', doubleQuote := quote = '"' }

end Lexing

/-- One mask is the other with blanks after it, and the next line begins in the same. -/
def Padded (masked code : Text × Option Char) : Prop :=
  (∃ n, masked.1 = code.1 ++ List.replicate n ' ') ∧ masked.2 = code.2

theorem Padded.readOn {masked code : Text × Option Char} (h : Padded masked code) (c : Char) :
    Padded (readOn c masked) (readOn c code) := by
  obtain ⟨⟨n, hn⟩, hnext⟩ := h
  exact ⟨⟨n, congrArg (c :: ·) hn⟩, hnext⟩

theorem isQuote_iff {c : Char} : isQuote c = true ↔ c = '"' ∨ c = '\'' := by
  simp [isQuote]

theorem maskFrom_code (c : Char) (rest : Text) :
    maskFrom 0 Lexing.code.flags (c :: rest) =
      if isQuote c && startsTriple c (c :: rest) then readOn ' ' (maskFrom 2 (Lexing.multiline c).flags rest)
      else if isQuote c then readOn ' ' (maskFrom 0 (Lexing.quoted c).flags rest)
      else if c = '#' then (List.replicate (rest.length + 1) ' ', none)
      else readOn c (maskFrom 0 Lexing.code.flags rest) := by
  have hflags : Lexing.code.flags = {} := rfl
  rw [hflags, maskFrom]
  dsimp only
  by_cases htriple : (isQuote c && startsTriple c (c :: rest)) = true
  · simp [htriple, Lexing.flags]
  by_cases hsingle : c = '\''
  · subst hsingle
    simp [isQuote] at htriple
    simp [htriple, Lexing.flags, isQuote]
  by_cases hdouble : c = '"'
  · subst hdouble
    simp [isQuote] at htriple
    simp [htriple, Lexing.flags, isQuote]
  · simp [isQuote, hsingle, hdouble]

theorem maskFrom_quoted {quote : Char} (hquote : isQuote quote = true) (c : Char) (rest : Text) :
    maskFrom 0 (Lexing.quoted quote).flags (c :: rest) =
      if c = '\\' then readOn ' ' (maskFrom 0 { (Lexing.quoted quote).flags with escaped := true } rest)
      else if c = quote then readOn ' ' (maskFrom 0 Lexing.code.flags rest)
      else readOn ' ' (maskFrom 0 (Lexing.quoted quote).flags rest) := by
  rw [maskFrom]
  rcases isQuote_iff.mp hquote with rfl | rfl
  all_goals
    by_cases hescape : c = '\\'
    · simp [Lexing.flags, hescape]
    by_cases hsingle : c = '\''
    · subst hsingle
      simp [Lexing.flags]
    by_cases hdouble : c = '"'
    · subst hdouble
      simp [Lexing.flags]
    · simp [Lexing.flags, hescape, hsingle, hdouble]

/-- The second part is about the byte after a backslash. -/
theorem maskFrom_padded (text : Text) :
    (∀ skip (lexing : Lexing), lexing.Quoted →
      Padded (maskFrom skip lexing.flags text) (codeFrom skip lexing text)) ∧
    ∀ quote, isQuote quote = true →
      Padded (maskFrom 0 { (Lexing.quoted quote).flags with escaped := true } text)
        (codeFrom 1 (.quoted quote) text) := by
  induction text with
  | nil =>
    refine ⟨fun skip lexing hquoted => ?_, fun quote _ => ⟨⟨0, rfl⟩, rfl⟩⟩
    cases skip <;> cases lexing <;> exact ⟨⟨0, rfl⟩, rfl⟩
  | cons c rest ih =>
    obtain ⟨ih, ihescaped⟩ := ih
    refine ⟨fun skip lexing hquoted => ?_, fun quote hquote => (ih 0 (.quoted quote) hquote).readOn ' '⟩
    cases skip with
    | succ skip => exact (ih skip lexing hquoted).readOn ' '
    | zero =>
      cases lexing with
      | code =>
        rw [codeFrom, maskFrom_code]
        by_cases hquote : isQuote c = true
        · have hcomment : c ≠ '#' := by
            rintro rfl
            cases hquote
          rw [if_neg hcomment, if_pos hquote]
          split
          · exact (ih 2 (.multiline c) hquote).readOn ' '
          · exact (ih 0 (.quoted c) hquote).readOn ' '
        · rw [Bool.not_eq_true] at hquote
          simp only [hquote, Bool.false_and, Bool.false_eq_true, if_false]
          by_cases hcomment : c = '#'
          · rw [if_pos hcomment, if_pos hcomment]
            exact ⟨⟨rest.length + 1, rfl⟩, rfl⟩
          · rw [if_neg hcomment, if_neg hcomment]
            exact (ih 0 .code trivial).readOn c
      | multiline quote =>
        rw [codeFrom, maskFrom]
        show Padded (if c = '\\' ∧ rest ≠ [] then _ else if startsTriple quote (c :: rest) = true then _ else _) _
        split
        · exact (ih 1 (.multiline quote) hquoted).readOn ' '
        · split
          · exact (ih 2 .code trivial).readOn ' '
          · exact (ih 0 (.multiline quote) hquoted).readOn ' '
      | quoted quote =>
        rw [codeFrom, maskFrom_quoted hquoted]
        by_cases hescape : c = '\\'
        · rw [if_pos hescape]
          by_cases hrest : rest = []
          -- a backslash at the end escapes nothing, and the line ends the literal
          · subst hrest
            rw [if_neg fun h => h.2 rfl]
            split <;> exact ⟨⟨0, rfl⟩, rfl⟩
          · rw [if_pos ⟨hescape, hrest⟩]
            exact (ihescaped quote hquoted).readOn ' '
        · simp only [hescape, false_and, if_false]
          split
          · exact (ih 0 .code trivial).readOn ' '
          · exact (ih 0 (.quoted quote) hquoted).readOn ' '

theorem maskGdscriptLine_eq (line : Text) {delimiter : Delimiter} (hquote : ∀ quote ∈ delimiter, isQuote quote = true) :
    Padded (maskGdscriptLine line delimiter) (codeOutsideGdscriptLiterals line delimiter) := by
  cases delimiter with
  | none => exact (maskFrom_padded line).1 0 .code trivial
  | some quote => exact (maskFrom_padded line).1 0 (.multiline quote) (hquote quote rfl)

/-- A line leaves a literal open that a quote opened. -/
theorem codeFrom_next (text : Text) (skip : Nat) {lexing : Lexing} (hquoted : lexing.Quoted) :
    ∀ quote ∈ (codeFrom skip lexing text).2, isQuote quote = true := by
  induction text generalizing skip lexing with
  | nil =>
    intro quote hmem
    cases lexing with
    | multiline q => cases skip <;> exact (Option.some.inj hmem) ▸ hquoted
    | code => cases skip <;> cases hmem
    | quoted q => cases skip <;> cases hmem
  | cons c rest ih =>
    cases skip with
    | succ skip => exact ih skip hquoted
    | zero =>
      cases lexing with
      | multiline q =>
        rw [codeFrom]
        split
        · exact ih 1 hquoted
        · split
          · exact @ih 2 .code trivial
          · exact ih 0 hquoted
      | quoted q =>
        rw [codeFrom]
        split
        · exact ih 1 hquoted
        · split
          · exact @ih 0 .code trivial
          · exact ih 0 hquoted
      | code =>
        rw [codeFrom]
        split
        · intro quote hmem
          cases hmem
        · split
          · rename_i htriple
            exact @ih 2 (.multiline c) (Bool.and_eq_true _ _ ▸ htriple).1
          · split
            · rename_i hquote
              exact @ih 0 (.quoted c) hquote
            · exact @ih 0 .code trivial

theorem startsTriple_return {quote : Char} (hquote : isQuote quote = true) (text : Text) :
    startsTriple quote (text ++ ['\r']) = startsTriple quote text := by
  have hne : ¬ '\r' = quote := by
    rintro rfl
    cases hquote
  match text with
  | [] => rfl
  | [_] => rfl
  | [_, _] => simp [startsTriple, hne]
  | _ :: _ :: _ :: _ => rfl

/-- A carriage return at the end of a line is no code, or a blank of it. -/
theorem codeFrom_return (text : Text) (skip : Nat) {lexing : Lexing} (hquoted : lexing.Quoted) :
    ∃ tail : Text, (∀ c ∈ tail, isSpace c = true) ∧
      codeFrom skip lexing (text ++ ['\r']) = ((codeFrom skip lexing text).1 ++ tail, (codeFrom skip lexing text).2) := by
  have hon : ∀ {read read' : Text × Delimiter} (c : Char),
      (∃ tail : Text, (∀ c ∈ tail, isSpace c = true) ∧ read = (read'.1 ++ tail, read'.2)) →
        ∃ tail : Text, (∀ c ∈ tail, isSpace c = true) ∧
          readOn c read = ((readOn c read').1 ++ tail, (readOn c read').2) := by
    rintro read read' c ⟨tail, htail, rfl⟩
    exact ⟨tail, htail, rfl⟩
  induction text generalizing skip lexing with
  | nil =>
    cases skip with
    | succ skip => cases skip <;> exact ⟨[' '], List.all_eq_true.mp rfl, by cases lexing <;> rfl⟩
    | zero =>
      cases lexing with
      | code => exact ⟨['\r'], List.all_eq_true.mp rfl, rfl⟩
      | multiline quote => exact ⟨[' '], List.all_eq_true.mp rfl, rfl⟩
      | quoted quote =>
        exact ⟨[' '], List.all_eq_true.mp rfl, by simp [codeFrom, readOn, Lexing.atEnd]⟩
  | cons c rest ih =>
    rw [List.cons_append]
    cases skip with
    | succ skip => exact hon ' ' (ih skip hquoted)
    | zero =>
      cases lexing with
      | multiline quote =>
        rw [codeFrom, codeFrom, ← List.cons_append, startsTriple_return hquoted]
        by_cases hlast : c = '\\' ∧ rest = []
        · obtain ⟨rfl, rfl⟩ := hlast
          exact ⟨[' '], List.all_eq_true.mp rfl, by simp [codeFrom, readOn, Lexing.atEnd, startsTriple]⟩
        by_cases hescape : c = '\\'
        · rw [if_pos ⟨hescape, by simp⟩, if_pos ⟨hescape, fun hnil => hlast ⟨hescape, hnil⟩⟩]
          exact hon ' ' (ih 1 hquoted)
        · simp only [hescape, false_and, if_false]
          split
          · exact hon ' ' (@ih 2 .code trivial)
          · exact hon ' ' (ih 0 hquoted)
      | quoted quote =>
        rw [codeFrom, codeFrom]
        by_cases hlast : c = '\\' ∧ rest = []
        · obtain ⟨rfl, rfl⟩ := hlast
          exact ⟨[' '], List.all_eq_true.mp rfl, by simp [codeFrom, readOn, Lexing.atEnd]⟩
        by_cases hescape : c = '\\'
        · rw [if_pos ⟨hescape, by simp⟩, if_pos ⟨hescape, fun hnil => hlast ⟨hescape, hnil⟩⟩]
          exact hon ' ' (ih 1 hquoted)
        · simp only [hescape, false_and, if_false]
          split
          · exact hon ' ' (@ih 0 .code trivial)
          · exact hon ' ' (ih 0 hquoted)
      | code =>
        rw [codeFrom, codeFrom, ← List.cons_append]
        by_cases hcomment : c = '#'
        · rw [if_pos hcomment, if_pos hcomment]
          exact ⟨[], by simp, rfl⟩
        rw [if_neg hcomment, if_neg hcomment]
        by_cases hquote : isQuote c = true
        · rw [startsTriple_return hquote]
          split
          · exact hon ' ' (@ih 2 (.multiline c) hquote)
          · exact hon ' ' (@ih 0 (.quoted c) hquote)
        · rw [Bool.not_eq_true] at hquote
          simp only [hquote, Bool.false_and, Bool.false_eq_true, if_false]
          exact hon c (@ih 0 .code trivial)

/-- Code without a literal or a comment is read as it stands. -/
theorem codeFrom_plain {head rest : Text} (hhead : ∀ c ∈ head, isQuote c = false ∧ c ≠ '#') :
    codeFrom 0 .code (head ++ rest) = (head ++ (codeFrom 0 .code rest).1, (codeFrom 0 .code rest).2) := by
  induction head with
  | nil => rfl
  | cons c head ih =>
    obtain ⟨hquote, hcomment⟩ := hhead c List.mem_cons_self
    rw [List.cons_append, codeFrom, if_neg hcomment]
    simp only [hquote, Bool.false_and, Bool.false_eq_true, if_false]
    rw [ih fun d hd => hhead d (List.mem_cons_of_mem _ hd)]
    rfl

/-! ## A declaration with more after it -/

/-- What a declaration is known by. -/
def GDScriptDeclaration.key (declaration : GDScriptDeclaration) : Text × SymbolKind :=
  (declaration.name, declaration.kind)

/-- What a line declares. -/
def declared (line : Text) : Option (Text × SymbolKind) := (parseDeclaration line).map GDScriptDeclaration.key

section
variable {p : Char → Bool} {text tail : Text}

theorem takeWhile_append_of_stops (hstops : ∀ c ∈ tail.head?, p c = false) :
    (text ++ tail).takeWhile p = text.takeWhile p ∧ (text ++ tail).dropWhile p = text.dropWhile p ++ tail := by
  have htake : tail.takeWhile p = [] ∧ tail.dropWhile p = tail := by
    cases tail with
    | nil => exact ⟨rfl, rfl⟩
    | cons c rest => simp [hstops c rfl]
  induction text with
  | nil => exact htake
  | cons c rest ih =>
    rw [List.cons_append, List.takeWhile_cons, List.takeWhile_cons, List.dropWhile_cons, List.dropWhile_cons]
    split
    · exact ⟨congrArg (c :: ·) ih.1, ih.2⟩
    · exact ⟨rfl, rfl⟩

theorem takeWhile_append_of_ne (hne : text.dropWhile p ≠ []) :
    (text ++ tail).takeWhile p = text.takeWhile p ∧ (text ++ tail).dropWhile p = text.dropWhile p ++ tail := by
  induction text with
  | nil => exact absurd rfl hne
  | cons c rest ih =>
    rw [List.dropWhile_cons] at hne
    rw [List.cons_append, List.takeWhile_cons, List.takeWhile_cons, List.dropWhile_cons, List.dropWhile_cons]
    split at hne
    · rename_i hc
      rw [if_pos hc, if_pos hc, if_pos hc, if_pos hc]
      exact ⟨congrArg (c :: ·) (ih hne).1, (ih hne).2⟩
    · rename_i hc
      rw [if_neg hc, if_neg hc, if_neg hc, if_neg hc]
      exact ⟨rfl, rfl⟩

end

theorem closeArguments_append {depth : Nat} {text rest : Text} (h : closeArguments depth text = some rest)
    (tail : Text) : closeArguments depth (text ++ tail) = some (rest ++ tail) := by
  induction text generalizing depth with
  | nil => cases h
  | cons c text ih =>
    rw [List.cons_append, closeArguments]
    rw [closeArguments] at h
    split at h
    · rename_i hzero
      rw [if_pos hzero, Option.some.inj h]
    · rename_i hzero
      rw [if_neg hzero]
      exact ih h

theorem closeArguments_length {depth : Nat} {text rest : Text} (h : closeArguments depth text = some rest) :
    rest.length < text.length := by
  induction text generalizing depth with
  | nil => cases h
  | cons c text ih =>
    rw [closeArguments] at h
    split at h
    · rw [← Option.some.inj h]
      exact Nat.lt_succ_self _
    · exact (ih h).trans (Nat.lt_succ_self _)

theorem closeArguments_spaces {depth : Nat} {text tail : Text} (h : closeArguments depth text = none)
    (hdepth : depth ≠ 0 ∨ text ≠ []) (hspaces : ∀ c ∈ tail, isSpace c = true) :
    closeArguments depth (text ++ tail) = none := by
  induction text generalizing depth with
  | nil =>
    have hpos := hdepth.resolve_right fun hne => hne rfl
    clear h hdepth
    induction tail with
    | nil => rfl
    | cons c tail ih =>
      have hc := hspaces c List.mem_cons_self
      have hopen : c ≠ '(' := by
        rintro rfl
        cases hc
      have hclose : c ≠ ')' := by
        rintro rfl
        cases hc
      have hsame : depthAfter depth c = depth := by
        unfold depthAfter
        rw [if_neg hopen, if_neg hclose]
      rw [List.nil_append, closeArguments, hsame, if_neg hpos]
      exact ih fun d hd => hspaces d (List.mem_cons_of_mem _ hd)
  | cons c text ih =>
    rw [List.cons_append, closeArguments]
    rw [closeArguments] at h
    split at h
    · cases h
    · rename_i hne
      rw [if_neg hne]
      exact ih h (Or.inl hne)

theorem skipArguments_append {text rest : Text} (h : skipArguments text = some rest) (hne : text ≠ [])
    (tail : Text) : skipArguments (text ++ tail) = some (rest ++ tail) := by
  unfold skipArguments at h ⊢
  rw [List.head?_append_of_ne_nil _ hne]
  split at h
  · rename_i hopen
    rw [if_pos hopen]
    exact closeArguments_append h tail
  · rename_i hopen
    rw [if_neg hopen, Option.some.inj h]

theorem skipArguments_spaces {text tail : Text} (h : skipArguments text = none)
    (hspaces : ∀ c ∈ tail, isSpace c = true) : skipArguments (text ++ tail) = none := by
  unfold skipArguments at h ⊢
  split at h
  · rename_i hopen
    have hne : text ≠ [] := by
      rintro rfl
      cases hopen
    rw [List.head?_append_of_ne_nil _ hne, if_pos hopen]
    exact closeArguments_spaces h (Or.inr hne) hspaces
  · cases h

theorem skipArguments_length {text rest : Text} (h : skipArguments text = some rest) : rest.length ≤ text.length := by
  unfold skipArguments at h
  split at h
  · exact (closeArguments_length h).le
  · rw [Option.some.inj h]

theorem skipAnnotations_of_ne (fuel : Nat) (exported : Bool) {text : Text} (h : text.head? ≠ some '@') :
    skipAnnotations fuel exported text = some (exported, text) := by
  cases fuel with
  | zero => rfl
  | succ fuel => rw [skipAnnotations, if_pos h]

theorem length_dropWhile_le (p : Char → Bool) (text : Text) : (text.dropWhile p).length ≤ text.length :=
  (List.dropWhile_sublist p).length_le

/-- What follows the annotations is reached with more after it. -/
theorem skipAnnotations_append {fuel fuel' : Nat} {exported exported' : Bool} {text source : Text}
    (h : skipAnnotations fuel exported text = some (exported', source)) (hsource : source ≠ [])
    (hfuel : text.length ≤ fuel) (hfuel' : fuel ≤ fuel') (tail : Text) :
    skipAnnotations fuel' exported (text ++ tail) = some (exported', source ++ tail) := by
  induction fuel generalizing fuel' exported text with
  | zero =>
    rw [skipAnnotations, Option.some.injEq, Prod.mk.injEq] at h
    exact absurd (h.2 ▸ List.eq_nil_of_length_eq_zero (Nat.le_zero.mp hfuel)) hsource
  | succ fuel ih =>
    obtain ⟨fuel', rfl⟩ : ∃ k, fuel' = k + 1 := ⟨fuel' - 1, by omega⟩
    by_cases hat : text.head? = some '@'
    · have hne : text ≠ [] := by
        rintro rfl
        cases hat
      rw [skipAnnotations, if_neg (not_not.mpr hat)] at h
      rw [skipAnnotations, List.head?_append_of_ne_nil _ hne, if_neg (not_not.mpr hat), List.tail_append_of_ne_nil hne]
      dsimp only at h ⊢
      split at h
      · cases h
      rename_i hname
      obtain ⟨after, hafter, hrest⟩ := Option.bind_eq_some_iff.mp h
      have hafterne : after.dropWhile isSpace ≠ [] := by
        intro hnil
        rw [hnil, skipAnnotations_of_ne _ _ (by simp)] at hrest
        exact hsource (Prod.mk.inj (Option.some.inj hrest)).2.symm
      have hargs : (text.tail.dropWhile isIdentifierChar).dropWhile isSpace ≠ [] := by
        intro hnil
        rw [hnil] at hafter
        rw [← Option.some.inj hafter] at hafterne
        exact hafterne rfl
      have hident : text.tail.dropWhile isIdentifierChar ≠ [] := by
        intro hnil
        rw [hnil] at hargs
        exact hargs rfl
      obtain ⟨htake, hdrop⟩ := @takeWhile_append_of_ne isIdentifierChar _ tail hident
      have hlength : (after.dropWhile isSpace).length ≤ fuel := by
        have h1 := skipArguments_length hafter
        have h2 := length_dropWhile_le isSpace after
        have h3 := length_dropWhile_le isSpace (text.tail.dropWhile isIdentifierChar)
        have h4 := length_dropWhile_le isIdentifierChar text.tail
        have h5 := List.length_tail (l := text)
        omega
      rw [htake, if_neg hname, hdrop, (takeWhile_append_of_ne hargs).2, skipArguments_append hafter hargs, Option.bind_some,
        (takeWhile_append_of_ne hafterne).2]
      exact ih hrest hlength (by omega)
    · have hne : text ≠ [] := by
        rintro rfl
        rw [skipAnnotations_of_ne _ _ hat] at h
        exact hsource (Prod.mk.inj (Option.some.inj h)).2.symm
      rw [skipAnnotations_of_ne _ _ hat] at h
      rw [skipAnnotations_of_ne _ _ (by rw [List.head?_append_of_ne_nil _ hne]; exact hat)]
      simp only [Option.some.injEq, Prod.mk.injEq] at h ⊢
      exact ⟨h.1, by rw [h.2]⟩

/-- No keyword begins with another. -/
theorem prefixes_apart : ∀ p ∈ prefixes, ∀ q ∈ prefixes, p.1 <+: q.1 → p = q := by
  decide

theorem find_prefixes_iff {source : Text} {p : Text × SymbolKind} :
    prefixes.find? (fun p => p.1.isPrefixOf source) = some p ↔ p ∈ prefixes ∧ p.1 <+: source := by
  constructor
  · intro h
    have hstarts := @List.find?_some (Text × SymbolKind) (fun p => p.1.isPrefixOf source) _ _ h
    exact ⟨List.mem_of_find?_eq_some h, List.isPrefixOf_iff_prefix.mp hstarts⟩
  · rintro ⟨hmem, hstarts⟩
    cases hfind : prefixes.find? fun p => p.1.isPrefixOf source with
    | none =>
      exact absurd (List.isPrefixOf_iff_prefix.mpr hstarts) (List.find?_eq_none.mp hfind p hmem)
    | some q =>
      have hfound := @List.find?_some (Text × SymbolKind) (fun p => p.1.isPrefixOf source) _ _ hfind
      have hq := List.isPrefixOf_iff_prefix.mp hfound
      rcases List.prefix_or_prefix_of_prefix hstarts hq with hpq | hqp
      · rw [prefixes_apart p hmem q (List.mem_of_find?_eq_some hfind) hpq]
      · rw [prefixes_apart q (List.mem_of_find?_eq_some hfind) p hmem hqp]

/-- What is read of a text that begins with a keyword. -/
theorem readDeclaration_eq_some {exported : Bool} {source : Text} {declaration : GDScriptDeclaration} :
    readDeclaration exported source = some declaration ↔ ∃ p ∈ prefixes, p.1 <+: source ∧
      (source.drop p.1.length).takeWhile isIdentifierByte ≠ [] ∧
      declaration = ⟨(source.drop p.1.length).takeWhile isIdentifierByte, p.2, source, exported, p.1.length⟩ := by
  unfold readDeclaration
  constructor
  · intro h
    cases hfind : prefixes.find? fun p => p.1.isPrefixOf source with
    | none =>
      rw [hfind] at h
      cases h
    | some p =>
      obtain ⟨hmem, hstarts⟩ := find_prefixes_iff.mp hfind
      rw [hfind] at h
      dsimp only at h
      split at h
      · cases h
      · rename_i hname
        exact ⟨p, hmem, hstarts, hname, (Option.some.inj h).symm⟩
  · rintro ⟨p, hmem, hstarts, hname, rfl⟩
    rw [find_prefixes_iff.mpr ⟨hmem, hstarts⟩]
    exact if_neg hname

theorem parseDeclaration_eq_some {line : Text} {declaration : GDScriptDeclaration} :
    parseDeclaration line = some declaration ↔ ∃ exported source,
      skipAnnotations (line.dropWhile isBlankChar).length false (line.dropWhile isBlankChar) = some (exported, source) ∧
        readDeclaration exported source = some declaration := by
  unfold parseDeclaration
  dsimp only
  cases skipAnnotations (line.dropWhile isBlankChar).length false (line.dropWhile isBlankChar) with
  | none => simp
  | some r =>
    obtain ⟨exported, source⟩ := r
    constructor
    · intro h
      exact ⟨exported, source, rfl, h⟩
    · rintro ⟨_, _, heq, h⟩
      cases heq
      exact h

/-- A declaration that is read is read with more after it. -/
theorem declared_append {line tail : Text} {key : Text × SymbolKind} (h : declared line = some key)
    (hstops : ∀ c ∈ tail.head?, isIdentifierByte c = false) : declared (line ++ tail) = some key := by
  obtain ⟨declaration, hparse, hkey⟩ := Option.map_eq_some_iff.mp h
  obtain ⟨exported, source, hskip, hread⟩ := parseDeclaration_eq_some.mp hparse
  obtain ⟨p, hmem, hstarts, hname, rfl⟩ := readDeclaration_eq_some.mp hread
  have hsource : source ≠ [] := by
    rintro rfl
    exact hname (by rw [List.drop_nil]; rfl)
  have htext : line.dropWhile isBlankChar ≠ [] := by
    intro hnil
    rw [hnil] at hskip
    exact hsource (Prod.mk.inj (Option.some.inj hskip)).2.symm
  have hname' : ((source ++ tail).drop p.1.length).takeWhile isIdentifierByte =
      (source.drop p.1.length).takeWhile isIdentifierByte := by
    rw [List.drop_append_of_le_length hstarts.length_le, (takeWhile_append_of_stops hstops).1]
  refine Option.map_eq_some_iff.mpr ⟨_, parseDeclaration_eq_some.mpr ⟨exported, source ++ tail, ?_,
    readDeclaration_eq_some.mpr ⟨p, hmem, hstarts.trans (List.prefix_append _ _), hname' ▸ hname, rfl⟩⟩, ?_⟩
  · rw [(takeWhile_append_of_ne htext).2]
    exact skipAnnotations_append hskip hsource le_rfl (by rw [List.length_append]; omega) tail
  · rw [← hkey]
    exact Prod.ext hname' rfl

/-! ## Blanks after a line -/

theorem not_isIdentifierByte_of_isSpace {c : Char} (h : isSpace c = true) : isIdentifierByte c = false := by
  have hspaces : ∀ c ∈ [' ', '\t', '\n', '\x0b', '\x0c', '\r'], isIdentifierByte c = false :=
    List.all_iff_forall_prop.mp (by decide)
  exact hspaces c (isSpace_iff.mp h)

theorem not_isIdentifierChar_of_isSpace {c : Char} (h : isSpace c = true) : isIdentifierChar c = false := by
  have hspaces : ∀ c ∈ [' ', '\t', '\n', '\x0b', '\x0c', '\r'], isIdentifierChar c = false :=
    List.all_iff_forall_prop.mp (by decide)
  exact hspaces c (isSpace_iff.mp h)

section
variable {tail : Text} (hspaces : ∀ c ∈ tail, isSpace c = true)
include hspaces

theorem head_of_spaces {c : Char} (hc : c ∈ tail.head?) : isSpace c = true := hspaces c (List.mem_of_mem_head? hc)

theorem dropWhile_of_spaces : tail.dropWhile isSpace = [] := List.dropWhile_eq_nil_iff.mpr hspaces

/-- Blanks after annotations, with nothing after them, are what follows the annotations. -/
theorem skipAnnotations_spaces {fuel fuel' : Nat} {exported : Bool} {text : Text}
    (h : ∀ r, skipAnnotations fuel exported text = some r → r.2 = []) (hfuel : text.length ≤ fuel) (hfuel' : fuel ≤ fuel') :
    ∀ r, skipAnnotations fuel' exported (text ++ tail) = some r → ∀ c ∈ r.2, isSpace c = true := by
  have hhead : tail.head? ≠ some '@' := fun heq => by
    have hspace := head_of_spaces hspaces (Option.mem_def.mpr heq)
    cases hspace
  induction fuel generalizing fuel' exported text with
  | zero =>
    intro r hr
    rw [List.eq_nil_of_length_eq_zero (Nat.le_zero.mp hfuel), List.nil_append, skipAnnotations_of_ne _ _ hhead] at hr
    rw [← Option.some.inj hr]
    exact hspaces
  | succ fuel ih =>
    obtain ⟨fuel', rfl⟩ : ∃ k, fuel' = k + 1 := ⟨fuel' - 1, by omega⟩
    intro r hr
    by_cases hat : text.head? = some '@'
    · have hne : text ≠ [] := by
        rintro rfl
        cases hat
      have hstops := @takeWhile_append_of_stops isIdentifierChar text.tail tail fun c hc =>
        not_isIdentifierChar_of_isSpace (head_of_spaces hspaces hc)
      rw [skipAnnotations, List.head?_append_of_ne_nil _ hne, if_neg (not_not.mpr hat), List.tail_append_of_ne_nil hne,
        hstops.1, hstops.2] at hr
      rw [skipAnnotations, if_neg (not_not.mpr hat)] at h
      dsimp only at h hr
      split at hr
      · cases hr
      rename_i hname
      rw [if_neg hname] at h
      obtain ⟨after, hafter, hrest⟩ := Option.bind_eq_some_iff.mp hr
      by_cases hargs : (text.tail.dropWhile isIdentifierChar).dropWhile isSpace = []
      · rw [List.dropWhile_append, hargs, List.isEmpty_nil, if_pos rfl, dropWhile_of_spaces hspaces] at hafter
        rw [← Option.some.inj hafter, skipAnnotations_of_ne _ _ (by simp)] at hrest
        rw [← Option.some.inj hrest]
        exact fun c hc => absurd hc List.not_mem_nil
      · rw [(takeWhile_append_of_ne hargs).2] at hafter
        cases hskip : skipArguments ((text.tail.dropWhile isIdentifierChar).dropWhile isSpace) with
        | none =>
          rw [skipArguments_spaces hskip hspaces] at hafter
          cases hafter
        | some after' =>
          rw [hskip, Option.bind_some] at h
          rw [skipArguments_append hskip hargs, Option.some.injEq] at hafter
          subst hafter
          by_cases hmore : after'.dropWhile isSpace = []
          · rw [List.dropWhile_append, hmore, List.isEmpty_nil, if_pos rfl, dropWhile_of_spaces hspaces,
              skipAnnotations_of_ne _ _ (by simp)] at hrest
            rw [← Option.some.inj hrest]
            exact fun c hc => absurd hc List.not_mem_nil
          · rw [(takeWhile_append_of_ne hmore).2] at hrest
            refine ih h ?_ (by omega) r hrest
            have h1 := skipArguments_length hskip
            have h2 := length_dropWhile_le isSpace after'
            have h3 := length_dropWhile_le isSpace (text.tail.dropWhile isIdentifierChar)
            have h4 := length_dropWhile_le isIdentifierChar text.tail
            have h5 := List.length_tail (l := text)
            omega
    · by_cases hne : text = []
      · rw [hne, List.nil_append, skipAnnotations_of_ne _ _ hhead] at hr
        rw [← Option.some.inj hr]
        exact hspaces
      · exact absurd (h _ (skipAnnotations_of_ne _ _ hat)) hne

/-- Blanks after a text that nothing is declared by do not make it declare something. -/
theorem readDeclaration_spaces {exported : Bool} {source : Text} (h : readDeclaration exported source = none)
    (exported' : Bool) : readDeclaration exported' (source ++ tail) = none := by
  by_contra hne
  obtain ⟨declaration, hread⟩ := Option.ne_none_iff_exists'.mp hne
  obtain ⟨p, hmem, hstarts, hname, -⟩ := readDeclaration_eq_some.mp hread
  by_cases hle : p.1.length ≤ source.length
  · rw [List.drop_append_of_le_length hle, (takeWhile_append_of_stops fun c hc =>
      not_isIdentifierByte_of_isSpace (head_of_spaces hspaces hc)).1] at hname
    have hbefore : p.1 <+: source := List.prefix_of_prefix_length_le hstarts (List.prefix_append _ _) hle
    have hsome := (@readDeclaration_eq_some exported _ _).mpr ⟨p, hmem, hbefore, hname, rfl⟩
    rw [h] at hsome
    cases hsome
  -- the keyword ends among the blanks, and no name follows it
  · refine hname ?_
    rw [List.drop_append, List.drop_eq_nil_of_le (by omega), List.nil_append]
    cases hdrop : tail.drop (p.1.length - source.length) with
    | nil => rfl
    | cons c rest =>
      have hc : c ∈ tail := List.drop_subset _ _ (hdrop ▸ List.mem_cons_self)
      rw [List.takeWhile_cons, not_isIdentifierByte_of_isSpace (hspaces c hc)]
      rfl

/-- Blanks after a line do not change what it declares. -/
theorem declared_spaces (line : Text) : declared (line ++ tail) = declared line := by
  cases hdeclared : declared line with
  | some key =>
    exact declared_append hdeclared fun c hc => not_isIdentifierByte_of_isSpace (head_of_spaces hspaces hc)
  | none =>
    rw [declared, Option.map_eq_none_iff] at hdeclared ⊢
    by_contra hne
    obtain ⟨declaration, hparse⟩ := Option.ne_none_iff_exists'.mp hne
    obtain ⟨exported, source, hskip, hread⟩ := parseDeclaration_eq_some.mp hparse
    have hblank : (∀ c ∈ source, isSpace c = true) → False := fun hsource => by
      have hnone : readDeclaration exported [] = none := rfl
      have hblanks := readDeclaration_spaces hsource hnone exported
      rw [List.nil_append, hread] at hblanks
      cases hblanks
    by_cases htext : line.dropWhile isBlankChar = []
    · rw [List.dropWhile_append, htext, List.isEmpty_nil, if_pos rfl] at hskip
      have hspaces' : ∀ c ∈ tail.dropWhile isBlankChar, isSpace c = true := fun c hc =>
        hspaces c ((List.dropWhile_sublist _).subset hc)
      have hhead : (tail.dropWhile isBlankChar).head? ≠ some '@' := fun heq => by
        have hspace := head_of_spaces hspaces' (Option.mem_def.mpr heq)
        cases hspace
      rw [skipAnnotations_of_ne _ _ hhead] at hskip
      rw [← (Prod.mk.inj (Option.some.inj hskip)).2] at hblank
      exact hblank hspaces'
    · rw [(takeWhile_append_of_ne htext).2] at hskip
      by_cases hnothing : ∀ r, skipAnnotations (line.dropWhile isBlankChar).length false (line.dropWhile isBlankChar) =
          some r → r.2 = []
      · exact hblank (skipAnnotations_spaces hspaces hnothing le_rfl (by rw [List.length_append]; omega) _ hskip)
      · push Not at hnothing
        obtain ⟨⟨exported', before⟩, hbefore, hne⟩ := hnothing
        rw [skipAnnotations_append hbefore hne le_rfl (by rw [List.length_append]; omega) tail, Option.some.injEq,
          Prod.mk.injEq] at hskip
        have hnone : readDeclaration exported' before = none := by
          by_contra hsome
          obtain ⟨declaration', hread'⟩ := Option.ne_none_iff_exists'.mp hsome
          rw [parseDeclaration_eq_some.mpr ⟨exported', before, hbefore, hread'⟩] at hdeclared
          cases hdeclared
        rw [← hskip.2, readDeclaration_spaces hspaces hnone exported] at hread
        cases hread

end

end Didi.Script
