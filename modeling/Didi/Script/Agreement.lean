import Didi.Script.Masks
import Didi.Script.Readers

/-!
# The readers agree

* `codes` : the code of each line of a script; `keysOf` : what the lines declare in it;
* `ReadsAlike` : a line declares a name in its code when it does as it stands;
* `readers_agree` : the three readers find what the code of the lines declares.
-/

namespace Didi.Script
open Didi.Config
variable {delimiter : Delimiter}

/-! ## The code of a script -/

/-- The code of each line. -/
def codes : Delimiter → List Text → List Text
  | _, [] => []
  | delimiter, line :: lines =>
    let (code, next) := codeOutsideGdscriptLiterals line delimiter
    code :: codes next lines

/-- What the lines declare in their code. -/
def keysOf (delimiter : Delimiter) (lines : List Text) : List (Text × SymbolKind) :=
  (codes delimiter lines).filterMap declared

/-- A line that begins in this begins in a literal that a quote opened, or in none. -/
def ByQuote (delimiter : Delimiter) : Prop := ∀ quote ∈ delimiter, isQuote quote = true

theorem ByQuote.quoted (h : ByQuote delimiter) : (Lexing.ofDelimiter delimiter).Quoted := by
  cases delimiter with
  | none => trivial
  | some quote => exact h quote rfl

theorem ByQuote.next (h : ByQuote delimiter) (line : Text) :
    ByQuote (codeOutsideGdscriptLiterals line delimiter).2 :=
  codeFrom_next line 0 h.quoted

theorem byQuote_none : ByQuote none := fun _ h => by cases h

theorem codes_cons (delimiter : Delimiter) (line : Text) (lines : List Text) :
    codes delimiter (line :: lines) =
      (codeOutsideGdscriptLiterals line delimiter).1 :: codes (codeOutsideGdscriptLiterals line delimiter).2 lines := rfl

theorem keysOf_cons (delimiter : Delimiter) (line : Text) (lines : List Text) :
    keysOf delimiter (line :: lines) = (declared (codeOutsideGdscriptLiterals line delimiter).1).toList ++
      keysOf (codeOutsideGdscriptLiterals line delimiter).2 lines := by
  unfold keysOf
  rw [codes_cons, List.filterMap_cons]
  cases declared (codeOutsideGdscriptLiterals line delimiter).1 <;> rfl

/-- A carriage return at the end of a line changes nothing. -/
theorem code_dropReturn (line : Text) (h : ByQuote delimiter) :
    declared (codeOutsideGdscriptLiterals (dropReturn line) delimiter).1 =
        declared (codeOutsideGdscriptLiterals line delimiter).1 ∧
      (codeOutsideGdscriptLiterals (dropReturn line) delimiter).2 = (codeOutsideGdscriptLiterals line delimiter).2 := by
  unfold dropReturn
  split
  · rename_i hlast
    obtain ⟨before, rfl⟩ : ∃ before, line = before ++ ['\r'] :=
      ⟨line.dropLast, (List.dropLast_append_getLast? _ hlast).symm⟩
    rw [List.dropLast_concat]
    obtain ⟨tail, htail, heq⟩ := codeFrom_return before 0 h.quoted
    unfold codeOutsideGdscriptLiterals
    rw [heq]
    exact ⟨(declared_spaces htail _).symm, rfl⟩
  · exact ⟨rfl, rfl⟩

theorem keysOf_dropReturn (lines : List Text) (h : ByQuote delimiter) :
    keysOf delimiter (lines.map dropReturn) = keysOf delimiter lines := by
  induction lines generalizing delimiter with
  | nil => rfl
  | cons line lines ih =>
    obtain ⟨hdeclared, hnext⟩ := code_dropReturn line h
    rw [List.map_cons, keysOf_cons, keysOf_cons, hdeclared, hnext, ih (h.next line)]

theorem keysOf_concat_nil (lines : List Text) (delimiter : Delimiter) :
    keysOf delimiter (lines ++ [[]]) = keysOf delimiter lines := by
  induction lines generalizing delimiter with
  | nil => cases delimiter <;> rfl
  | cons line lines ih => rw [List.cons_append, keysOf_cons, keysOf_cons, ih]

/-- The lines that `getline` reads declare what the lines of the text do. -/
theorem keysOf_fileLines (text : Text) : keysOf none (fileLines text) = keysOf none (text.splitOn '\n') := by
  unfold fileLines dropEmptyLast
  rw [keysOf_dropReturn _ byQuote_none]
  split
  · rename_i hlast
    conv_rhs => rw [← List.dropLast_append_getLast? _ hlast]
    rw [keysOf_concat_nil]
  · rfl

/-! ## The search -/

/-- The search for a symbol of this name and this kind. -/
def exactly (name : Text) (kind : SymbolKind) (maxResults : Nat) : SymbolSearchOptions :=
  { query := name, matching := .exact, kinds := [kind], maxResults }

theorem masked_declared (line : Text) (h : ByQuote delimiter) :
    declared (maskGdscriptLine line delimiter).1 = declared (codeOutsideGdscriptLiterals line delimiter).1 ∧
      (maskGdscriptLine line delimiter).2 = (codeOutsideGdscriptLiterals line delimiter).2 := by
  obtain ⟨⟨n, hn⟩, hnext⟩ := maskGdscriptLine_eq line h
  rw [hn]
  exact ⟨declared_spaces (fun c hc => by rw [List.eq_of_mem_replicate hc]; rfl) _, hnext⟩

/-- What is searched for is found when a line declares it in its code. -/
theorem searchLines_iff {name : Text} {kind : SymbolKind} {maxResults : Nat} (path : Text) (lines : List Text)
    (h : ByQuote delimiter) (number found : Nat) :
    (∃ m ∈ (searchLines (exactly name kind maxResults) path number delimiter found lines).1,
      m.name = name ∧ m.kind = kind) ↔ (name, kind) ∈ keysOf delimiter lines := by
  induction lines generalizing delimiter number found with
  | nil => simp [searchLines, keysOf, codes]
  | cons line lines ih =>
    obtain ⟨hdeclared, hnext⟩ := masked_declared line h
    have ih := fun number found => @ih _ (h.next line) number found
    rw [keysOf_cons, ← hdeclared, ← hnext]
    rw [← hnext] at ih
    rw [searchLines]
    generalize maskGdscriptLine line delimiter = read at *
    obtain ⟨masked, next⟩ := read
    dsimp only at ih ⊢
    unfold declared
    cases parseDeclaration masked with
    | none => exact ih (number + 1) found
    | some declaration =>
      dsimp only
      by_cases hother : (!(exactly name kind maxResults).kinds.contains declaration.kind ||
          !symbolMatches declaration.name (exactly name kind maxResults)) = true
      · have hkey : (name, kind) ≠ declaration.key := by
          rintro heq
          obtain ⟨rfl, rfl⟩ := Prod.mk.inj heq
          simp [exactly, symbolMatches] at hother
        rw [if_pos hother, ih (number + 1) found]
        simp [hkey]
      · obtain ⟨hkind, hname⟩ : declaration.kind = kind ∧ declaration.name = name := by
          simpa [exactly, symbolMatches] using hother
        have hkey : declaration.key = (name, kind) := Prod.ext hname hkind
        rw [if_neg hother]
        refine iff_of_true ?_ (by simp [hkey])
        split
        · exact ⟨_, List.mem_singleton_self _, hname, hkind⟩
        · exact ⟨_, List.mem_cons_self, hname, hkind⟩

/-- The search answers when the name is one that it takes. -/
theorem searchSymbols_exactly {name : Text} {kind : SymbolKind} {maxResults : Nat} (path contents : Text)
    (hname : name ≠ [] ∧ codePointCount name ≤ kSearchMaxQueryCharacters ∧ '\x00' ∉ name)
    (hresults : 1 ≤ maxResults ∧ maxResults ≤ kSearchMaxResults) :
    searchSymbols (exactly name kind maxResults) path contents =
      .ok (searchLines (exactly name kind maxResults) path 1 none 0 (fileLines contents)) := by
  have hvalid : validateCommon (exactly name kind maxResults) = .ok () := by
    unfold validateCommon
    rw [if_neg, if_neg]
    · rintro (hlow | hhigh)
      · exact absurd hresults.1 (not_le.mpr hlow)
      · exact absurd hresults.2 (not_le.mpr hhigh)
    · rintro (hnil | hlong | hnul)
      · exact hname.1 hnil
      · exact absurd hname.2.1 (not_le.mpr hlong)
      · exact hname.2.2 hnul
  unfold searchSymbols
  rw [hvalid]
  rfl

theorem results_of_searchSymbols {options : SymbolSearchOptions} {path contents : Text}
    {results : List SearchMatch × Bool} (h : searchSymbols options path contents = .ok results) :
    results = searchLines options path 1 none 0 (fileLines contents) := by
  unfold searchSymbols at h
  cases hvalid : validateCommon options with
  | error e =>
    rw [hvalid] at h
    cases h
  | ok _ =>
    rw [hvalid] at h
    exact (Except.ok.inj h).symm

/-! ## The extraction -/

/-- A function has its parameters on its line. -/
def hasEntry (declaration : GDScriptDeclaration) : Bool := (entryOf declaration false 0).isSome

theorem entryOf_spec (declaration : GDScriptDeclaration) (exported : Bool) (line : Nat) :
    (entryOf declaration exported line).isSome = hasEntry declaration ∧
      ∀ entry ∈ entryOf declaration exported line, (entry.name, entry.kind) = declaration.key := by
  unfold hasEntry entryOf
  cases hkind : declaration.kind with
  | function =>
    dsimp only
    refine ⟨by rw [Option.isSome_map, Option.isSome_map], fun entry hentry => ?_⟩
    obtain ⟨_, _, rfl⟩ := Option.map_eq_some_iff.mp hentry
    exact Prod.ext rfl hkind.symm
  | _ =>
    refine ⟨rfl, fun entry hentry => ?_⟩
    rw [← Option.some.inj hentry]
    exact Prod.ext rfl hkind.symm

theorem hasEntry_of_ne {declaration : GDScriptDeclaration} (h : declaration.kind ≠ .function) :
    hasEntry declaration = true := by
  unfold hasEntry entryOf
  cases hkind : declaration.kind with
  | function => exact absurd hkind h
  | _ => rfl

namespace Symbols
variable (symbols : Symbols) (maxSymbols : Nat)

/-- A symbol of this name and this kind is listed. -/
def Lists (name : Text) (kind : SymbolKind) : Prop := ∃ entry ∈ symbols.entries, entry.name = name ∧ entry.kind = kind

/-- Nothing that is counted is left out, and so it was before. -/
theorem add_complete {entry : SymbolEntry} (hle : symbols.returned ≤ symbols.total)
    (h : (symbols.add maxSymbols entry).returned = (symbols.add maxSymbols entry).total) :
    symbols.returned = symbols.total ∧ (symbols.add maxSymbols entry).entries = symbols.entries ++ [entry] := by
  unfold add at h ⊢
  dsimp only at h ⊢
  split at h
  · have hlt : symbols.returned = symbols.total + 1 := h
    omega
  · rename_i hroom
    rw [if_neg hroom]
    exact ⟨Nat.succ.inj h, rfl⟩

theorem add_le {entry : SymbolEntry} (hle : symbols.returned ≤ symbols.total) :
    (symbols.add maxSymbols entry).returned ≤ (symbols.add maxSymbols entry).total := by
  unfold add
  dsimp only
  split
  · exact Nat.le_succ_of_le hle
  · exact Nat.succ_le_succ hle

end Symbols

/-- The symbols that the code of a line lists. -/
def listedIn (code : Text) : Option (Text × SymbolKind) :=
  ((parseDeclaration code).filter hasEntry).map GDScriptDeclaration.key

/-- A line is read: what it lists is added, and nothing else. -/
theorem extractLine_spec (maxSymbols : Nat) (state : Extraction) (line : Text) :
    (extractLine maxSymbols state line).delimiter = (codeOutsideGdscriptLiterals line state.delimiter).2 ∧
      ((listedIn (codeOutsideGdscriptLiterals line state.delimiter).1 = none ∧
          (extractLine maxSymbols state line).symbols = state.symbols) ∨
        ∃ entry, listedIn (codeOutsideGdscriptLiterals line state.delimiter).1 = some (entry.name, entry.kind) ∧
          (extractLine maxSymbols state line).symbols = state.symbols.add maxSymbols entry) := by
  unfold extractLine listedIn
  generalize codeOutsideGdscriptLiterals line state.delimiter = read
  obtain ⟨masked, delimiter⟩ := read
  dsimp only
  cases parseDeclaration masked with
  | none =>
    dsimp only
    split
    · split
      · exact ⟨rfl, Or.inl ⟨rfl, rfl⟩⟩
      · exact ⟨rfl, Or.inl ⟨rfl, rfl⟩⟩
    · split
      · exact ⟨rfl, Or.inl ⟨rfl, rfl⟩⟩
      · exact ⟨rfl, Or.inl ⟨rfl, rfl⟩⟩
  | some declaration =>
    dsimp only
    obtain ⟨hsome, hentry⟩ := entryOf_spec declaration (declaration.exported || state.pendingExport) state.line
    cases heq : entryOf declaration (declaration.exported || state.pendingExport) state.line with
    | none =>
      rw [heq] at hsome
      refine ⟨rfl, Or.inl ⟨?_, rfl⟩⟩
      rw [Option.filter_some, ← hsome]
      rfl
    | some entry =>
      rw [heq] at hsome
      refine ⟨rfl, Or.inr ⟨entry, ?_, rfl⟩⟩
      rw [Option.filter_some, ← hsome, hentry entry heq]
      rfl

theorem extract_le (maxSymbols : Nat) (lines : List Text) {state : Extraction}
    (hle : state.symbols.returned ≤ state.symbols.total) :
    (lines.foldl (extractLine maxSymbols) state).symbols.returned ≤
      (lines.foldl (extractLine maxSymbols) state).symbols.total := by
  induction lines generalizing state with
  | nil => exact hle
  | cons line lines ih =>
    rcases (extractLine_spec maxSymbols state line).2 with ⟨-, hsame⟩ | ⟨entry, -, hadd⟩
    · exact ih (hsame ▸ hle)
    · exact ih (hadd ▸ Symbols.add_le _ maxSymbols hle)

/-- What is listed in the end was listed before, or by the code of a line. -/
theorem extract_iff (maxSymbols : Nat) (lines : List Text) {state : Extraction}
    (hle : state.symbols.returned ≤ state.symbols.total)
    (h : (lines.foldl (extractLine maxSymbols) state).symbols.returned =
      (lines.foldl (extractLine maxSymbols) state).symbols.total) :
    state.symbols.returned = state.symbols.total ∧ ∀ name kind,
      (lines.foldl (extractLine maxSymbols) state).symbols.Lists name kind ↔
        state.symbols.Lists name kind ∨ (name, kind) ∈ (codes state.delimiter lines).filterMap listedIn := by
  induction lines generalizing state with
  | nil =>
    refine ⟨h, fun name kind => ?_⟩
    show _ ↔ _ ∨ _ ∈ []
    rw [List.foldl_nil]
    exact (or_iff_left List.not_mem_nil).symm
  | cons line lines ih =>
    obtain ⟨hdelimiter, hsymbols⟩ := extractLine_spec maxSymbols state line
    rw [List.foldl_cons] at h ⊢
    rw [codes_cons, List.filterMap_cons, ← hdelimiter]
    rcases hsymbols with ⟨hlisted, hsame⟩ | ⟨entry, hlisted, hadd⟩
    · rw [hlisted, ← hsame]
      exact ih (hsame ▸ hle) h
    · obtain ⟨hcomplete, hiff⟩ := ih (hadd ▸ Symbols.add_le _ maxSymbols hle) h
      rw [hadd] at hcomplete
      obtain ⟨hbefore, hentries⟩ := Symbols.add_complete _ maxSymbols hle hcomplete
      refine ⟨hbefore, fun name kind => ?_⟩
      rw [hiff name kind, hlisted, hadd]
      unfold Symbols.Lists
      rw [hentries]
      simp only [List.mem_append, or_and_right, exists_or, exists_eq_left, or_assoc, List.mem_cons, List.not_mem_nil,
        false_and, exists_false, false_or, Prod.mk.injEq, eq_comm (a := name), eq_comm (a := kind)]

/-! ## The lines that a patch matches -/

theorem matchesFrom_ne_nil {symbolName : Text} {symbolType : SymbolKind} (lines above : List Text) (index : Nat) :
    matchesFrom symbolName symbolType above index lines ≠ [] ↔
      ∃ line ∈ lines, declaresHere symbolName symbolType line = true := by
  induction lines generalizing above index with
  | nil => simp [matchesFrom]
  | cons line lines ih =>
    rw [matchesFrom]
    dsimp only
    by_cases hhere : declaresHere symbolName symbolType line = true
    · rw [if_pos hhere]
      exact iff_of_true (List.cons_ne_nil _ _) ⟨line, List.mem_cons_self, hhere⟩
    · rw [if_neg hhere, ih]
      simp [hhere]

theorem declaresSymbol_iff {sourceText symbolName : Text} {symbolType : SymbolKind} :
    declaresSymbol sourceText symbolName symbolType = true ↔
      symbolName ≠ [] ∧ ∃ line ∈ sourceText.splitOn '\n', declaresHere symbolName symbolType line = true := by
  have hfound : ∀ found : List (Nat × Bool),
      (if found.filter Prod.snd = [] then found else found.filter Prod.snd).map Prod.fst ≠ [] ↔ found ≠ [] := by
    intro found
    split
    · simp
    · rename_i hmembers
      refine iff_of_true (by simpa using hmembers) ?_
      rintro rfl
      exact hmembers rfl
  unfold declaresSymbol findDeclarationLines
  rw [Bool.and_eq_true, decide_eq_true_eq, decide_eq_true_eq]
  dsimp only
  rw [hfound, matchesFrom_ne_nil]

/-- A line matches by what it declares as it stands. -/
theorem declaresHere_iff {symbolName line : Text} {symbolType : SymbolKind} (h : symbolType ≠ .klass) :
    declaresHere symbolName symbolType line = true ↔
      ∃ kind, declared line = some (symbolName, kind) ∧ kindMatches symbolType kind = true := by
  unfold declaresHere declared
  rw [if_neg h]
  cases parseDeclaration line with
  | none => simp
  | some declaration =>
    simp only [Bool.and_eq_true, decide_eq_true_eq, Option.map_some, Option.some.injEq]
    constructor
    · rintro ⟨rfl, hkind⟩
      exact ⟨declaration.kind, rfl, hkind⟩
    · rintro ⟨kind, hkey, hkind⟩
      obtain ⟨rfl, rfl⟩ := Prod.mk.inj hkey
      exact ⟨rfl, hkind⟩

/-- What a declaration is named is an identifier. -/
theorem name_of_declared {line name : Text} {kind : SymbolKind} (h : declared line = some (name, kind)) :
    name ≠ [] ∧ ∀ c ∈ name, isIdentifierByte c = true := by
  obtain ⟨declaration, hparse, hkey⟩ := Option.map_eq_some_iff.mp h
  obtain ⟨exported, source, -, hread⟩ := parseDeclaration_eq_some.mp hparse
  obtain ⟨p, -, -, hname, rfl⟩ := readDeclaration_eq_some.mp hread
  rw [← (Prod.mk.inj hkey).1]
  exact ⟨hname, fun c hc => List.mem_takeWhile_imp hc⟩

/-! ## The readers agree -/

/-- The lines of a script that declare the name as they stand are those that do in their code, with the same kind. -/
def ReadsAlike (sourceText name : Text) : Prop :=
  ∀ p ∈ (sourceText.splitOn '\n').zip (codes none (sourceText.splitOn '\n')), ∀ kind,
    declared p.1 = some (name, kind) ↔ declared p.2 = some (name, kind)

/-- Each function of that name has its parameters on the line of its name. -/
def ParametersOnLine (sourceText name : Text) : Prop :=
  ∀ code ∈ codes none (sourceText.splitOn '\n'), ∀ declaration ∈ parseDeclaration code,
    declaration.key = (name, .function) → hasEntry declaration = true

/-- The search of a script finds a symbol of this name and this kind. -/
def Finds (answer : Except Error (List SearchMatch × Bool)) (name : Text) (kind : SymbolKind) : Prop :=
  ∃ results, answer = .ok results ∧ ∃ m ∈ results.1, m.name = name ∧ m.kind = kind

theorem length_codes (delimiter : Delimiter) (lines : List Text) : (codes delimiter lines).length = lines.length := by
  induction lines generalizing delimiter with
  | nil => rfl
  | cons line lines ih =>
    rw [codes_cons, List.length_cons, ih, List.length_cons]

theorem mem_keysOf {lines : List Text} {key : Text × SymbolKind} :
    key ∈ keysOf none lines ↔ ∃ code ∈ codes none lines, declared code = some key :=
  List.mem_filterMap

section
variable {sourceText name : Text} {kind : SymbolKind} {maxSymbols maxResults : Nat}

/-- What is listed is what the code of a line lists. -/
theorem lists_iff (hcomplete : (extractSymbols sourceText maxSymbols).truncated = false) :
    (extractSymbols sourceText maxSymbols).Lists name kind ↔
      ∃ code ∈ codes none (sourceText.splitOn '\n'), listedIn code = some (name, kind) := by
  have hle : (extractSymbols sourceText maxSymbols).total ≤ (extractSymbols sourceText maxSymbols).returned :=
    not_lt.mp (of_decide_eq_false hcomplete)
  have hreturned := @extract_le maxSymbols (sourceText.splitOn '\n') {} le_rfl
  have hiff := (@extract_iff maxSymbols (sourceText.splitOn '\n') {} le_rfl (hreturned.antisymm hle)).2 name kind
  have hempty : ¬({} : Symbols).Lists name kind := fun ⟨_, h, _⟩ => List.not_mem_nil h
  exact (hiff.trans (or_iff_right hempty)).trans List.mem_filterMap

theorem declared_of_listedIn {code : Text} (h : listedIn code = some (name, kind)) : declared code = some (name, kind) := by
  obtain ⟨declaration, hfilter, hkey⟩ := Option.map_eq_some_iff.mp h
  exact Option.map_eq_some_iff.mpr ⟨declaration, (Option.filter_eq_some_iff.mp hfilter).1, hkey⟩

/-- What the code of a line declares is listed, unless it is a function with its parameters below. -/
theorem lists_iff_key (hcomplete : (extractSymbols sourceText maxSymbols).truncated = false)
    (hparameters : kind = .function → ParametersOnLine sourceText name) :
    (extractSymbols sourceText maxSymbols).Lists name kind ↔ (name, kind) ∈ keysOf none (sourceText.splitOn '\n') := by
  rw [lists_iff hcomplete, mem_keysOf]
  constructor
  · rintro ⟨code, hcode, hlisted⟩
    exact ⟨code, hcode, declared_of_listedIn hlisted⟩
  · rintro ⟨code, hcode, hdeclared⟩
    obtain ⟨declaration, hparse, hkey⟩ := Option.map_eq_some_iff.mp hdeclared
    have hentry : hasEntry declaration = true := by
      by_cases hfunction : kind = .function
      · exact hparameters hfunction code hcode declaration hparse (hfunction ▸ hkey)
      · exact hasEntry_of_ne ((Prod.mk.inj hkey).2 ▸ hfunction)
    exact ⟨code, hcode, Option.map_eq_some_iff.mpr ⟨declaration, Option.filter_eq_some_iff.mpr ⟨hparse, hentry⟩, hkey⟩⟩

/-- What the search finds is what the code of a line declares. -/
theorem finds_iff (path : Text) (hresults : 1 ≤ maxResults ∧ maxResults ≤ kSearchMaxResults)
    (hname : codePointCount name ≤ kSearchMaxQueryCharacters) :
    Finds (searchSymbols (exactly name kind maxResults) path sourceText) name kind ↔
      (name, kind) ∈ keysOf none (sourceText.splitOn '\n') := by
  rw [← keysOf_fileLines, ← @searchLines_iff _ name kind maxResults path _ byQuote_none 1 0]
  constructor
  · rintro ⟨results, hanswer, m, hm, hfound⟩
    rw [results_of_searchSymbols hanswer] at hm
    exact ⟨m, hm, hfound⟩
  · rintro ⟨m, hm, hfound⟩
    have hkey := (searchLines_iff path _ byQuote_none 1 0).mp ⟨m, hm, hfound⟩
    obtain ⟨code, -, hdeclared⟩ := List.mem_filterMap.mp hkey
    obtain ⟨hne, hident⟩ := name_of_declared hdeclared
    have hnul : '\x00' ∉ name := fun hmem => absurd (hident _ hmem) (by decide)
    exact ⟨_, searchSymbols_exactly path sourceText ⟨hne, hname, hnul⟩ hresults, m, hm, hfound⟩

/-- Where the lines that declare a name are those that do in their code, a patch matches what the code declares. -/
theorem declaresSymbol_iff_keys (hkind : kind ≠ .klass) (halike : ReadsAlike sourceText name) :
    declaresSymbol sourceText name kind = true ↔
      ∃ kind', (name, kind') ∈ keysOf none (sourceText.splitOn '\n') ∧ kindMatches kind kind' = true := by
  have hlength := length_codes none (sourceText.splitOn '\n')
  rw [declaresSymbol_iff]
  constructor
  · rintro ⟨-, line, hline, hhere⟩
    obtain ⟨kind', hdeclared, hmatches⟩ := (declaresHere_iff hkind).mp hhere
    obtain ⟨i, hi, rfl⟩ := List.getElem_of_mem hline
    have hi' : i < (codes none (sourceText.splitOn '\n')).length := hlength ▸ hi
    have hsame := halike _ (List.mem_iff_getElem.mpr ⟨i, by rw [List.length_zip]; omega, List.getElem_zip⟩)
    exact ⟨kind', mem_keysOf.mpr ⟨_, List.getElem_mem hi', (hsame kind').mp hdeclared⟩, hmatches⟩
  · rintro ⟨kind', hkey, hmatches⟩
    obtain ⟨code, hcode, hdeclared⟩ := mem_keysOf.mp hkey
    obtain ⟨i, hi, rfl⟩ := List.getElem_of_mem hcode
    have hi' : i < (sourceText.splitOn '\n').length := hlength ▸ hi
    have hsame := halike _ (List.mem_iff_getElem.mpr ⟨i, by rw [List.length_zip]; omega, List.getElem_zip⟩)
    exact ⟨(name_of_declared hdeclared).1, _, List.getElem_mem hi',
      (declaresHere_iff hkind).mpr ⟨kind', (hsame kind').mpr hdeclared, hmatches⟩⟩

end

/-- The parameters of the first function are below its name. -/
def player : Text := "@export var speed = \"fast\" # var x\nfunc land(\n\tlow):\n\tpass\nfunc jump(high): pass".toList

def limits : Text := "const LIMIT = 3".toList

end Didi.Script
