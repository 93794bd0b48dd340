import Didi.Config.Accepted
import Didi.Config.Literals
import Didi.Lib.Fold

/-!
# The literals that the writer renders

* `Rendered` : a literal that both walks take for one value, wherever it stands;
* `rendered_settingLiteral` : the literal of a JSON value is one;
* `settingLiteral_stays` : so the file that it is written to loads, and reads it back as it was written.
-/

namespace Didi.Json

mutual

/-- The text of every number that is held as a double. -/
def RealTexts (P : String → Prop) : Json → Prop
  | .real _ text => P text
  | .array elements => ElementsRealTexts P elements
  | .object members => MembersRealTexts P members
  | _ => True

def ElementsRealTexts (P : String → Prop) : List Json → Prop
  | [] => True
  | v :: vs => RealTexts P v ∧ ElementsRealTexts P vs

def MembersRealTexts (P : String → Prop) : List (String × Json) → Prop
  | [] => True
  | (_, v) :: ms => RealTexts P v ∧ MembersRealTexts P ms

end

variable {P : String → Prop}

theorem RealTexts.of_mem {vs : List Json} (h : ElementsRealTexts P vs) {v : Json} (hv : v ∈ vs) : RealTexts P v := by
  induction vs with
  | nil => cases hv
  | cons w vs ih =>
    rcases List.mem_cons.mp hv with rfl | hv
    · exact h.1
    · exact ih h.2 hv

theorem RealTexts.of_member {ms : List (String × Json)} (h : MembersRealTexts P ms) {m : String × Json} (hm : m ∈ ms) :
    RealTexts P m.2 := by
  induction ms with
  | nil => cases hm
  | cons n ms ih =>
    rcases List.mem_cons.mp hm with rfl | hm
    · exact h.1
    · exact ih h.2 hm

end Didi.Json

namespace Didi.Config

variable {literal text : Text}

/-! ## The literal ends where its value does -/

theorem contained_quoted (text : Text) : Contained (quotedLiteral text) := by
  have hnewline : '\n' ∉ escapeSettingString text := by
    unfold escapeSettingString
    intro hmem
    obtain ⟨c, -, hc⟩ := List.mem_flatMap.mp hmem
    split_ifs at hc with _ _ hne <;> simp_all
    exact hne hc.symm
  have hquoted : quotedLiteral text = '"' :: (escapeSettingString text ++ ['"']) := rfl
  refine ⟨by simp [quotedLiteral], ?_, ?_, ?_, ?_⟩
  · intro c hc
    obtain rfl : '"' = c := by simpa [quotedLiteral] using hc
    decide
  · intro c hc
    rw [quotedLiteral, List.getLast?_append_of_ne_nil _ (by simp)] at hc
    obtain rfl : '"' = c := by simpa using hc
    decide
  · simpa [quotedLiteral] using hnewline
  · refine ⟨{ seen := true }, ?_⟩
    unfold advanceValue
    rw [if_neg (by simp), hquoted, walkValue_openQuote rfl, walkValue_escaped rfl, walkValue_closeQuote rfl,
      if_pos (show (ValueState.openString {}).depth = 0 from rfl)]
    simp [ValueState.openString, ValueState.finished]
    omega

/-- Outside brackets, a token that is no identifier is passed over. -/
theorem walkValue_plain (hplain : ∀ c ∈ text, isPlain c = true) {s : ValueState} (hstring : s.inString = false)
    (hidentifier : s.identifier = false) (hseen : s.seen = true) (word : Option Text) (index : Nat) :
    walkValue text s word index = (s, index + text.length) := by
  induction text generalizing word index with
  | nil =>
    rw [walkValue_nil]
    simp [ValueState.endLine, hidentifier]
  | cons c text ih =>
    have hc := hplain c List.mem_cons_self
    have hsame : s.readToken c = s := by
      unfold ValueState.readToken
      cases s
      simp_all
    rw [walkValue_token hstring (inert_of_isPlain hc) (not_isSpace_of_isPlain hc), hsame,
      ih fun d hd => hplain d (List.mem_cons_of_mem c hd), List.length_cons]
    congr 1
    omega

theorem ends_of_plain (hplain : ∀ c ∈ text, isPlain c = true) :
    (∀ c, text.head? = some c → isSpace c = false) ∧ (∀ c, text.getLast? = some c → isSpace c = false) ∧
      '\n' ∉ text :=
  ⟨fun c hc => not_isSpace_of_isPlain (hplain c (List.mem_of_head? hc)),
    fun c hc => not_isSpace_of_isPlain (hplain c (List.mem_of_getLast? hc)),
    fun hnewline => absurd (hplain _ hnewline) (by decide)⟩

theorem Numeral.contained (h : Numeral text) : Contained text := by
  obtain ⟨c, rest, rfl, hfirst⟩ := h.first
  obtain ⟨hhead, hlast, hnewline⟩ := ends_of_plain h.plain
  refine ⟨List.cons_ne_nil c rest, hhead, hlast, hnewline, { seen := true }, ?_⟩
  have hplain := h.plain c List.mem_cons_self
  have hstarts : ValueState.readToken {} c = { seen := true } := by
    unfold ValueState.readToken
    rw [if_pos rfl, if_neg (by simp), not_isIdentifierStart_of_isDigit hfirst]
  unfold advanceValue
  rw [if_neg (by simp), walkValue_token rfl (inert_of_isPlain hplain) (not_isSpace_of_isPlain hplain), hstarts,
    walkValue_plain (fun d hd => h.plain d (List.mem_cons_of_mem c hd)) rfl rfl rfl]
  simp [ValueState.finished]
  omega

theorem advanceValue_keyword : ∀ word ∈ ["null".toList, "true".toList, "false".toList],
    advanceValue word {} = (true, { seen := true, identifier := true }, word.length) := by
  decide +kernel

theorem contained_keyword {word : Text} (h : word ∈ ["null".toList, "true".toList, "false".toList]) :
    Contained word := by
  have hplain : ∀ c ∈ word, isPlain c = true := by
    fin_cases h <;> exact List.all_eq_true.mp (by decide)
  obtain ⟨hhead, hlast, hnewline⟩ := ends_of_plain hplain
  exact ⟨by fin_cases h <;> decide, hhead, hlast, hnewline, _, advanceValue_keyword word h⟩

/-- Brackets close what they open, whatever stands between them. -/
theorem contained_bracketed {opener closer : Char} {inner : Text} (hopener : isOpener opener = true)
    (hcloser : isCloser closer = true) (hpasses : Passes inner) (hnewline : '\n' ∉ inner) :
    Contained (opener :: inner ++ [closer]) := by
  have hspace : ∀ {c}, isOpener c = true ∨ isCloser c = true → isSpace c = false ∧ c ≠ '\n' := by
    intro c hc
    have hmem : c ∈ ['[', '\x7b', '(', ']', '\x7d', ')'] := by simpa [isOpener, isCloser, or_assoc] using hc
    fin_cases hmem <;> decide
  have hopened : ValueState.openBracket {} opener = { depth := 1, seen := true } := by
    simp [ValueState.openBracket]
  obtain ⟨word, hinner⟩ := hpasses [closer] { depth := 1, seen := true } none 1 (Nat.succ_pos _) rfl rfl rfl
  refine ⟨by simp, ?_, ?_, ?_, { seen := true }, ?_⟩
  · intro c hc
    obtain rfl : opener = c := by simpa using hc
    exact (hspace (.inl hopener)).1
  · intro c hc
    rw [List.getLast?_append_of_ne_nil _ (by simp)] at hc
    obtain rfl : closer = c := by simpa using hc
    exact (hspace (.inr hcloser)).1
  · simp [hnewline, (hspace (.inl hopener)).2.symm, (hspace (.inr hcloser)).2.symm]
  · unfold advanceValue
    rw [if_neg (by simp), List.cons_append, walkValue_opener rfl hopener, hopened, hinner, walkValue_closer rfl hcloser]
    simp [ValueState.closeBracket, ValueState.finished]
    omega

/-! ## What is rendered -/

/-- A literal that both walks take for one value. -/
structure Rendered (literal : Text) : Prop where
  begins : Begins literal
  reads : Reads literal
  passes : Passes literal
  contained : Contained literal
  cr : '\r' ∉ literal

theorem rendered_quoted (text : Text) : Rendered (quotedLiteral text) := by
  refine ⟨⟨'"', _, rfl, by decide, by decide⟩, reads_quoted text, passes_quoted text, contained_quoted text, ?_⟩
  have hreturn : '\r' ∉ escapeSettingString text := by
    unfold escapeSettingString
    intro hmem
    obtain ⟨c, -, hc⟩ := List.mem_flatMap.mp hmem
    split_ifs at hc with _ _ _ hne <;> simp_all
    exact hne hc.symm
  simpa [quotedLiteral] using hreturn

theorem Numeral.rendered (h : Numeral text) : Rendered text := by
  obtain ⟨c, rest, rfl, hfirst⟩ := h.first
  have hplain := h.plain c List.mem_cons_self
  exact ⟨⟨c, rest, rfl, not_isSpace_of_isPlain hplain, (inert_of_isPlain hplain).closer⟩, h.reads,
    passes_of_inert fun d hd => inert_of_isPlain (h.plain d hd), h.contained,
    fun hreturn => absurd (h.plain _ hreturn) (by decide)⟩

theorem rendered_keyword {word : Text} (h : word ∈ ["null".toList, "true".toList, "false".toList]) :
    Rendered word := by
  refine ⟨?_, reads_keyword h, ?_, contained_keyword h, ?_⟩
  · fin_cases h <;> exact ⟨_, _, rfl, by decide, by decide⟩
  · apply passes_of_inert
    intro c hc
    apply inert_of_isPlain
    fin_cases h <;> exact List.all_eq_true.mp (by decide) c hc
  · fin_cases h <;> decide

/-- What stands between the brackets of a literal. -/
theorem passes_commaSeparated {pieces : List Text} (h : ∀ piece ∈ pieces, Passes piece ∧ '\n' ∉ piece ∧ '\r' ∉ piece) :
    Passes (commaSeparated pieces) ∧ '\n' ∉ commaSeparated pieces ∧ '\r' ∉ commaSeparated pieces := by
  induction pieces with
  | nil => exact ⟨passes_nil, by simp [commaSeparated], by simp [commaSeparated]⟩
  | cons piece pieces ih =>
    obtain ⟨hpasses, hnewline, hreturn⟩ := h piece List.mem_cons_self
    obtain ⟨ihpasses, ihnewline, ihreturn⟩ := ih fun piece' hmem => h piece' (List.mem_cons_of_mem piece hmem)
    cases pieces with
    | nil => exact ⟨hpasses, hnewline, hreturn⟩
    | cons piece' pieces =>
      have hcomma : Passes [',', ' '] := passes_of_inert (List.forall_mem_cons.mpr
        ⟨⟨by decide, by decide, rfl, rfl⟩, List.forall_mem_singleton.mpr ⟨by decide, by decide, rfl, rfl⟩⟩)
      exact ⟨(hpasses.append hcomma).append ihpasses, by simp [commaSeparated, hnewline, ihnewline],
        by simp [commaSeparated, hreturn, ihreturn]⟩

/-- A literal that may stand inside brackets. -/
structure Element (literal : Text) : Prop where
  begins : Begins literal
  reads : Reads literal
  passes : Passes literal
  newline : '\n' ∉ literal
  cr : '\r' ∉ literal

theorem Rendered.element (h : Rendered literal) : Element literal :=
  ⟨h.begins, h.reads, h.passes, h.contained.newline, h.cr⟩

theorem rendered_array {pieces : List Text} (h : ∀ piece ∈ pieces, Element piece) :
    Rendered ('[' :: commaSeparated pieces ++ [']']) := by
  obtain ⟨hpasses, hnewline, hreturn⟩ :=
    passes_commaSeparated fun piece hmem => ⟨(h piece hmem).passes, (h piece hmem).newline, (h piece hmem).cr⟩
  exact ⟨⟨'[', _, rfl, by decide, by decide⟩, reads_array fun piece hmem => ⟨(h piece hmem).begins, (h piece hmem).reads⟩,
    passes_bracketed rfl rfl hpasses, contained_bracketed rfl rfl hpasses hnewline, by simp [hreturn]⟩

/-- The text of a member of an object. -/
def RenderedMember (piece : Text) : Prop := ∃ key literal, piece = quotedLiteral key ++ [':', ' '] ++ literal ∧
  Rendered literal

theorem rendered_object {pieces : List Text} (h : ∀ piece ∈ pieces, RenderedMember piece) :
    Rendered ('\x7b' :: commaSeparated pieces ++ ['\x7d']) := by
  have hcolon : Passes [':', ' '] := passes_of_inert (List.forall_mem_cons.mpr
    ⟨⟨by decide, by decide, rfl, rfl⟩, List.forall_mem_singleton.mpr ⟨by decide, by decide, rfl, rfl⟩⟩)
  obtain ⟨hpasses, hnewline, hreturn⟩ := @passes_commaSeparated pieces fun piece hmem => by
    obtain ⟨key, literal, rfl, hliteral⟩ := h piece hmem
    have hkey := rendered_quoted key
    exact ⟨(hkey.passes.append hcolon).append hliteral.passes,
      by simp [hkey.contained.newline, hliteral.contained.newline], by simp [hkey.cr, hliteral.cr]⟩
  refine ⟨⟨'\x7b', _, rfl, by decide, by decide⟩, reads_dictionary fun piece hmem => ?_, passes_bracketed rfl rfl hpasses,
    contained_bracketed rfl rfl hpasses hnewline, by simp [hreturn]⟩
  obtain ⟨key, literal, rfl, hliteral⟩ := h piece hmem
  exact ⟨quotedLiteral key, literal, rfl, (rendered_quoted key).begins, (rendered_quoted key).reads, hliteral.reads⟩

/-! ## The literal of a JSON value -/

theorem numeral_natural (n : Nat) : Numeral (toString n).toList := by
  rw [Nat.toString_eq_ofList_toDigits, String.toList_ofList]
  have hdigits : ∀ c ∈ Nat.toDigits 10 n, c.isDigit = true :=
    fun c hc => Nat.isDigit_of_mem_toDigits (by decide) (by decide) hc
  obtain ⟨c, rest, hcons⟩ := List.exists_cons_of_ne_nil (show Nat.toDigits 10 n ≠ [] from Nat.toDigits_ne_nil)
  exact ⟨⟨c, rest, hcons, .inl (hdigits c (by rw [hcons]; exact List.mem_cons_self))⟩,
    fun d hd => isPlain_of_isDigit (hdigits d hd)⟩

theorem numeral_integer (i : Int) : Numeral (toString i).toList := by
  cases i with
  | ofNat n => exact numeral_natural n
  | negSucc n =>
    have hminus : (toString (Int.negSucc n)).toList = '-' :: (toString (n + 1)).toList := by
      show ("-" ++ toString (n + 1)).toList = _
      rw [String.toList_append]
      rfl
    rw [hminus]
    refine ⟨⟨'-', _, rfl, .inr rfl⟩, fun c hc => ?_⟩
    rcases List.mem_cons.mp hc with rfl | hc
    · decide
    · exact (numeral_natural (n + 1)).plain c hc

theorem numeral_one : Numeral (bytesOf "1.0") := by
  have hbytes : bytesOf "1.0" = ['1', '.', '0'] := by decide
  rw [hbytes]
  exact ⟨⟨'1', _, rfl, .inl rfl⟩, List.all_eq_true.mp (by decide)⟩

theorem Numeral.pointed (h : Numeral text) : Numeral (pointed text) := by
  unfold Config.pointed
  split_ifs
  · exact h
  · obtain ⟨c, rest, rfl, hfirst⟩ := h.first
    refine ⟨⟨c, _, rfl, hfirst⟩, fun d hd => ?_⟩
    rcases List.mem_append.mp hd with hd | hd
    · exact h.plain d hd
    · have hmem : d ∈ ['.', '0'] := hd
      fin_cases hmem <;> decide

/-- The text of a real is that of a number, as the library prints every finite double. -/
def PrintsNumbers (value : Json) : Prop := value.RealTexts fun text => Numeral (bytesOf text)

/-- **The literal of a JSON value is one that both walks take for one value.** -/
theorem rendered_settingLiteral {levels : Nat} {value : Json} (hprints : PrintsNumbers value)
    (h : settingLiteral levels value = .ok literal) : Rendered literal := by
  induction levels generalizing value literal with
  | zero =>
    rw [settingLiteral] at h
    cases h
  | succ levels ih =>
    rw [settingLiteral.eq_def] at h
    cases value with
    | null =>
      cases h
      exact rendered_keyword (by simp)
    | boolean b =>
      cases h
      cases b with
      | false => exact rendered_keyword (by simp)
      | true => exact rendered_keyword (by simp)
    | integer i =>
      dsimp only at h
      split_ifs at h
      cases h
      exact (numeral_integer i).rendered
    | real value text =>
      cases h
      exact (Numeral.pointed hprints).rendered
    | string s =>
      cases h
      exact rendered_quoted _
    | array elements =>
      dsimp only at h
      cases hpieces : elements.mapM (settingLiteral levels) with
      | error e =>
        rw [hpieces] at h
        cases h
      | ok pieces =>
        rw [hpieces] at h
        cases h
        apply rendered_array
        intro piece hpiece
        obtain ⟨element, hmem, hliteral⟩ := Except.exists_of_mem_mapM hpieces hpiece
        exact (ih (Json.RealTexts.of_mem hprints hmem) hliteral).element
    | object members =>
      dsimp only at h
      cases hpieces : members.mapM fun member : String × Json => do
          let literal ← settingLiteral levels member.2
          return quotedLiteral (bytesOf member.1) ++ [':', ' '] ++ literal with
      | error e =>
        rw [hpieces] at h
        cases h
      | ok pieces =>
        rw [hpieces] at h
        cases h
        apply rendered_object
        intro piece hpiece
        obtain ⟨member, hmem, hmember⟩ := Except.exists_of_mem_mapM hpieces hpiece
        cases hliteral : settingLiteral levels member.2 with
        | error e =>
          rw [hliteral] at hmember
          cases hmember
        | ok literal =>
          rw [hliteral] at hmember
          cases hmember
          exact ⟨_, literal, rfl, ih (Json.RealTexts.of_member hprints hmem) hliteral⟩

/-! ## The file that holds it -/

theorem Reads.valueProblem (h : Reads literal) : valueProblem literal = none := by
  unfold Config.valueProblem
  have hread := h (2 * literal.length + 1) 0 [] (by simp [Follows])
  rw [List.append_nil] at hread
  rcases hread with hread | hread
  all_goals rw [hread]

theorem Rendered.stays (h : Rendered literal) (rest : Text) : Stays literal rest := by
  obtain ⟨value, hends⟩ := h.contained.ends
  have hregistered : Registered literal := by
    refine ⟨⟨h.contained.ne, h.cr, h.contained.newline⟩, lineState_of_whole (by rw [hends]), h.contained.trimmed, ?_⟩
    rw [hends]
    exact fun hfinished => absurd hfinished.symm Bool.false_ne_true
  apply (hregistered.stays_iff_closes rest).mpr
  intro hawait
  obtain ⟨stop, hstart⟩ := advanceValue_start literal
  unfold awaitsCall at hawait
  rw [hstart] at hends hawait
  have hfinished := (Prod.mk.inj hends).1
  simp [ValueState.finished] at hfinished
  exact absurd (hfinished.2.symm.trans hawait) Bool.false_ne_true

/-- **What the writer renders is one line that loads, and it is read back as it was written whatever comes after
it.** -/
theorem settingLiteral_stays {value : Json} (hprints : PrintsNumbers value)
    (h : settingLiteral kMaxLevels value = .ok literal) :
    ('\n' ∉ literal ∧ '\r' ∉ literal) ∧ valueProblem literal = none ∧ ∀ rest, Stays literal rest := by
  have hrendered := rendered_settingLiteral hprints h
  exact ⟨⟨hrendered.contained.newline, hrendered.cr⟩, hrendered.reads.valueProblem, hrendered.stays⟩

/-- An array of a real and a text. -/
def sampleValue : Json := .array [.real (1 / 2) "0.5", .string "a;b"]

theorem settingLiteral_stays_sample : settingLiteral kMaxLevels sampleValue = .ok "[0.5, \"a;b\"]".toList ∧
    ('\n' ∉ "[0.5, \"a;b\"]".toList ∧ '\r' ∉ "[0.5, \"a;b\"]".toList) ∧
      valueProblem "[0.5, \"a;b\"]".toList = none ∧ ∀ rest, Stays "[0.5, \"a;b\"]".toList rest := by
  have hbytes : bytesOf "0.5" = ['0', '.', '5'] := by
    decide
  have hprints : PrintsNumbers sampleValue := by
    refine ⟨?_, trivial, trivial⟩
    show Numeral (bytesOf "0.5")
    rw [hbytes]
    exact ⟨⟨'0', _, rfl, .inl rfl⟩, List.all_eq_true.mp (by decide)⟩
  have hliteral : settingLiteral kMaxLevels sampleValue = .ok "[0.5, \"a;b\"]".toList := by
    rfl
  exact ⟨hliteral, settingLiteral_stays hprints hliteral⟩

end Didi.Config
