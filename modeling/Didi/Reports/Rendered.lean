import Didi.Reports.Documents
import Didi.Reports.Markup

/-!
# What is written of a report is read

* `decode_glyphs` : characters are decoded from what they are written as;
* `readMarkup_opens`, `readMarkup_closes`, `readMarkup_characters` : a start tag, an end tag and a CDATA section are
  read;
* `scanFrom_content`, `scanFrom_opens`, `scanFrom_closes` : the scan goes on behind them.
-/

namespace Didi.Reports
open Config (Text bytesOf isSpace isSpacing isHexDigit trimBy)

/-! ## Characters -/

theorem decodeFrom_skip (skipped rest : Text) : decodeFrom skipped.length (skipped ++ rest) = decodeFrom 0 rest := by
  induction skipped with
  | nil => rfl
  | cons c skipped ih => exact ih

/-- What stands between `&` and `;` is decoded, if it is short. -/
theorem decodeFrom_entity {entity : Text} (hsemicolon : ';' ∉ entity) (hlength : entity.length < 10) (rest : Text) :
    decodeFrom 0 ('&' :: entity ++ ';' :: rest) = decodeEntity entity ++ decodeFrom 0 rest := by
  have hall : ∀ c ∈ entity, decide (c ≠ ';') = true := fun c hc => by
    simpa using fun heq : c = ';' => hsemicolon (heq ▸ hc)
  have htake : (entity ++ ';' :: rest).takeWhile (· ≠ ';') = entity := by
    rw [List.takeWhile_append_of_pos hall]
    simp
  have hentity : entityOf (entity ++ ';' :: rest) = some entity := by
    unfold entityOf
    rw [htake]
    exact if_pos ⟨by simp, hlength⟩
  have hskip := decodeFrom_skip (entity ++ [';']) rest
  rw [List.length_append, List.append_assoc] at hskip
  rw [List.cons_append, decodeFrom, if_pos rfl, hentity]
  exact congrArg (decodeEntity entity ++ ·) hskip

/-- A character that is encoded byte by byte. -/
theorem appendUtf8_eq {code : Nat} (h : code.isValidChar) :
    appendUtf8 code = bytesOf (String.singleton (Char.ofNat code)) := by
  have hval : (Char.ofNat code).val.toNat = code := by
    rw [Char.ofNat, dif_pos h]
    rfl
  have hlt : code < 0x110000 := by
    rcases h with h | h
    · omega
    · exact h.2
  have hbyte : ∀ n < 256, Char.ofNat (UInt8.ofNat n).toNat = Char.ofNat n := fun n hn => by
    rw [UInt8.toNat_ofNat_of_lt' hn]
  unfold appendUtf8 bytesOf
  rw [String.toList_singleton, List.flatMap_singleton, String.utf8EncodeChar, hval]
  by_cases h1 : code < 0x80
  · rw [if_pos h1, if_pos (by omega : code ≤ 0x7f), List.map_singleton, hbyte code (by omega)]
  rw [if_neg h1, if_neg (by omega : ¬ code ≤ 0x7f)]
  by_cases h2 : code < 0x800
  · rw [if_pos h2, if_pos (by omega : code ≤ 0x7ff)]
    simp only [List.map_cons, List.map_nil]
    rw [hbyte _ (by omega), hbyte _ (by omega), show code / 64 % 0x20 + 0xc0 = 0xC0 + code / 64 by omega,
      Nat.add_comm (code % 0x40)]
  rw [if_neg h2, if_neg (by omega : ¬ code ≤ 0x7ff)]
  by_cases h3 : code < 0x10000
  · rw [if_pos h3, if_pos (by omega : code ≤ 0xffff)]
    simp only [List.map_cons, List.map_nil]
    rw [hbyte _ (by omega), hbyte _ (by omega), hbyte _ (by omega),
      show code / 4096 % 0x10 + 0xe0 = 0xE0 + code / 4096 by omega, Nat.add_comm (code / 64 % 0x40),
      Nat.add_comm (code % 0x40)]
  rw [if_neg h3, if_neg (by omega : ¬ code ≤ 0xffff), if_pos hlt]
  simp only [List.map_cons, List.map_nil]
  rw [hbyte _ (by omega), hbyte _ (by omega), hbyte _ (by omega), hbyte _ (by omega),
    show code / 262144 % 0x08 + 0xf0 = 0xF0 + code / 262144 by omega, Nat.add_comm (code / 4096 % 0x40),
    Nat.add_comm (code / 64 % 0x40), Nat.add_comm (code % 0x40)]

theorem isHexDigit_of_isDigit {c : Char} (h : c.isDigit = true) : isHexDigit c = true := by
  simp [isHexDigit, h]

theorem isHexDigit_ne {c d : Char} (hc : isHexDigit c = true) (hd : isHexDigit d = false) : c ≠ d := by
  rintro rfl
  rw [hc] at hd
  cases hd

theorem isSpace_of_isHexDigit {c : Char} (h : isHexDigit c = true) : isSpace c = false := by
  have hle : 48 ≤ c.toNat := by
    unfold isHexDigit at h
    rw [Bool.or_eq_true, Bool.or_eq_true, Bool.and_eq_true, Bool.and_eq_true] at h
    simp only [decide_eq_true_eq, Char.isDigit_iff_toNat] at h
    rcases h with (h | h) | h
    · exact h.1
    · exact le_trans (by decide : 48 ≤ 'a'.toNat) h.1
    · exact le_trans (by decide : 48 ≤ 'A'.toNat) h.1
  have hne : c ≠ ' ' := by
    rintro rfl
    exact absurd hle (by decide)
  have hgt : ¬ c.toNat ≤ 13 := by omega
  simp [isSpace, hne, hgt]

/-- Digits are read as their number. -/
theorem stoul_digits {digits : Text} {hexadecimal : Bool} (hne : digits ≠ [])
    (h : ∀ c ∈ digits, (if hexadecimal then isHexDigit else Char.isDigit) c = true) :
    stoul digits hexadecimal = some (numberOf (if hexadecimal then 16 else 10) digits) := by
  have hhex : ∀ c ∈ digits, isHexDigit c = true := fun c hc => by
    have hdigit := h c hc
    cases hexadecimal with
    | true => exact hdigit
    | false => exact isHexDigit_of_isDigit hdigit
  obtain ⟨c, rest, rfl⟩ := List.exists_cons_of_ne_nil hne
  have hc := hhex c List.mem_cons_self
  have hspace : (c :: rest).dropWhile isSpace = c :: rest := by
    rw [List.dropWhile_cons, if_neg (by simp [isSpace_of_isHexDigit hc])]
  have hminus : ((c :: rest).head? = some '-') = False := by
    simp [isHexDigit_ne hc (show isHexDigit '-' = false by decide)]
  have hplus : ((c :: rest).head? = some '+') = False := by
    simp [isHexDigit_ne hc (show isHexDigit '+' = false by decide)]
  have htake : (c :: rest).takeWhile (if hexadecimal then isHexDigit else Char.isDigit) = c :: rest :=
    List.takeWhile_eq_self_iff.mpr h
  have hstarts : dropHexPrefix hexadecimal (c :: rest) = c :: rest := by
    unfold dropHexPrefix
    split
    · rename_i x d rest' heq
      have hx : isHexDigit x = true := by
        apply hhex
        rw [heq]
        simp
      rw [if_neg (by simp [isHexDigit_ne hx (show isHexDigit 'x' = false by decide),
        isHexDigit_ne hx (show isHexDigit 'X' = false by decide)])]
    · rfl
  unfold stoul
  dsimp only
  rw [hspace]
  simp only [hminus, hplus, decide_false, Bool.false_or, Bool.false_eq_true, if_false, Bool.false_and]
  rw [hstarts, htake, if_neg (List.cons_ne_nil c rest)]

theorem decodeEntity_reference (number : Text) : decodeEntity ('#' :: number) =
    match stoul (if number.head? = some 'x' ∨ number.head? = some 'X' then number.tail else number)
      (number.head? = some 'x' || number.head? = some 'X') with
    | some code => appendUtf8 code
    | none => '&' :: '#' :: number ++ [';'] := by
  have hne : ∀ name : Text, name.head? ≠ some '#' → '#' :: number ≠ name := by
    rintro name hname rfl
    exact hname rfl
  unfold decodeEntity
  dsimp only
  rw [if_neg (hne _ (by decide)), if_neg (hne _ (by decide)), if_neg (hne _ (by decide)), if_neg (hne _ (by decide)),
    if_neg (hne _ (by decide))]
  have heither : ((number.head? = some 'x' || number.head? = some 'X') = true) =
      (number.head? = some 'x' ∨ number.head? = some 'X') := by
    simp only [Bool.or_eq_true, decide_eq_true_eq]
  simp only [heither]
  try rfl

/-- A character is decoded from what it is written as. -/
theorem decode_glyph {reserved : List Char} (hreserved : '&' ∈ reserved) {glyph : Glyph} (h : glyph.WellFormed reserved)
    (rest : Text) : decodeFrom 0 (glyph.text ++ rest) = glyph.value ++ decodeFrom 0 rest := by
  cases glyph with
  | plain c =>
    have hne : c ≠ '&' := by
      rintro rfl
      exact h hreserved
    rw [Glyph.text, Glyph.value, List.singleton_append, decodeFrom, if_neg hne]
    rfl
  | named entity =>
    have hdecoded : ';' ∉ entity.name ∧ entity.name.length < 10 ∧ decodeEntity entity.name = [entity.char] := by
      cases entity <;> decide
    rw [Glyph.text, List.append_assoc, List.singleton_append, decodeFrom_entity hdecoded.1 hdecoded.2.1,
      hdecoded.2.2]
    rfl
  | decimal digits =>
    obtain ⟨hne, hlength, hdigits, hvalid⟩ := h
    have hhex : ∀ c ∈ digits, isHexDigit c = true := fun c hc => isHexDigit_of_isDigit (hdigits c hc)
    have hhead : ∀ d, isHexDigit d = false → digits.head? ≠ some d := fun d hd heq =>
      isHexDigit_ne (hhex d (List.mem_of_head? heq)) hd rfl
    have hx : ¬ (digits.head? = some 'x' ∨ digits.head? = some 'X') :=
      not_or.mpr ⟨hhead 'x' (by decide), hhead 'X' (by decide)⟩
    have hentity : decodeEntity ('#' :: digits) = appendUtf8 (numberOf 10 digits) := by
      have hflag : (decide (digits.head? = some 'x') || decide (digits.head? = some 'X')) = false := by
        simpa using not_or.mp hx
      rw [decodeEntity_reference, if_neg hx, hflag, @stoul_digits digits false hne hdigits]
      rfl
    have hsemicolon : ';' ∉ '#' :: digits := by
      rw [List.mem_cons, not_or]
      exact ⟨by decide, fun hmem => isHexDigit_ne (hhex _ hmem) (show isHexDigit ';' = false by decide) rfl⟩
    have hdecoded := decodeFrom_entity hsemicolon (by rw [List.length_cons]; omega) rest
    rw [hentity, appendUtf8_eq hvalid] at hdecoded
    rw [Glyph.text, List.append_assoc, List.singleton_append]
    exact hdecoded
  | hexadecimal digits =>
    obtain ⟨hne, hlength, hdigits, hvalid⟩ := h
    have hentity : decodeEntity ('#' :: 'x' :: digits) = appendUtf8 (numberOf 16 digits) := by
      rw [decodeEntity_reference, if_pos (.inl rfl), List.head?_cons, List.tail_cons, decide_eq_true rfl,
        Bool.true_or, @stoul_digits digits true hne hdigits]
      rfl
    have hsemicolon : ';' ∉ '#' :: 'x' :: digits := by
      rw [List.mem_cons, List.mem_cons, not_or, not_or]
      exact ⟨by decide, by decide,
        fun hmem => isHexDigit_ne (hdigits _ hmem) (show isHexDigit ';' = false by decide) rfl⟩
    have hdecoded := decodeFrom_entity hsemicolon (by rw [List.length_cons, List.length_cons]; omega) rest
    rw [hentity, appendUtf8_eq hvalid] at hdecoded
    rw [Glyph.text, List.append_assoc, List.singleton_append]
    exact hdecoded

/-- Characters are decoded from what they are written as. -/
theorem decode_glyphs {reserved : List Char} (hreserved : '&' ∈ reserved) {glyphs : List Glyph}
    (h : ∀ glyph ∈ glyphs, glyph.WellFormed reserved) : decode (glyphsText glyphs) = glyphsValue glyphs := by
  unfold decode
  induction glyphs with
  | nil => rfl
  | cons glyph glyphs ih =>
    show decodeFrom 0 (glyph.text ++ glyphsText glyphs) = glyph.value ++ glyphsValue glyphs
    rw [decode_glyph hreserved (h glyph List.mem_cons_self), ih fun g hg => h g (List.mem_cons_of_mem _ hg)]

/-- A mark that is reserved stands nowhere in what is written. -/
theorem notMem_glyphsText {reserved : List Char} {mark : Char} (hmark : mark ∈ ['<', '"', '\''])
    (hreserved : mark ∈ reserved) {glyphs : List Glyph} (h : ∀ glyph ∈ glyphs, glyph.WellFormed reserved) :
    mark ∉ glyphsText glyphs := by
  intro hmem
  obtain ⟨glyph, hglyph, hmem⟩ := List.mem_flatMap.mp hmem
  have hformed := h glyph hglyph
  have hplain : mark ∉ ['&', '#', ';', 'x'] ∧ isHexDigit mark = false ∧ ∀ entity : Entity, mark ∉ entity.name := by
    simp only [List.mem_cons, List.not_mem_nil, or_false] at hmark
    rcases hmark with rfl | rfl | rfl <;> exact ⟨by decide, by decide, by intro entity; cases entity <;> decide⟩
  obtain ⟨hplain, hhex, hname⟩ := hplain
  simp only [List.mem_cons, List.not_mem_nil, or_false, not_or] at hplain
  cases glyph with
  | plain c =>
    rw [Glyph.text, List.mem_singleton] at hmem
    exact hformed (hmem ▸ hreserved)
  | named entity =>
    simp [Glyph.text, hplain, hname] at hmem
  | decimal digits =>
    have hdigits : mark ∉ digits := fun hd => isHexDigit_ne (isHexDigit_of_isDigit (hformed.2.2.1 _ hd)) hhex rfl
    simp [Glyph.text, hplain, hdigits] at hmem
  | hexadecimal digits =>
    have hdigits : mark ∉ digits := fun hd => isHexDigit_ne (hformed.2.2.1 _ hd) hhex rfl
    simp [Glyph.text, hplain, hdigits] at hmem

/-! ## Tags -/

/-- The attributes of a tag as the scanner keeps them. -/
def readOf (attributes : List Attribute) : Attributes := (attributes.map fun a => (a.key, glyphsValue a.value)).reverse

/-- An attribute is read, and the reading goes on behind it. -/
theorem readAttributes_attribute {a : Attribute} (h : a.WellFormed) (name : Text) (fuel : Nat) (read : Attributes)
    (rest : Text) : readAttributes name (fuel + 1) read (a.text ++ rest) =
      readAttributes name fuel ((a.key, glyphsValue a.value) :: read) rest := by
  have hquote : a.quote ∉ glyphsText a.value := by
    apply notMem_glyphsText ?_ (by simp) h.value
    rcases h.quote with hq | hq <;> simp [hq]
  have hvalue : decode (glyphsText a.value) = glyphsValue a.value := decode_glyphs (by simp) h.value
  have hbefore : ∀ c ∈ a.before, isSpace c = true := fun c hc => h.around c (List.mem_append_left _ hc)
  have hafter : ∀ c ∈ a.after, isSpace c = true := fun c hc => h.around c (List.mem_append_right _ hc)
  obtain ⟨c, key, hkey⟩ := List.exists_cons_of_ne_nil h.key.1
  have hc := h.key.2 c (hkey ▸ List.mem_cons_self)
  simp only [List.mem_cons, List.not_mem_nil, or_false, not_or] at hc
  have hinKey : ∀ d ∈ a.key, (d ≠ '=' && !isSpace d && d ≠ '>') = true := fun d hd => by
    have hd := h.key.2 d hd
    simp only [List.mem_cons, List.not_mem_nil, or_false, not_or] at hd
    simp [hd]
  have hstop : ∀ text : Text, (a.before ++ '=' :: text).takeWhile (fun d => d ≠ '=' && !isSpace d && d ≠ '>') = [] ∧
      (a.before ++ '=' :: text).dropWhile (fun d => d ≠ '=' && !isSpace d && d ≠ '>') = a.before ++ '=' :: text := by
    intro text
    cases hspace : a.before with
    | nil => simp
    | cons d before =>
      have hd : isSpace d = true := hbefore d (hspace ▸ List.mem_cons_self)
      simp [hd]
  have hquoted : isSpace a.quote = false := by
    rcases h.quote with hq | hq <;> rw [hq] <;> decide
  have hdropped : (a.text ++ rest).dropWhile isSpace =
      a.key ++ (a.before ++ '=' :: (a.after ++ a.quote :: (glyphsText a.value ++ a.quote :: rest))) := by
    rw [Attribute.text]
    simp only [List.append_assoc, List.cons_append, List.nil_append]
    rw [List.dropWhile_append_of_pos h.spaces.2, hkey, List.cons_append, List.dropWhile_cons, if_neg (by simp [hc])]
  have hnext : (a.after ++ a.quote :: (glyphsText a.value ++ a.quote :: rest)).dropWhile isSpace =
      a.quote :: (glyphsText a.value ++ a.quote :: rest) := by
    rw [List.dropWhile_append_of_pos hafter, List.dropWhile_cons, if_neg (by simp [hquoted])]
  rw [readAttributes, hdropped]
  split
  · rename_i heq
    simp [hkey] at heq
  · rename_i heq
    rw [hkey, List.cons_append, List.cons.injEq] at heq
    exact absurd heq.1 hc.2.2.1
  · rename_i heq
    rw [hkey, List.cons_append, List.cons.injEq] at heq
    exact absurd heq.1 hc.2.2.2
  · rename_i heq
    rw [hkey, List.cons_append, List.cons.injEq] at heq
    exact absurd heq.1 hc.2.2.2
  · dsimp only
    rw [List.dropWhile_append_of_pos hinKey, List.takeWhile_append_of_pos hinKey, (hstop _).1, (hstop _).2,
      List.dropWhile_append_of_pos hbefore, List.append_nil]
    rw [show ('=' :: (a.after ++ a.quote :: (glyphsText a.value ++ a.quote :: rest))).dropWhile isSpace =
      '=' :: (a.after ++ a.quote :: (glyphsText a.value ++ a.quote :: rest)) from rfl]
    split
    · rename_i afterEquals heq
      obtain rfl := (List.cons.inj heq).2
      rw [hnext]
      dsimp only
      rw [cut_char hquote, if_pos (by simpa using h.quote)]
      dsimp only
      rw [hvalue]
    · rename_i hne
      exact absurd rfl (hne _)

/-- The attributes of a tag are read, up to its end. -/
theorem readAttributes_tag {attributes : List Attribute} (h : ∀ a ∈ attributes, a.WellFormed) {spaces : Text}
    (hspaces : ∀ c ∈ spaces, isSpace c = true) (name : Text) {fuel : Nat} (hfuel : attributes.length < fuel)
    (read : Attributes) (rest : Text) :
    readAttributes name fuel read (attributes.flatMap Attribute.text ++ spaces ++ '>' :: rest) =
      .ok (readOf attributes ++ read, false, rest) := by
  induction attributes generalizing fuel read with
  | nil =>
    obtain ⟨fuel, rfl⟩ : ∃ n, fuel = n + 1 := ⟨fuel - 1, by simp at hfuel; omega⟩
    rw [readAttributes, List.flatMap_nil, List.nil_append, List.dropWhile_append_of_pos hspaces]
    rfl
  | cons a attributes ih =>
    obtain ⟨fuel, rfl⟩ : ∃ n, fuel = n + 1 := ⟨fuel - 1, by simp at hfuel; omega⟩
    rw [List.flatMap_cons, List.append_assoc, List.append_assoc,
      readAttributes_attribute (h a List.mem_cons_self), ← List.append_assoc,
      ih (fun b hb => h b (List.mem_cons_of_mem _ hb)) (by simpa using hfuel)]
    simp [readOf]

/-- The name of an element is of letters. -/
structure IsName (name : Text) : Prop where
  ne_nil : name ≠ []
  letters : ∀ c ∈ name, c.isAlpha = true

theorem isAlpha_ne {c d : Char} (hc : c.isAlpha = true) (hd : d.isAlpha = false) : c ≠ d := by
  rintro rfl
  rw [hc] at hd
  cases hd

theorem isSpace_of_isAlpha {c : Char} (h : c.isAlpha = true) : isSpace c = false := by
  have hgt : ¬ c.toNat ≤ 13 := by
    intro hle
    delta Char.isAlpha Char.isUpper Char.isLower at h
    simp only [Bool.or_eq_true, Bool.and_eq_true, decide_eq_true_eq, UInt32.le_iff_toNat_le, ge_iff_le] at h
    have h13 : c.val.toNat ≤ 13 := hle
    rcases h with h | h
    · exact absurd (h.1.trans h13) (by decide)
    · exact absurd (h.1.trans h13) (by decide)
  simp [isSpace, isAlpha_ne h (show ' '.isAlpha = false by decide), hgt]

/-- White space behind a name is dropped. -/
theorem trim_name {name : Text} (h : IsName name) {spaces : Text} (hspaces : ∀ c ∈ spaces, c ∈ [' ', '\t', '\r', '\n']) :
    trim (name ++ spaces) = name := by
  have hblank : ∀ c ∈ spaces.reverse, isSpacing c = true := fun c hc => by
    simpa [isSpacing, or_assoc, or_comm (a := c = '\n')] using hspaces c (List.mem_reverse.mp hc)
  have hletter : ∀ c : Char, c.isAlpha = true → isSpacing c = false := fun c hc => by
    simp [isSpacing, isAlpha_ne hc (show ' '.isAlpha = false by decide),
      isAlpha_ne hc (show '\t'.isAlpha = false by decide),
      isAlpha_ne hc (show '\r'.isAlpha = false by decide), isAlpha_ne hc (show '\n'.isAlpha = false by decide)]
  have hkept : ∀ l : Text, l ≠ [] → (∀ c ∈ l, c.isAlpha = true) → ∀ rest : Text,
      (l ++ rest).dropWhile isSpacing = l ++ rest := by
    intro l hl hletters rest
    obtain ⟨c, l, rfl⟩ := List.exists_cons_of_ne_nil hl
    rw [List.cons_append, List.dropWhile_cons, if_neg (by simp [hletter c (hletters c List.mem_cons_self)])]
  unfold trim trimBy
  rw [hkept name h.ne_nil h.letters, List.rdropWhile, List.reverse_append, List.dropWhile_append_of_pos hblank]
  have hreverse := hkept name.reverse (by simpa using h.ne_nil) (by simpa using h.letters) []
  rw [List.append_nil] at hreverse
  rw [hreverse, List.reverse_reverse]

theorem length_attributes {attributes : List Attribute} :
    attributes.length ≤ (attributes.flatMap Attribute.text).length := by
  induction attributes with
  | nil => exact le_rfl
  | cons a attributes ih =>
    have hpos : 0 < a.text.length := by
      simp only [Attribute.text, List.length_append, List.length_cons]
      omega
    rw [List.flatMap_cons, List.length_append, List.length_cons]
    omega

section
variable {ρ : Type} [Zero ρ] {stod : Text → Option ρ} {s : JUnitScanner ρ}
namespace JUnitScanner

@[simp] theorem start_stack (s : JUnitScanner ρ) (name : Text) (attributes : Attributes) :
    (s.start stod name attributes).stack = s.stack := by
  unfold start
  split_ifs
  · rfl
  · rfl
  · split <;> rfl

/-- What follows a name in a tag does not belong to the name. -/
theorem name_ends {attributes : List Attribute} (h : ∀ a ∈ attributes, a.WellFormed) {spaces : Text}
    (hspaces : ∀ c ∈ spaces, isSpace c = true) (rest : Text) :
    (attributes.flatMap Attribute.text ++ spaces ++ '>' :: rest).takeWhile inName = [] ∧
      (attributes.flatMap Attribute.text ++ spaces ++ '>' :: rest).dropWhile inName =
        attributes.flatMap Attribute.text ++ spaces ++ '>' :: rest := by
  cases attributes with
  | nil =>
    cases spaces with
    | nil => simp [inName]
    | cons c spaces => simp [inName, hspaces c List.mem_cons_self]
  | cons a attributes =>
    have hbefore := (h a List.mem_cons_self).spaces
    obtain ⟨c, before, hc⟩ := List.exists_cons_of_ne_nil hbefore.1
    have hspace : isSpace c = true := hbefore.2 c (hc ▸ List.mem_cons_self)
    simp [Attribute.text, hc, inName, hspace]

/-- What the scanner looks for at `<`. -/
theorem markup_words : bytesOf "<!--" = ['<', '!', '-', '-'] ∧
    bytesOf "<![CDATA[" = ['<', '!', '[', 'C', 'D', 'A', 'T', 'A', '['] ∧ bytesOf "<?" = ['<', '?'] ∧
    bytesOf "<!" = ['<', '!'] ∧ bytesOf "</" = ['<', '/'] := by decide

/-- A start tag is read. -/
theorem readMarkup_opens {tag : Tag} (htag : tag.WellFormed) {name : Text} (hname : IsName name)
    (hdepth : s.stack.length < 32) (rest : Text) : s.readMarkup stod (tag.openText name ++ rest) =
      .ok ({ s.start stod name (readOf tag.attributes) with stack := name :: s.stack }, rest) := by
  obtain ⟨c, name', hc⟩ := List.exists_cons_of_ne_nil hname.ne_nil
  have hletter := hname.letters c (hc ▸ List.mem_cons_self)
  have hbang := isAlpha_ne hletter (show '!'.isAlpha = false by decide)
  have hquestion := isAlpha_ne hletter (show '?'.isAlpha = false by decide)
  have hslash := isAlpha_ne hletter (show '/'.isAlpha = false by decide)
  have hinName : ∀ d ∈ name, inName d = true := fun d hd => by
    have hd := hname.letters d hd
    simp [inName, isSpace_of_isAlpha hd, isAlpha_ne hd (show '>'.isAlpha = false by decide),
      isAlpha_ne hd (show '/'.isAlpha = false by decide)]
  let after := tag.attributes.flatMap Attribute.text ++ tag.spaces ++ '>' :: rest
  obtain ⟨htake, hdrop⟩ := name_ends htag.attributes htag.spaces rest
  have htext : tag.openText name ++ rest = '<' :: (name ++ after) := by
    simp [Tag.openText, after]
  have hlength : tag.attributes.length < (name ++ after).length + 1 := by
    have hle := @length_attributes tag.attributes
    simp only [after, List.length_append, List.length_cons]
    omega
  have hread := @readAttributes_tag tag.attributes htag.attributes tag.spaces htag.spaces name _ hlength [] rest
  have hopen : s.openElement stod (name ++ after) =
      .ok ({ s.start stod name (readOf tag.attributes) with stack := name :: s.stack }, rest) := by
    have hname' : (name ++ after).takeWhile inName = name := by
      rw [List.takeWhile_append_of_pos hinName, htake, List.append_nil]
    have hafter : (name ++ after).dropWhile inName = after := by
      rw [List.dropWhile_append_of_pos hinName, hdrop]
    unfold openElement
    dsimp only
    rw [hname', hafter, if_neg hname.ne_nil, hread, List.append_nil]
    simp only [bind, Except.bind, start_stack, Bool.false_eq_true, if_false, List.length_cons]
    rw [if_neg (by omega)]
  obtain ⟨hcomment, hcdata, hdeclaration, hdoctype, hclose⟩ := markup_words
  rw [htext, hc, readMarkup, hcomment, hcdata, hdeclaration, hdoctype, hclose]
  rw [hc] at hopen
  have hhere : ∀ (d : Char) (words : Text), d ≠ c →
      ('<' :: d :: words).isPrefixOf ('<' :: (c :: name' ++ after)) = false := by
    intro d words hd
    simp [List.isPrefixOf, hd]
  rw [hhere _ _ hbang.symm, hhere _ _ hbang.symm, hhere _ _ hquestion.symm, hhere _ _ hbang.symm,
    hhere _ _ hslash.symm]
  exact hopen

/-- An end tag is read. -/
theorem readMarkup_closes {tag : Tag} (htag : tag.WellFormed) {name : Text} (hname : IsName name) (rest : Text) :
    s.readMarkup stod (tag.closeText name ++ rest) = (s.close name).bind fun s => .ok (s, rest) := by
  have hclosing : '>' ∉ name ++ tag.endSpaces := by
    intro hmem
    rcases List.mem_append.mp hmem with hmem | hmem
    · exact absurd (hname.letters _ hmem) (by decide)
    · exact absurd (htag.endSpaces _ hmem) (by decide)
  have hcut := cut_char hclosing rest
  have htext : tag.closeText name ++ rest = '<' :: '/' :: (name ++ tag.endSpaces ++ '>' :: rest) := by
    simp [Tag.closeText]
  obtain ⟨hcomment, hcdata, hdeclaration, hdoctype, hclose⟩ := markup_words
  have hhere : ∀ (d : Char) (words text : Text), d ≠ '/' → ('<' :: d :: words).isPrefixOf ('<' :: '/' :: text) = false := by
    intro d words text hd
    simp [List.isPrefixOf, hd]
  rw [htext, readMarkup, hcomment, hcdata, hdeclaration, hdoctype, hclose,
    hhere _ _ _ (by decide), hhere _ _ _ (by decide), hhere _ _ _ (by decide), hhere _ _ _ (by decide)]
  rw [if_neg Bool.false_ne_true, if_neg Bool.false_ne_true, Bool.or_self, if_neg Bool.false_ne_true,
    if_pos (show ['<', '/'].isPrefixOf _ = true from rfl), List.drop_succ_cons, List.drop_succ_cons, List.drop_zero, hcut]
  dsimp only
  rw [trim_name hname htag.endSpaces]
  rfl

/-- A CDATA section is kept. -/
theorem readMarkup_characters {characters : Text} (h : ¬ [']', ']', '>'] <:+: characters) (rest : Text) :
    s.readMarkup stod (bytesOf "<![CDATA[" ++ characters ++ bytesOf "]]>" ++ rest) = .ok (s.keep characters, rest) := by
  have hcut := cut_characters h rest
  obtain ⟨hcomment, hcdata, -⟩ := markup_words
  have hend : bytesOf "]]>" = [']', ']', '>'] := by decide
  rw [readMarkup, hcomment, hcdata, hend]
  have hcomment' : ['<', '!', '-', '-'].isPrefixOf
      (['<', '!', '[', 'C', 'D', 'A', 'T', 'A', '['] ++ characters ++ [']', ']', '>'] ++ rest) = false := rfl
  have hcdata' : ['<', '!', '[', 'C', 'D', 'A', 'T', 'A', '['].isPrefixOf
      (['<', '!', '[', 'C', 'D', 'A', 'T', 'A', '['] ++ characters ++ [']', ']', '>'] ++ rest) = true := rfl
  have hdrop : (['<', '!', '[', 'C', 'D', 'A', 'T', 'A', '['] ++ characters ++ [']', ']', '>'] ++ rest).drop 9 =
      characters ++ [']', ']', '>'] ++ rest := rfl
  rw [hcomment', if_neg Bool.false_ne_true, hcdata', if_pos rfl, hdrop, hcut]

/-! ## Content -/

omit [Zero ρ] in
theorem keep_keep (s : JUnitScanner ρ) (text text' : Text) : (s.keep text).keep text' = s.keep (text ++ text') := by
  unfold keep
  by_cases h : (s.case.isSome && s.capture) = true
  · simp [h]
  · simp [h]

omit [Zero ρ] in
theorem keep_of_capture (h : s.capture = false) (text : Text) : s.keep text = s := by
  unfold keep
  rw [h, Bool.and_false]
  rfl

/-- Text and CDATA sections are read up to the next markup. -/
theorem scanFrom_content {content : Content} (h : content.WellFormed) (s : JUnitScanner ρ) (rest : Text) :
    scanFrom stod s (content.text ++ '<' :: rest) = scanFrom stod (s.keep content.value) ('<' :: rest) := by
  obtain ⟨sections, last⟩ := content
  have hlast : '<' ∉ glyphsText last := notMem_glyphsText (by simp) (by simp) h.last
  have hlastValue : decode (glyphsText last) = glyphsValue last := decode_glyphs (by simp) h.last
  have hcharacters := h.characters
  have hsections := h.sections
  dsimp only at hcharacters hsections
  unfold Content.text Content.value
  dsimp only
  clear h
  induction sections generalizing s with
  | nil =>
    rw [List.flatMap_nil, List.nil_append, scanFrom_run hlast, hlastValue]
    rfl
  | cons e sections ih =>
    have he := hcharacters e List.mem_cons_self
    have hrun : '<' ∉ glyphsText e.1 := notMem_glyphsText (by simp) (by simp) he
    have hvalue : decode (glyphsText e.1) = glyphsValue e.1 := decode_glyphs (by simp) he
    have hmarkup := @readMarkup_characters ρ _ stod (s.keep (glyphsValue e.1)) e.2 (hsections e List.mem_cons_self)
      (sections.flatMap (fun e => glyphsText e.1 ++ bytesOf "<![CDATA[" ++ e.2 ++ bytesOf "]]>") ++ glyphsText last ++
        '<' :: rest)
    have hstart : bytesOf "<![CDATA[" = '<' :: bytesOf "![CDATA[" := by decide
    rw [hstart] at hmarkup
    have hrest := ih ((s.keep (glyphsValue e.1)).keep e.2) (fun e he => hcharacters e (List.mem_cons_of_mem _ he))
      (fun e he => hsections e (List.mem_cons_of_mem _ he))
    rw [List.flatMap_cons, hstart]
    simp only [List.append_assoc, List.cons_append] at hmarkup hrest ⊢
    rw [scanFrom_run hrun, hvalue, scanFrom_markup hmarkup]
    rw [hstart] at hrest
    simp only [List.cons_append] at hrest
    rw [hrest, keep_keep, keep_keep, List.flatMap_cons]
    simp only [List.append_assoc]

/-- Text and CDATA sections are read up to the markup behind them. -/
theorem scanFrom_gap {content : Content} (h : content.WellFormed) {markup : Text} (hmarkup : markup.head? = some '<')
    (s : JUnitScanner ρ) :
    scanFrom stod s (content.text ++ markup) = scanFrom stod (s.keep content.value) markup := by
  obtain ⟨rest, rfl⟩ := List.head?_eq_some_iff.mp hmarkup
  exact scanFrom_content h s rest

/-- The scan goes on behind a start tag. -/
theorem scanFrom_opens {tag : Tag} (htag : tag.WellFormed) {name : Text} (hname : IsName name)
    (hdepth : s.stack.length < 32) (rest : Text) : scanFrom stod s (tag.openText name ++ rest) =
      scanFrom stod { s.start stod name (readOf tag.attributes) with stack := name :: s.stack } rest := by
  have hread := @readMarkup_opens ρ _ stod s tag htag name hname hdepth rest
  unfold Tag.openText at hread ⊢
  exact scanFrom_markup hread

/-- The scan goes on behind the end tag of the innermost element. -/
theorem scanFrom_closes {tag : Tag} (htag : tag.WellFormed) {name : Text} (hname : IsName name) {stack : List Text}
    (hstack : s.stack = name :: stack) (rest : Text) : scanFrom stod s (tag.closeText name ++ rest) =
      scanFrom stod (({ s with stack } : JUnitScanner ρ).finish name) rest := by
  have hread := @readMarkup_closes ρ _ stod s tag htag name hname rest
  have hclose : s.close name = .ok (({ s with stack } : JUnitScanner ρ).finish name) := by
    rw [close, hstack]
    dsimp only
    rw [if_pos rfl]
  rw [hclose] at hread
  unfold Tag.closeText at hread ⊢
  exact scanFrom_markup hread

end JUnitScanner
end

end Didi.Reports
