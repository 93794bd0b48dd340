import Didi.Resource.Range

/-!
# The uid that a tag spells

* `decodeUid_render` : what is decoded of a quoted text is the uid that its pieces spell;
* `Leads` : the scan of one text goes on with another;
* `leads_tokens`, `leads_field` : the scan passes over a value, and takes the uid of a field;
* `inspect_tag` : the answer for a text is the uid of the tag that it begins with.
-/

namespace Didi.Resource
open Config (Text isSpace isIdentifierStart isIdentifierChar hexValue)
variable {c : Char} {word : Bool}

/-! ## Quoted texts -/

/-- A character that can stand in a uid is printable and ASCII. -/
theorem ascii_of_isResourceUidText {text : Text} (h : isResourceUidText text = true) :
    ∀ c ∈ text, 32 < c.toNat ∧ c.toNat ≤ 127 := by
  unfold isResourceUidText at h
  rw [Bool.and_eq_true_iff, Bool.and_eq_true_iff] at h
  obtain ⟨⟨-, hscheme⟩, hall⟩ := h
  obtain ⟨tail, rfl⟩ := List.isPrefixOf_iff_prefix.mp hscheme
  rw [List.drop_left] at hall
  intro c hc
  rcases List.mem_append.mp hc with hc | hc
  · have hmem : c ∈ ['u', 'i', 'd', ':', '/', '/'] := hc
    fin_cases hmem <;> decide
  · have hrange := List.all_eq_true.mp hall c hc
    simp [Char.le_def, UInt32.le_iff_toNat_le] at hrange
    omega

theorem toNat_ofNat_of_ascii {unit : Nat} (h : 32 < (Char.ofNat unit).toNat ∧ (Char.ofNat unit).toNat ≤ 127) :
    unit ≤ 127 := by
  by_cases hvalid : unit.isValidChar
  · rw [Char.ofNat, dif_pos hvalid] at h
    exact h.2
  · rw [Char.ofNat, dif_neg hvalid] at h
    exact absurd h.1 (by decide)

theorem hexNumber_digits {digits : Text} (h : ∀ d ∈ digits, (hexValue d).isSome = true) (unit : Nat) :
    digits.foldlM (fun unit digit => (hexValue digit).map fun value => unit * 16 + value) unit =
      some (digits.foldl (fun unit d => unit * 16 + (hexValue d).getD 0) unit) := by
  induction digits generalizing unit with
  | nil => rfl
  | cons d digits ih =>
    obtain ⟨value, hvalue⟩ := Option.isSome_iff_exists.mp (h d List.mem_cons_self)
    rw [List.foldlM_cons, List.foldl_cons, hvalue]
    exact ih (fun e he => h e (List.mem_cons_of_mem d he)) _

theorem decodeCharacters_skip (digits rest : Text) :
    decodeCharacters (digits ++ rest) digits.length = decodeCharacters rest 0 := by
  induction digits with
  | nil => rfl
  | cons d digits ih => exact ih

section Decode
variable {rest : Text} {unit : Nat}

theorem decodeCharacters_char (h : c ≠ '\\') :
    decodeCharacters (c :: rest) 0 = pushAscii c.toNat (decodeCharacters rest 0) := by
  rw [decodeCharacters.eq_def]
  dsimp only
  rw [if_pos h]

theorem decodeCharacters_escape (h : c ≠ 'u' ∧ c ≠ 'U') :
    decodeCharacters ('\\' :: c :: rest) 0 =
      if ['b', 't', 'n', 'f', 'r'].contains c then none else pushAscii c.toNat (decodeCharacters rest 0) := by
  rw [decodeCharacters.eq_def]
  dsimp only
  rw [if_neg (by simp), if_neg (by simp [h.1, h.2])]

theorem decodeCharacters_unit {long : Bool} {digits : Text}
    (h : digits.length = (if long then 6 else 4) ∧ ∀ d ∈ digits, (hexValue d).isSome = true) :
    decodeCharacters ('\\' :: (if long then 'U' else 'u') :: (digits ++ rest)) 0 =
      pushAscii (digits.foldl (fun unit d => unit * 16 + (hexValue d).getD 0) 0) (decodeCharacters rest 0) := by
  have hwidth : (if (if long then 'U' else 'u') = 'u' then 4 else 6) = digits.length := by
    rw [h.1]
    cases long with
    | false => rfl
    | true => rfl
  have hunit : ((if long then 'U' else 'u') = 'u' || (if long then 'U' else 'u') = 'U') = true := by
    cases long with
    | false => rfl
    | true => rfl
  rw [decodeCharacters.eq_def]
  dsimp only
  rw [if_neg (by simp), if_pos hunit, hwidth, if_neg (by simp), List.take_left, hexNumber, hexNumber_digits h.2,
    Option.bind_some, decodeCharacters_skip]

theorem pushAscii_some {value : Text} (h : unit ≤ 127) (hrest : decodeCharacters rest 0 = some value) :
    pushAscii unit (decodeCharacters rest 0) = some (Char.ofNat unit :: value) := by
  rw [pushAscii, if_neg (by omega), hrest]
  rfl

theorem pushAscii_eq_some {value : Text} (h : pushAscii unit (decodeCharacters rest 0) = some value) :
    ∃ tail, decodeCharacters rest 0 = some tail ∧ value = Char.ofNat unit :: tail := by
  unfold pushAscii at h
  split_ifs at h
  obtain ⟨tail, htail, rfl⟩ := Option.map_eq_some_iff.mp h
  exact ⟨tail, htail, rfl⟩

end Decode

/-- The character of an escape that does not stand for a control character is the one that is escaped. -/
theorem character_escape (h : c ≠ 'u' ∧ c ≠ 'U') :
    (StringPiece.escape c h).character.toNat ≤ 32 ∧ ['b', 't', 'n', 'f', 'r'].contains c = true ∨
      (StringPiece.escape c h).character = c ∧ ['b', 't', 'n', 'f', 'r'].contains c = false := by
  unfold StringPiece.character
  dsimp only
  split_ifs with hb ht hn hf hr
  · exact .inl ⟨by decide, by simp [hb]⟩
  · exact .inl ⟨by decide, by simp [ht]⟩
  · exact .inl ⟨by decide, by simp [hn]⟩
  · exact .inl ⟨by decide, by simp [hf]⟩
  · exact .inl ⟨by decide, by simp [hr]⟩
  · exact .inr ⟨rfl, by simp [hb, ht, hn, hf, hr]⟩

/-- What is decoded is what the pieces stand for, and all of it where that is ASCII. -/
theorem decodeCharacters_render (body : StringBody) :
    ((∀ c ∈ body.map StringPiece.character, 32 < c.toNat ∧ c.toNat ≤ 127) →
        decodeCharacters body.render 0 = some (body.map StringPiece.character)) ∧
      ∀ value, decodeCharacters body.render 0 = some value → value = body.map StringPiece.character := by
  induction body with
  | nil => exact ⟨fun _ => rfl, fun value h => (Option.some.inj h).symm⟩
  | cons piece body ih =>
    rw [show StringBody.render (piece :: body) = piece.render ++ StringBody.render body from rfl, List.map_cons,
      List.forall_mem_cons]
    cases piece with
    | char c h =>
      rw [show (StringPiece.char c h).render ++ StringBody.render body = c :: StringBody.render body from rfl,
        decodeCharacters_char h.2]
      constructor
      · rintro ⟨hc, hall⟩
        have hc : 32 < c.toNat ∧ c.toNat ≤ 127 := hc
        rw [pushAscii_some hc.2 (ih.1 hall), Char.ofNat_toNat]
        rfl
      · intro value hvalue
        obtain ⟨tail, htail, rfl⟩ := pushAscii_eq_some hvalue
        rw [ih.2 tail htail, Char.ofNat_toNat]
        rfl
    | escape c h =>
      rw [show (StringPiece.escape c h).render ++ StringBody.render body = '\\' :: c :: StringBody.render body from rfl,
        decodeCharacters_escape h]
      rcases character_escape h with ⟨hcontrol, hmem⟩ | ⟨hsame, hmem⟩
      · rw [if_pos hmem]
        exact ⟨fun hall => absurd hall.1.1 (by omega), fun value hvalue => nomatch hvalue⟩
      · rw [if_neg (Bool.eq_false_iff.mp hmem), hsame]
        constructor
        · rintro ⟨hc, hall⟩
          rw [pushAscii_some hc.2 (ih.1 hall), Char.ofNat_toNat]
        · intro value hvalue
          obtain ⟨tail, htail, rfl⟩ := pushAscii_eq_some hvalue
          rw [ih.2 tail htail, Char.ofNat_toNat]
    | unit long digits h =>
      rw [show (StringPiece.unit long digits h).render ++ StringBody.render body =
        '\\' :: (if long then 'U' else 'u') :: (digits ++ StringBody.render body) from rfl, decodeCharacters_unit h]
      constructor
      · rintro ⟨hc, hall⟩
        exact pushAscii_some (toNat_ofNat_of_ascii hc) (ih.1 hall)
      · intro value hvalue
        obtain ⟨tail, htail, rfl⟩ := pushAscii_eq_some hvalue
        rw [ih.2 tail htail]
        rfl

/-- **The uid of a quoted text is the one that its pieces spell.** -/
theorem decodeUid_render (body : StringBody) (mark : Option Bool) :
    decodeUid body.render = (Value.string mark body).uid := by
  obtain ⟨hascii, hsame⟩ := decodeCharacters_render body
  unfold decodeUid Value.uid
  cases hvalue : decodeCharacters body.render 0 with
  | some value =>
    obtain rfl := hsame value hvalue
    rfl
  | none =>
    have hno : ¬ isResourceUidText (body.map StringPiece.character) = true := by
      intro huid
      rw [hascii (ascii_of_isResourceUidText huid)] at hvalue
      cases hvalue
    exact (if_neg hno).symm

theorem quotedEnd_render (body : StringBody) (rest : Text) :
    quotedEnd (body.render ++ '"' :: rest) = some (body.render, rest) := by
  have hplain : ∀ {c : Char} {text : Text}, c ≠ '"' → c ≠ '\\' →
      quotedEnd (c :: text) = (quotedEnd text).map fun found => (c :: found.1, found.2) := by
    intro c text hquote hbackslash
    rw [quotedEnd.eq_def]
    dsimp only
    rw [if_neg hbackslash, if_neg hquote]
  have hescape : ∀ {c : Char} {text : Text},
      quotedEnd ('\\' :: c :: text) = (quotedEnd text).map fun found => ('\\' :: c :: found.1, found.2) := by
    intro c text
    rw [quotedEnd.eq_def]
    rfl
  induction body with
  | nil =>
    rw [quotedEnd.eq_def]
    rfl
  | cons piece body ih =>
    rw [show StringBody.render (piece :: body) = piece.render ++ StringBody.render body from rfl, List.append_assoc]
    cases piece with
    | char c h =>
      show quotedEnd (c :: (StringBody.render body ++ '"' :: rest)) = _
      rw [hplain h.1 h.2, ih]
      rfl
    | escape c h =>
      show quotedEnd ('\\' :: c :: (StringBody.render body ++ '"' :: rest)) = _
      rw [hescape, ih]
      rfl
    | unit long digits h =>
      have hdigits : ∀ tail : Text, (∀ d ∈ tail, (hexValue d).isSome = true) →
          quotedEnd (tail ++ (StringBody.render body ++ '"' :: rest)) = some (tail ++ StringBody.render body, rest) := by
        intro tail htail
        induction tail with
        | nil => exact ih
        | cons d tail ih =>
          obtain ⟨hquote, hbackslash⟩ := ne_of_isHex (htail d List.mem_cons_self)
          rw [List.cons_append, hplain hquote hbackslash, ih fun e he => htail e (List.mem_cons_of_mem d he)]
          rfl
      have hunit : (StringPiece.unit long digits h).render ++ (StringBody.render body ++ '"' :: rest) =
          '\\' :: (if long then 'U' else 'u') :: (digits ++ (StringBody.render body ++ '"' :: rest)) := by
        simp [StringPiece.render]
      rw [hunit, hescape, hdigits digits h.2]
      rfl

/-! ## The scan -/

/-- The scan of one text goes on with another. -/
def Leads (text uid text' uid' : Text) : Prop := ∀ fuel, text.length ≤ fuel →
  ∃ fuel', text'.length ≤ fuel' ∧ scanUid fuel text uid = scanUid fuel' text' uid'

theorem Leads.refl (text uid : Text) : Leads text uid text uid := fun fuel h => ⟨fuel, h, rfl⟩

theorem Leads.trans {t₁ u₁ t₂ u₂ t₃ u₃ : Text} (h : Leads t₁ u₁ t₂ u₂) (h' : Leads t₂ u₂ t₃ u₃) : Leads t₁ u₁ t₃ u₃ := by
  intro fuel hfuel
  obtain ⟨fuel₁, hfuel₁, hfirst⟩ := h fuel hfuel
  obtain ⟨fuel₂, hfuel₂, hsecond⟩ := h' fuel₁ hfuel₁
  exact ⟨fuel₂, hfuel₂, hfirst.trans hsecond⟩

section Steps
variable {c : Char} {rest uid : Text}

/-- Blanks and comments are skipped before anything else is done. -/
theorem scanUid_skip (fuel : Nat) (text uid : Text) :
    scanUid fuel (skipSpaceAndComments text) uid = scanUid fuel text uid := by
  cases fuel with
  | zero => rfl
  | succ fuel => rw [scanUid, scanUid, skip_skip]

theorem leads_gap (gap : Gap) (rest uid : Text) : Leads (gap.render ++ rest) uid rest uid := by
  intro fuel hfuel
  rw [List.length_append] at hfuel
  refine ⟨fuel, by omega, ?_⟩
  rw [← scanUid_skip, skip_gap, scanUid_skip]

/-- A step over a character that begins neither a string nor a word. -/
theorem leads_char (hspace : isSpace c = false) (hcomment : c ≠ ';') (hquote : c ≠ '"')
    (hstart : isIdentifierStart c = false) : Leads (c :: rest) uid rest uid := by
  intro fuel hfuel
  cases fuel with
  | zero => exact absurd hfuel (by simp)
  | succ fuel =>
    refine ⟨fuel, Nat.le_of_succ_le_succ hfuel, ?_⟩
    rw [scanUid, skip_solid hspace hcomment]
    dsimp only
    rw [if_neg hquote, if_pos (by simp [hstart])]

theorem leads_quoted (body : StringBody) (rest uid : Text) : Leads (quoted body ++ rest) uid rest uid := by
  intro fuel hfuel
  have hquoted : quoted body ++ rest = '"' :: (body.render ++ '"' :: rest) := by simp [quoted]
  rw [hquoted] at hfuel ⊢
  simp only [List.length_cons, List.length_append] at hfuel
  cases fuel with
  | zero => omega
  | succ fuel =>
    refine ⟨fuel, by omega, ?_⟩
    rw [scanUid, skip_solid (by decide) (by decide)]
    dsimp only
    rw [if_pos rfl, quotedEnd_render]

end Steps

/-! ### Words -/

/-- What is left of a text when a word that runs on into it has been read. -/
def after (word : Bool) (text : Text) : Text := if word then text.dropWhile isIdentifierChar else text

/-- Whether a word is open after a text. -/
def wordAfter (word : Bool) (text : Text) : Bool :=
  text.foldl (fun word c => if isIdentifierChar c then word || isIdentifierStart c else false) word

theorem wordAfter_append (word : Bool) (text text' : Text) :
    wordAfter word (text ++ text') = wordAfter (wordAfter word text) text' := List.foldl_append

theorem wordAfter_concat (h : isIdentifierChar c = false) (word : Bool) (text : Text) :
    wordAfter word (text ++ [c]) = false := by
  rw [wordAfter_append]
  show (if isIdentifierChar c then _ else false) = false
  rw [h]
  rfl

theorem wordAfter_loose (word : Bool) (c : Char) :
    wordAfter word [c] = if isIdentifierChar c then word || isIdentifierStart c else false := rfl

theorem after_cons (h : isIdentifierChar c = false) (word : Bool) (rest : Text) :
    after word (c :: rest) = c :: rest := by
  cases word with
  | false => rfl
  | true => exact List.dropWhile_cons_of_neg (by simp [h])

theorem Closed.after {text : Text} (h : Closed text) (word : Bool) : Resource.after word text = text := by
  obtain ⟨c, rest, rfl, hc⟩ := h
  exact after_cons hc word rest

theorem wordAfter_separator (s : Separator) (word : Bool) : wordAfter word s.render = false := by
  cases s with
  | blank c h => exact wordAfter_concat (not_isIdentifierChar_of_isSpace h) word []
  | comment text h => exact wordAfter_concat (by decide) word (';' :: text)

theorem closed_separator (s : Separator) (rest : Text) : Closed (s.render ++ rest) := by
  cases s with
  | blank c h => exact ⟨c, rest, rfl, not_isIdentifierChar_of_isSpace h⟩
  | comment text h => exact ⟨';', _, rfl, rfl⟩

theorem wordAfter_quoted (body : StringBody) (word : Bool) : wordAfter word (quoted body) = false :=
  wordAfter_concat (by decide) word ('"' :: body.render)

theorem closed_quoted (body : StringBody) (rest : Text) : Closed (quoted body ++ rest) := ⟨'"', _, rfl, rfl⟩

theorem Bracket.plain (bracket : Bracket) : ∀ c ∈ [bracket.opener, bracket.closer], isSpace c = false ∧ c ≠ ';' ∧
    c ≠ '"' ∧ c ≠ '=' ∧ isIdentifierStart c = false ∧ isIdentifierChar c = false := by
  intro c hc
  cases bracket with
  | square => fin_cases hc <;> decide
  | round => fin_cases hc <;> decide
  | curly => fin_cases hc <;> decide

/-- No `=` comes next, once the word that is open has been read. -/
def NoEquals (word : Bool) (text : Text) : Prop :=
  ∀ rest, skipSpaceAndComments (after word text) ≠ '=' :: rest

theorem noEquals_solid {rest : Text} (hspace : isSpace c = false) (hcomment : c ≠ ';') (hequals : c ≠ '=') {text : Text}
    (h : after word text = c :: rest) : NoEquals word text := by
  intro rest' heq
  rw [h, skip_solid hspace hcomment] at heq
  exact hequals (List.cons.inj heq).1

/-- A value holds no `=`, so none comes next in it unless one comes next behind it. -/
theorem noEquals_token (token : Token) {rest : Text}
    (h : NoEquals (wordAfter word token.render) rest) : NoEquals word (token.render ++ rest) := by
  cases token with
  | separator s =>
    rw [Token.render, wordAfter_separator] at h
    intro rest' heq
    rw [Token.render, (closed_separator s rest).after, skip_separator] at heq
    exact h rest' heq
  | loose c hc =>
    rw [Token.render, wordAfter_loose] at h
    obtain ⟨hspace, hne⟩ := isLoose_iff.mp hc
    have hcomment : c ≠ ';' := by
      rintro rfl
      exact hne (by decide)
    have hequals : c ≠ '=' := by
      rintro rfl
      exact hne (by decide)
    rw [Token.render, List.singleton_append]
    cases hchar : isIdentifierChar c with
    | false => exact noEquals_solid hspace hcomment hequals (after_cons hchar word rest)
    | true =>
      cases word with
      | false => exact noEquals_solid hspace hcomment hequals rfl
      | true =>
        rw [hchar, if_pos rfl, Bool.true_or] at h
        intro rest' heq
        rw [show after true (c :: rest) = after true rest from List.dropWhile_cons_of_pos hchar] at heq
        exact h rest' heq
  | string body => exact noEquals_solid (by decide) (by decide) (by decide) ((closed_quoted body rest).after word)
  | group bracket inner =>
    obtain ⟨hspace, hcomment, -, hequals, -, hchar⟩ := bracket.plain bracket.opener (by simp)
    have hgroup : (Token.group bracket inner).render ++ rest =
        bracket.opener :: (renderTokens inner ++ [bracket.closer] ++ rest) := by simp [Token.render]
    rw [hgroup]
    exact noEquals_solid hspace hcomment hequals (after_cons hchar word _)

theorem noEquals_tokens (tokens : List Token) {rest : Text}
    (h : NoEquals (wordAfter word (renderTokens tokens)) rest) : NoEquals word (renderTokens tokens ++ rest) := by
  induction tokens generalizing word with
  | nil => exact h
  | cons token tokens ih =>
    rw [renderTokens, wordAfter_append] at h
    rw [renderTokens, List.append_assoc]
    exact noEquals_token token (ih h)

/-- A word of a value is passed over, whatever it is. -/
theorem leads_word {rest uid : Text} (hstart : isIdentifierStart c = true) (h : NoEquals true rest) :
    Leads (c :: rest) uid (after true rest) uid := by
  intro fuel hfuel
  cases fuel with
  | zero => exact absurd hfuel (by simp)
  | succ fuel =>
    have hloose := isLoose_of_isIdentifierChar (isIdentifierChar_of_isIdentifierStart hstart)
    have hquote : c ≠ '"' := by
      rintro rfl
      exact absurd hloose (by decide)
    have hlength := (List.dropWhile_suffix (l := rest) isIdentifierChar).length_le
    refine ⟨fuel, hlength.trans (Nat.le_of_succ_le_succ hfuel), ?_⟩
    rw [scanUid, skip_loose hloose]
    dsimp only
    rw [if_neg hquote, if_neg (by simp [hstart])]
    split_ifs with hword
    · rfl
    · split
      · rename_i heq
        exact absurd heq (h _)
      · exact scanUid_skip fuel _ uid

/-! ### Values and fields -/

mutual

theorem leads_token : ∀ (token : Token) (word : Bool) (rest uid : Text), NoEquals (wordAfter word token.render) rest →
    Leads (after word (token.render ++ rest)) uid (after (wordAfter word token.render) rest) uid
  | .separator s, word, rest, uid, _ => by
    rw [Token.render, (closed_separator s rest).after, wordAfter_separator]
    simpa [Gap.render, after] using leads_gap [s] rest uid
  | .loose c hc, word, rest, uid, h => by
    obtain ⟨hspace, hne⟩ := isLoose_iff.mp hc
    rw [Token.render, wordAfter_loose] at h
    rw [Token.render, wordAfter_loose, List.singleton_append]
    have hplain : isIdentifierStart c = false → Leads (c :: rest) uid rest uid := by
      apply leads_char hspace
      · rintro rfl
        exact hne (by decide)
      · rintro rfl
        exact hne (by decide)
    cases hchar : isIdentifierChar c with
    | false =>
      rw [after_cons hchar]
      refine hplain (Bool.eq_false_iff.mpr fun hstart => ?_)
      rw [isIdentifierChar_of_isIdentifierStart hstart] at hchar
      cases hchar
    | true =>
      rw [hchar, if_pos rfl] at h
      rw [if_pos rfl]
      cases word with
      | true =>
        rw [show after true (c :: rest) = after true rest from List.dropWhile_cons_of_pos hchar]
        exact Leads.refl _ _
      | false =>
        rw [Bool.false_or] at h ⊢
        cases hstart : isIdentifierStart c with
        | true => exact leads_word hstart (hstart ▸ h)
        | false => exact hplain hstart
  | .string body, word, rest, uid, _ => by
    rw [Token.render, (closed_quoted body rest).after, wordAfter_quoted]
    exact leads_quoted body rest uid
  | .group bracket inner, word, rest, uid, _ => by
    obtain ⟨hspace, hcomment, hquote, -, hstart, hchar⟩ := bracket.plain bracket.opener (by simp)
    obtain ⟨hspace', hcomment', hquote', hequals', hstart', hchar'⟩ := bracket.plain bracket.closer (by simp)
    have hgroup : (Token.group bracket inner).render ++ rest =
        bracket.opener :: (renderTokens inner ++ bracket.closer :: rest) := by simp [Token.render]
    have hclosed : wordAfter word (Token.group bracket inner).render = false :=
      wordAfter_concat hchar' word (bracket.opener :: renderTokens inner)
    have hinner := leads_tokens inner false (bracket.closer :: rest) uid
      (noEquals_solid hspace' hcomment' hequals' (after_cons hchar' _ _))
    rw [after_cons hchar'] at hinner
    rw [hclosed, hgroup, after_cons hchar]
    exact ((leads_char hspace hcomment hquote hstart).trans hinner).trans
      (leads_char hspace' hcomment' hquote' hstart')

theorem leads_tokens : ∀ (tokens : List Token) (word : Bool) (rest uid : Text),
    NoEquals (wordAfter word (renderTokens tokens)) rest →
      Leads (after word (renderTokens tokens ++ rest)) uid (after (wordAfter word (renderTokens tokens)) rest) uid
  | [], _, _, _, _ => Leads.refl _ _
  | token :: tokens, word, rest, uid, h => by
    rw [renderTokens, wordAfter_append] at h
    rw [renderTokens, wordAfter_append, List.append_assoc]
    exact (leads_token token word _ uid (noEquals_tokens tokens h)).trans (leads_tokens tokens _ rest uid h)

end

/-- A word is read whole where none runs on from it. -/
theorem leads_name {name rest uid : Text} (hname : IsName name) (hclosed : Closed rest) (h : name ≠ "uid".toList) :
    Leads (name ++ rest) uid rest uid := by
  obtain ⟨htake, hdrop⟩ := hclosed.split hname.chars
  obtain ⟨c, t, rfl, hstart, -⟩ := hname
  intro fuel hfuel
  cases fuel with
  | zero => exact absurd hfuel (by simp)
  | succ fuel =>
    have hchar := isIdentifierChar_of_isIdentifierStart hstart
    have hloose := isLoose_of_isIdentifierChar hchar
    have hquote : c ≠ '"' := by
      rintro rfl
      exact absurd hloose (by decide)
    rw [List.cons_append, List.takeWhile_cons_of_pos hchar] at htake
    rw [List.cons_append, List.dropWhile_cons_of_pos hchar] at hdrop
    refine ⟨fuel, ?_, ?_⟩
    · simp only [List.cons_append, List.length_cons, List.length_append] at hfuel
      omega
    · rw [List.cons_append, scanUid, skip_loose hloose]
      dsimp only
      rw [if_neg hquote, if_neg (by simp [hstart]), htake, if_pos h, hdrop]

theorem wordAfter_string (mark : Option Bool) (body : StringBody) (word : Bool) :
    wordAfter word (Value.string mark body).render = false := by
  have hrender : (Value.string mark body).render =
      (mark.map fun old => if old then '@' else '&').toList ++ '"' :: body.render ++ ['"'] := by
    simp [Value.render, quoted]
  rw [hrender]
  exact wordAfter_concat (by decide) word _

/-- The scan passes over a value that is not that of a uid. -/
theorem leads_value (value : Value) {rest : Text} (uid : Text) (h : NoEquals (wordAfter false value.render) rest) :
    Leads (value.render ++ rest) uid (after (wordAfter false value.render) rest) uid := by
  cases value with
  | string mark body =>
    rw [wordAfter_string]
    show Leads _ _ rest _
    unfold Value.render
    rw [List.append_assoc]
    cases mark with
    | none => exact leads_quoted body rest uid
    | some old =>
      cases old with
      | false => exact (leads_char (by decide) (by decide) (by decide) (by decide)).trans (leads_quoted body rest uid)
      | true => exact (leads_char (by decide) (by decide) (by decide) (by decide)).trans (leads_quoted body rest uid)
  | tokens first others hfirst => exact leads_tokens (first :: others) false rest uid h

theorem closed_gap (gap : Gap) (h : isIdentifierChar c = false) (rest : Text) :
    Closed (gap.render ++ c :: rest) := by
  by_cases hgap : gap = []
  · rw [hgap]
    exact ⟨c, rest, rfl, h⟩
  · obtain ⟨d, t, hrender, hd, -⟩ := gap_head hgap (c :: rest)
    exact ⟨d, t, hrender, hd⟩

/-- The scan of a field of that name goes on with what stands behind its `=`. -/
theorem scanUid_uid (fuel : Nat) (gap : Gap) (text uid : Text) :
    scanUid (fuel + 1) ("uid".toList ++ (gap.render ++ '=' :: text)) uid =
      match skipNameMark (skipSpaceAndComments text) with
      | '"' :: rest =>
        match quotedEnd rest with
        | none => []
        | some (content, rest) => scanUid fuel rest (decodeUid content)
      | text => scanUid fuel text [] := by
  have hname : IsName "uid".toList := ⟨'u', ['i', 'd'], rfl, by decide, List.all_eq_true.mp (by decide)⟩
  obtain ⟨htake, hdrop⟩ := (closed_gap gap (c := '=') (by decide) text).split hname.chars
  rw [scanUid, hname.skip]
  have hcons : ("uid".toList ++ (gap.render ++ '=' :: text)) = 'u' :: (['i', 'd'] ++ (gap.render ++ '=' :: text)) := rfl
  rw [hcons, List.takeWhile_cons_of_pos (by decide)] at htake
  rw [hcons, List.dropWhile_cons_of_pos (by decide)] at hdrop
  rw [hcons]
  dsimp only
  rw [if_neg (by decide), if_neg (by decide), htake, if_neg (by simp), hdrop, skip_gap, skip_solid (by decide) (by decide)]
  rfl

/-- A value that is no string begins with something else, and no mark is taken off it. -/
theorem skipNameMark_tokens {first : Token} (h : first.begins = true) (rest : Text) :
    ∃ c t, first.render ++ rest = c :: t ∧ isSpace c = false ∧ c ≠ ';' ∧ c ≠ '"' ∧ c ≠ '&' ∧ c ≠ '@' := by
  cases first with
  | separator s => cases h
  | loose c hc =>
    obtain ⟨hspace, hne⟩ := isLoose_iff.mp hc
    have hmark : c ≠ '&' ∧ c ≠ '@' := by simpa [Token.begins] using h
    refine ⟨c, rest, rfl, hspace, ?_, ?_, hmark⟩
    · rintro rfl
      exact hne (by decide)
    · rintro rfl
      exact hne (by decide)
  | string body => cases h
  | group bracket inner =>
    cases bracket with
    | square => exact ⟨'[', _, rfl, by decide⟩
    | round => exact ⟨'(', _, rfl, by decide⟩
    | curly => exact ⟨'\x7b', _, rfl, by decide⟩

/-- The scan takes the uid of a value that a name marks as one. -/
theorem leads_uid (field : Field) {rest : Text} (uid : Text) (hname : field.name = "uid".toList)
    (h : NoEquals (wordAfter false field.value.render) rest) :
    Leads (field.name ++ (field.beforeEquals.render ++ '=' :: (field.afterEquals.render ++ (field.value.render ++ rest))))
      uid (after (wordAfter false field.value.render) rest) field.value.uid := by
  intro fuel hfuel
  rw [hname] at hfuel ⊢
  simp only [List.length_append, List.length_cons] at hfuel
  cases fuel with
  | zero => omega
  | succ fuel =>
    rw [scanUid_uid, skip_gap]
    cases hvalue : field.value with
    | string mark body =>
      rw [wordAfter_string]
      refine ⟨fuel, ?_, ?_⟩
      · show rest.length ≤ fuel
        omega
      · have hskip : skipNameMark (skipSpaceAndComments ((Value.string mark body).render ++ rest)) =
            '"' :: (body.render ++ '"' :: rest) := by
          have hquoted : quoted body ++ rest = '"' :: (body.render ++ '"' :: rest) := by simp [quoted]
          rw [Value.render, List.append_assoc, hquoted]
          cases mark with
          | none => rfl
          | some old =>
            cases old with
            | false => rfl
            | true => rfl
        rw [hskip, ← decodeUid_render body mark]
        show (match quotedEnd (body.render ++ '"' :: rest) with
          | none => []
          | some (content, rest) => scanUid fuel rest (decodeUid content)) = _
        rw [quotedEnd_render]
        rfl
    | tokens first others hfirst =>
      rw [hvalue] at h hfuel
      obtain ⟨c, t, hrender, hspace, hcomment, hquote, hmark⟩ := skipNameMark_tokens hfirst (renderTokens others ++ rest)
      have hcons : (Value.tokens first others hfirst).render ++ rest = c :: t := by
        rw [Value.render, List.append_assoc, hrender]
      have hskip : skipNameMark (skipSpaceAndComments (c :: t)) = c :: t := by
        rw [skip_solid hspace hcomment]
        unfold skipNameMark
        split
        · rename_i heq
          exact absurd (List.cons.inj heq).1 hmark.1
        · rename_i heq
          exact absurd (List.cons.inj heq).1 hmark.2
        · rfl
      obtain ⟨fuel', hfuel', hscan⟩ := leads_value (.tokens first others hfirst) [] h fuel
        (by rw [List.length_append]; omega)
      refine ⟨fuel', hfuel', ?_⟩
      rw [show (Value.tokens first others hfirst).uid = [] from rfl, ← hscan, hcons, hskip]
      split
      · rename_i heq
        exact absurd (List.cons.inj heq).1 hquote
      · rfl

/-- The uid after a field. -/
def Field.next (uid : Text) (field : Field) : Text := if field.name = "uid".toList then field.value.uid else uid

/-- No word runs on into a field. -/
theorem after_field (field : Field) (h : word = true → field.before ≠ []) (rest : Text) :
    after word (field.render ++ rest) = field.render ++ rest := by
  cases word with
  | false => rfl
  | true =>
    obtain ⟨c, t, hrender, hc, -⟩ := gap_head (h rfl) (field.name ++ (field.beforeEquals.render ++
      '=' :: (field.afterEquals.render ++ (field.value.render ++ rest))))
    rw [field.render_append, hrender, after_cons hc]

/-- **A field passes its uid on, where it is named so.** -/
theorem leads_field (field : Field) (hword : word = true → field.before ≠ []) {rest : Text} (uid : Text)
    (h : NoEquals (wordAfter false field.value.render) rest) :
    Leads (after word (field.render ++ rest)) uid (after (wordAfter false field.value.render) rest) (field.next uid) := by
  rw [after_field field hword, field.render_append]
  refine (leads_gap field.before _ uid).trans ?_
  unfold Field.next
  split_ifs with hname
  · exact leads_uid field uid hname h
  · refine (leads_name field.isName (closed_gap field.beforeEquals (by decide) _) hname).trans ?_
    refine (leads_gap field.beforeEquals _ uid).trans ?_
    refine (leads_char (by decide) (by decide) (by decide) (by decide)).trans ?_
    exact (leads_gap field.afterEquals _ uid).trans (leads_value field.value uid h)

/-- What follows a value begins with no `=`. -/
theorem noEquals_fields (fields : List Field) (closing : Gap) (h : Apart word fields) :
    NoEquals word (fields.flatMap Field.render ++ (closing.render ++ [']'])) := by
  intro rest heq
  cases fields with
  | nil =>
    rw [List.flatMap_nil, List.nil_append, (closed_gap closing (by decide) []).after, skip_gap,
      skip_solid (by decide) (by decide)] at heq
    exact absurd (List.cons.inj heq).1 (by decide)
  | cons field fields =>
    rw [List.flatMap_cons, List.append_assoc, after_field field h.1, field.render_append, skip_gap,
      field.isName.skip] at heq
    obtain ⟨c, t, hname, hstart, -⟩ := field.isName
    rw [hname] at heq
    have hequals : c = '=' := (List.cons.inj heq).1
    rw [hequals] at hstart
    exact absurd hstart (by decide)

theorem leads_fields (fields : List Field) (closing : Gap) (uid : Text) (h : Apart word fields) :
    Leads (after word (fields.flatMap Field.render ++ (closing.render ++ [']']))) uid [] (fields.foldl Field.next uid) := by
  induction fields generalizing word uid with
  | nil =>
    rw [List.flatMap_nil, List.nil_append, (closed_gap closing (by decide) []).after]
    exact (leads_gap closing _ uid).trans (leads_char (by decide) (by decide) (by decide) (by decide))
  | cons field fields ih =>
    rw [List.flatMap_cons, List.append_assoc]
    exact (leads_field field h.1 uid (noEquals_fields fields closing h.2)).trans (ih (field.next uid) h.2)

/-! ## The answer -/

/-- The uid after all fields is that of the last one named so. -/
theorem foldl_next (fields : List Field) (uid : Text) : fields.foldl Field.next uid =
    (((fields.filter fun field => field.name = "uid".toList).getLast?).map fun field => field.value.uid).getD uid := by
  induction fields using List.reverseRecOn with
  | nil => rfl
  | append_singleton fields field ih =>
    rw [List.foldl_append, List.filter_append, List.foldl_cons, List.foldl_nil, Field.next]
    by_cases hname : field.name = "uid".toList
    · rw [if_pos hname, List.filter_cons_of_pos (by simpa using hname), List.filter_nil, List.getLast?_concat]
      rfl
    · rw [if_neg hname, List.filter_cons_of_neg (by simpa using hname), List.filter_nil, List.append_nil, ih]

theorem scanUid_header (tag : Tag) : scanUid tag.header.length (tag.header.drop 1) [] = tag.uid := by
  have hname : tag.name ≠ "uid".toList := by
    unfold Tag.name
    cases tag.scene with
    | false => decide
    | true => decide
  have htext : tag.header.drop 1 = tag.opened.render ++ (tag.name ++ (tag.body ++ [']'])) := by
    simp [Tag.header]
  have hbody : tag.body ++ [']'] = tag.fields.flatMap Field.render ++ (tag.closing.render ++ [']']) := by
    simp [Tag.body]
  obtain ⟨hclosed, -⟩ := tag.body_head []
  have hfields := leads_fields tag.fields tag.closing [] tag.apart
  rw [← hbody, hclosed.after] at hfields
  have hleads := ((leads_gap tag.opened _ []).trans (leads_name tag.isName.1 hclosed hname)).trans hfields
  obtain ⟨fuel, -, hscan⟩ := hleads tag.header.length (by rw [← htext]; simp)
  rw [htext, hscan]
  have hend : scanUid fuel [] (tag.fields.foldl Field.next []) = tag.fields.foldl Field.next [] := by
    cases fuel with
    | zero => rfl
    | succ fuel => rfl
  rw [hend]
  exact foldl_next tag.fields []

/-- **The header of a text is the tag that it begins with, and its uid that of the tag, whatever comes after.** -/
theorem inspect_tag (tag : Tag) (rest : Text) : inspectTextResourceUidHeader (tag.render ++ rest) =
    { isMatched := true, complete := true, uid := tag.uid } := by
  unfold inspectTextResourceUidHeader
  rw [resourceHeaderRange_tag]
  dsimp only
  rw [scanUid_header]

-- the characters of the text are gone through, not all characters
local instance (priority := 1100) decidableEvery {p : Char → Prop} [DecidablePred p] (text : Text) :
    Decidable (∀ c ∈ text, p c) := List.decidableBAll p text

/-- A scene with two fields and a comment, the uid of which has an escape in it. -/
def sampleTag : Tag where
  mark := true
  lead := []
  opened := []
  scene := true
  fields := [
    ⟨[.blank ' ' rfl], "format".toList, ⟨'f', "ormat".toList, by decide⟩, [], [], .tokens (.loose '3' rfl) [] rfl⟩,
    ⟨[.blank ' ' rfl], "uid".toList, ⟨'u', "id".toList, by decide⟩, [], [.blank ' ' rfl], .string none
      ("uid://b".toList.attach.map (fun c => .char c.1 (plain c.1 c.2)) ++ [.unit false "0063".toList (by decide)])⟩]
  apart := ⟨fun _ => List.cons_ne_nil _ _, fun _ => List.cons_ne_nil _ _, trivial⟩
  closing := [.comment " ]".toList (by decide)]
where
  plain : ∀ c ∈ "uid://b".toList, c ≠ '"' ∧ c ≠ '\\' := by decide

theorem inspect_tag_sample : sampleTag.render = Config.kByteOrderMark ++
      "[gd_scene format=3 uid= \"uid://b\\u0063\"; ]\n]".toList ∧
    inspectTextResourceUidHeader (sampleTag.render ++ "\n\n[ext_resource uid=\"uid://c\" id=\"1\"]".toList) =
      { isMatched := true, complete := true, uid := "uid://bc".toList } := by
  have huid : sampleTag.uid = "uid://bc".toList := by decide
  refine ⟨by decide, ?_⟩
  rw [inspect_tag, huid]

end Didi.Resource
