import Didi.Resource.Header

/-!
# Where a tag ends

* `skip_gap` : blanks and comments are skipped;
* `Inside` : a piece that the walk to the end of a header passes over;
* `resourceHeaderRange_tag` : the range of a text that a tag begins is that tag.
-/

namespace Didi.Resource
open Config (Text isSpace isIdentifierStart isIdentifierChar hexValue withoutMark)
variable {c : Char}

/-! ## Characters -/

theorem not_isIdentifierChar_of_isSpace (h : isSpace c = true) : isIdentifierChar c = false := by
  have hmem := Config.isSpace_iff.mp h
  fin_cases hmem <;> decide

theorem isIdentifierChar_of_isIdentifierStart (h : isIdentifierStart c = true) :
    isIdentifierChar c = true := by
  have h : c.isAlpha = true ∨ c = '_' := by simpa [isIdentifierStart] using h
  rcases h with h | rfl
  · simp [isIdentifierChar, Char.isAlphanum, h]
  · rfl

theorem isLoose_of_isIdentifierChar (h : isIdentifierChar c = true) : isLoose c = true := by
  have hne : ∀ d, isIdentifierChar d = false → c ≠ d := by
    rintro d hd rfl
    rw [h] at hd
    cases hd
  have hspace : isSpace c = false := by
    by_contra hspace
    rw [not_isIdentifierChar_of_isSpace (by simpa using hspace)] at h
    cases h
  simp [isLoose, hspace, hne ';' (by decide), hne '"' (by decide), hne '=' (by decide), hne '[' (by decide),
    hne ']' (by decide), hne '(' (by decide), hne ')' (by decide), hne '\x7b' (by decide), hne '\x7d' (by decide)]

theorem isLoose_iff : isLoose c = true ↔
    isSpace c = false ∧ c ∉ [';', '"', '=', '[', ']', '(', ')', '\x7b', '\x7d'] := by
  rw [isLoose, Bool.and_eq_true_iff, Bool.not_eq_true', Bool.not_eq_true', List.contains_eq_mem, decide_eq_false_iff_not]

theorem IsName.loose {name : Text} (h : IsName name) : ∀ c ∈ name, isLoose c = true := by
  obtain ⟨c, rest, rfl, hc, hrest⟩ := h
  rw [List.forall_mem_cons]
  exact ⟨isLoose_of_isIdentifierChar (isIdentifierChar_of_isIdentifierStart hc),
    fun d hd => isLoose_of_isIdentifierChar (hrest d hd)⟩

/-! ## Blanks and comments -/

section Skip
variable {text rest : Text}

theorem skipFrom_comment (h : '\n' ∉ text) : skipFrom (text ++ '\n' :: rest) true = skipSpaceAndComments rest := by
  induction text with
  | nil => rfl
  | cons c text ih =>
    obtain ⟨hc, htext⟩ := not_or.mp (List.mem_cons.not.mp h)
    have hcomment : (decide (c ≠ '\n')) = true := by simpa using Ne.symm hc
    rw [List.cons_append, skipFrom, hcomment]
    exact ih htext

theorem skip_separator (s : Separator) : skipSpaceAndComments (s.render ++ rest) = skipSpaceAndComments rest := by
  cases s with
  | blank c h =>
    show skipFrom (c :: rest) false = _
    rw [skipFrom, if_pos h]
    rfl
  | comment text h =>
    have hcomment : (Separator.comment text h).render ++ rest = ';' :: (text ++ '\n' :: rest) := by
      simp [Separator.render]
    rw [hcomment, skipSpaceAndComments, skipFrom, if_neg (by decide), if_pos rfl, skipFrom_comment h]

theorem skip_gap (gap : Gap) : skipSpaceAndComments (gap.render ++ rest) = skipSpaceAndComments rest := by
  induction gap with
  | nil => rfl
  | cons s gap ih =>
    rw [show Gap.render (s :: gap) = s.render ++ Gap.render gap from rfl, List.append_assoc, skip_separator, ih]

/-- Nothing is skipped before anything else. -/
theorem skip_solid (hspace : isSpace c = false) (hcomment : c ≠ ';') :
    skipSpaceAndComments (c :: rest) = c :: rest := by
  rw [skipSpaceAndComments, skipFrom, if_neg (by simp [hspace]), if_neg hcomment]

theorem skip_loose (h : isLoose c = true) : skipSpaceAndComments (c :: rest) = c :: rest := by
  obtain ⟨hspace, hne⟩ := isLoose_iff.mp h
  apply skip_solid hspace
  rintro rfl
  exact hne (by decide)

/-- What is skipped ends before something else, or with the text. -/
theorem skipFrom_head (commented : Bool) : skipFrom text commented = [] ∨
    ∃ c after, skipFrom text commented = c :: after ∧ isSpace c = false ∧ c ≠ ';' := by
  fun_induction skipFrom text commented
  case case1 => exact .inl rfl
  case case5 c rest hspace hcomment => exact .inr ⟨c, rest, rfl, by simpa using hspace, hcomment⟩
  all_goals assumption

theorem skip_skip (text : Text) : skipSpaceAndComments (skipSpaceAndComments text) = skipSpaceAndComments text := by
  rcases @skipFrom_head text false with hnil | ⟨c, after, hcons, hspace, hcomment⟩
  · rw [show skipSpaceAndComments text = [] from hnil]
    rfl
  · rw [show skipSpaceAndComments text = c :: after from hcons]
    exact skip_solid hspace hcomment

end Skip

/-! ## The walk to the end -/

/-- A piece that the walk passes over. -/
def Inside (piece : Text) : Prop := ∀ rest nested,
  headerEnd (piece ++ rest) { nested := nested } = headerEnd rest { nested := nested }

theorem inside_nil : Inside [] := fun _ _ => rfl

theorem Inside.append {piece piece' : Text} (h : Inside piece) (h' : Inside piece') : Inside (piece ++ piece') := by
  intro rest nested
  rw [List.append_assoc, h, h']

theorem inside_char (h : c ∉ [';', '"', '[', ']']) : Inside [c] := by
  intro rest nested
  simp only [List.mem_cons, List.not_mem_nil, or_false, not_or] at h
  rw [List.singleton_append, headerEnd]
  simp [h.1, h.2.1, h.2.2.1, h.2.2.2]

theorem inside_of_forall {piece : Text} (h : ∀ c ∈ piece, c ∉ [';', '"', '[', ']']) : Inside piece := by
  induction piece with
  | nil => exact inside_nil
  | cons c piece ih =>
    exact (inside_char (h c List.mem_cons_self)).append (ih fun d hd => h d (List.mem_cons_of_mem c hd))

theorem inside_loose (h : isLoose c = true) : Inside [c] := by
  apply inside_char
  have hne := (isLoose_iff.mp h).2
  simp only [List.mem_cons, List.not_mem_nil, or_false, not_or] at hne ⊢
  exact ⟨hne.1, hne.2.1, hne.2.2.2.1, hne.2.2.2.2.1⟩

theorem headerEnd_comment {text : Text} (h : '\n' ∉ text) (rest : Text) (nested : Nat) :
    headerEnd (text ++ '\n' :: rest) { commented := true, nested } = headerEnd rest { nested := nested } := by
  induction text with
  | nil => rfl
  | cons c text ih =>
    obtain ⟨hc, htext⟩ := not_or.mp (List.mem_cons.not.mp h)
    rw [List.cons_append, headerEnd, if_pos rfl, ← ih htext]
    simp [Ne.symm hc]

theorem inside_separator (s : Separator) : Inside s.render := by
  cases s with
  | blank c h =>
    apply inside_char
    have hmem := Config.isSpace_iff.mp h
    fin_cases hmem <;> decide
  | comment text h =>
    intro rest nested
    have hcomment : (Separator.comment text h).render ++ rest = ';' :: (text ++ '\n' :: rest) := by
      simp [Separator.render]
    rw [hcomment, headerEnd, if_neg (by simp), if_neg (by simp), if_neg (by simp), if_pos (by simp)]
    exact headerEnd_comment h rest nested

theorem inside_gap (gap : Gap) : Inside gap.render := by
  induction gap with
  | nil => exact inside_nil
  | cons s gap ih => exact (inside_separator s).append ih

/-- Inside a string, only an escape keeps a quote from closing it. -/
theorem headerEnd_quoted (hquote : c ≠ '"') (hbackslash : c ≠ '\\') (rest : Text) (nested : Nat) :
    headerEnd (c :: rest) { quoted := true, nested } = headerEnd rest { quoted := true, nested } := by
  rw [headerEnd]
  simp [hquote, hbackslash]

theorem headerEnd_escape (c : Char) (rest : Text) (nested : Nat) :
    headerEnd ('\\' :: c :: rest) { quoted := true, nested } = headerEnd rest { quoted := true, nested } := by
  rw [headerEnd, if_neg (by simp), if_neg (by simp), if_pos (by simp), headerEnd, if_neg (by simp), if_pos rfl]

theorem ne_of_isHex {d : Char} (h : (hexValue d).isSome = true) : d ≠ '"' ∧ d ≠ '\\' := by
  constructor
  · rintro rfl
    exact absurd h (by decide)
  · rintro rfl
    exact absurd h (by decide)

theorem headerEnd_body (body : StringBody) (rest : Text) (nested : Nat) :
    headerEnd (body.render ++ rest) { quoted := true, nested } = headerEnd rest { quoted := true, nested } := by
  induction body with
  | nil => rfl
  | cons piece body ih =>
    rw [show StringBody.render (piece :: body) = piece.render ++ StringBody.render body from rfl, List.append_assoc, ← ih]
    cases piece with
    | char c h => exact headerEnd_quoted h.1 h.2 _ nested
    | escape c h => exact headerEnd_escape c _ nested
    | unit long digits h =>
      have hunit : (StringPiece.unit long digits h).render ++ StringBody.render body ++ rest =
          '\\' :: (if long then 'U' else 'u') :: (digits ++ (StringBody.render body ++ rest)) := by
        simp [StringPiece.render]
      rw [← List.append_assoc, hunit, headerEnd_escape]
      have hdigits := h.2
      clear ih hunit h
      induction digits with
      | nil => rfl
      | cons d digits ih =>
        obtain ⟨hquote, hbackslash⟩ := ne_of_isHex (hdigits d List.mem_cons_self)
        rw [List.cons_append, headerEnd_quoted hquote hbackslash]
        exact ih fun e he => hdigits e (List.mem_cons_of_mem d he)

theorem inside_quoted (body : StringBody) : Inside (quoted body) := by
  intro rest nested
  have hquoted : quoted body ++ rest = '"' :: (body.render ++ '"' :: rest) := by simp [quoted]
  have hopen : headerEnd ('"' :: (body.render ++ '"' :: rest)) { nested := nested } =
      headerEnd (body.render ++ '"' :: rest) { quoted := true, nested } := by
    rw [headerEnd]
    simp
  have hclose : headerEnd ('"' :: rest) { quoted := true, nested } = headerEnd rest { nested := nested } := by
    rw [headerEnd]
    simp
  rw [hquoted, hopen, headerEnd_body, hclose]

/-- Square brackets are counted, and the others are not. -/
theorem inside_group (bracket : Bracket) {inner : Text} (h : Inside inner) :
    Inside (bracket.opener :: inner ++ [bracket.closer]) := by
  intro rest nested
  have hgroup : bracket.opener :: inner ++ [bracket.closer] ++ rest =
      bracket.opener :: (inner ++ bracket.closer :: rest) := by simp
  rw [hgroup]
  cases bracket with
  | square =>
    have hopen : headerEnd ('[' :: (inner ++ ']' :: rest)) { nested := nested } =
        headerEnd (inner ++ ']' :: rest) { nested := nested + 1 } := by
      rw [headerEnd]
      simp
    have hclose : headerEnd (']' :: rest) { nested := nested + 1 } = headerEnd rest { nested := nested } := by
      rw [headerEnd]
      simp
    exact hopen.trans ((h _ _).trans hclose)
  | round => exact (inside_char (by decide) _ _).trans ((h _ _).trans (inside_char (by decide) _ _))
  | curly => exact (inside_char (by decide) _ _).trans ((h _ _).trans (inside_char (by decide) _ _))

mutual

theorem Token.inside : ∀ token : Token, Inside token.render
  | .separator s => inside_separator s
  | .loose _ h => inside_loose h
  | .string body => inside_quoted body
  | .group bracket inner => inside_group bracket (inside_renderTokens inner)

theorem inside_renderTokens : ∀ tokens : List Token, Inside (renderTokens tokens)
  | [] => inside_nil
  | token :: tokens => (Token.inside token).append (inside_renderTokens tokens)

end

theorem Value.inside (value : Value) : Inside value.render := by
  cases value with
  | string mark body =>
    refine Inside.append ?_ (inside_quoted body)
    cases mark with
    | none => exact inside_nil
    | some old =>
      cases old with
      | false => exact inside_char (by decide)
      | true => exact inside_char (by decide)
  | tokens first rest h => exact (Token.inside first).append (inside_renderTokens rest)

theorem inside_name {name : Text} (h : IsName name) : Inside name := by
  apply inside_of_forall
  intro c hc
  have hne := (isLoose_iff.mp (h.loose c hc)).2
  simp only [List.mem_cons, List.not_mem_nil, or_false, not_or] at hne ⊢
  exact ⟨hne.1, hne.2.1, hne.2.2.2.1, hne.2.2.2.2.1⟩

theorem Field.inside (field : Field) : Inside field.render := by
  have hequals : Inside ['='] := inside_char (by decide)
  have hfield : field.render = field.before.render ++ (field.name ++ (field.beforeEquals.render ++
      (['='] ++ (field.afterEquals.render ++ field.value.render)))) := by
    simp [Field.render]
  rw [hfield]
  exact (inside_gap _).append ((inside_name field.isName).append ((inside_gap _).append
    (hequals.append ((inside_gap _).append field.value.inside))))

theorem Tag.inside_body (tag : Tag) : Inside tag.body := by
  refine Inside.append ?_ (inside_gap _)
  generalize tag.fields = fields
  induction fields with
  | nil => exact inside_nil
  | cons field fields ih => exact field.inside.append ih

/-! ## The range of a tag -/

/-- A text that no word runs on into. -/
def Closed (text : Text) : Prop := ∃ c rest, text = c :: rest ∧ isIdentifierChar c = false

theorem Closed.split {name text : Text} (h : Closed text) (hname : ∀ c ∈ name, isIdentifierChar c = true) :
    (name ++ text).takeWhile isIdentifierChar = name ∧ (name ++ text).dropWhile isIdentifierChar = text := by
  obtain ⟨c, rest, rfl, hc⟩ := h
  rw [List.takeWhile_append_of_pos hname, List.dropWhile_append_of_pos hname]
  simp [hc]

theorem gap_head {gap : Gap} (h : gap ≠ []) (rest : Text) :
    ∃ c t, gap.render ++ rest = c :: t ∧ isIdentifierChar c = false ∧ endsName (c :: t) = true := by
  obtain ⟨s, gap, rfl⟩ := List.exists_cons_of_ne_nil h
  cases s with
  | blank c hc => exact ⟨c, _, rfl, not_isIdentifierChar_of_isSpace hc, by simp [endsName, hc]⟩
  | comment text hc => exact ⟨';', _, rfl, rfl, by simp [endsName]⟩

theorem Field.render_append (field : Field) (rest : Text) : field.render ++ rest =
    field.before.render ++ (field.name ++ (field.beforeEquals.render ++
      '=' :: (field.afterEquals.render ++ (field.value.render ++ rest)))) := by
  simp [Field.render]

/-- The name of the tag ends before what follows it. -/
theorem Tag.body_head (tag : Tag) (rest : Text) : Closed (tag.body ++ ']' :: rest) ∧
    endsName (tag.body ++ ']' :: rest) = true := by
  have happart := tag.apart
  unfold Tag.body
  cases hfields : tag.fields with
  | nil =>
    rw [List.flatMap_nil, List.nil_append]
    by_cases hclosing : tag.closing = []
    · rw [hclosing]
      exact ⟨⟨']', rest, rfl, rfl⟩, rfl⟩
    · obtain ⟨c, t, hrender, hc, hends⟩ := gap_head hclosing (']' :: rest)
      rw [hrender]
      exact ⟨⟨c, t, rfl, hc⟩, hends⟩
  | cons field fields =>
    rw [hfields] at happart
    have hbefore : field.before ≠ [] := happart.1 rfl
    rw [List.flatMap_cons, List.append_assoc, List.append_assoc, field.render_append]
    obtain ⟨c, t, hrender, hc, hends⟩ := gap_head hbefore (field.name ++ (field.beforeEquals.render ++
      '=' :: (field.afterEquals.render ++ (field.value.render ++ (fields.flatMap Field.render ++
        (tag.closing.render ++ ']' :: rest))))))
    rw [hrender]
    exact ⟨⟨c, t, rfl, hc⟩, hends⟩

theorem Tag.isName (tag : Tag) : IsName tag.name ∧ isResourceTag tag.name = true := by
  unfold Tag.name
  cases tag.scene with
  | false => exact ⟨⟨'g', _, rfl, by decide, List.all_eq_true.mp (by decide)⟩, by decide⟩
  | true => exact ⟨⟨'g', _, rfl, by decide, List.all_eq_true.mp (by decide)⟩, by decide⟩

theorem IsName.chars {name : Text} (h : IsName name) : ∀ c ∈ name, isIdentifierChar c = true := by
  obtain ⟨c, rest, rfl, hc, hrest⟩ := h
  rw [List.forall_mem_cons]
  exact ⟨isIdentifierChar_of_isIdentifierStart hc, hrest⟩

theorem IsName.skip {name : Text} (h : IsName name) (rest : Text) :
    skipSpaceAndComments (name ++ rest) = name ++ rest := by
  obtain ⟨c, t, rfl, hc, -⟩ := h
  exact skip_loose (isLoose_of_isIdentifierChar (isIdentifierChar_of_isIdentifierStart hc))

/-- The text of a tag from its bracket on. -/
def Tag.header (tag : Tag) : Text := '[' :: (tag.opened.render ++ tag.name ++ tag.body ++ [']'])

theorem withoutMark_render (tag : Tag) (rest : Text) :
    withoutMark (tag.render ++ rest) = tag.lead.render ++ (tag.header ++ rest) := by
  unfold Tag.render
  cases hmark : tag.mark with
  | true =>
    rw [if_pos rfl]
    simp [withoutMark, Config.kByteOrderMark, Tag.header]
  | false =>
    have hfirst : ∃ c t, tag.lead.render ++ (tag.header ++ rest) = c :: t ∧ c ≠ '\u00ef' := by
      by_cases hlead : tag.lead = []
      · rw [hlead]
        exact ⟨'[', _, rfl, by decide⟩
      · obtain ⟨c, t, hrender, -, hends⟩ := gap_head hlead (tag.header ++ rest)
        refine ⟨c, t, hrender, ?_⟩
        rintro rfl
        exact absurd hends (by simp [endsName, isSpace])
    obtain ⟨c, t, hrender, hc⟩ := hfirst
    have hsame : [] ++ tag.lead.render ++ '[' :: tag.opened.render ++ tag.name ++ tag.body ++ [']'] ++ rest =
        tag.lead.render ++ (tag.header ++ rest) := by
      simp [Tag.header]
    rw [if_neg (by simp), hsame, hrender, withoutMark, if_neg]
    simp [Config.kByteOrderMark, Ne.symm hc]

/-- **The range of a text that a tag begins is that tag.** -/
theorem resourceHeaderRange_tag (tag : Tag) (rest : Text) :
    resourceHeaderRange (tag.render ++ rest) = .range tag.header := by
  obtain ⟨hname, hresource⟩ := tag.isName
  obtain ⟨hclosed, hends⟩ := tag.body_head rest
  have hheader : tag.header ++ rest = '[' :: (tag.opened.render ++ (tag.name ++ (tag.body ++ ']' :: rest))) := by
    simp [Tag.header]
  have hstart : skipSpaceAndComments (tag.lead.render ++ (tag.header ++ rest)) = tag.header ++ rest := by
    rw [skip_gap, hheader]
    exact skip_solid (by decide) (by decide)
  obtain ⟨htake, hdrop⟩ := hclosed.split hname.chars
  have hend : headerEnd (tag.body ++ ']' :: rest) {} = some rest := by
    rw [tag.inside_body]
    rfl
  unfold resourceHeaderRange
  rw [withoutMark_render, hstart, hheader]
  split
  · rename_i opened heq
    obtain rfl := (List.cons.inj heq).2
    rw [skip_gap, hname.skip, htake, hdrop, if_neg (by simp [hresource, hends]), hend, ← hheader]
    simp
  · rename_i hno
    exact absurd rfl (hno _)

end Didi.Resource
