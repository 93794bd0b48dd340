import Mathlib.Data.List.Chain
import Didi.Expression.Trees

/-!
# What the policy keeps out of a tree

The policy looks at a token and its neighbours; where the token stands in a tree is told from the brackets.

* `Checked` : what every token of a valid list passed;
* `StartsOperand` : what may stand before an operand;
* `constructor_of`, `array_of`, `dictionary_of`, `prebound_of` : the operand that a look backwards has found;
* `confined_iff` : a valid source is confined if and only if no dictionary is called in it.
-/

namespace Didi.Expression
open Brackets
open Didi.Config (Text)
variable {text : String} {l : Lexeme}

/-! ## Places -/

section
variable {tokens : List Lexeme} {l : Lexeme} {i : Nat}

theorem getElem?_place (before after : List Lexeme) (htokens : tokens = before ++ l :: after)
    (hi : i = before.length) : tokens[i]? = some l := by
  subst htokens hi
  simp

theorem textIs_iff : textIs tokens i text = true ↔ ∃ l, tokens[i]? = some l ∧ l.text = text := by
  cases h : tokens[i]? <;> simp [textIs, h]

theorem kindIs_iff {kind : TokenKind} : kindIs tokens i kind = true ↔ ∃ l, tokens[i]? = some l ∧ l.kind = kind := by
  cases h : tokens[i]? <;> simp [kindIs, h]

theorem textIs_of (h : tokens[i]? = some l) (text : String) : textIs tokens i text = true ↔ l.text = text := by
  simp [textIs, h]

theorem kindIs_of (h : tokens[i]? = some l) (kind : TokenKind) : kindIs tokens i kind = true ↔ l.kind = kind := by
  simp [kindIs, h]

theorem previousIs_of (h : tokens[i]? = some l) (text : String) :
    previousIs tokens (i + 1) text = true ↔ l.text = text := by
  simp [previousIs, textIs_of h]

theorem previousKindIs_of (h : tokens[i]? = some l) (kind : TokenKind) :
    previousKindIs tokens (i + 1) kind = true ↔ l.kind = kind := by
  simp [previousKindIs, kindIs_of h]

end

/-! ## The checks that were passed -/

structure Checked (tokens : List Lexeme) : Prop where
  member : ∀ {i : Nat} {l : Lexeme}, tokens[i]? = some l → checkMember tokens i l = .ok ()
  bracket : ∀ {i : Nat} {l : Lexeme}, tokens[i]? = some l → checkBracket tokens i l = .ok ()
  call : ∀ {i : Nat} {l : Lexeme}, tokens[i]? = some l → l.kind = .identifier → textIs tokens (i + 1) "(" = true →
    checkCall tokens i l = .ok ()
  dispatch : ∀ {i : Nat} {l : Lexeme}, tokens[i]? = some l → l.kind ≠ .identifier → checkDispatch tokens i l = .ok ()

theorem checked_of_validateTokens {tokens : List Lexeme} (h : validateTokens tokens = .ok ()) : Checked tokens := by
  have hall : ∀ {i : Nat} {l : Lexeme}, tokens[i]? = some l → checkToken tokens i l = .ok () := by
    intro i l hl
    exact Except.of_forM_eq_ok h (l, i) (List.mk_mem_zipIdx_iff_getElem?.mpr hl)
  have hparts : ∀ {i : Nat} {l : Lexeme}, tokens[i]? = some l → checkMember tokens i l = .ok () ∧
      checkBracket tokens i l = .ok () ∧ (if l.kind = .identifier ∧ textIs tokens (i + 1) "(" then checkCall tokens i l
        else checkDispatch tokens i l) = .ok () := by
    intro i l hl
    obtain ⟨u, hmember, hrest⟩ := Except.bind_eq_ok.mp (hall hl)
    obtain ⟨v, hbracket, hrest⟩ := Except.bind_eq_ok.mp hrest
    obtain ⟨w, -, hrest⟩ := Except.bind_eq_ok.mp hrest
    exact ⟨hmember, hbracket, hrest⟩
  constructor
  · exact fun hl => (hparts hl).1
  · exact fun hl => (hparts hl).2.1
  · intro i l hl hkind hcall
    have hcheck := (hparts hl).2.2
    rwa [if_pos ⟨hkind, hcall⟩] at hcheck
  · intro i l hl hkind
    have hcheck := (hparts hl).2.2
    rwa [if_neg fun hcall => hkind hcall.1] at hcheck

section
variable {tokens before after : List Lexeme}

/-- A member that is not called is a component. -/
theorem Checked.component (hchecked : Checked tokens) {n : String}
    (htokens : tokens = before ++ mark "." :: word n :: after)
    (hafter : ∀ l ∈ after.head?, l.text ≠ "(") :
    0 < before.length ∧ (isMathComponent (mathConstructorAt tokens (before.length - 1)) n = true ∨
      isPreboundComponent n = true ∧ isPreboundPropertyRead tokens (before.length - 1) = true) := by
  have hdot := hchecked.member (getElem?_place _ _ htokens rfl)
  have hname : tokens[before.length + 1]? = some (word n) :=
    getElem?_place (before ++ [mark "."]) after (by simp [htokens]) (by simp)
  have hcalled : textIs tokens (before.length + 2) "(" = false := by
    rw [Bool.eq_false_iff]
    intro htext
    have hlook : tokens[before.length + 2]? = after.head? := by
      rw [htokens, List.getElem?_append_right (by omega), Nat.add_sub_cancel_left, List.head?_eq_getElem?]
      rfl
    obtain ⟨l, hl, hparen⟩ := textIs_iff.mp htext
    exact hafter l (hlook ▸ hl) hparen
  have h := Except.require_eq_ok.mp hdot rfl
  simp only [hcalled, Bool.and_false, Bool.false_or, Bool.not_false, Bool.true_and, hname, Option.map_some,
    Option.getD_some, Bool.or_eq_true, Bool.and_eq_true, decide_eq_true_eq] at h
  rcases h with ⟨⟨hpos, -⟩, hcomponent⟩ | ⟨⟨⟨hpos, -⟩, hcomponent⟩, hread⟩
  · exact ⟨hpos, .inl hcomponent⟩
  · exact ⟨hpos, .inr ⟨hcomponent, hread⟩⟩

/-- `node` is no member of what a dot follows. -/
theorem Checked.node_not_member (hchecked : Checked tokens)
    (htokens : tokens = before ++ mark "." :: word "node" :: mark "." :: after) : False := by
  have h := hchecked.component htokens (by simp [mark])
  have hmath : ∀ constructor, isMathComponent constructor "node" = false := by
    intro constructor
    unfold isMathComponent
    split_ifs <;> rfl
  rcases h.2 with hcomponent | ⟨hcomponent, -⟩
  · cases (hmath _).symm.trans hcomponent
  · exact absurd hcomponent (by decide)

end

/-! ## Receivers -/

section
variable {tokens : List Lexeme} {i : Nat}

/-- What the receiver of a method was taken for. -/
inductive Receives (tokens : List Lexeme) (receiverEnd : Nat) : ReceiverKind → Prop
  | node (hkind : kindIs tokens receiverEnd .identifier = true) (htext : textIs tokens receiverEnd "node" = true) :
      Receives tokens receiverEnd .node
  | string (hkind : kindIs tokens receiverEnd .string = true) : Receives tokens receiverEnd .stringLiteral
  | array (htext : textIs tokens receiverEnd "]" = true)
      (hlocal : isSourceLocalContainer tokens receiverEnd "[" "]" = true) : Receives tokens receiverEnd .arrayLiteral
  | dictionary (htext : textIs tokens receiverEnd "\x7d" = true)
      (hlocal : isSourceLocalContainer tokens receiverEnd "\x7b" "\x7d" = true) :
      Receives tokens receiverEnd .dictionaryLiteral
  | math (hname : mathConstructorAt tokens receiverEnd ≠ "") : Receives tokens receiverEnd .mathLiteral
  | none : Receives tokens receiverEnd .none

theorem receives (tokens : List Lexeme) (i : Nat) : Receives tokens (i - 2) (receiverKind tokens i) := by
  unfold receiverKind
  dsimp only
  split_ifs with hfirst hnode hstring harray hdictionary hmath
  · exact .none
  · rw [Bool.and_eq_true] at hnode
    exact .node hnode.1 hnode.2
  · exact .string hstring
  · rw [Bool.and_eq_true] at harray
    exact .array harray.1 harray.2
  · rw [Bool.and_eq_true] at hdictionary
    exact .dictionary hdictionary.1 hdictionary.2
  · exact .math hmath
  · exact .none

/-- What a method call that passed is: its receiver, its name and its arguments. -/
theorem method_of_checkCall (h : checkCall tokens i l = .ok ()) (hdot : previousIs tokens i "." = true) :
    (receiverKind tokens i = .node ∧
      (l.text ∈ nodeZeroArgumentMethods ∧ hasNoArguments tokens i = true ∨
        l.text ∈ "get" :: nodeStringArgumentMethods ∧ hasOneStringLiteralArgument tokens i = true)) ∨
    (receiverKind tokens i = .stringLiteral ∧ l.text ∈ ["size", "is_empty", "find", "count", "repeat"]) ∨
    (receiverKind tokens i = .arrayLiteral ∧ l.text ∈ ["size", "is_empty", "find", "count", "has"]) ∨
    (receiverKind tokens i = .dictionaryLiteral ∧ l.text ∈ ["size", "is_empty", "has"]) ∨
    (receiverKind tokens i = .mathLiteral ∧ l.text ∈ mathZeroArgumentMethods ++ mathVectorArgumentMethods) := by
  unfold checkCall at h
  cases hkind : receiverKind tokens i with
  | none =>
    rw [hkind] at h
    have hnone := (Except.require_eq_ok.mp h).1
    rw [hdot] at hnone
    cases hnone
  | node =>
    rw [hkind] at h
    refine .inl ⟨rfl, ?_⟩
    have h : checkNodeCall tokens i l = .ok () := h
    unfold checkNodeCall at h
    split_ifs at h with hget
    · exact .inr ⟨by simp [hget], Except.require_eq_ok.mp h⟩
    · exact (Except.require_eq_ok.mp h).imp id fun hstring => ⟨List.mem_cons_of_mem _ hstring.1, hstring.2⟩
  | stringLiteral =>
    rw [hkind] at h
    refine .inr (.inl ⟨rfl, ?_⟩)
    have h : checkStringCall tokens i l = .ok () := h
    unfold checkStringCall at h
    split_ifs at h with hrepeat
    · simp [hrepeat]
    · rcases Except.require_eq_ok.mp h with ⟨hmem, -⟩ | ⟨hmem, -⟩
      · exact (by decide : ["size", "is_empty"] ⊆ _) hmem
      · exact (by decide : ["find", "count"] ⊆ _) hmem
  | arrayLiteral =>
    rw [hkind] at h
    refine .inr (.inr (.inl ⟨rfl, ?_⟩))
    rcases Except.require_eq_ok.mp h with ⟨hmem, -⟩ | ⟨hmem, -⟩
    · exact (by decide : ["size", "is_empty"] ⊆ _) hmem
    · exact (by decide : ["find", "count", "has"] ⊆ _) hmem
  | dictionaryLiteral =>
    rw [hkind] at h
    refine .inr (.inr (.inr (.inl ⟨rfl, ?_⟩)))
    rcases Except.require_eq_ok.mp h with ⟨hmem, -⟩ | ⟨hmem, -⟩
    · exact (by decide : ["size", "is_empty"] ⊆ _) hmem
    · simp [hmem]
  | mathLiteral =>
    rw [hkind] at h
    refine .inr (.inr (.inr (.inr ⟨rfl, ?_⟩)))
    rcases Except.require_eq_ok.mp h with ⟨hmem, -⟩ | ⟨hmem, -⟩
    · exact List.mem_append_left _ hmem
    · exact List.mem_append_right _ hmem

end

/-! ## Operands by their end -/

/-- What may stand before an operand. -/
def MayPrecede (l : Lexeme) : Prop :=
  l.kind = .operator ∨ l ∈ ["(", "[", "\x7b", ",", ":"].map mark ∨ l ∈ words.map word

def StartsOperand (before : List Lexeme) : Prop := ∀ l ∈ before.getLast?, MayPrecede l

theorem startsOperand_nil : StartsOperand [] := nofun

theorem startsOperand_append {before : List Lexeme} (h : MayPrecede l) : StartsOperand (before ++ [l]) := by
  intro m hm
  obtain rfl : l = m := by simpa using hm
  exact h

/-- No name but a word of the grammar stands before an operand. -/
theorem MayPrecede.text_of_kind (h : MayPrecede l) (hkind : l.kind = .identifier) : l.text ∈ words := by
  rcases h with hoperator | hmark | hword
  · rw [hkind] at hoperator
    cases hoperator
  · obtain ⟨text, -, rfl⟩ := List.mem_map.mp hmark
    cases hkind
  · obtain ⟨text, htext, rfl⟩ := List.mem_map.mp hword
    exact htext

theorem MayPrecede.text_ne_dot (h : MayPrecede l) (hscanned : l.Scanned) : l.text ≠ "." := by
  intro htext
  obtain ⟨kind, text⟩ := l
  obtain rfl : text = "." := htext
  rcases h with hoperator | hmark | hword
  · obtain rfl : kind = .operator := hoperator
    exact absurd hscanned (by decide)
  · revert hmark
    cases kind <;> decide
  · revert hword
    cases kind <;> decide

open Phrase

section
variable {tokens before after : List Lexeme} {r : Phrase .operand}

theorem final_place (htokens : tokens = before ++ (r.lexemes ++ after)) :
    tokens[before.length + r.lexemes.length - 1]? = some r.final := by
  obtain ⟨init, hinit⟩ := r.exists_init
  refine getElem?_place (before ++ init) after ?_ ?_
  · rw [htokens, hinit]
    simp
  · rw [hinit]
    simp only [List.length_append, List.length_singleton]
    omega

theorem previous_place (hbefore : before ≠ []) (htokens : tokens = before ++ after) :
    tokens[before.length - 1]? = before.getLast? := by
  have hpos := List.length_pos_iff.mpr hbefore
  rw [htokens, List.getElem?_append_left (by omega), List.getLast?_eq_getElem?]

/-- Before an operand stands no name that is not a word. -/
theorem StartsOperand.not_name (hstarts : StartsOperand before) (htokens : tokens = before ++ after) {i : Nat}
    (hi : i + 1 = before.length) {name : Lexeme} (hname : tokens[i]? = some name) (hkind : name.kind = .identifier) :
    name.text ∈ words := by
  have hne : before ≠ [] := by
    rintro rfl
    cases hi
  have hplace := previous_place hne htokens
  rw [show before.length - 1 = i by omega, hname] at hplace
  exact (hstarts name hplace.symm).text_of_kind hkind

theorem node_of (hchecked : Checked tokens) (hkind : r.final.kind = .identifier) (htext : r.final.text = "node")
    (htokens : tokens = before ++ (r.lexemes ++ mark "." :: after)) : ∃ name, r = .name name ∧ name.val = "node" := by
  cases r with
  | name name => exact ⟨name, rfl, htext⟩
  | member receiver n =>
    have hn : n = "node" := htext
    subst hn
    refine (@Checked.node_not_member tokens (before ++ receiver.lexemes) after hchecked ?_).elim
    rw [htokens]
    simp [lexemes, word]
  | number | string | group | array | dictionary | index | call => cases hkind

theorem string_of (hkind : r.final.kind = .string) : ∃ sigil text, r = .string sigil text := by
  cases r with
  | string sigil text => exact ⟨sigil, text, rfl⟩
  | name | number | group | array | dictionary | member | index | call => cases hkind

theorem isPreboundComponent_of_isMathComponent {constructor n : String} (h : isMathComponent constructor n = true) :
    isPreboundComponent n = true := by
  unfold isMathComponent at h
  unfold isPreboundComponent
  split_ifs at h <;> simp only [decide_eq_true_eq] at h ⊢
  · exact (by decide : ["x", "y"] ⊆ _) h
  · exact (by decide : ["x", "y", "z"] ⊆ _) h
  · exact (by decide : ["r", "g", "b", "a"] ⊆ _) h

/-- The texts after which a square bracket begins a literal. -/
theorem final_not_before_literal (hchecked : Checked tokens) (hscanned : ∀ l ∈ tokens, l.Scanned)
    (htokens : tokens = before ++ (r.lexemes ++ mark "[" :: after)) :
    r.final.text ∉ ["(", "[", "\x7b", ",", ":", "and", "or", "not", "in", "if", "else"] := by
  have hfinal : r.final.Scanned := hscanned _ (List.mem_of_getElem? (final_place htokens))
  intro hmem
  cases r with
  | name name =>
    obtain ⟨text, hname⟩ := name
    have hmem : text ∈ ["(", "[", "\x7b", ",", ":"] ++ ["and", "or", "not", "in", "if", "else"] := hmem
    have hfinal : Lexeme.Scanned ⟨.identifier, text⟩ := hfinal
    rcases List.mem_append.mp hmem with hmark | hword
    · fin_cases hmark <;> exact absurd hfinal (by decide)
    · exact hname ((by decide : ["and", "or", "not", "in", "if", "else"] ⊆ words) hword)
  | number text =>
    have hmem : text ∈ _ := hmem
    have hfinal : Lexeme.Scanned ⟨.number, text⟩ := hfinal
    fin_cases hmem <;> exact absurd hfinal (by decide)
  | string sigil text =>
    have hmem : text ∈ _ := hmem
    have hfinal : Lexeme.Scanned ⟨.string, text⟩ := hfinal
    fin_cases hmem <;> exact absurd hfinal (by decide)
  | group | array | dictionary | index | call => simp [final, mark] at hmem
  | member receiver n =>
    -- a member that is a word of the grammar is no component
    have h := @Checked.component tokens (before ++ receiver.lexemes) (mark "[" :: after) hchecked n
      (by simp [htokens, lexemes, word]) (by simp [mark])
    have hcomponent : isPreboundComponent n = true := h.2.elim isPreboundComponent_of_isMathComponent And.left
    have hmem : n ∈ _ := hmem
    fin_cases hmem <;> exact absurd hcomponent (by decide)

/-- A square bracket after an operand is refused. -/
theorem not_indexed (hchecked : Checked tokens) (hscanned : ∀ l ∈ tokens, l.Scanned)
    (htokens : tokens = before ++ (r.lexemes ++ mark "[" :: after)) : False := by
  have hpos := List.length_pos_iff.mpr r.operand_ne_nil
  have hfinal := final_place htokens
  have hplace : tokens[before.length + r.lexemes.length - 1 + 1]? = some (mark "[") :=
    getElem?_place (before ++ r.lexemes) after (by simp [htokens]) (by simp only [List.length_append]; omega)
  have h := Except.require_eq_ok.mp (hchecked.bracket hplace) rfl (Nat.succ_pos _)
  rcases (Bool.or_eq_true _ _).mp h with hoperator | htext
  · have hkind := (previousKindIs_of hfinal _).mp hoperator
    cases r <;> cases hkind
  · obtain ⟨text, hmem, hprevious⟩ := List.any_eq_true.mp htext
    have hsame := (previousIs_of hfinal text).mp hprevious
    exact final_not_before_literal hchecked hscanned htokens (hsame ▸ hmem)

/-- An operand that ends in a bracket. -/
theorem round_of (hscanned : r.final.Scanned) (h : r.final.text = ")") :
    (∃ inner, r = .group inner) ∨ ∃ callee arguments, r = .call callee arguments := by
  cases r with
  | group inner => exact .inl ⟨inner, rfl⟩
  | call callee arguments => exact .inr ⟨callee, arguments, rfl⟩
  | name | number | string | member => exact (hscanned.text_ne (by decide) h).elim
  | array | dictionary | index => simp [final, mark] at h

theorem square_of (hscanned : r.final.Scanned) (h : r.final.text = "]") :
    (∃ elements, r = .array elements) ∨ ∃ receiver key, r = .index receiver key := by
  cases r with
  | array elements => exact .inl ⟨elements, rfl⟩
  | index receiver key => exact .inr ⟨receiver, key, rfl⟩
  | name | number | string | member => exact (hscanned.text_ne (by decide) h).elim
  | group | dictionary | call => simp [final, mark] at h

theorem curly_of (hscanned : r.final.Scanned) (h : r.final.text = "\x7d") : ∃ entries, r = .dictionary entries := by
  cases r with
  | dictionary entries => exact ⟨entries, rfl⟩
  | name | number | string | member => exact (hscanned.text_ne (by decide) h).elim
  | array | group | index | call => simp [final, mark] at h

/-- The bracket that a closing one belongs to. -/
theorem openingOf_between {pair : Pair} (hpair : pair ∈ pairs) {inner : List Lexeme}
    (hinner : Balanced pair.Opens pair.Closes inner)
    (htokens : tokens = before ++ mark pair.opening :: (inner ++ mark pair.closing :: after)) {i : Nat}
    (hi : i = before.length + inner.length + 1) :
    openingOf tokens i pair.opening pair.closing = some before.length := by
  subst htokens hi
  exact openingBefore_wrap (Pair.disjoint hpair) (by simp [Pair.Opens, mark]) (by simp [Pair.Closes, mark]) hinner
    before after

/-- No constructor is called on a receiver. -/
theorem constructor_not_method (hchecked : Checked tokens) {n : String} (hn : n ∈ constructors)
    (htokens : tokens = before ++ mark "." :: word n :: mark "(" :: after) : False := by
  have hplace : tokens[before.length + 1]? = some (word n) :=
    getElem?_place (before ++ [mark "."]) (mark "(" :: after) (by simp [htokens]) (by simp)
  have hopen : tokens[before.length + 1 + 1]? = some (mark "(") :=
    getElem?_place (before ++ [mark ".", word n]) after (by simp [htokens]) (by simp)
  have hdot : tokens[before.length]? = some (mark ".") := getElem?_place before _ htokens rfl
  have h := hchecked.call hplace rfl ((textIs_of hopen _).mpr rfl)
  have hlists : ∀ n ∈ constructors, n ∉ nodeZeroArgumentMethods ∧ n ∉ "get" :: nodeStringArgumentMethods ∧
      n ∉ ["size", "is_empty", "find", "count", "repeat"] ∧ n ∉ ["size", "is_empty", "find", "count", "has"] ∧
      n ∉ ["size", "is_empty", "has"] ∧ n ∉ mathZeroArgumentMethods ++ mathVectorArgumentMethods := by decide
  obtain ⟨h1, h2, h3, h4, h5, h6⟩ := hlists n hn
  rcases method_of_checkCall h ((previousIs_of hdot _).mpr rfl) with
    ⟨-, ⟨hm, -⟩ | ⟨hm, -⟩⟩ | ⟨-, hm⟩ | ⟨-, hm⟩ | ⟨-, hm⟩ | ⟨-, hm⟩
  · exact h1 hm
  · exact h2 hm
  · exact h3 hm
  · exact h4 hm
  · exact h5 hm
  · exact h6 hm

theorem constructorName_ne {i : Nat} (h : constructorName tokens i ≠ "") :
    ∃ name, tokens[i]? = some name ∧ name.kind = .identifier ∧ name.text ∈ constructors ∧
      constructorName tokens i = name.text := by
  unfold constructorName at h ⊢
  cases hname : tokens[i]? with
  | none => simp [hname] at h
  | some name =>
    rw [hname] at h
    dsimp only at h ⊢
    split_ifs at h ⊢ with hconstructor
    · exact ⟨name, rfl, hconstructor.1, hconstructor.2, rfl⟩
    · exact absurd rfl h

/-- What is taken for a constructor call is one. -/
theorem constructor_of (hchecked : Checked tokens) (hscanned : ∀ l ∈ tokens, l.Scanned)
    (hstarts : StartsOperand before) (htokens : tokens = before ++ (r.lexemes ++ after))
    (h : mathConstructorAt tokens (before.length + r.lexemes.length - 1) ≠ "") :
    ∃ name arguments, r = .call (.name name) arguments ∧ name.val ∈ constructors ∧
      mathConstructorAt tokens (before.length + r.lexemes.length - 1) = name := by
  have hround : (⟨"(", ")"⟩ : Pair) ∈ pairs := by decide
  have hplace := final_place htokens
  have hparts : ∀ l ∈ r.lexemes, l.Scanned := fun l hl => hscanned l (by simp [htokens, hl])
  unfold mathConstructorAt at h ⊢
  split_ifs at h ⊢ with hclose
  · have hfinal := hscanned _ (List.mem_of_getElem? hplace)
    rcases round_of hfinal ((textIs_of hplace _).mp hclose) with ⟨inner, rfl⟩ | ⟨callee, arguments, rfl⟩
    · -- the name before a group would be one that no operand may follow
      have hinner := inner.balanced hround fun l hl => hparts l (by simp [lexemes, hl])
      have hopening := @openingOf_between tokens before after _ hround inner.lexemes hinner
        (by simp [htokens, lexemes]) (before.length + (group inner).lexemes.length - 1) (by simp [lexemes]; omega)
      rw [hopening] at h
      obtain ⟨i, hi⟩ : ∃ i, before.length = i + 1 := by
        cases hlength : before.length with
        | zero => simp [hlength] at h
        | succ i => exact ⟨i, rfl⟩
      rw [hi] at h
      obtain ⟨name, hname, hkind, hconstructor, -⟩ := constructorName_ne h
      have hword := hstarts.not_name htokens hi.symm hname hkind
      exact absurd hword ((by decide : ∀ text ∈ constructors, text ∉ words) _ hconstructor)
    · have harguments := arguments.balanced hround fun l hl => hparts l (by simp [lexemes, hl])
      have hopening := @openingOf_between tokens (before ++ callee.lexemes) after _ hround arguments.lexemes harguments
        (by simp [htokens, lexemes]) (before.length + (call callee arguments).lexemes.length - 1)
        (by simp [lexemes]; omega)
      have hpos := List.length_pos_iff.mpr callee.operand_ne_nil
      have hlast : (before ++ callee.lexemes).length = before.length + callee.lexemes.length - 1 + 1 := by
        rw [List.length_append]
        omega
      rw [hopening, hlast] at h ⊢
      obtain ⟨name, hname, hkind, hconstructor, hvalue⟩ := constructorName_ne h
      have hcallee := @final_place tokens before (mark "(" :: (arguments.lexemes ++ mark ")" :: after)) callee
        (by simp [htokens, lexemes])
      obtain rfl := Option.some.inj (hcallee.symm.trans hname)
      cases callee with
      | name n => exact ⟨n, arguments, rfl, hconstructor, hvalue⟩
      | member receiver n =>
        refine (@constructor_not_method tokens (before ++ receiver.lexemes) (arguments.lexemes ++ mark ")" :: after)
          hchecked n hconstructor ?_).elim
        simp [htokens, lexemes, word]
      | number | string | group | array | dictionary | index | call => cases hkind
  · exact absurd rfl h

theorem isSourceLocal_of_container {pair : Pair} (hpair : pair ∈ pairs) {inner : List Lexeme}
    (hinner : Balanced pair.Opens pair.Closes inner)
    (htokens : tokens = before ++ mark pair.opening :: (inner ++ mark pair.closing :: after)) {i : Nat}
    (hi : i = before.length + inner.length + 1)
    (h : isSourceLocalContainer tokens i pair.opening pair.closing = true) : ∀ l ∈ inner, isSourceLocal l = true := by
  unfold isSourceLocalContainer at h
  rw [openingOf_between hpair hinner htokens hi] at h
  have hall := ((Bool.and_eq_true _ _).mp h).2
  have hinside : (tokens.take i).drop (before.length + 1) = inner := by
    have hsplit : tokens = (before ++ [mark pair.opening]) ++ inner ++ mark pair.closing :: after := by simp [htokens]
    have hlength : (before ++ [mark pair.opening] ++ inner).length = before.length + inner.length + 1 := by
      rw [List.length_append, List.length_append, List.length_singleton]
      omega
    rw [hsplit, hi, List.take_append_of_le_length hlength.ge, List.take_of_length_le hlength.le]
    rw [show before.length + 1 = (before ++ [mark pair.opening]).length by simp, List.drop_left]
  rw [hinside] at hall
  exact List.all_eq_true.mp hall

/-- What is taken for an array of literals is one. -/
theorem array_of (hchecked : Checked tokens) (hscanned : ∀ l ∈ tokens, l.Scanned)
    (htokens : tokens = before ++ (r.lexemes ++ after))
    (htext : textIs tokens (before.length + r.lexemes.length - 1) "]" = true)
    (hlocal : isSourceLocalContainer tokens (before.length + r.lexemes.length - 1) "[" "]" = true) :
    ∃ elements, r = .array elements ∧ ∀ l ∈ elements.lexemes, isSourceLocal l = true := by
  have hsquare : (⟨"[", "]"⟩ : Pair) ∈ pairs := by decide
  have hplace := final_place htokens
  have hparts : ∀ l ∈ r.lexemes, l.Scanned := fun l hl => hscanned l (by simp [htokens, hl])
  rcases square_of (hscanned _ (List.mem_of_getElem? hplace)) ((textIs_of hplace _).mp htext) with
    ⟨elements, rfl⟩ | ⟨receiver, key, rfl⟩
  · refine ⟨elements, rfl, ?_⟩
    have helements := elements.balanced hsquare fun l hl => hparts l (by simp [lexemes, hl])
    refine @isSourceLocal_of_container tokens before after _ hsquare _ helements ?_ _ ?_ hlocal
    · simp [htokens, lexemes]
    · simp [lexemes]
      omega
  · refine (@not_indexed tokens before (key.lexemes ++ mark "]" :: after) receiver hchecked hscanned ?_).elim
    simp [htokens, lexemes]

theorem dictionary_of (hscanned : ∀ l ∈ tokens, l.Scanned) (htokens : tokens = before ++ (r.lexemes ++ after))
    (htext : textIs tokens (before.length + r.lexemes.length - 1) "\x7d" = true)
    (hlocal : isSourceLocalContainer tokens (before.length + r.lexemes.length - 1) "\x7b" "\x7d" = true) :
    ∃ entries, r = .dictionary entries ∧ ∀ l ∈ entries.lexemes, isSourceLocal l = true := by
  have hcurly : (⟨"\x7b", "\x7d"⟩ : Pair) ∈ pairs := by decide
  have hplace := final_place htokens
  have hparts : ∀ l ∈ r.lexemes, l.Scanned := fun l hl => hscanned l (by simp [htokens, hl])
  obtain ⟨entries, rfl⟩ := curly_of (hscanned _ (List.mem_of_getElem? hplace)) ((textIs_of hplace _).mp htext)
  refine ⟨entries, rfl, ?_⟩
  have hentries := entries.balanced hcurly fun l hl => hparts l (by simp [lexemes, hl])
  refine @isSourceLocal_of_container tokens before after _ hcurly _ hentries ?_ _ ?_ hlocal
  · simp [htokens, lexemes]
  · simp [lexemes]
    omega

/-- A balanced list that ends in a string after an opening bracket would leave the bracket open. -/
theorem no_open_end {inner init : List Lexeme}
    (hinner : Balanced (Pair.Opens ⟨"(", ")"⟩) (Pair.Closes ⟨"(", ")"⟩) inner)
    (hstring : Lexeme.Scanned ⟨.string, text⟩)
    (hl : l.text = "(") (heq : inner = init ++ [l, ⟨.string, text⟩]) : False := by
  have hle := hinner.suffix_le (Pair.disjoint (by decide)) heq
  have hopen : text ≠ "(" := hstring.text_ne (by decide)
  have hclose : text ≠ ")" := hstring.text_ne (by decide)
  simp [Pair.Opens, Pair.Closes, hl, hopen, hclose] at hle

/-- What stands between brackets is one string when the bracket opens right before it. -/
theorem string_between {inner : List Lexeme}
    (hinner : Balanced (Pair.Opens ⟨"(", ")"⟩) (Pair.Closes ⟨"(", ")"⟩) inner) (hscanned : ∀ l ∈ inner, l.Scanned)
    (htokens : tokens = before ++ mark "(" :: (inner ++ mark ")" :: after)) {i : Nat}
    (hi : i = before.length + inner.length + 1) (hkind : kindIs tokens (i - 1) .string = true)
    (hopen : textIs tokens (i - 2) "(" = true) : ∃ text, inner = [⟨.string, text⟩] := by
  rcases List.eq_nil_or_concat inner with rfl | ⟨init, s, rfl⟩
  · have hplace : tokens[i - 1]? = some (mark "(") := getElem?_place before _ htokens (by simp [hi])
    cases (kindIs_of hplace _).mp hkind
  · have hplace : tokens[i - 1]? = some s := by
      refine getElem?_place (before ++ mark "(" :: init) (mark ")" :: after) (by simp [htokens]) ?_
      simp only [hi, List.length_append, List.length_cons, List.concat_eq_append, List.length_nil]
      omega
    have hkind := (kindIs_of hplace _).mp hkind
    obtain ⟨kind, text⟩ := s
    obtain rfl : kind = .string := hkind
    rcases List.eq_nil_or_concat init with rfl | ⟨start, l, rfl⟩
    · exact ⟨text, rfl⟩
    · have hbefore : tokens[i - 2]? = some l := by
        refine getElem?_place (before ++ mark "(" :: start) (⟨.string, text⟩ :: mark ")" :: after) (by simp [htokens]) ?_
        simp only [hi, List.length_append, List.length_cons, List.concat_eq_append, List.length_nil]
        omega
      refine (@no_open_end text l _ start hinner (hscanned _ (by simp)) ((textIs_of hbefore _).mp hopen) ?_).elim
      simp

/-- What is taken for a property read is one. -/
theorem prebound_of (hchecked : Checked tokens) (hscanned : ∀ l ∈ tokens, l.Scanned)
    (hstarts : StartsOperand before) (htokens : tokens = before ++ (r.lexemes ++ after))
    (h : isPreboundPropertyRead tokens (before.length + r.lexemes.length - 1) = true) :
    ∃ name arguments, r = .call (.member (.name name) "get") arguments ∧ name.val = "node" ∧ arguments.IsString := by
  have hround : (⟨"(", ")"⟩ : Pair) ∈ pairs := by decide
  have hplace := final_place htokens
  have hparts : ∀ l ∈ r.lexemes, l.Scanned := fun l hl => hscanned l (by simp [htokens, hl])
  simp only [isPreboundPropertyRead, Bool.and_eq_true, decide_eq_true_eq] at h
  obtain ⟨⟨⟨⟨⟨⟨⟨⟨hfive, hclose⟩, hstring⟩, hopen⟩, hgetKind⟩, hget⟩, hdot⟩, hnodeKind⟩, hnode⟩ := h
  rcases round_of (hscanned _ (List.mem_of_getElem? hplace)) ((textIs_of hplace _).mp hclose) with
    ⟨inner, rfl⟩ | ⟨callee, arguments, rfl⟩
  · have hinner := inner.balanced hround fun l hl => hparts l (by simp [lexemes, hl])
    obtain ⟨text, htext⟩ := @string_between tokens before after _ hinner
      (fun l hl => hparts l (by simp [lexemes, hl])) (by simp [htokens, lexemes]) _ (by simp [lexemes]; omega)
      hstring hopen
    obtain ⟨name, hname, hkind⟩ := kindIs_iff.mp hgetKind
    have hword := hstarts.not_name htokens (by simp [lexemes, htext] at hfive ⊢; omega) hname hkind
    rw [(textIs_of hname _).mp hget] at hword
    exact absurd hword (by decide)
  · have harguments := arguments.balanced hround fun l hl => hparts l (by simp [lexemes, hl])
    obtain ⟨text, htext⟩ := @string_between tokens (before ++ callee.lexemes) after _ harguments
      (fun l hl => hparts l (by simp [lexemes, hl])) (by simp [htokens, lexemes]) _ (by simp [lexemes]; omega)
      hstring hopen
    have hpos := List.length_pos_iff.mpr callee.operand_ne_nil
    have hcallee := @final_place tokens before (mark "(" :: (arguments.lexemes ++ mark ")" :: after)) callee
      (by simp [htokens, lexemes])
    have hlength : (call callee arguments).lexemes.length = callee.lexemes.length + 3 := by simp [lexemes, htext]
    rw [hlength] at hgetKind hget hdot hnodeKind hnode hfive
    rw [show before.length + (callee.lexemes.length + 3) - 1 - 3 = before.length + callee.lexemes.length - 1 by omega]
      at hgetKind hget
    have hkind := (kindIs_of hcallee _).mp hgetKind
    have hgetText := (textIs_of hcallee _).mp hget
    cases callee with
    | name name =>
      -- a dot would stand before an operand
      obtain ⟨l, hl, htextDot⟩ := textIs_iff.mp hdot
      have hne : before ≠ [] := by
        rintro rfl
        simp [lexemes] at hfive
      have hlast := previous_place hne htokens
      rw [show before.length + ((Phrase.name name).lexemes.length + 3) - 1 - 4 = before.length - 1 by simp [lexemes],
        hlast] at hl
      exact absurd htextDot ((hstarts l hl).text_ne_dot (hscanned l (by simp [htokens, List.mem_of_getLast? hl])))
    | member receiver n =>
      obtain rfl : n = "get" := hgetText
      have hreceiver := @final_place tokens before
        (mark "." :: word "get" :: mark "(" :: (arguments.lexemes ++ mark ")" :: after)) receiver
        (by simp [htokens, lexemes, word])
      have hrpos := List.length_pos_iff.mpr receiver.operand_ne_nil
      rw [show before.length + ((Phrase.member receiver "get").lexemes.length + 3) - 1 - 5 =
        before.length + receiver.lexemes.length - 1 by simp [lexemes]; omega] at hnodeKind hnode
      obtain ⟨name, rfl, hname⟩ := @node_of tokens before
        (word "get" :: mark "(" :: (arguments.lexemes ++ mark ")" :: after)) receiver hchecked
        ((kindIs_of hreceiver _).mp hnodeKind) ((textIs_of hreceiver _).mp hnode) (by simp [htokens, lexemes, word])
      exact ⟨name, arguments, rfl, hname, isString_of htext⟩
    | number | string | group | array | dictionary | index | call => cases hkind

end

/-! ## Arguments -/

section
variable {tokens before after inner : List Lexeme} {name : Lexeme}

theorem no_closed_beginning (hinner : Balanced (Pair.Opens ⟨"(", ")"⟩) (Pair.Closes ⟨"(", ")"⟩) inner)
    {start rest : List Lexeme} (hstart : ∀ m ∈ start, m.text ≠ "(") (hl : l.text = ")")
    (heq : inner = start ++ l :: rest) : False := by
  have hle := hinner.prefix_le (Pair.disjoint (by decide)) (show inner = (start ++ [l]) ++ rest by simp [heq])
  have hnone : start.countP (Pair.Opens ⟨"(", ")"⟩) = 0 := by
    refine List.countP_eq_zero.mpr fun m hm => ?_
    simp [Pair.Opens, hstart m hm]
  rw [List.countP_append, List.countP_append, hnone] at hle
  simp [Pair.Opens, Pair.Closes, hl] at hle

theorem noArguments_of (hinner : Balanced (Pair.Opens ⟨"(", ")"⟩) (Pair.Closes ⟨"(", ")"⟩) inner)
    (htokens : tokens = before ++ name :: mark "(" :: (inner ++ mark ")" :: after))
    (h : hasNoArguments tokens before.length = true) : inner = [] := by
  cases inner with
  | nil => rfl
  | cons l rest =>
    have hplace : tokens[before.length + 2]? = some l :=
      getElem?_place (before ++ [name, mark "("]) (rest ++ mark ")" :: after) (by simp [htokens]) (by simp)
    exact (no_closed_beginning hinner (List.forall_mem_nil _) ((textIs_of hplace _).mp h) rfl).elim

theorem oneString_of (hinner : Balanced (Pair.Opens ⟨"(", ")"⟩) (Pair.Closes ⟨"(", ")"⟩) inner)
    (hscanned : ∀ l ∈ inner, l.Scanned)
    (htokens : tokens = before ++ name :: mark "(" :: (inner ++ mark ")" :: after))
    (h : hasOneStringLiteralArgument tokens before.length = true) : ∃ text, inner = [⟨.string, text⟩] := by
  obtain ⟨hkind, hclose⟩ := (Bool.and_eq_true _ _).mp h
  rcases inner with - | ⟨⟨kind, text⟩, rest⟩
  · have hplace : tokens[before.length + 2]? = some (mark ")") :=
      getElem?_place (before ++ [name, mark "("]) after (by simp [htokens]) (by simp)
    cases (kindIs_of hplace _).mp hkind
  · have hplace : tokens[before.length + 2]? = some ⟨kind, text⟩ :=
      getElem?_place (before ++ [name, mark "("]) (rest ++ mark ")" :: after) (by simp [htokens]) (by simp)
    obtain rfl : kind = .string := (kindIs_of hplace _).mp hkind
    cases rest with
    | nil => exact ⟨text, rfl⟩
    | cons l rest =>
      have hnext : tokens[before.length + 3]? = some l :=
        getElem?_place (before ++ [name, mark "(", ⟨.string, text⟩]) (rest ++ mark ")" :: after) (by simp [htokens])
          (by simp)
      have hopen : text ≠ "(" := (hscanned ⟨.string, text⟩ List.mem_cons_self).text_ne (by decide)
      refine (no_closed_beginning hinner (fun m hm => ?_) ((textIs_of hnext _).mp hclose)
        (show _ = [⟨.string, text⟩] ++ l :: rest from rfl)).elim
      rw [List.mem_singleton.mp hm]
      exact hopen

theorem text_ne_of_numeric (hscanned : l.Scanned) (h : isSourceLocalNumeric l = true) : l.text ≠ "(" := by
  obtain ⟨kind, text⟩ := l
  rintro rfl
  cases kind with
  | number => exact absurd hscanned (by decide)
  | identifier | string | punctuation | operator => exact absurd h (by decide)

theorem numeric_of_upToClosing (hinner : Balanced (Pair.Opens ⟨"(", ")"⟩) (Pair.Closes ⟨"(", ")"⟩) inner)
    (hscanned : ∀ l ∈ inner, l.Scanned) {start rest : List Lexeme} (heq : inner = start ++ rest)
    (hstart : ∀ l ∈ start, isSourceLocalNumeric l = true)
    (h : numericUpToClosing (rest ++ mark ")" :: after) = true) : ∀ l ∈ inner, isSourceLocalNumeric l = true := by
  induction rest generalizing start with
  | nil =>
    rw [heq, List.append_nil]
    exact hstart
  | cons l rest ih =>
    rw [List.cons_append, numericUpToClosing] at h
    split_ifs at h with hclose
    · refine (no_closed_beginning hinner (fun m hm => ?_) hclose heq).elim
      exact text_ne_of_numeric (hscanned m (by simp [heq, hm])) (hstart m hm)
    · obtain ⟨hl, hrest⟩ := (Bool.and_eq_true _ _).mp h
      refine @ih (start ++ [l]) (by simp [heq]) (fun m hm => ?_) hrest
      rcases List.mem_append.mp hm with hm | hm
      · exact hstart m hm
      · obtain rfl := List.mem_singleton.mp hm
        exact hl

theorem numericArguments_of (hinner : Balanced (Pair.Opens ⟨"(", ")"⟩) (Pair.Closes ⟨"(", ")"⟩) inner)
    (hscanned : ∀ l ∈ inner, l.Scanned)
    (htokens : tokens = before ++ name :: mark "(" :: (inner ++ mark ")" :: after))
    (h : hasOnlySourceLocalNumericArguments tokens before.length = true) :
    ∀ l ∈ inner, isSourceLocalNumeric l = true := by
  have hdrop : tokens.drop (before.length + 2) = inner ++ mark ")" :: after := by
    have hsplit : tokens = (before ++ [name, mark "("]) ++ (inner ++ mark ")" :: after) := by simp [htokens]
    rw [hsplit, show before.length + 2 = (before ++ [name, mark "("]).length by simp, List.drop_left]
  unfold hasOnlySourceLocalNumericArguments at h
  rw [hdrop] at h
  exact numeric_of_upToClosing hinner hscanned (List.nil_append _).symm (List.forall_mem_nil _) h

end

/-! ## Calls -/

/-- No bracket opens right after a brace that closes. -/
def NotAfterBrace (l m : Lexeme) : Prop := ¬ (l.text = "\x7d" ∧ m.text = "(")

section
variable {tokens before after : List Lexeme}

theorem isChain_place (h : tokens.IsChain NotAfterBrace) {l m : Lexeme} (htokens : tokens = before ++ l :: m :: after) :
    NotAfterBrace l m := by
  rw [htokens] at h
  exact (List.isChain_append_cons_cons.mp h).2.1

/-- A call of a name passed as a global call. -/
theorem global_of (hchecked : Checked tokens) (hscanned : ∀ l ∈ tokens, l.Scanned) (hstarts : StartsOperand before)
    {name : Name} {arguments : Phrase .elements}
    (htokens : tokens = before ++ ((Phrase.call (.name name) arguments).lexemes ++ after)) :
    CallListed (.name name) arguments := by
  have hround : (⟨"(", ")"⟩ : Pair) ∈ pairs := by decide
  have hlist : tokens = before ++ word name :: mark "(" :: (arguments.lexemes ++ mark ")" :: after) := by
    simp [htokens, lexemes, word]
  have hparts : ∀ l ∈ arguments.lexemes, l.Scanned := fun l hl => hscanned l (by simp [hlist, hl])
  have hplace : tokens[before.length]? = some (word name) := getElem?_place before _ hlist rfl
  have hopen : tokens[before.length + 1]? = some (mark "(") :=
    getElem?_place (before ++ [word name]) _ (by rw [hlist, List.append_assoc]; rfl) (by simp)
  have hkind : receiverKind tokens before.length = .none := by
    unfold receiverKind
    rw [if_pos]
    rcases List.eq_nil_or_concat before with rfl | ⟨init, l, rfl⟩
    · rfl
    · rw [Bool.or_eq_true, Bool.not_eq_true', Bool.eq_false_iff]
      right
      intro hdot
      have hbefore : tokens[(init.concat l).length - 1]? = some l :=
        getElem?_place init _ (by rw [htokens, List.concat_eq_append, List.append_assoc]; rfl) (by simp)
      refine (hstarts l (by simp)).text_ne_dot (hscanned l (List.mem_of_getElem? hbefore)) ?_
      exact (textIs_of hbefore _).mp hdot
  have hcall := hchecked.call hplace rfl ((textIs_of hopen _).mpr rfl)
  unfold checkCall at hcall
  rw [hkind] at hcall
  obtain ⟨-, hallowed, hnumeric⟩ := Except.require_eq_ok.mp hcall
  have hall := numericArguments_of (arguments.balanced hround hparts) hparts hlist hnumeric
  exact ⟨hallowed, numeric_of (by simp) arguments hparts hall⟩

/-- A call of a member passed as a method of what it was taken for. -/
theorem method_of (hchecked : Checked tokens) (hscanned : ∀ l ∈ tokens, l.Scanned) (hstarts : StartsOperand before)
    {receiver : Phrase .operand} {method : String} {arguments : Phrase .elements}
    (htokens : tokens = before ++ ((Phrase.call (.member receiver method) arguments).lexemes ++ after))
    (hconfined : receiver.Confined false) : MethodListed receiver method arguments := by
  have hround : (⟨"(", ")"⟩ : Pair) ∈ pairs := by decide
  have hlist : tokens = (before ++ receiver.lexemes ++ [mark "."]) ++
      word method :: mark "(" :: (arguments.lexemes ++ mark ")" :: after) := by
    simp [htokens, lexemes, word]
  have hreceiver : tokens = before ++ (receiver.lexemes ++
      mark "." :: word method :: mark "(" :: (arguments.lexemes ++ mark ")" :: after)) := by
    simp [htokens, lexemes, word]
  have hparts : ∀ l ∈ arguments.lexemes, l.Scanned := fun l hl => hscanned l (by simp [hlist, hl])
  have hrparts : ∀ l ∈ receiver.lexemes, l.Scanned := fun l hl => hscanned l (by simp [hlist, hl])
  have hbalanced := arguments.balanced hround hparts
  have hpos := List.length_pos_iff.mpr receiver.operand_ne_nil
  have hplace : tokens[(before ++ receiver.lexemes ++ [mark "."]).length]? = some (word method) :=
    getElem?_place _ _ hlist rfl
  have hopen : tokens[(before ++ receiver.lexemes ++ [mark "."]).length + 1]? = some (mark "(") :=
    getElem?_place (before ++ receiver.lexemes ++ [mark ".", word method]) _ (by simp [hlist]; rfl) (by simp; omega)
  have hdot : tokens[before.length + receiver.lexemes.length]? = some (mark ".") :=
    getElem?_place (before ++ receiver.lexemes) _ (by rw [hreceiver, List.append_assoc]) (by simp)
  have hprevious : previousIs tokens (before ++ receiver.lexemes ++ [mark "."]).length "." = true := by
    rw [List.length_append, List.length_append, List.length_singleton]
    exact (previousIs_of hdot _).mpr rfl
  have hend : (before ++ receiver.lexemes ++ [mark "."]).length - 2 = before.length + receiver.lexemes.length - 1 := by
    simp only [List.length_append, List.length_singleton]
    omega
  have hfinal := final_place hreceiver
  have hcall := hchecked.call hplace rfl ((textIs_of hopen _).mpr rfl)
  have hreceives := receives tokens (before ++ receiver.lexemes ++ [mark "."]).length
  rw [hend] at hreceives
  rcases method_of_checkCall hcall hprevious with ⟨hkind, hmethod⟩ | ⟨hkind, hmethod⟩ | ⟨hkind, hmethod⟩ |
    ⟨hkind, hmethod⟩ | ⟨hkind, hmethod⟩ <;> rw [hkind] at hreceives
  · obtain ⟨hidentifier, hnode⟩ := hreceives
    obtain ⟨name, rfl, hname⟩ := node_of hchecked ((kindIs_of hfinal _).mp hidentifier) ((textIs_of hfinal _).mp hnode)
      hreceiver
    refine ⟨hname, hmethod.imp (fun h => ⟨h.1, ?_⟩) fun h => ⟨h.1, ?_⟩⟩
    · exact eq_none_of (noArguments_of hbalanced hlist h.2)
    · obtain ⟨text, htext⟩ := oneString_of hbalanced hparts hlist h.2
      exact isString_of htext
  · rcases hreceives with - | hstring
    obtain ⟨sigil, text, rfl⟩ := string_of ((kindIs_of hfinal _).mp hstring)
    exact hmethod
  · rcases hreceives with - | - | ⟨hsquare, hlocal⟩
    obtain ⟨elements, rfl, hall⟩ := array_of hchecked hscanned hreceiver hsquare hlocal
    exact ⟨literal_of elements (fun l hl => hrparts l (by simp [lexemes, hl])) hall hconfined, hmethod⟩
  · rcases hreceives with - | - | - | ⟨hcurly, hlocal⟩
    obtain ⟨entries, rfl, hall⟩ := dictionary_of hscanned hreceiver hcurly hlocal
    exact ⟨literal_of entries (fun l hl => hrparts l (by simp [lexemes, hl])) hall hconfined, hmethod⟩
  · rcases hreceives with - | - | - | - | hname
    obtain ⟨name, args, rfl, hconstructor, -⟩ := constructor_of hchecked hscanned hstarts hreceiver hname
    exact ⟨hconstructor, hconfined.1.2, hmethod⟩

/-- What is called is a name or a member, unless it is a dictionary. -/
theorem listed_of (hchecked : Checked tokens) (hscanned : ∀ l ∈ tokens, l.Scanned) (hstarts : StartsOperand before)
    (hbraces : tokens.IsChain NotAfterBrace) {callee : Phrase .operand} {arguments : Phrase .elements}
    (htokens : tokens = before ++ ((Phrase.call callee arguments).lexemes ++ after))
    (hconfined : callee.Confined true) : CallListed callee arguments := by
  have hcallee : tokens = before ++ (callee.lexemes ++ mark "(" :: (arguments.lexemes ++ mark ")" :: after)) := by
    simp [htokens, lexemes]
  have hpos := List.length_pos_iff.mpr callee.operand_ne_nil
  have hfinal := final_place hcallee
  have hplace : tokens[before.length + callee.lexemes.length - 1 + 1]? = some (mark "(") :=
    getElem?_place (before ++ callee.lexemes) _ (by rw [hcallee, List.append_assoc])
      (by simp only [List.length_append]; omega)
  have hdispatch := Except.require_eq_ok.mp (hchecked.dispatch hplace (fun h => by cases h)) rfl
  have hrefused : callee.final.kind ≠ .identifier →
      (callee.final.text = "]" ∨ callee.final.text = ")" ∨ callee.final.kind = .string ∨
        callee.final.kind = .number) → CallListed callee arguments := by
    intro hkind hclosed
    have hname : previousKindIs tokens (before.length + callee.lexemes.length - 1 + 1) .identifier = false := by
      rw [Bool.eq_false_iff]
      exact fun h => hkind ((previousKindIs_of hfinal _).mp h)
    have hcalled : (previousIs tokens (before.length + callee.lexemes.length - 1 + 1) "]" ||
        previousIs tokens (before.length + callee.lexemes.length - 1 + 1) ")" ||
        previousKindIs tokens (before.length + callee.lexemes.length - 1 + 1) .string ||
        previousKindIs tokens (before.length + callee.lexemes.length - 1 + 1) .number) = true := by
      simp only [Bool.or_eq_true, previousIs_of hfinal, previousKindIs_of hfinal, or_assoc]
      exact hclosed
    rw [hname, hcalled] at hdispatch
    cases hdispatch
  cases callee with
  | name name => exact global_of hchecked hscanned hstarts htokens
  | member receiver method => exact method_of hchecked hscanned hstarts htokens hconfined.2
  | number text => exact hrefused (fun h => by cases h) (.inr (.inr (.inr rfl)))
  | string sigil text => exact hrefused (fun h => by cases h) (.inr (.inr (.inl rfl)))
  | group inner => exact hrefused (fun h => by cases h) (.inr (.inl rfl))
  | array elements => exact hrefused (fun h => by cases h) (.inl rfl)
  | index receiver key => exact hrefused (fun h => by cases h) (.inl rfl)
  | call callee arguments => exact hrefused (fun h => by cases h) (.inr (.inl rfl))
  | dictionary entries =>
    have hbrace : NotAfterBrace (mark "\x7d") (mark "(") :=
      @isChain_place tokens (before ++ mark "\x7b" :: entries.lexemes) (arguments.lexemes ++ mark ")" :: after) hbraces
        _ _ (by simp [hcallee, lexemes])
    exact (hbrace ⟨rfl, rfl⟩).elim

end

/-! ## Trees -/

theorem UnaryOperator.mayPrecede (operator : UnaryOperator) : MayPrecede operator.lexeme := by
  cases operator with
  | not => exact .inr (.inr (by decide))
  | minus | plus | complement | bang => exact .inl rfl

theorem BinaryOperator.startsOperand (operator : BinaryOperator) (before : List Lexeme) :
    StartsOperand (before ++ operator.lexemes) := by
  have hword : ∀ {init : List Lexeme} {text : String}, text ∈ words → StartsOperand (init ++ [word text]) :=
    fun h => startsOperand_append (.inr (.inr (List.mem_map_of_mem h)))
  cases operator with
  | symbol text h => exact startsOperand_append (.inl rfl)
  | and | or | «in» | is | as => exact hword (by decide)
  | notIn => exact (List.append_assoc before [word "not"] [word "in"]) ▸ hword (by decide)
  | isNot => exact (List.append_assoc before [word "is"] [word "not"]) ▸ hword (by decide)

/-- An operator stands before what it is applied to, not before a bracket. -/
theorem BinaryOperator.head_ne (operator : BinaryOperator) (rest : List Lexeme) :
    ∀ l ∈ (operator.lexemes ++ rest).head?, l.text ≠ "(" := by
  have hfirst : ∃ l tail, operator.lexemes = l :: tail := by
    cases operator <;> exact ⟨_, _, rfl⟩
  obtain ⟨l, tail, hlexemes⟩ := hfirst
  intro m hm
  rw [hlexemes] at hm
  obtain rfl : l = m := by simpa using hm
  have hplain := operator.isPlain l (by simp [hlexemes])
  intro htext
  exact hplain (by simp [htext])

theorem startsOperand_mark {before : List Lexeme} (h : text ∈ ["(", "[", "\x7b", ",", ":"]) :
    StartsOperand (before ++ [mark text]) := startsOperand_append (.inr (.inl (List.mem_map_of_mem h)))

theorem startsOperand_word {before : List Lexeme} (h : text ∈ words) :
    StartsOperand (before ++ [word text]) := startsOperand_append (.inr (.inr (List.mem_map_of_mem h)))

theorem head_mark_ne (h : text ≠ "(") (rest : List Lexeme) :
    ∀ l ∈ (mark text :: rest).head?, l.text ≠ "(" := by
  intro l hl
  obtain rfl : mark text = l := by simpa using hl
  exact h

/-- Every tree that stands in a valid list is confined. -/
theorem confined_of {tokens : List Lexeme} (hchecked : Checked tokens) (hscanned : ∀ l ∈ tokens, l.Scanned)
    (hbraces : tokens.IsChain NotAfterBrace) {c : Category} (p : Phrase c) {before after : List Lexeme} {called : Bool}
    (htokens : tokens = before ++ (p.lexemes ++ after)) (hstarts : StartsOperand before)
    (hafter : c = .operand ∧ called = true ∨ ∀ l ∈ after.head?, l.text ≠ "(") : p.Confined called := by
  induction p generalizing before after called with
  | name name => exact trivial
  | number text => exact trivial
  | string sigil text => exact trivial
  | group inner ih =>
    exact @ih (before ++ [mark "("]) (mark ")" :: after) _ (by simp [htokens, lexemes])
      (startsOperand_mark (by decide)) (.inr (head_mark_ne (by decide) _))
  | array elements ih =>
    exact @ih (before ++ [mark "["]) (mark "]" :: after) _ (by simp [htokens, lexemes])
      (startsOperand_mark (by decide)) (.inr (head_mark_ne (by decide) _))
  | dictionary entries ih =>
    exact @ih (before ++ [mark "\x7b"]) (mark "\x7d" :: after) _ (by simp [htokens, lexemes])
      (startsOperand_mark (by decide)) (.inr (head_mark_ne (by decide) _))
  | member receiver n ih =>
    have hreceiver : tokens = before ++ (receiver.lexemes ++ mark "." :: word n :: after) := by
      simp [htokens, lexemes, word]
    refine ⟨?_, @ih before (mark "." :: word n :: after) _ hreceiver hstarts (.inr (head_mark_ne (by decide) _))⟩
    rcases hafter with ⟨-, hcalled⟩ | hafter
    · exact .inl hcalled
    · right
      have hcomponent := (@Checked.component tokens (before ++ receiver.lexemes) after hchecked n
        (by simp [hreceiver]) hafter).2
      rw [List.length_append] at hcomponent
      rcases hcomponent with hmath | ⟨hcomponent, hread⟩
      · have hne : mathConstructorAt tokens (before.length + receiver.lexemes.length - 1) ≠ "" := by
          intro hnone
          rw [hnone] at hmath
          cases hmath
        obtain ⟨name, arguments, rfl, -, hvalue⟩ := constructor_of hchecked hscanned hstarts hreceiver hne
        rw [hvalue] at hmath
        exact hmath
      · obtain ⟨name, arguments, rfl, hnode, hstring⟩ := prebound_of hchecked hscanned hstarts hreceiver hread
        exact ⟨hnode, rfl, hstring, hcomponent⟩
  | index receiver key _ _ =>
    refine (@not_indexed tokens before (key.lexemes ++ mark "]" :: after) receiver hchecked hscanned ?_).elim
    simp [htokens, lexemes]
  | call callee arguments ihc iha =>
    have hcallee : callee.Confined true :=
      @ihc before (mark "(" :: (arguments.lexemes ++ mark ")" :: after)) true (by simp [htokens, lexemes]) hstarts
        (.inl ⟨rfl, rfl⟩)
    refine ⟨listed_of hchecked hscanned hstarts hbraces htokens hcallee, hcallee, ?_⟩
    exact @iha (before ++ callee.lexemes ++ [mark "("]) (mark ")" :: after) _ (by simp [htokens, lexemes])
      (startsOperand_mark (by decide)) (.inr (head_mark_ne (by decide) _))
  | operand o ih => exact ih htokens hstarts (.inr (hafter.resolve_left fun h => by cases h.1))
  | unary operator argument ih =>
    exact @ih (before ++ [operator.lexeme]) after _ (by simp [htokens, lexemes])
      (startsOperand_append operator.mayPrecede) (.inr (hafter.resolve_left fun h => by cases h.1))
  | binary left operator right ihl ihr =>
    refine ⟨?_, ?_⟩
    · exact @ihl before (operator.lexemes ++ (right.lexemes ++ after)) _ (by simp [htokens, lexemes]) hstarts
        (.inr (operator.head_ne _))
    · exact @ihr (before ++ left.lexemes ++ operator.lexemes) after _ (by simp [htokens, lexemes])
        (operator.startsOperand _) (.inr (hafter.resolve_left fun h => by cases h.1))
  | ternary value condition otherwise ihv ihc iho =>
    have hword : ∀ {text : String} (rest : List Lexeme), text ≠ "(" →
        ∀ l ∈ (word text :: rest).head?, l.text ≠ "(" := by
      intro text rest h l hl
      obtain rfl : word text = l := by simpa using hl
      exact h
    refine ⟨?_, ?_, ?_⟩
    · exact @ihv before (word "if" :: (condition.lexemes ++ word "else" :: (otherwise.lexemes ++ after))) _
        (by simp [htokens, lexemes]) hstarts (.inr (hword _ (by decide)))
    · exact @ihc (before ++ value.lexemes ++ [word "if"]) (word "else" :: (otherwise.lexemes ++ after)) _
        (by simp [htokens, lexemes]) (startsOperand_word (by decide)) (.inr (hword _ (by decide)))
    · exact @iho (before ++ value.lexemes ++ word "if" :: condition.lexemes ++ [word "else"]) after _
        (by simp [htokens, lexemes]) (startsOperand_word (by decide)) (.inr (hafter.resolve_left fun h => by cases h.1))
  | assignment target operator value _ _ =>
    obtain ⟨text, htext⟩ := operator
    have hoperator : Lexeme.Scanned ⟨.operator, text⟩ := hscanned _ (by simp [htokens, lexemes])
    exact absurd hoperator ((by decide : ∀ text ∈ assignments, text ∉ operators) text htext)
  | none => exact trivial
  | last element ih => exact ih htokens hstarts (.inr (hafter.resolve_left fun h => by cases h.1))
  | more element rest ihe ihr =>
    refine ⟨?_, ?_⟩
    · exact @ihe before (mark "," :: (rest.lexemes ++ after)) _ (by simp [htokens, lexemes]) hstarts
        (.inr (head_mark_ne (by decide) _))
    · exact @ihr (before ++ element.lexemes ++ [mark ","]) after _ (by simp [htokens, lexemes])
        (startsOperand_mark (by decide)) (.inr (hafter.resolve_left fun h => by cases h.1))
  | noEntry => exact trivial
  | lastEntry key value ihk ihv =>
    refine ⟨?_, ?_⟩
    · exact @ihk before (mark ":" :: (value.lexemes ++ after)) _ (by simp [htokens, lexemes]) hstarts
        (.inr (head_mark_ne (by decide) _))
    · exact @ihv (before ++ key.lexemes ++ [mark ":"]) after _ (by simp [htokens, lexemes])
        (startsOperand_mark (by decide)) (.inr (hafter.resolve_left fun h => by cases h.1))
  | moreEntries key value rest ihk ihv ihr =>
    refine ⟨?_, ?_, ?_⟩
    · exact @ihk before (mark ":" :: (value.lexemes ++ mark "," :: (rest.lexemes ++ after))) _
        (by simp [htokens, lexemes]) hstarts (.inr (head_mark_ne (by decide) _))
    · exact @ihv (before ++ key.lexemes ++ [mark ":"]) (mark "," :: (rest.lexemes ++ after)) _
        (by simp [htokens, lexemes]) (startsOperand_mark (by decide)) (.inr (head_mark_ne (by decide) _))
    · exact @ihr (before ++ key.lexemes ++ mark ":" :: value.lexemes ++ [mark ","]) after _
        (by simp [htokens, lexemes]) (startsOperand_mark (by decide)) (.inr (hafter.resolve_left fun h => by cases h.1))

/-! ## Dictionaries that are called -/

section
variable {l m : List Lexeme} {x : Lexeme}

theorem chain_cons (hx : x.text ≠ "\x7d") (hm : m.IsChain NotAfterBrace) : (x :: m).IsChain NotAfterBrace :=
  List.isChain_cons.mpr ⟨fun _ _ h => hx h.1, hm⟩

theorem chain_append (hm : m.IsChain NotAfterBrace) (hl : l.IsChain NotAfterBrace)
    (hfirst : ∀ x ∈ m.head?, x.text ≠ "(") : (l ++ m).IsChain NotAfterBrace :=
  hl.append hm fun _ _ y hy h => hfirst y hy h.2

theorem chain_plain (hall : ∀ x ∈ l, Pair.IsPlain x) (hm : m.IsChain NotAfterBrace) :
    (l ++ m).IsChain NotAfterBrace := by
  induction l with
  | nil => exact hm
  | cons x l ih =>
    refine chain_cons (fun htext => hall x List.mem_cons_self (by simp [htext])) ?_
    exact ih fun y hy => hall y (List.mem_cons_of_mem _ hy)

theorem chain_mark (hopen : text ≠ "(") (hclose : text ≠ "\x7d") (hl : l.IsChain NotAfterBrace)
    (hm : m.IsChain NotAfterBrace) : (l ++ mark text :: m).IsChain NotAfterBrace :=
  chain_append (chain_cons hclose hm) hl (head_mark_ne hopen m)

theorem chain_end (hopen : text ≠ "(") (hl : l.IsChain NotAfterBrace) :
    (l ++ [mark text]).IsChain NotAfterBrace :=
  chain_append (List.isChain_singleton _) hl (head_mark_ne hopen [])

end

/-- In what is written for a confined tree no bracket opens right after a brace that closes. -/
theorem isChain_of_confined {c : Category} {called : Bool} (p : Phrase c) (hscanned : ∀ l ∈ p.lexemes, l.Scanned)
    (hconfined : p.Confined called) : p.lexemes.IsChain NotAfterBrace := by
  induction p generalizing called with
  | name name => exact List.isChain_singleton _
  | number text => exact List.isChain_singleton _
  | string sigil text =>
    refine chain_plain (fun x hx => ?_) (List.isChain_singleton _)
    obtain ⟨sigil, -, rfl⟩ := List.mem_map.mp hx
    cases sigil <;> decide
  | group inner ih =>
    have h := ih (fun l hl => hscanned l (by simp [lexemes, hl])) hconfined
    exact chain_cons (by decide) (chain_end (by decide) h)
  | array elements ih =>
    have h := ih (fun l hl => hscanned l (by simp [lexemes, hl])) hconfined
    exact chain_cons (by decide) (chain_end (by decide) h)
  | dictionary entries ih =>
    have h := ih (fun l hl => hscanned l (by simp [lexemes, hl])) hconfined
    exact chain_cons (by decide) (chain_end (by decide) h)
  | member receiver n ih =>
    have h := ih (fun l hl => hscanned l (by simp [lexemes, hl])) hconfined.2
    exact chain_mark (by decide) (by decide) h (List.isChain_singleton _)
  | index receiver key _ _ => exact hconfined.elim
  | call callee arguments ihc iha =>
    obtain ⟨hlisted, hcallee, harguments⟩ := hconfined
    have hc := ihc (fun l hl => hscanned l (by simp [lexemes, hl])) hcallee
    have ha := iha (fun l hl => hscanned l (by simp [lexemes, hl])) harguments
    obtain ⟨init, hinit⟩ := callee.exists_init
    have hfinal : callee.final.text ≠ "\x7d" := by
      have hscanned : callee.final.Scanned := hscanned _ (by simp [lexemes, hinit])
      intro htext
      obtain ⟨entries, rfl⟩ := curly_of hscanned htext
      exact hlisted
    -- only the bracket of a called dictionary would follow a brace
    refine hc.append (chain_cons (by decide) (chain_end (by decide) ha)) fun x hx y hy h => ?_
    rw [hinit, List.getLast?_append, List.getLast?_singleton, Option.some_or] at hx
    exact hfinal (Option.some.inj hx ▸ h.1)
  | operand o ih => exact ih hscanned hconfined
  | unary operator argument ih =>
    have h := ih (fun l hl => hscanned l (by simp [lexemes, hl])) hconfined
    exact chain_cons (fun htext => operator.isPlain (by simp [htext])) h
  | binary left operator right ihl ihr =>
    have hl := ihl (fun l hl => hscanned l (by simp [lexemes, hl])) hconfined.1
    have hr := ihr (fun l hl => hscanned l (by simp [lexemes, hl])) hconfined.2
    exact chain_append (chain_plain operator.isPlain hr) hl (operator.head_ne _)
  | ternary value condition otherwise ihv ihc iho =>
    obtain ⟨hvalue, hcondition, hotherwise⟩ := hconfined
    have hv := ihv (fun l hl => hscanned l (by simp [lexemes, hl])) hvalue
    have hc := ihc (fun l hl => hscanned l (by simp [lexemes, hl])) hcondition
    have ho := iho (fun l hl => hscanned l (by simp [lexemes, hl])) hotherwise
    refine chain_append (chain_cons (by decide) ?_) hv (by simp [word])
    exact chain_append (chain_cons (by decide) ho) hc (by simp [word])
  | assignment target operator value _ _ => exact hconfined.elim
  | none => exact List.isChain_nil
  | last element ih => exact ih hscanned hconfined
  | more element rest ihe ihr =>
    have he := ihe (fun l hl => hscanned l (by simp [lexemes, hl])) hconfined.1
    have hr := ihr (fun l hl => hscanned l (by simp [lexemes, hl])) hconfined.2
    exact chain_mark (by decide) (by decide) he hr
  | noEntry => exact List.isChain_nil
  | lastEntry key value ihk ihv =>
    have hk := ihk (fun l hl => hscanned l (by simp [lexemes, hl])) hconfined.1
    have hv := ihv (fun l hl => hscanned l (by simp [lexemes, hl])) hconfined.2
    exact chain_mark (by decide) (by decide) hk hv
  | moreEntries key value rest ihk ihv ihr =>
    obtain ⟨hkey, hvalue, hrest⟩ := hconfined
    have hk := ihk (fun l hl => hscanned l (by simp [lexemes, hl])) hkey
    have hv := ihv (fun l hl => hscanned l (by simp [lexemes, hl])) hvalue
    have hr := ihr (fun l hl => hscanned l (by simp [lexemes, hl])) hrest
    exact chain_mark (by decide) (by decide) hk (chain_mark (by decide) (by decide) hv hr)

/-- No bracket opens right after a brace that closes. -/
def NoBraceCalled (tokens : List Token) : Prop := (tokens.map Token.toLexeme).IsChain NotAfterBrace

/-- A valid source that is the tree of an expression reads and calls nothing beyond the list, unless a dictionary is
called in it. -/
theorem confined_iff {source : Text} {tokens : List Token} {tree : Phrase .expression}
    (hvalid : validate source = .ok ()) (hscan : scanExpression source = .ok tokens) (hparse : Parses tokens tree) :
    tree.Confined false ↔ NoBraceCalled tokens := by
  have hscanned : ∀ l ∈ tree.lexemes, l.Scanned := by
    intro l hl
    rw [← hparse] at hl
    obtain ⟨token, htoken, rfl⟩ := List.mem_map.mp hl
    exact scanned_of_scanExpression hscan token htoken
  unfold NoBraceCalled
  rw [hparse]
  constructor
  · exact isChain_of_confined tree hscanned
  · intro hbraces
    obtain ⟨u, -, hrest⟩ := Except.bind_eq_ok.mp hvalid
    obtain ⟨found, hfound, hrest⟩ := Except.bind_eq_ok.mp hrest
    obtain rfl : tokens = found := Except.ok.inj (hscan.symm.trans hfound)
    obtain ⟨v, htokens, -⟩ := Except.bind_eq_ok.mp hrest
    rw [hparse] at htokens
    exact @confined_of _ (checked_of_validateTokens htokens) hscanned hbraces _ tree [] [] false (by simp)
      startsOperand_nil (.inr nofun)

/-! ## Two sources -/

/-- The tokens of a source, none where it is refused. -/
def tokensOf (source : Text) : List Token := (scanExpression source).toOption.getD []

theorem scanExpression_tokensOf {source : Text} (h : (scanExpression source).isOk = true) :
    scanExpression source = .ok (tokensOf source) := by
  unfold tokensOf
  cases hscan : scanExpression source with
  | error e => simp [hscan, Except.isOk, Except.toBool] at h
  | ok tokens => rfl

theorem validate_of_isOk {source : Text} (h : (validate source).isOk = true) : validate source = .ok () := by
  cases hvalid : validate source with
  | error e => simp [hvalid, Except.isOk, Except.toBool] at h
  | ok u => rfl

def componentRead : Text := "node.get('position').x".toList

def componentReadTree : Phrase .expression :=
  .operand (.member (.call (.member (.name ⟨"node", by decide⟩) "get")
    (.last (.operand (.string none "'position'")))) "x")

theorem confined_componentRead : componentReadTree.Confined false ↔ NoBraceCalled (tokensOf componentRead) :=
  confined_iff (validate_of_isOk (by decide +kernel)) (scanExpression_tokensOf (by decide +kernel))
    (show _ = _ by decide +kernel)

def braceCalled : Text := "\x7b\x7d(1)".toList

def braceCalledTree : Phrase .expression :=
  .operand (.call (.dictionary .noEntry) (.last (.operand (.number "1"))))

/-- A dictionary is called, and the policy accepts it. -/
theorem braceCalled_accepted : validate braceCalled = .ok () ∧
    scanExpression braceCalled = .ok (tokensOf braceCalled) ∧ Parses (tokensOf braceCalled) braceCalledTree ∧
      ¬ braceCalledTree.Confined false :=
  ⟨validate_of_isOk (by decide +kernel), scanExpression_tokensOf (by decide +kernel),
    show _ = _ by decide +kernel, fun h => h.1.elim⟩

end Didi.Expression
