import Didi.Script.Repeat

/-!
# The same patch again

* `Repeats` : the same patch of a text changes nothing more, or is refused because the definition declares the symbol
  twice;
* `Replaceable`, `Creatable` : a script and a definition that a patch can be repeated on;
* `repeats_of_lasting` : the same patch of a patched script changes nothing more there.
-/

namespace Didi.Script
open Didi.Config

/-! ## The second answer -/

/-- A patch is refused when several lines declare the symbol. -/
def ambiguous (lines : List Text) (symbolName : Text) (found : List Nat) : Error :=
  let scopes := found.map fun i => scopeOf lines i ++ " (line " ++ toString (i + 1) ++ ")"
  .invalidArgument ("'" ++ String.ofList symbolName ++ "' is declared " ++ toString found.length ++
    " times in this script: " ++ ", ".intercalate scopes ++ ". Refusing to guess which one to patch.")

/-- How many lines of a definition declare the symbol. -/
def declarations (symbolName : Text) (kind : SymbolKind) (newDefinition : Text) : Nat :=
  (newDefinition.splitOn '\n').countP (declaresHere symbolName kind)

/-- The same patch of a patched text leaves it as it is, or is refused as ambiguous because the definition declares the
symbol twice. -/
def Repeats (symbolName newDefinition : Text) (symbolType : String) (createIfMissing : Bool) (text : Text) : Prop :=
  match patchSymbol text symbolName newDefinition symbolType createIfMissing with
  | .ok again => again.sourceText = text
  | .error e => ∃ kind found, symbolTypes.lookup symbolType = some kind ∧ 2 ≤ found.length ∧
      e = ambiguous (text.splitOn '\n') symbolName found ∧ 2 ≤ declarations symbolName kind newDefinition

variable {symbolName newDefinition : Text} {symbolType : String} {createIfMissing : Bool} {kind : SymbolKind} {text : Text}
  (hvalid : validatePatchArguments symbolName newDefinition symbolType = .ok kind)

section
include hvalid

theorem repeats_of_one {i : Nat} (hfound : findDeclarationLines (text.splitOn '\n') symbolName kind = [i])
    (hsame : (replaceAt (text.splitOn '\n') i newDefinition).sourceText = text) :
    Repeats symbolName newDefinition symbolType createIfMissing text := by
  have hpatch : patchSymbol text symbolName newDefinition symbolType createIfMissing =
      .ok (replaceAt (text.splitOn '\n') i newDefinition) := by
    unfold patchSymbol
    rw [hvalid]
    simp only [bind, Except.bind]
    rw [hfound]
  unfold Repeats
  rw [hpatch]
  exact hsame

theorem repeats_of_more (hfound : 2 ≤ (findDeclarationLines (text.splitOn '\n') symbolName kind).length)
    (htwice : 2 ≤ declarations symbolName kind newDefinition) :
    Repeats symbolName newDefinition symbolType createIfMissing text := by
  have hpatch : patchSymbol text symbolName newDefinition symbolType createIfMissing =
      .error (ambiguous (text.splitOn '\n') symbolName (findDeclarationLines (text.splitOn '\n') symbolName kind)) := by
    unfold patchSymbol
    rw [hvalid]
    simp only [bind, Except.bind]
    match hlines : findDeclarationLines (text.splitOn '\n') symbolName kind with
    | [] =>
      rw [hlines] at hfound
      cases hfound
    | [i] =>
      rw [hlines, List.length_singleton] at hfound
      omega
    | i :: j :: rest => rfl
  unfold Repeats
  rw [hpatch]
  exact ⟨kind, _, lookup_of_validate hvalid, hfound, rfl, htwice⟩

end

/-! ## A definition that stays -/

section
variable (symbolName newDefinition kind)

/-- Of a script with the definition in its place, several lines are found, and the definition declares the symbol twice. -/
def Twice (above lines below : List Text) : Prop :=
  2 ≤ (findDeclarationLines (above ++ lines ++ below) symbolName kind).length ∧
    2 ≤ declarations symbolName kind newDefinition

/-- A definition stays as it is written: in its place one line is found, the declaration in its line `k`, and it is one
block at the indentation that it is written at, with nothing deeper below. -/
structure Stays (above lines below : List Text) (k : Nat) : Prop where
  found : findDeclarationLines (above ++ lines ++ below) symbolName kind = [above.length + k]
  block : OneBlock lines below k
  begins : BeginsAt (getIndentLevel (lines.getD k [])) below
  indent : linesAt newDefinition (indentOf (lines.getD k [])) = lines

/-- Where the declaration in line `i` is replaced, the lines that stay above it and below. -/
def linesOver (lines : List Text) (i : Nat) : List Text := lines.take (i - spanAbove lines i)

def linesUnder (lines : List Text) (i : Nat) : List Text := lines.drop (i + spanBelow lines i + 1)

/-- A declaration can be replaced again and again. -/
def Replaceable (lines : List Text) (i : Nat) : Prop :=
  let written := linesAt newDefinition (indentOf (lines.getD i []))
  Twice symbolName newDefinition kind (linesOver lines i) written (linesUnder lines i) ∨
    ∃ k, Stays symbolName newDefinition kind (linesOver lines i) written (linesUnder lines i) k

/-- Where a definition that is added is put, and whether it is put beside a member. -/
inductive PutBefore (lines : List Text) : Nat → Bool → Prop
  | last (hkind : kind = .function ∨ kind = .klass) : PutBefore lines lines.length false
  | header {n : Nat} (hkind : ¬ (kind = .function ∨ kind = .klass)) (hends : HeaderEnds lines n)
      (hnone : ∀ line ∈ lines.drop n, isMember kind line = false) :
      PutBefore lines (n + docLength (lines.drop n)) false
  | beside {n m v : Nat} (hkind : ¬ (kind = .function ∨ kind = .klass)) (hends : HeaderEnds lines n)
      (hbeside : Beside lines newDefinition kind n m) (hvalue : ValueEnds {} (lines.drop m) v) :
      PutBefore lines (m + v + 1) true

/-- The lines of a definition that is added. Beside a member it is written without the newlines at its end. -/
def createdLines (beside : Bool) : List Text :=
  (if beside = true then newDefinition.rdropWhile isLineEnd else dropNewline newDefinition).splitOn '\n'

/-- A symbol can be created, and its definition patched again and again. Beside a member, the line above does not go with
it. -/
def Creatable (lines : List Text) : Prop :=
  ∃ p beside, PutBefore newDefinition kind lines p beside ∧
    (Twice symbolName newDefinition kind (lines.take p) (createdLines newDefinition beside) (lines.drop p) ∨
      ∃ k, Stays symbolName newDefinition kind (lines.take p) (createdLines newDefinition beside) (lines.drop p) k ∧
        (beside = true → ∀ line ∈ (lines.take p).getLast?, isPreamble line = false))

end

/-! ## The parts again -/

/-- Blank lines below a definition are no part of it. -/
theorem OneBlock.orEmpty {lines below after : List Text} {k : Nat} (h : OneBlock lines below k)
    (hafter : ∀ line ∈ after, line = []) : OneBlock lines (after ++ Script.orEmpty below) k := by
  refine ⟨h.lt, h.preamble, h.block, h.closed.imp_right fun hblank line hline => ?_⟩
  rcases List.mem_append.mp hline with hline | hline
  · rw [hafter line hline]
    rfl
  · unfold Script.orEmpty at hline
    split at hline
    · rw [List.mem_singleton.mp hline]
      rfl
    · exact hblank line hline

theorem beginsAt_orEmpty {base : Nat} {below after : List Text} (h : BeginsAt base below)
    (hafter : ∀ line ∈ after, line = []) : BeginsAt base (after ++ orEmpty below) := by
  unfold BeginsAt
  rw [List.find?_append, List.find?_eq_none.mpr fun line hline => by rw [hafter line hline]; decide, Option.none_or]
  unfold orEmpty
  split
  · intro line hline
    cases hline
  · exact h

theorem declaresHere_orEmpty {below : List Text} (h : ∀ line ∈ below, declaresHere symbolName kind line = false) :
    ∀ line ∈ orEmpty below, declaresHere symbolName kind line = false := by
  unfold orEmpty
  split
  · intro line hline
    rw [List.mem_singleton.mp hline]
    exact declaresHere_blank symbolName kind rfl
  · exact h

theorem newline_notMem_parts {other : Text} {above below after : List Text}
    (habove : ∀ line ∈ above, line ∈ text.splitOn '\n' ∨ line = [])
    (hbelow : ∀ line ∈ below, line ∈ text.splitOn '\n' ∨ line = []) (hafter : ∀ line ∈ after, line = []) :
    ∀ line ∈ above ++ other.splitOn '\n' ++ (after ++ orEmpty below), '\n' ∉ line := by
  have hempty : ∀ line : Text, line ∈ text.splitOn '\n' ∨ line = [] → '\n' ∉ line := by
    rintro line (hline | rfl)
    · exact List.not_mem_of_mem_splitOn hline
    · exact List.not_mem_nil
  intro line hline
  rcases List.mem_append.mp hline with hline | hline
  · rcases List.mem_append.mp hline with hline | hline
    · exact hempty line (habove line hline)
    · exact List.not_mem_of_mem_splitOn hline
  · rcases List.mem_append.mp hline with hline | hline
    · exact hempty line (.inr (hafter line hline))
    · unfold orEmpty at hline
      split at hline
      · exact hempty line (.inr (List.mem_singleton.mp hline))
      · exact hempty line (hbelow line hline)

section
include hvalid

/-- A text of three parts is patched again in the part that was written. -/
theorem repeats_parts {above lines below : List Text} (hnewline : ∀ line ∈ above ++ lines ++ below, '\n' ∉ line)
    (hne : below ≠ [])
    (h : Twice symbolName newDefinition kind above lines below ∨
      ∃ k, Stays symbolName newDefinition kind above lines below k ∧
      ∀ line ∈ above.getLast?, isPreamble line = false) :
    Repeats symbolName newDefinition symbolType createIfMissing (joinLines (above ++ lines ++ below)) := by
  have hsplit : (joinLines (above ++ lines ++ below)).splitOn '\n' = above ++ lines ++ below :=
    List.splitOn_intercalate '\n' hnewline (List.append_ne_nil_of_right_ne_nil _ hne)
  rcases h with ⟨hmore, htwice⟩ | ⟨k, hstays, hlast⟩
  · exact repeats_of_more hvalid (by rwa [hsplit]) htwice
  · refine repeats_of_one (i := above.length + k) hvalid ?_ ?_
    · rw [hsplit]
      exact hstays.found
    · rw [hsplit]
      exact replaceAt_parts hstays.block hstays.begins hne hlast hstays.indent

end

/-! ## A declaration that was replaced -/

theorem blockLength_le (base : Nat) (lines : List Text) (state : BlockState) :
    blockLength base state lines ≤ lines.length := by
  have hmore : ∀ (own : Bool) {more n : Nat}, more ≤ n → withMore own more ≤ n + 1 := by
    intro own more n hle
    unfold withMore
    split <;> omega
  induction lines generalizing state with
  | nil => exact Nat.le_refl 0
  | cons line lines ih =>
    rw [blockLength, List.length_cons]
    split
    · exact hmore _ (ih state)
    · split
      · exact Nat.zero_le _
      · exact hmore _ (ih _)

theorem spanAbove_le (lines : List Text) (i : Nat) : spanAbove lines i ≤ i := by
  refine (List.takeWhile_sublist _).length_le.trans ?_
  rw [List.length_reverse]
  exact List.length_take_le _ _

section Parts
variable {lines : List Text} {i : Nat} (hi : i < lines.length)
include hi

theorem spanBelow_lt : i + spanBelow lines i < lines.length := by
  have hle := blockLength_le (getIndentLevel (lines.getD i [])) (lines.drop (i + 1))
    (BlockState.countBrackets {} (lines.getD i []))
  rw [List.length_drop] at hle
  unfold spanBelow
  omega

theorem length_linesOver : (linesOver lines i).length = i - spanAbove lines i := by
  unfold linesOver
  rw [List.length_take]
  omega

/-- What a patch writes in the place of the lines it takes. -/
theorem replaceAt_text (newDefinition : Text) : (replaceAt lines i newDefinition).sourceText =
    joinLines (linesOver lines i ++ linesAt newDefinition (indentOf (lines.getD i [])) ++
      orEmpty (linesUnder lines i)) := by
  have hlt := spanBelow_lt hi
  have hle := spanAbove_le lines i
  have hover : (linesOver lines i).length = i - spanAbove lines i := length_linesOver hi
  have hparts : linesOver lines i ++ ((lines.take (i + spanBelow lines i + 1)).drop (i - spanAbove lines i)) ++
      linesUnder lines i = lines := by
    have htake : lines.take (i - spanAbove lines i) =
        (lines.take (i + spanBelow lines i + 1)).take (i - spanAbove lines i) := by
      rw [List.take_take, Nat.min_eq_left (by omega)]
    unfold linesOver linesUnder
    rw [htake, List.take_append_drop, List.take_append_drop]
  have hreplaced := replacedText_parts (linesOver lines i)
    ((lines.take (i + spanBelow lines i + 1)).drop (i - spanAbove lines i)) (linesUnder lines i) newDefinition
    (indentOf (lines.getD i []))
  have hend : i - spanAbove lines i + (i + spanBelow lines i + 1 - (i - spanAbove lines i)) =
      i + spanBelow lines i + 1 := by
    omega
  rwa [hparts, hover, List.length_drop, List.length_take_of_le hlt, hend, ← replaceAt_eq] at hreplaced

/-- The line above what a patch takes does not go with it. -/
theorem not_isPreamble_linesOver : ∀ line ∈ (linesOver lines i).getLast?, isPreamble line = false := by
  intro line hline
  have hle := spanAbove_le lines i
  have hover : linesOver lines i = (((lines.take i).reverse).dropWhile isPreamble).reverse := by
    have hdrop : ((lines.take i).reverse).dropWhile isPreamble = ((lines.take i).reverse).drop (spanAbove lines i) := by
      have hleft := @List.drop_left _ ((lines.take i).reverse.takeWhile isPreamble)
        ((lines.take i).reverse.dropWhile isPreamble)
      rw [List.takeWhile_append_dropWhile] at hleft
      exact hleft.symm
    unfold linesOver
    rw [hdrop, List.drop_reverse, List.reverse_reverse, List.length_take_of_le hi.le, List.take_take]
    congr 1
    omega
  rw [hover, List.getLast?_reverse] at hline
  have hnot := List.head?_dropWhile_not isPreamble (lines.take i).reverse
  rw [Option.mem_def.mp hline] at hnot
  simpa using hnot

end Parts

section
include hvalid

/-- A declaration that was replaced is replaced by the same lines. -/
theorem repeats_replaced {sourceText : Text} {i : Nat}
    (hfound : findDeclarationLines (sourceText.splitOn '\n') symbolName kind = [i])
    (h : Replaceable symbolName newDefinition kind (sourceText.splitOn '\n') i) :
    Repeats symbolName newDefinition symbolType createIfMissing
      (replaceAt (sourceText.splitOn '\n') i newDefinition).sourceText := by
  have hi : i < (sourceText.splitOn '\n').length := lt_of_mem_findDeclarationLines (hfound ▸ List.mem_singleton_self i)
  rw [replaceAt_text hi]
  refine repeats_parts hvalid (@newline_notMem_parts sourceText _ _ (linesUnder (sourceText.splitOn '\n') i) []
    (fun line hline => .inl (List.mem_of_mem_take hline)) (fun line hline => .inl (List.mem_of_mem_drop hline))
    fun line hline => absurd hline List.not_mem_nil) (orEmpty_ne _) ?_
  have hblank : ∀ line ∈ ([] : List Text), line = [] := fun line hline => absurd hline List.not_mem_nil
  rcases h with ⟨hmore, htwice⟩ | ⟨k, hstays⟩
  · exact .inl ⟨by rwa [findDeclarationLines_orEmpty], htwice⟩
  · refine .inr ⟨k, ⟨?_, hstays.block.orEmpty hblank, beginsAt_orEmpty hstays.begins hblank, hstays.indent⟩,
      not_isPreamble_linesOver hi⟩
    rw [findDeclarationLines_orEmpty]
    exact hstays.found

end

/-! ## A symbol that was created -/

theorem endLines_splitOn (text : Text) : endLines (text.splitOn '\n') = text ++ ['\n'] := by
  have happend := joinLines_append (text.splitOn '\n') (List.cons_ne_nil ([] : Text) [])
  rw [joinLines_splitOn_append] at happend
  simpa [joinLines] using happend.symm

/-- The empty line after a last newline. -/
def afterBody (newDefinition : Text) : List Text := if newDefinition.getLast? = some '\n' then [[]] else []

theorem splitOn_dropNewline (newDefinition : Text) :
    newDefinition.splitOn '\n' = (dropNewline newDefinition).splitOn '\n' ++ afterBody newDefinition := by
  unfold dropNewline afterBody
  split
  · rename_i hlast
    conv_lhs => rw [← List.dropLast_append_getLast? _ hlast, List.splitOn_append_cons_self]
    rfl
  · exact (List.append_nil _).symm

theorem eq_nil_of_mem_afterBody : ∀ line ∈ afterBody newDefinition, line = [] := by
  unfold afterBody
  split
  · exact fun line hline => List.mem_singleton.mp hline
  · exact fun line hline => absurd hline List.not_mem_nil

/-- The text of a symbol that is added at the end. -/
theorem createdText_last {sourceText : Text} (hkind : kind = .function ∨ kind = .klass) :
    ∃ before : List Text, (∀ line ∈ before, line = []) ∧
      (∀ line ∈ (sourceText.splitOn '\n' ++ before).getLast?, line = []) ∧
      createdText sourceText newDefinition kind = joinLines (sourceText.splitOn '\n' ++ before ++
        (dropNewline newDefinition).splitOn '\n' ++ (afterBody newDefinition ++ orEmpty [])) := by
  have htext : ∀ before : List Text, joinLines (sourceText.splitOn '\n' ++ before ++
      (dropNewline newDefinition).splitOn '\n' ++ (afterBody newDefinition ++ orEmpty [])) =
        endLines (sourceText.splitOn '\n' ++ before) ++ newDefinition ++ ['\n'] := by
    intro before
    rw [← List.append_assoc, List.append_assoc _ _ (afterBody newDefinition), ← splitOn_dropNewline, joinLines_around,
      newline_orEmpty]
    rfl
  unfold createdText
  dsimp only
  rw [if_pos hkind]
  by_cases hlast : sourceText.getLast? = some '\n'
  · refine ⟨[], fun line hline => absurd hline List.not_mem_nil, ?_, ?_⟩
    · have hbody := splitOn_dropNewline sourceText
      unfold afterBody at hbody
      rw [if_pos hlast] at hbody
      rw [List.append_nil, hbody, List.getLast?_concat]
      exact fun line hline => (Option.some.inj hline).symm
    · rw [htext, List.append_nil, endLines_splitOn, if_pos hlast]
      simp
  · refine ⟨[[]], fun line hline => List.mem_singleton.mp hline, ?_, ?_⟩
    · rw [List.getLast?_concat]
      exact fun line hline => (Option.some.inj hline).symm
    · have hend : endLines (sourceText.splitOn '\n' ++ [[]]) = sourceText ++ ['\n'] ++ ['\n'] := by
        rw [← endLines_splitOn sourceText]
        simp [endLines]
      rw [htext, if_neg hlast, hend]
      simp

/-- Blank lines above change nothing of what is found. -/
theorem foundBelow_blank (symbolName : Text) (kind : SymbolKind) (above : List Text) {before : List Text}
    (hbefore : ∀ line ∈ before, line = []) (lines : List Text) :
    foundBelow symbolName kind (above ++ before).reverse lines = foundBelow symbolName kind above.reverse lines := by
  have hagree : Agree (above ++ before).reverse above.reverse := by
    rw [List.reverse_append]
    refine agree_blank (fun line hline => ?_) _
    rw [hbefore line (List.mem_reverse.mp hline)]
    rfl
  unfold foundBelow
  rw [matchesFrom_agree symbolName kind hagree]

section
include hvalid

/-- A definition between two parts of a script that declares no such symbol stays there. -/
theorem repeats_between {sourceText : Text}
    (hnone : ∀ line ∈ sourceText.splitOn '\n', declaresHere symbolName kind line = false)
    {above below before after : List Text}
    {body : Text} (habove : ∀ line ∈ above, line ∈ sourceText.splitOn '\n')
    (hbelow : ∀ line ∈ below, line ∈ sourceText.splitOn '\n') (hbefore : ∀ line ∈ before, line = [])
    (hafter : ∀ line ∈ after, line = [])
    (h : Twice symbolName newDefinition kind above (body.splitOn '\n') below ∨
      ∃ k, Stays symbolName newDefinition kind above (body.splitOn '\n') below k ∧
        ∀ line ∈ (above ++ before).getLast?, isPreamble line = false) :
    Repeats symbolName newDefinition symbolType createIfMissing
      (joinLines (above ++ before ++ body.splitOn '\n' ++ (after ++ orEmpty below))) := by
  have hblank : ∀ blank : List Text, (∀ line ∈ blank, line = []) →
      ∀ line ∈ blank, declaresHere symbolName kind line = false := by
    intro blank hblank line hline
    rw [hblank line hline]
    exact declaresHere_blank symbolName kind rfl
  have hlines := @findDeclarationLines_alone symbolName kind above (body.splitOn '\n') below
    (fun line hline => hnone line (habove line hline)) fun line hline => hnone line (hbelow line hline)
  have hfound : findDeclarationLines (above ++ before ++ body.splitOn '\n' ++ (after ++ orEmpty below)) symbolName kind =
      (foundBelow symbolName kind above.reverse (body.splitOn '\n')).map ((above ++ before).length + ·) := by
    rw [← foundBelow_blank symbolName kind above hbefore]
    refine findDeclarationLines_alone symbolName kind ?_ ?_
    · intro line hline
      rcases List.mem_append.mp hline with hline | hline
      · exact hnone line (habove line hline)
      · exact hblank before hbefore line hline
    · intro line hline
      rcases List.mem_append.mp hline with hline | hline
      · exact hblank after hafter line hline
      · exact declaresHere_orEmpty (fun line hline => hnone line (hbelow line hline)) line hline
  refine repeats_parts hvalid (@newline_notMem_parts sourceText body _ _ _ ?_ (fun line hline => .inl (hbelow line hline))
    hafter) (List.append_ne_nil_of_right_ne_nil _ (orEmpty_ne below)) ?_
  · intro line hline
    exact (List.mem_append.mp hline).imp (habove line) (hbefore line)
  · rcases h with ⟨hmore, htwice⟩ | ⟨k, hstays, hlast⟩
    · refine .inl ⟨?_, htwice⟩
      rw [hlines, List.length_map] at hmore
      rwa [hfound, List.length_map]
    · refine .inr ⟨k, ⟨?_, hstays.block.orEmpty hafter, beginsAt_orEmpty hstays.begins hafter, hstays.indent⟩, hlast⟩
      have hone : foundBelow symbolName kind above.reverse (body.splitOn '\n') = [k] :=
        List.map_injective_iff.mpr (fun _ _ h => Nat.add_left_cancel h) (hlines.symm.trans hstays.found)
      rw [hfound, hone]
      rfl

/-- A symbol that was created is replaced by the same lines. -/
theorem repeats_created {sourceText : Text} (hfound : findDeclarationLines (sourceText.splitOn '\n') symbolName kind = [])
    (h : Creatable symbolName newDefinition kind (sourceText.splitOn '\n')) :
    Repeats symbolName newDefinition symbolType createIfMissing (createdText sourceText newDefinition kind) := by
  have hnone : ∀ line ∈ sourceText.splitOn '\n', declaresHere symbolName kind line = false := by
    refine (matchesFrom_eq_nil_iff symbolName kind [] 0 _).mp ?_
    unfold findDeclarationLines at hfound
    dsimp only at hfound
    split at hfound
    · exact List.map_eq_nil_iff.mp hfound
    · rename_i hmembers
      exact absurd (List.map_eq_nil_iff.mp hfound) hmembers
  have htake : ∀ p, ∀ line ∈ (sourceText.splitOn '\n').take p, line ∈ sourceText.splitOn '\n' :=
    fun p line hline => List.mem_of_mem_take hline
  have hdrop : ∀ p, ∀ line ∈ (sourceText.splitOn '\n').drop p, line ∈ sourceText.splitOn '\n' :=
    fun p line hline => List.mem_of_mem_drop hline
  have hempty : isPreamble [] = false := rfl
  obtain ⟨p, beside, hput, h⟩ := h
  cases hput with
  | last hkind =>
    rw [List.take_length, List.drop_length] at h
    obtain ⟨before, hbefore, hlast, htext⟩ := @createdText_last newDefinition kind sourceText hkind
    rw [htext]
    refine repeats_between hvalid hnone (fun line hline => hline) (fun line hline => absurd hline List.not_mem_nil) hbefore
      eq_nil_of_mem_afterBody (h.imp_right ?_)
    rintro ⟨k, hstays, -⟩
    refine ⟨k, hstays, fun line hline => ?_⟩
    rw [hlast line hline, hempty]
  | header hkind hends hnot =>
    obtain rfl := headerEnds_iff.mp hends
    have hbeside : besideOf (sourceText.splitOn '\n') newDefinition kind = none := by
      rcases besideOf_spec (sourceText.splitOn '\n') newDefinition kind with ⟨m, hm, -⟩ | ⟨-, hnone⟩
      · obtain ⟨line, hline, hp⟩ := hm.isMember
        rw [hnot line hline] at hp
        cases hp
      · exact hnone
    rw [createdText_header hkind hbeside, splitOn_dropNewline newDefinition, ← List.append_assoc,
      List.append_assoc _ _ (orEmpty _),
      insertPosition_eq]
    refine repeats_between hvalid hnone (htake _) (hdrop _) (fun line hline => List.mem_singleton.mp hline)
      eq_nil_of_mem_afterBody (h.imp_right ?_)
    rintro ⟨k, hstays, -⟩
    refine ⟨k, hstays, fun line hline => ?_⟩
    rw [List.getLast?_concat] at hline
    rw [← Option.some.inj hline, hempty]
  | @beside n m v hkind hends hm hvalue =>
    obtain rfl := headerEnds_iff.mp hends
    have hbeside : besideOf (sourceText.splitOn '\n') newDefinition kind = some (m + v) := by
      rcases besideOf_spec (sourceText.splitOn '\n') newDefinition kind with ⟨m', hm', hspec⟩ | ⟨hnot, -⟩
      · obtain rfl := hm.unique hm'
        have hne : (sourceText.splitOn '\n').drop m ≠ [] := by
          rw [Ne, List.drop_eq_nil_iff]
          exact Nat.not_le.mpr hm.lt
        rw [hspec, hvalue.unique (valueEnds_valueLength {} hne)]
      · obtain ⟨line, hline, hp⟩ := hm.isMember
        rw [hnot line hline] at hp
        cases hp
    rw [createdText_beside hkind hbeside]
    have hrepeats := @repeats_between symbolName newDefinition symbolType createIfMissing kind hvalid sourceText hnone
      ((sourceText.splitOn '\n').take (m + v + 1)) ((sourceText.splitOn '\n').drop (m + v + 1)) [] []
      (newDefinition.rdropWhile isLineEnd) (htake _) (hdrop _) (fun line hline => absurd hline List.not_mem_nil)
      (fun line hline => absurd hline List.not_mem_nil)
    rw [List.append_nil, List.nil_append] at hrepeats
    exact hrepeats (h.imp_right fun ⟨k, hstays, hlast⟩ => ⟨k, hstays, hlast rfl⟩)

end

/-! ## The patch -/

/-- A patch leaves a text that the same patch leaves as it is, where the declaration it replaces is replaceable and the
symbol it creates is creatable. -/
def Lasting (symbolName newDefinition : Text) (kind : SymbolKind) (lines : List Text) : Prop :=
  match findDeclarationLines lines symbolName kind with
  | [] => Creatable symbolName newDefinition kind lines
  | i :: _ => Replaceable symbolName newDefinition kind lines i

/-- **The same patch of a patched script changes nothing more, or is refused as ambiguous because the definition declares
the symbol twice, where the patch is lasting.** -/
theorem repeats_of_lasting {sourceText symbolName newDefinition : Text} {symbolType : String} {createIfMissing : Bool}
    {patched : SymbolPatch} {kind : SymbolKind}
    (h : patchSymbol sourceText symbolName newDefinition symbolType createIfMissing = .ok patched)
    (hkind : symbolTypes.lookup symbolType = some kind)
    (hlasting : Lasting symbolName newDefinition kind (sourceText.splitOn '\n')) :
    Repeats symbolName newDefinition symbolType createIfMissing patched.sourceText := by
  have hvalid : validatePatchArguments symbolName newDefinition symbolType = .ok kind := by
    cases hvalid : validatePatchArguments symbolName newDefinition symbolType with
    | error e =>
      unfold patchSymbol at h
      rw [hvalid] at h
      cases h
    | ok found => rw [Option.some.inj (hkind.symm.trans (lookup_of_validate hvalid))]
  unfold Lasting at hlasting
  cases hcreated : patched.created with
  | true =>
    obtain ⟨found, hfound, hnone, htext⟩ := patchSymbol_created h hcreated
    obtain rfl : kind = found := Option.some.inj (hkind.symm.trans hfound)
    rw [hnone] at hlasting
    rw [htext]
    exact repeats_created hvalid hnone hlasting
  | false =>
    obtain ⟨found, i, hfound, hone, rfl⟩ := patchSymbol_replaced h hcreated
    obtain rfl : kind = found := Option.some.inj (hkind.symm.trans hfound)
    rw [hone] at hlasting
    exact repeats_replaced hvalid hone hlasting

/-- Two functions, of which the first is patched. -/
def runThenStop : Text := "func run():\n\tstep()\n\nfunc stop():\n\tpass".toList

theorem repeats_of_lasting_run :
    Repeats "run".toList newRun "function" false "func run():\n\tpass\n\nfunc stop():\n\tpass".toList := by
  refine @repeats_of_lasting runThenStop "run".toList newRun "function" false
    ⟨"func run():\n\tpass\n\nfunc stop():\n\tpass".toList, false, 1, 2⟩ .function rfl rfl ?_
  have hfound : findDeclarationLines (runThenStop.splitOn '\n') "run".toList .function = [0] := by decide
  unfold Lasting
  rw [hfound]
  refine .inr ⟨0, ⟨by decide, ⟨by decide, ?_, by decide, .inl (by decide)⟩, ?_, by decide⟩⟩
  · exact fun line hline => absurd hline List.not_mem_nil
  · intro line hline
    obtain rfl : "func stop():".toList = line := Option.some.inj hline
    decide

/-- A blank line at the end of the definition is added each time. -/
theorem not_repeats : ¬ ∀ (sourceText symbolName newDefinition : Text) (symbolType : String) (createIfMissing : Bool)
    (patched : SymbolPatch),
    patchSymbol sourceText symbolName newDefinition symbolType createIfMissing = .ok patched →
      Repeats symbolName newDefinition symbolType createIfMissing patched.sourceText := by
  intro h
  have hrepeats := h "func run():\n\tstep()".toList "run".toList "func run():\n\tpass\n\n".toList "function" false
    ⟨"func run():\n\tpass\n\n".toList, false, 1, 2⟩ rfl
  have hagain :
      patchSymbol "func run():\n\tpass\n\n".toList "run".toList "func run():\n\tpass\n\n".toList "function" false =
        .ok ⟨"func run():\n\tpass\n\n\n".toList, false, 1, 2⟩ := rfl
  unfold Repeats at hrepeats
  rw [hagain] at hrepeats
  revert hrepeats
  decide

end Didi.Script
