import Didi.Setup.Blocks

/-!
# A block that is written again

* `Target`, `Target.after` : the two blocks, and the bytes of a file after one is written;
* `OneBlock` : lines that hold one well-formed block;
* `after_eq` : the block is left as it is, or the lines of the file are written with the new one;
* `rewrite_iff` : which bytes around the block stay as they are.
-/

namespace Didi.Setup
open Didi.Config

/-- A block that setup writes. -/
inductive Target
  | guide
  | codex (command : Text) (args : List Text)

namespace Target

def begin : Target → Text
  | guide => kGuideBegin.toList
  | codex _ _ => kTomlBegin.toList

def last : Target → Text
  | guide => kGuideEnd.toList
  | codex _ _ => kTomlEnd.toList

def block : Target → List Text
  | guide => agentGuideBlock
  | codex command args => tomlBlock command args

/-- The line outside the block that declares the same server. -/
def foreign : Target → List Text → Option Nat
  | guide, _ => none
  | codex _ _, text => (findTomlBlock text).foreign

/-- What is written in the file, if anything is. -/
def write (path : String) (contents : Option Text) : Target → Except String (Option Text)
  | guide => (writeAgentGuide path contents).map (·.2)
  | codex command args => (writeTomlConfig path contents command args).map (·.2)

/-- The bytes of the file after the call. -/
def after (target : Target) (path : String) (contents : Text) : Text :=
  match target.write path (some contents) with
  | .ok (some text) => text
  | _ => contents

/-- A line that begins and ends no block. -/
def Plain (target : Target) (line : Text) : Prop := stringsTrim line ≠ target.begin ∧ stringsTrim line ≠ target.last

end Target

/-- The lines hold one block, which is well formed. -/
structure OneBlock (target : Target) (text before current after : List Text) : Prop where
  eq : text = before ++ current ++ after
  block : ∃ first inside final, current = first :: (inside ++ [final]) ∧ stringsTrim first = target.begin ∧
    stringsTrim final = target.last ∧ ∀ line ∈ inside, target.Plain line
  around : ∀ line ∈ before ++ after, target.Plain line

/-! ## What the scan finds -/

theorem currentBlock_append (before current after : List Text) (hcurrent : current ≠ []) :
    currentBlock (before ++ current ++ after) before.length (before.length + (current.length - 1)) = current := by
  have hlength := List.length_pos_of_ne_nil hcurrent
  rw [currentBlock, show before.length + (current.length - 1) + 1 = (before ++ current).length by
    rw [List.length_append]; omega, List.take_left, List.drop_left]

theorem replaced_append (before current after block : List Text) (hcurrent : current ≠ []) :
    replaced (before ++ current ++ after) before.length (before.length + (current.length - 1)) block =
      before ++ block ++ after := by
  have hlength := List.length_pos_of_ne_nil hcurrent
  rw [replaced, show before.length + (current.length - 1) + 1 = (before ++ current).length by
    rw [List.length_append]; omega, List.drop_left, List.append_assoc before current, List.take_left]

theorem guide_begin_ne_last : kGuideBegin.toList ≠ kGuideEnd.toList := by decide

theorem toml_begin_ne_last : kTomlBegin.toList ≠ kTomlEnd.toList := by decide

theorem GuideMarks.read_plain {path : String} {marks : GuideMarks} {line : Text × Nat}
    (h : Target.guide.Plain line.1) : marks.read path line = .ok marks := by
  have hbegin : stringsTrim line.1 ≠ kGuideBegin.toList := h.1
  have hlast : stringsTrim line.1 ≠ kGuideEnd.toList := h.2
  rw [GuideMarks.read, if_neg hbegin, if_neg hlast]

theorem GuideMarks.foldlM_plain {path : String} {marks : GuideMarks} {text : List Text} {n : Nat}
    (h : ∀ line ∈ text, Target.guide.Plain line) : (text.zipIdx n).foldlM (GuideMarks.read path) marks = .ok marks := by
  induction text generalizing n with
  | nil => rfl
  | cons line text ih =>
    rw [List.zipIdx_cons, List.foldlM_cons, GuideMarks.read_plain (h line List.mem_cons_self)]
    exact ih fun line hmem => h line (List.mem_cons_of_mem _ hmem)

variable {text before current after : List Text}

theorem guideMarks_of_oneBlock (path : String) (h : OneBlock .guide text before current after) :
    text.zipIdx.foldlM (GuideMarks.read path) {} =
      .ok ⟨some before.length, some (before.length + (current.length - 1))⟩ := by
  obtain ⟨first, inside, final, rfl, hfirst, hfinal, hinside⟩ := h.block
  change stringsTrim first = kGuideBegin.toList at hfirst
  change stringsTrim final = kGuideEnd.toList at hfinal
  have hbefore : ∀ line ∈ before, Target.guide.Plain line := fun line hmem => h.around line (List.mem_append_left _ hmem)
  have hafter : ∀ line ∈ after, Target.guide.Plain line := fun line hmem => h.around line (List.mem_append_right _ hmem)
  have hbegin (n : Nat) : GuideMarks.read path {} (first, n) = .ok { begin := some n } := by
    unfold GuideMarks.read
    rw [if_pos hfirst]
    rfl
  have hend (m n : Nat) : GuideMarks.read path { begin := some m } (final, n) = .ok ⟨some m, some n⟩ := by
    have hbegin : stringsTrim final ≠ kGuideBegin.toList := by
      rw [hfinal]
      exact guide_begin_ne_last.symm
    unfold GuideMarks.read
    rw [if_neg hbegin, if_pos hfinal]
    rfl
  rw [h.eq, show before ++ first :: (inside ++ [final]) ++ after = before ++ first :: (inside ++ final :: after) by simp,
    List.zipIdx_append, List.foldlM_append, GuideMarks.foldlM_plain hbefore]
  show ((first :: (inside ++ final :: after)).zipIdx (0 + before.length)).foldlM (GuideMarks.read path) {} = _
  rw [List.zipIdx_cons, List.foldlM_cons, hbegin]
  show ((inside ++ final :: after).zipIdx (0 + before.length + 1)).foldlM (GuideMarks.read path) _ = _
  rw [List.zipIdx_append, List.foldlM_append, GuideMarks.foldlM_plain hinside]
  show ((final :: after).zipIdx (0 + before.length + 1 + inside.length)).foldlM (GuideMarks.read path) _ = _
  rw [List.zipIdx_cons, List.foldlM_cons, hend]
  show (after.zipIdx _).foldlM (GuideMarks.read path) _ = _
  rw [GuideMarks.foldlM_plain hafter]
  simp only [List.length_cons, List.length_append, List.length_nil]
  congr 3 <;> omega

/-- What of a TOML block its two lines decide. -/
def TomlBlock.marks (block : TomlBlock) : Option Nat × Option Nat × String := (block.begin, block.last, block.problem)

theorem TomlBlock.marks_read_plain {command : Text} {args : List Text} {block : TomlBlock} {line : Text × Nat}
    (h : (Target.codex command args).Plain line.1) : (block.read line).marks = block.marks := by
  have hbegin : stringsTrim line.1 ≠ kTomlBegin.toList := h.1
  have hlast : stringsTrim line.1 ≠ kTomlEnd.toList := h.2
  unfold TomlBlock.read
  rw [if_neg hbegin, if_neg hlast]
  dsimp only
  cases header line.1 with
  | some table => rfl
  | none =>
    dsimp only
    split_ifs <;> rfl

theorem TomlBlock.marks_foldl_plain {command : Text} {args : List Text} {block : TomlBlock} {text : List Text} {n : Nat}
    (h : ∀ line ∈ text, (Target.codex command args).Plain line) :
    ((text.zipIdx n).foldl TomlBlock.read block).marks = block.marks := by
  induction text generalizing block n with
  | nil => rfl
  | cons line text ih =>
    rw [List.zipIdx_cons, List.foldl_cons, ih fun line hmem => h line (List.mem_cons_of_mem _ hmem)]
    exact TomlBlock.marks_read_plain (h line List.mem_cons_self)

theorem TomlBlock.marks_read_begin {block : TomlBlock} {line : Text} {n : Nat}
    (hline : stringsTrim line = kTomlBegin.toList)
    (h : block.marks = (none, none, "")) : (block.read (line, n)).marks = (some n, none, "") := by
  obtain ⟨begin, last, foreign, problem, table⟩ := block
  obtain ⟨rfl, hrest⟩ := Prod.mk.inj h
  obtain ⟨rfl, rfl⟩ := Prod.mk.inj hrest
  rw [TomlBlock.read, if_pos hline]
  rfl

theorem TomlBlock.marks_read_last {block : TomlBlock} {line : Text} {m n : Nat} (hline : stringsTrim line = kTomlEnd.toList)
    (h : block.marks = (some m, none, "")) : (block.read (line, n)).marks = (some m, some n, "") := by
  obtain ⟨begin, last, foreign, problem, table⟩ := block
  obtain ⟨rfl, hrest⟩ := Prod.mk.inj h
  obtain ⟨rfl, rfl⟩ := Prod.mk.inj hrest
  have hbegin : stringsTrim line ≠ kTomlBegin.toList := by
    rw [hline]
    exact toml_begin_ne_last.symm
  rw [TomlBlock.read, if_neg hbegin, if_pos hline]
  rfl

theorem tomlMarks_of_oneBlock {command : Text} {args : List Text}
    (h : OneBlock (.codex command args) text before current after) :
    (findTomlBlock text).marks = (some before.length, some (before.length + (current.length - 1)), "") := by
  obtain ⟨first, inside, final, rfl, hfirst, hfinal, hinside⟩ := h.block
  have hbefore : ∀ line ∈ before, (Target.codex command args).Plain line :=
    fun line hmem => h.around line (List.mem_append_left _ hmem)
  have hafter : ∀ line ∈ after, (Target.codex command args).Plain line :=
    fun line hmem => h.around line (List.mem_append_right _ hmem)
  have hmarks : (text.zipIdx.foldl TomlBlock.read {}).marks =
      (some before.length, some (before.length + ((first :: (inside ++ [final])).length - 1)), "") := by
    rw [h.eq,
      show before ++ first :: (inside ++ [final]) ++ after = before ++ first :: (inside ++ final :: after) by simp,
      List.zipIdx_append, List.foldl_append, List.zipIdx_cons, List.foldl_cons, List.zipIdx_append, List.foldl_append,
      List.zipIdx_cons, List.foldl_cons, TomlBlock.marks_foldl_plain hafter]
    have hopened := @TomlBlock.marks_read_begin _ _ (0 + before.length) hfirst
      (@TomlBlock.marks_foldl_plain _ _ {} _ 0 hbefore)
    have hinner := (@TomlBlock.marks_foldl_plain _ _ _ _ (0 + before.length + 1) hinside).trans hopened
    rw [TomlBlock.marks_read_last hfinal hinner]
    simp only [List.length_cons, List.length_append, List.length_nil]
    congr 3 <;> omega
  unfold findTomlBlock
  dsimp only
  rw [if_neg]
  · exact hmarks
  · have hlast := congrArg (fun marks => marks.2.1) hmarks
    simp only [TomlBlock.marks] at hlast
    simp [hlast]

/-! ## What a call leaves -/

variable {target : Target} {path : String} {contents : Text} {file : TextFile}

/-- A call over one block leaves the file, or writes its lines with the block of setup among them. -/
theorem after_eq (hread : readText path (some contents) = .ok file)
    (h : OneBlock target (lines file.body) before current after) :
    target.after path contents =
      if (target.foreign (lines file.body)).isSome ∨ current = target.block then contents
      else written file (before ++ target.block ++ after) := by
  have hcurrent : current ≠ [] := by
    obtain ⟨first, inside, final, rfl, -⟩ := h.block
    exact List.cons_ne_nil _ _
  cases target with
  | guide =>
    have hmarks := guideMarks_of_oneBlock path h
    unfold Target.after Target.write writeAgentGuide
    rw [hread]
    dsimp only [bind, Except.bind]
    rw [hmarks]
    dsimp only
    rw [h.eq, currentBlock_append _ _ _ hcurrent, replaced_append _ _ _ _ hcurrent]
    by_cases hsame : current = agentGuideBlock
    · have hblock : current = Target.guide.block := hsame
      rw [if_pos hsame, if_pos (Or.inr hblock)]
      rfl
    · have hblock : ¬ ((Target.guide.foreign (before ++ current ++ after)).isSome = true ∨
          current = Target.guide.block) := by
        rintro (hforeign | heq)
        · cases hforeign
        · exact hsame heq
      rw [if_neg hsame, if_neg hblock]
      rfl
  | codex command args =>
    have hmarks := tomlMarks_of_oneBlock h
    obtain ⟨hbegin, hrest⟩ := Prod.mk.inj hmarks
    obtain ⟨hlast, hproblem⟩ := Prod.mk.inj hrest
    unfold Target.after Target.write writeTomlConfig
    rw [hread]
    dsimp only [bind, Except.bind]
    rw [hproblem, if_neg (fun hne => hne rfl), show Target.foreign (.codex command args) (lines file.body) =
      (findTomlBlock (lines file.body)).foreign from rfl]
    cases hforeign : (findTomlBlock (lines file.body)).foreign with
    | some n => rfl
    | none =>
      dsimp only
      rw [hbegin]
      dsimp only
      rw [hlast, Option.getD_some, h.eq, currentBlock_append _ _ _ hcurrent, replaced_append _ _ _ _ hcurrent]
      by_cases hsame : current = tomlBlock command args
      · have hblock : current = (Target.codex command args).block := hsame
        rw [if_pos hsame, if_pos (Or.inr hblock)]
        rfl
      · have hblock : ¬ ((none : Option Nat).isSome = true ∨ current = (Target.codex command args).block) := by
          rintro (hsome | heq)
          · cases hsome
          · exact hsame heq
        rw [if_neg hsame, if_neg hblock]
        rfl

/-! ## Lines with what ends them -/

theorem trim_append_blank {c : Char} (hc : isSpacing c = true) (s : Text) : stringsTrim (s ++ [c]) = stringsTrim s :=
  trimBy_concat hc s

theorem trim_dropReturn (s : Text) : stringsTrim (dropReturn s) = stringsTrim s := by
  unfold dropReturn
  split_ifs with hlast
  · conv_rhs => rw [← List.dropLast_append_getLast? _ hlast]
    exact (trim_append_blank rfl _).symm
  · rfl

theorem trim_bare {text line : Text} (h : line ∈ wholeLines text) : stringsTrim (bare line) = stringsTrim line := by
  obtain ⟨s, hs, rfl | rfl⟩ := eq_of_mem_wholeLines h
  · rw [bare_ended hs, trim_dropReturn, trim_append_blank rfl]
  · rw [bare_open hs]

theorem trim_append_newline (s text : Text) : stringsTrim (s ++ newlineOf text) = stringsTrim s := by
  rcases newlineOf_cases text with hnewline | hnewline
  · rw [hnewline, show s ++ ['\r', '\n'] = s ++ ['\r'] ++ ['\n'] by simp, trim_append_blank rfl,
      trim_append_blank rfl]
  · rw [hnewline, trim_append_blank rfl]

theorem head_of_trim {c d : Char} {s rest : Text} (hblank : isSpacing c = false) (h : stringsTrim (c :: s) = d :: rest) :
    c = d := by
  rw [stringsTrim, trimBy, List.dropWhile_cons_of_neg (by simp [hblank])] at h
  obtain ⟨t, ht⟩ := List.rdropWhile_prefix isSpacing (c :: s)
  rw [h] at ht
  exact (List.cons.inj ht).1.symm

/-- A line that begins otherwise than the two lines of the block do. -/
theorem plain_of_head {target : Target} {line : Text} {mark : Char} (hbegin : target.begin.head? = some mark)
    (hlast : target.last.head? = some mark) (hline : ∀ c ∈ line.head?, isSpacing c = false ∧ c ≠ mark) :
    target.Plain line := by
  have hhead : (stringsTrim line).head? ≠ some mark := by
    cases line with
    | nil =>
      intro heq
      cases heq
    | cons c s =>
      obtain ⟨hblank, hc⟩ := hline c rfl
      intro heq
      cases htrim : stringsTrim (c :: s) with
      | nil =>
        rw [htrim] at heq
        cases heq
      | cons d rest =>
        rw [htrim] at heq
        exact hc ((head_of_trim hblank htrim).trans (Option.some.inj heq))
  constructor
  · intro heq
    exact hhead (heq ▸ hbegin)
  · intro heq
    exact hhead (heq ▸ hlast)

theorem OneBlock.map {f : Text → Text} (h : OneBlock target text before current after)
    (hf : ∀ line ∈ text, stringsTrim (f line) = stringsTrim line) :
    OneBlock target (text.map f) (before.map f) (current.map f) (after.map f) := by
  obtain ⟨first, inside, final, hcurrent, hfirst, hfinal, hinside⟩ := h.block
  have hmem : ∀ line, line ∈ before ∨ line ∈ current ∨ line ∈ after → stringsTrim (f line) = stringsTrim line := by
    intro line hline
    refine hf line ?_
    rw [h.eq, List.mem_append, List.mem_append, or_assoc]
    exact hline
  have hplain : ∀ line, line ∈ before ∨ line ∈ current ∨ line ∈ after → target.Plain line → target.Plain (f line) := by
    intro line hline hplain
    unfold Target.Plain
    rwa [hmem line hline]
  have hin : ∀ line ∈ first :: (inside ++ [final]), line ∈ current := fun line hline => hcurrent ▸ hline
  refine ⟨?_, ⟨f first, inside.map f, f final, ?_, ?_, ?_, ?_⟩, ?_⟩
  · rw [h.eq, List.map_append, List.map_append]
  · rw [hcurrent, List.map_cons, List.map_append, List.map_singleton]
  · rwa [hmem first (.inr (.inl (hin _ (by simp))))]
  · rwa [hmem final (.inr (.inl (hin _ (by simp))))]
  · intro line hline
    obtain ⟨found, hfound, rfl⟩ := List.mem_map.mp hline
    exact hplain found (.inr (.inl (hin _ (by simp [hfound])))) (hinside found hfound)
  · intro line hline
    rw [← List.map_append] at hline
    obtain ⟨found, hfound, rfl⟩ := List.mem_map.mp hline
    refine hplain found ?_ (h.around found hfound)
    rcases List.mem_append.mp hfound with hbefore | hafter
    · exact .inl hbefore
    · exact .inr (.inr hafter)

/-! ## The blocks of setup -/

theorem upperHex_ne_newline (n : Nat) : upperHex n ≠ '\n' := by
  rw [upperHex, List.getD_eq_getElem?_getD]
  cases hdigit : "0123456789ABCDEF".toList[n]? with
  | none => decide
  | some d =>
    rw [Option.getD_some]
    rintro rfl
    exact absurd (List.mem_of_getElem? hdigit) (by decide)

theorem newline_notMem_tomlEscaped (c : Char) : '\n' ∉ tomlEscaped c := by
  unfold tomlEscaped
  split_ifs with hquote hcontrol
  · rw [Bool.or_eq_true, decide_eq_true_eq, decide_eq_true_eq] at hquote
    rcases hquote with rfl | rfl <;> decide
  · have hhigh := upperHex_ne_newline (c.toNat / 16)
    have hlow := upperHex_ne_newline (c.toNat % 16)
    simp [Ne.symm hhigh, Ne.symm hlow]
  · rw [List.mem_singleton]
    rintro rfl
    exact hcontrol (by decide)

theorem newline_notMem_tomlString (value : Text) : '\n' ∉ tomlString value := by
  unfold tomlString
  split_ifs with hliteral
  · have hvalue : '\n' ∉ value := by
      intro hmem
      have hplain := List.all_eq_true.mp hliteral _ hmem
      exact absurd hplain (by decide)
    simp [hvalue]
  · have hvalue : '\n' ∉ value.flatMap tomlEscaped := by
      intro hmem
      obtain ⟨c, -, hc⟩ := List.mem_flatMap.mp hmem
      exact newline_notMem_tomlEscaped c hc
    simp only [List.mem_append, List.mem_singleton, not_or]
    exact ⟨⟨by decide, hvalue⟩, by decide⟩

theorem getLast?_tomlString (value : Text) : (tomlString value).getLast? ≠ some '\r' := by
  unfold tomlString
  split_ifs
  · rw [List.getLast?_concat]
    decide
  · rw [List.getLast?_concat]
    decide

theorem notMem_intercalate {c : Char} {sep : Text} (hsep : c ∉ sep) {pieces : List Text}
    (h : ∀ piece ∈ pieces, c ∉ piece) : c ∉ sep.intercalate pieces := by
  induction pieces with
  | nil => exact List.not_mem_nil
  | cons piece pieces ih =>
    have hpiece := h piece List.mem_cons_self
    have hrest := ih fun piece hmem => h piece (List.mem_cons_of_mem _ hmem)
    by_cases hempty : pieces = []
    · rwa [hempty, List.intercalate_singleton]
    · rw [List.intercalate_cons_of_ne_nil hempty, List.mem_append, List.mem_append, not_or, not_or]
      exact ⟨⟨hpiece, hsep⟩, hrest⟩

/-- A line that setup writes is written as one line. -/
def Whole (line : Text) : Prop := '\n' ∉ line ∧ line.getLast? ≠ some '\r'

instance (line : Text) : Decidable (Whole line) := inferInstanceAs (Decidable (_ ∧ _))

/-- What holds of the characters of a literal. -/
theorem of_literal {p : Text → Prop} {s : String} {text : Text} (hs : s = String.ofList text) (h : p text) :
    p s.toList := by
  rwa [hs, String.toList_ofList]

theorem literal_append {s t : String} {l m : Text} (hs : s = String.ofList l) (ht : t = String.ofList m) :
    s ++ t = String.ofList (l ++ m) := by
  rw [hs, ht, String.ofList_append]

/-- A line of the guide is one line and begins otherwise than the two around it. -/
def Inner (line : Text) : Prop := Whole line ∧ ∀ c ∈ line.head?, isSpacing c = false ∧ c ≠ '<'

instance (line : Text) : Decidable (Inner line) :=
  @instDecidableAnd _ _ (inferInstanceAs (Decidable (Whole line))) (Option.decidableForallMem _)

set_option maxRecDepth 10000 in
theorem agentGuideText_inner : ∀ line ∈ agentGuideText, Inner line := by
  unfold agentGuideText
  repeat' first | exact List.forall_mem_nil _ | refine List.forall_mem_cons.mpr ⟨?_, ?_⟩
  all_goals first
    | exact of_literal rfl (by decide)
    | exact of_literal (literal_append rfl rfl) (by decide)
    | exact of_literal (literal_append (literal_append rfl rfl) rfl) (by decide)
    | decide

theorem agentGuideBlock_whole : ∀ line ∈ agentGuideBlock, Whole line := by
  intro line hline
  rcases List.mem_cons.mp hline with rfl | hline
  · decide
  · rcases List.mem_append.mp hline with hline | hline
    · exact (agentGuideText_inner line hline).1
    · cases List.mem_singleton.mp hline
      decide

theorem tomlBlock_whole (command : Text) (args : List Text) : ∀ line ∈ tomlBlock command args, Whole line := by
  have hcommand : Whole ("command = ".toList ++ tomlString command) := by
    refine ⟨?_, ?_⟩
    · rw [List.mem_append, not_or]
      exact ⟨by decide, newline_notMem_tomlString command⟩
    · have hne : tomlString command ≠ [] := by
        unfold tomlString
        split_ifs <;> simp
      rw [List.getLast?_append_of_ne_nil _ hne]
      exact getLast?_tomlString command
  have hargs : Whole ("args = [".toList ++ ", ".toList.intercalate (args.map tomlString) ++ "]".toList) := by
    refine ⟨?_, ?_⟩
    · rw [List.mem_append, List.mem_append, not_or, not_or]
      refine ⟨⟨by decide, ?_⟩, by decide⟩
      refine notMem_intercalate (by decide) fun piece hpiece => ?_
      obtain ⟨arg, -, rfl⟩ := List.mem_map.mp hpiece
      exact newline_notMem_tomlString arg
    · rw [show "]".toList = [']'] from rfl, List.getLast?_concat]
      decide
  intro line hline
  unfold tomlBlock at hline
  simp only [List.mem_cons, List.not_mem_nil, or_false] at hline
  rcases hline with rfl | rfl | rfl | rfl | rfl
  · decide
  · decide
  · exact hcommand
  · exact hargs
  · decide

/-- The block of setup is one block. -/
theorem oneBlock_block (target : Target) {before after : List Text} (h : ∀ line ∈ before ++ after, target.Plain line) :
    OneBlock target (before ++ target.block ++ after) before target.block after := by
  refine ⟨rfl, ?_, h⟩
  cases target with
  | guide =>
    refine ⟨kGuideBegin.toList, agentGuideText, kGuideEnd.toList, rfl, ?_, ?_, ?_⟩
    · show stringsTrim kGuideBegin.toList = kGuideBegin.toList
      decide
    · show stringsTrim kGuideEnd.toList = kGuideEnd.toList
      decide
    · exact fun line hline => plain_of_head rfl rfl (agentGuideText_inner line hline).2
  | codex command args =>
    refine ⟨kTomlBegin.toList, ((tomlBlock command args).drop 1).dropLast, kTomlEnd.toList, rfl, ?_, ?_, ?_⟩
    · show stringsTrim kTomlBegin.toList = kTomlBegin.toList
      decide
    · show stringsTrim kTomlEnd.toList = kTomlEnd.toList
      decide
    · intro line hline
      have hhead : ∀ c ∈ line.head?, isSpacing c = false ∧ c ≠ '#' := by
        simp only [tomlBlock, List.drop_succ_cons, List.drop_zero, List.dropLast_cons_cons,
          List.dropLast_singleton, List.mem_cons, List.not_mem_nil, or_false] at hline
        rcases hline with rfl | rfl | rfl
        all_goals simp [isSpacing]
      exact plain_of_head rfl rfl hhead

theorem block_whole (target : Target) : ∀ line ∈ target.block, Whole line := by
  cases target with
  | guide => exact agentGuideBlock_whole
  | codex command args => exact tomlBlock_whole command args

theorem bare_append_newline {line : Text} (h : Whole line) (text : Text) : bare (line ++ newlineOf text) = line := by
  rcases newlineOf_cases text with hnewline | hnewline
  · have hopen : '\n' ∉ line ++ ['\r'] := by simp [h.1]
    rw [hnewline, show line ++ ['\r', '\n'] = line ++ ['\r'] ++ ['\n'] by simp, bare_ended hopen, dropReturn_append]
  · rw [hnewline, bare_ended h.1, dropReturn_eq_self h.2]

/-! ## The mark of the file -/

theorem body_of_read (hread : readText path (some contents) = .ok file) :
    file.body = withoutReturns (withoutMark contents) ∧ file.bom = kByteOrderMark.isPrefixOf contents := by
  unfold readText at hread
  dsimp only at hread
  split_ifs at hread
  cases hread
  exact ⟨rfl, rfl⟩

/-- The lines of setup do not begin as the mark does. -/
theorem head_block (target : Target) : ∃ first rest, target.block = first :: rest ∧
    ∃ c s, first = c :: s ∧ c ∉ kByteOrderMark := by
  cases target with
  | guide => exact ⟨_, _, rfl, _, _, rfl, by decide⟩
  | codex command args => exact ⟨_, _, rfl, _, _, rfl, by decide⟩

/-- A text begins with the mark when its first line does, which the newline cannot make up for. -/
theorem prefix_of_line {line rest text : Text} (h : kByteOrderMark <+: line ++ newlineOf text ++ rest) :
    kByteOrderMark <+: line := by
  obtain ⟨more, hmore⟩ := h
  rw [List.append_assoc] at hmore
  rcases List.append_eq_append_iff.mp hmore with ⟨a, hline, -⟩ | ⟨a, hmark, ha⟩
  · exact ⟨a, hline.symm⟩
  · cases a with
    | nil => exact ⟨[], by rw [hmark, List.append_nil, List.append_nil]⟩
    | cons c a =>
      have hc : c ∈ kByteOrderMark := by
        rw [hmark]
        exact List.mem_append_right _ List.mem_cons_self
      rcases newlineOf_cases text with hnewline | hnewline
      · rw [hnewline] at ha
        obtain ⟨rfl, -⟩ := List.cons.inj ha
        exact absurd hc (by decide)
      · rw [hnewline] at ha
        obtain ⟨rfl, -⟩ := List.cons.inj ha
        exact absurd hc (by decide)

theorem withoutMark_of_not {text : Text} (h : ¬ kByteOrderMark <+: text) : withoutMark text = text := by
  rw [withoutMark, if_neg]
  rwa [List.isPrefixOf_iff_prefix]

/-- The first line of a file begins as the file does. -/
theorem prefix_of_wholeLines {text line : Text} {rest : List Text} (h : wholeLines text = line :: rest) :
    line <+: text := by
  rw [← wholeLines_flatten text, h, List.flatten_cons]
  exact List.prefix_append _ _

section Written
variable (hread : readText path (some contents) = .ok file)
  (h : OneBlock target (wholeLines (withoutMark contents)) before current after)

/-- The lines that are written. -/
def newLines (target : Target) (before after : List Text) : List Text :=
  before.map bare ++ target.block ++ after.map bare

include h in
theorem newline_notMem_newLines : ∀ line ∈ newLines target before after, '\n' ∉ line := by
  have hold : ∀ line, line ∈ before ∨ line ∈ after → '\n' ∉ bare line := by
    intro line hline
    refine newline_notMem_bare (h.eq ▸ ?_ : line ∈ wholeLines (withoutMark contents))
    rcases hline with hline | hline
    · exact List.mem_append_left _ (List.mem_append_left _ hline)
    · exact List.mem_append_right _ hline
  intro line hline
  rcases List.mem_append.mp hline with hline | hline
  · rcases List.mem_append.mp hline with hline | hline
    · obtain ⟨found, hfound, rfl⟩ := List.mem_map.mp hline
      exact hold found (.inl hfound)
    · exact (block_whole target line hline).1
  · obtain ⟨found, hfound, rfl⟩ := List.mem_map.mp hline
    exact hold found (.inr hfound)

include hread h in
/-- What is written has the mark exactly when the file has it, and the new lines after it. -/
theorem written_eq : kByteOrderMark.isPrefixOf (written file (newLines target before after)) =
      kByteOrderMark.isPrefixOf contents ∧
    withoutMark (written file (newLines target before after)) =
      textOfLines (newlineOf (withoutMark contents)) (newLines target before after) := by
  have htext : written file (newLines target before after) =
      markOf file ++ textOfLines (newlineOf (withoutMark contents)) (newLines target before after) :=
    writeText_lines hread (newline_notMem_newLines h)
  obtain ⟨-, hbom⟩ := body_of_read hread
  rw [htext, markOf, hbom]
  cases hmark : kByteOrderMark.isPrefixOf contents with
  | true =>
    have hmarked : kByteOrderMark.isPrefixOf (kByteOrderMark ++
        textOfLines (newlineOf (withoutMark contents)) (newLines target before after)) = true :=
      List.isPrefixOf_iff_prefix.mpr (List.prefix_append _ _)
    rw [if_pos rfl]
    refine ⟨hmarked, ?_⟩
    rw [withoutMark, if_pos hmarked]
    rfl
  | false =>
    rw [if_neg Bool.false_ne_true, List.nil_append]
    have hcontents : ¬ kByteOrderMark <+: contents := by
      rw [← List.isPrefixOf_iff_prefix, hmark]
      exact Bool.false_ne_true
    have hnone : ¬ kByteOrderMark <+:
        textOfLines (newlineOf (withoutMark contents)) (newLines target before after) := by
      intro hmarked
      unfold newLines at hmarked
      cases hbefore : before with
      | nil =>
        obtain ⟨first, rest, hblock, c, s, rfl, hc⟩ := head_block target
        rw [hbefore, hblock, List.map_nil, List.nil_append, List.cons_append, textOfLines, List.flatMap_cons] at hmarked
        obtain ⟨more, hmore⟩ := prefix_of_line hmarked
        obtain ⟨rfl, -⟩ := List.cons.inj hmore
        exact hc (by decide)
      | cons line rest =>
        have hline : wholeLines (withoutMark contents) = line :: (rest ++ current ++ after) := by
          rw [h.eq, hbefore]
          rfl
        rw [hbefore, List.map_cons, List.cons_append, List.cons_append, textOfLines, List.flatMap_cons] at hmarked
        have hfirst := (prefix_of_line hmarked).trans (prefix_bare (hline ▸ List.mem_cons_self))
        rw [withoutMark_of_not hcontents] at hline
        exact hcontents (hfirst.trans (prefix_of_wholeLines hline))
    refine ⟨?_, withoutMark_of_not hnone⟩
    rw [← Bool.not_eq_true, List.isPrefixOf_iff_prefix]
    exact hnone

include hread h in
theorem wholeLines_written : wholeLines (withoutMark (written file (newLines target before after))) =
    (newLines target before after).map (· ++ newlineOf (withoutMark contents)) := by
  rw [(written_eq hread h).2, wholeLines_textOfLines _ (newline_notMem_newLines h)]

include hread h in
theorem oneBlock_bare : OneBlock target (lines file.body) (before.map bare) (current.map bare) (after.map bare) := by
  rw [(body_of_read hread).1, lines_withoutReturns]
  exact h.map fun line hline => trim_bare hline

include hread h in
/-- What is written holds the block as it is written, so a second call leaves it. -/
theorem after_written : target.after path (written file (newLines target before after)) =
    written file (newLines target before after) := by
  cases hagain : readText path (some (written file (newLines target before after))) with
  | error e =>
    unfold Target.after Target.write
    cases target with
    | guide =>
      simp only
      rw [writeAgentGuide, hagain]
      rfl
    | codex command args =>
      simp only
      rw [writeTomlConfig, hagain]
      rfl
  | ok file' =>
    obtain ⟨hbody, -⟩ := body_of_read hagain
    have hlines : lines file'.body =
        (newLines target before after).map fun line => bare (line ++ newlineOf (withoutMark contents)) := by
      rw [hbody, lines_withoutReturns, wholeLines_written hread h, List.map_map]
      rfl
    have hone : OneBlock target (newLines target before after) (before.map bare) target.block (after.map bare) :=
      oneBlock_block target (oneBlock_bare hread h).around
    have htrim : ∀ line ∈ newLines target before after,
        stringsTrim (bare (line ++ newlineOf (withoutMark contents))) = stringsTrim line := by
      intro line hline
      have hwhole : line ++ newlineOf (withoutMark contents) ∈
          wholeLines (withoutMark (written file (newLines target before after))) := by
        rw [wholeLines_written hread h]
        exact List.mem_map_of_mem hline
      rw [trim_bare hwhole]
      exact trim_append_newline _ _
    have hagainOne := hone.map htrim
    rw [← hlines] at hagainOne
    have hblock : target.block.map (fun line => bare (line ++ newlineOf (withoutMark contents))) = target.block := by
      refine (List.map_congr_left fun line hline => ?_).trans (List.map_id target.block)
      exact bare_append_newline (block_whole target line hline) _
    rw [after_eq hagain hagainOne, if_pos (Or.inr hblock)]

end Written

/-! ## What stays of a file -/

/-- What is around the block, byte for byte, and the mark before it all. -/
def Keeps (contents left : Text) (before after : List Text) : Prop :=
  kByteOrderMark.isPrefixOf left = kByteOrderMark.isPrefixOf contents ∧
    ∃ block, wholeLines (withoutMark left) = before ++ block ++ after

theorem map_newline_eq_self {text : Text} {part : List Text} (h : ∀ line ∈ part, line ∈ wholeLines text) :
    (part.map bare).map (· ++ newlineOf text) = part ↔ ∀ line ∈ part, newlineOf text <:+ line := by
  rw [List.map_map]
  constructor
  · intro heq line hline
    have hself := List.map_inj_left.mp (heq.trans (List.map_id part).symm) line hline
    exact (bare_append_eq_self (h line hline)).mp hself
  · intro hends
    refine (List.map_congr_left fun line hline => ?_).trans (List.map_id part)
    exact (bare_append_eq_self (h line hline)).mpr (hends line hline)

/-- **A file that holds one block keeps every byte around it, and a second call leaves it, exactly where nothing is
written or every line around the block ends in the newline of the file.** -/
theorem rewrite_iff (hread : readText path (some contents) = .ok file)
    (h : OneBlock target (wholeLines (withoutMark contents)) before current after) :
    Keeps contents (target.after path contents) before after ∧
        target.after path (target.after path contents) = target.after path contents ↔
      (target.foreign (lines file.body)).isSome ∨ current.map bare = target.block ∨
        ∀ line ∈ before ++ after, newlineOf (withoutMark contents) <:+ line := by
  have hafter := after_eq hread (oneBlock_bare hread h)
  by_cases hleft : (target.foreign (lines file.body)).isSome ∨ current.map bare = target.block
  · rw [if_pos hleft] at hafter
    rw [hafter, hafter]
    refine iff_of_true ⟨⟨rfl, current, h.eq⟩, rfl⟩ ?_
    rcases hleft with hforeign | hsame
    · exact .inl hforeign
    · exact .inr (.inl hsame)
  · rw [if_neg hleft] at hafter
    change target.after path contents = written file (newLines target before after) at hafter
    have hmem : ∀ line, line ∈ before ∨ line ∈ after → line ∈ wholeLines (withoutMark contents) := by
      intro line hline
      rw [h.eq]
      rcases hline with hline | hline
      · exact List.mem_append_left _ (List.mem_append_left _ hline)
      · exact List.mem_append_right _ hline
    have hbefore := @map_newline_eq_self _ before fun line hline => hmem line (.inl hline)
    have hafter' := @map_newline_eq_self _ after fun line hline => hmem line (.inr hline)
    rw [hafter, after_written hread h, Keeps, (written_eq hread h).1, wholeLines_written hread h, newLines,
      List.map_append, List.map_append, ← or_assoc, or_iff_right hleft, List.forall_mem_append, ← hbefore, ← hafter']
    constructor
    · rintro ⟨⟨-, block, heq⟩, -⟩
      have hlengths := congrArg List.length heq
      simp only [List.length_append, List.length_map] at hlengths
      obtain ⟨hstart, hend⟩ := List.append_inj heq (by simp only [List.length_append, List.length_map]; omega)
      obtain ⟨hfirst, -⟩ := List.append_inj hstart (by simp)
      exact ⟨hfirst, hend⟩
    · rintro ⟨hfirst, hlast⟩
      rw [hfirst, hlast]
      exact ⟨⟨rfl, _, rfl⟩, rfl⟩

/-- A guide with its two lines alone, in a file with one more line. -/
theorem oneBlock_sample (ending : Text) (hending : ending = ['\n'] ∨ ending = ['\r', '\n']) :
    OneBlock .guide (wholeLines ("<!-- BEGIN didi -->\n<!-- END didi -->".toList ++ ending ++ "x\n".toList)) []
      ["<!-- BEGIN didi -->\n".toList, "<!-- END didi -->".toList ++ ending] ["x\n".toList] := by
  have hx : Target.guide.Plain "x\n".toList := by
    unfold Target.Plain
    decide
  rcases hending with rfl | rfl
  · exact ⟨by decide, ⟨_, [], _, rfl, by decide, by decide, fun line hline => by cases hline⟩, by simpa using hx⟩
  · exact ⟨by decide, ⟨_, [], _, rfl, by decide, by decide, fun line hline => by cases hline⟩, by simpa using hx⟩

theorem exists_read {path : String} {contents : Text} (hwide : isUtf16 contents = false)
    (hbytes : Validators.isDecodableUtf8 ((withoutMark contents).map fun c => UInt8.ofNat c.toNat) = true) :
    ∃ file, readText path (some contents) = .ok file := by
  have hnarrow : ¬ isUtf16 contents = true := ne_true_of_eq_false hwide
  exact ⟨_, (if_neg hnarrow).trans (if_pos hbytes)⟩

theorem rewrite_iff_sample : ∃ file,
    readText "AGENTS.md" (some "<!-- BEGIN didi -->\n<!-- END didi -->\nx\n".toList) = .ok file ∧
      Keeps "<!-- BEGIN didi -->\n<!-- END didi -->\nx\n".toList
        (Target.guide.after "AGENTS.md" "<!-- BEGIN didi -->\n<!-- END didi -->\nx\n".toList) [] ["x\n".toList] := by
  obtain ⟨file, hread⟩ := @exists_read "AGENTS.md" "<!-- BEGIN didi -->\n<!-- END didi -->\nx\n".toList (by decide)
    (by decide +kernel)
  have hends : ∀ line ∈ [] ++ ["x\n".toList],
    newlineOf (withoutMark "<!-- BEGIN didi -->\n<!-- END didi -->\nx\n".toList) <:+
      line := by
    decide
  exact ⟨file, hread, ((rewrite_iff hread (oneBlock_sample ['\n'] (.inl rfl))).mpr (.inr (.inr hends))).1⟩

/-- One CRLF in the file, and an LF line after the block comes out as a CRLF line. -/
theorem not_rewrite_keeps : ¬ ∀ (target : Target) (path : String) (contents : Text) (file : TextFile)
    (before current after : List Text), readText path (some contents) = .ok file →
      OneBlock target (wholeLines (withoutMark contents)) before current after →
      Keeps contents (target.after path contents) before after ∧
        target.after path (target.after path contents) = target.after path contents := by
  intro h
  obtain ⟨file, hread⟩ := @exists_read "AGENTS.md" "<!-- BEGIN didi -->\n<!-- END didi -->\r\nx\n".toList (by decide)
    (by decide +kernel)
  have hone := oneBlock_sample ['\r', '\n'] (.inr rfl)
  rcases (rewrite_iff hread hone).mp (h _ _ _ _ _ _ _ hread hone) with hforeign | hsame | hends
  · cases hforeign
  · exact absurd (congrArg List.length hsame) (by decide)
  · exact absurd hends (by decide)

end Didi.Setup
