import Didi.Script.Scopes

/-!
# Where a created member lands

* `insertionPoint` : the line that a created member is put before; `createdText_inserts` : the text it is put in;
* `Beside`, `HeaderEnds` : the member or the header that it is put after, by the lines of the script alone;
* `created_lands_iff` : the created member lands at class level exactly in scripts where there is `Room`.
-/

namespace Didi.Script
open Didi.Config
variable {lines : List Text}

/-! ## The text -/

/-- The last line of the member that a created one is put beside. -/
def besideOf (lines : List Text) (newDefinition : Text) (kind : SymbolKind) : Option Nat :=
  let position := insertPosition lines
  let found := lastOfKind kind position (lines.drop position) (none, none)
  if isOnready newDefinition ∧ found.2.isSome then found.2 else found.1

/-- The line that a created member is put before. -/
def insertionPoint (lines : List Text) (newDefinition : Text) (kind : SymbolKind) : Nat :=
  match besideOf lines newDefinition kind with
  | some last => last + 1
  | none => insertPosition lines

/-- The lines of a definition, and blank ones around them, are inserted before line `p`. -/
structure Inserts (lines : List Text) (p : Nat) (newDefinition : Text) (inserted : List Text) (text : Text) : Prop where
  text_eq : text = joinLines (lines.take p ++ inserted ++ lines.drop p)
  definition : ∃ before definition closing after, newDefinition = definition ++ closing ∧
    (∀ c ∈ closing, isLineEnd c = true) ∧ (∀ line ∈ before ++ after, line = []) ∧
    inserted = before ++ definition.splitOn '\n' ++ after

/-- A member is created at class level: no statement of the script changes its scope, if the definition leaves nothing
open. -/
def Lands (lines : List Text) (newDefinition : Text) (kind : SymbolKind) (text : Text) : Prop :=
  let p := insertionPoint lines newDefinition kind
  ClassLevel lines p ∧ ∃ inserted, Inserts lines p newDefinition inserted text ∧
    ((layoutAfter inserted).inside = false → KeepsScopes lines p inserted)

theorem joinLines_append (above : List Text) {below : List Text} (h : below ≠ []) :
    joinLines (above ++ below) = endLines above ++ joinLines below := by
  induction above with
  | nil => rfl
  | cons line above ih =>
    have hne : above ++ below ≠ [] := List.append_ne_nil_of_right_ne_nil _ h
    unfold joinLines endLines at *
    rw [List.cons_append, List.intercalate_cons_of_ne_nil hne, ih, List.flatMap_cons]
    simp only [List.append_assoc]

theorem joinLines_cons (line : Text) (lines : List Text) :
    joinLines (line :: lines) = line ++ lines.flatMap ('\n' :: ·) := by
  induction lines generalizing line with
  | nil => simp [joinLines]
  | cons next lines ih =>
    have hnext := ih next
    unfold joinLines at *
    rw [List.intercalate_cons_cons, hnext, List.flatMap_cons]
    simp

theorem joinLines_splitOn (text : Text) : joinLines (text.splitOn '\n') = text := List.intercalate_splitOn '\n'

/-- A text of lines, and more lines after it. -/
theorem joinLines_splitOn_append (text : Text) (below : List Text) :
    joinLines (text.splitOn '\n' ++ below) = text ++ below.flatMap ('\n' :: ·) := by
  cases hlines : text.splitOn '\n' with
  | nil => exact absurd hlines (List.splitOn_ne_nil '\n' text)
  | cons line lines =>
    have htext : line ++ lines.flatMap ('\n' :: ·) = text := by rw [← joinLines_cons, ← hlines, joinLines_splitOn]
    rw [List.cons_append, joinLines_cons, List.flatMap_append, ← List.append_assoc, htext]

/-- Lines, a text, and more lines. -/
theorem joinLines_around (above below : List Text) (text : Text) :
    joinLines (above ++ text.splitOn '\n' ++ below) = endLines above ++ text ++ below.flatMap ('\n' :: ·) := by
  have hne : text.splitOn '\n' ++ below ≠ [] := List.append_ne_nil_of_left_ne_nil (List.splitOn_ne_nil '\n' text) below
  rw [List.append_assoc, joinLines_append above hne, joinLines_splitOn_append, List.append_assoc]

/-- The lines below a part, as they are read after it. -/
def orEmpty (below : List Text) : List Text := if below = [] then [[]] else below

theorem orEmpty_ne (below : List Text) : orEmpty below ≠ [] := by
  unfold orEmpty
  split
  · exact List.cons_ne_nil _ _
  · assumption

theorem joinLines_orEmpty (below : List Text) : joinLines (orEmpty below) = joinLines below := by
  unfold orEmpty
  split
  · rename_i hnil
    rw [hnil]
    rfl
  · rfl

theorem newline_orEmpty (below : List Text) : (orEmpty below).flatMap ('\n' :: ·) = '\n' :: joinLines below := by
  rw [← joinLines_orEmpty]
  cases hlines : orEmpty below with
  | nil => exact absurd hlines (orEmpty_ne below)
  | cons line lines =>
    rw [joinLines_cons]
    rfl

section Text
variable {sourceText newDefinition : Text} {kind : SymbolKind} (hkind : ¬ (kind = .function ∨ kind = .klass))
include hkind

/-- The text with a member that is put beside another. -/
theorem createdText_beside {last : Nat} (hbeside : besideOf (sourceText.splitOn '\n') newDefinition kind = some last) :
    createdText sourceText newDefinition kind = joinLines ((sourceText.splitOn '\n').take (last + 1) ++
      (newDefinition.rdropWhile isLineEnd).splitOn '\n' ++ orEmpty ((sourceText.splitOn '\n').drop (last + 1))) := by
  unfold besideOf at hbeside
  dsimp only at hbeside
  unfold createdText
  dsimp only
  rw [if_neg hkind, hbeside, joinLines_around]
  dsimp only
  unfold orEmpty
  by_cases hend : (sourceText.splitOn '\n').length ≤ last + 1
  · rw [if_pos hend, List.drop_eq_nil_of_le hend, if_pos rfl]
    simp
  · have hne : (sourceText.splitOn '\n').drop (last + 1) ≠ [] := by rwa [Ne, List.drop_eq_nil_iff]
    rw [if_neg hend, if_neg hne, List.append_nil]

/-- The text with a member that is put below the header. -/
theorem createdText_header (hbeside : besideOf (sourceText.splitOn '\n') newDefinition kind = none) :
    createdText sourceText newDefinition kind = joinLines ((sourceText.splitOn '\n').take
      (insertPosition (sourceText.splitOn '\n')) ++ [[]] ++ newDefinition.splitOn '\n' ++
        orEmpty ((sourceText.splitOn '\n').drop (insertPosition (sourceText.splitOn '\n')))) := by
  unfold besideOf at hbeside
  dsimp only at hbeside
  unfold createdText
  dsimp only
  rw [if_neg hkind, hbeside, joinLines_around, newline_orEmpty]
  simp [endLines]

/-- The text of a created member is the script with the lines of the definition before the insertion point. -/
theorem createdText_inserts : ∃ inserted, Inserts (sourceText.splitOn '\n')
    (insertionPoint (sourceText.splitOn '\n') newDefinition kind) newDefinition inserted
    (createdText sourceText newDefinition kind) := by
  have hend : ∀ below : List Text, ∃ after : List Text, (∀ line ∈ after, line = []) ∧ orEmpty below = after ++ below := by
    intro below
    unfold orEmpty
    split
    · rename_i hnil
      exact ⟨[[]], by simp, by rw [hnil]; rfl⟩
    · exact ⟨[], by simp, rfl⟩
  unfold insertionPoint
  cases hbeside : besideOf (sourceText.splitOn '\n') newDefinition kind with
  | some last =>
    obtain ⟨after, hafter, hbelow⟩ := hend ((sourceText.splitOn '\n').drop (last + 1))
    refine ⟨_, ?_, [], newDefinition.rdropWhile isLineEnd, newDefinition.rtakeWhile isLineEnd, after,
      List.rdropWhile_append_rtakeWhile.symm, fun c hc => List.mem_rtakeWhile_imp hc, hafter, rfl⟩
    rw [createdText_beside hkind hbeside, hbelow]
    simp only [List.append_assoc, List.nil_append]
  | none =>
    obtain ⟨after, hafter, hbelow⟩ := hend ((sourceText.splitOn '\n').drop (insertPosition (sourceText.splitOn '\n')))
    refine ⟨_, ?_, [[]], newDefinition, [], after, (List.append_nil _).symm, fun c hc => absurd hc List.not_mem_nil, ?_,
      rfl⟩
    · rw [createdText_header hkind hbeside, hbelow]
      simp only [List.append_assoc]
    · exact List.forall_mem_cons.mpr ⟨rfl, hafter⟩

end Text

/-! ## The last line of a kind -/

/-- Line `m` is the last that `p` holds of. -/
def LastOf (p : Text → Bool) (lines : List Text) (m : Nat) : Prop :=
  (∃ line ∈ lines[m]?, p line = true) ∧ ∀ j, m < j → ∀ line ∈ lines[j]?, p line = false

section LastOf
variable {p : Text → Bool} {line : Text} {lines : List Text} {m m' : Nat}

theorem LastOf.unique (h : LastOf p lines m) (h' : LastOf p lines m') : m = m' := by
  obtain ⟨⟨line, hline, hp⟩, hafter⟩ := h
  obtain ⟨⟨line', hline', hp'⟩, hafter'⟩ := h'
  rcases Nat.lt_trichotomy m m' with hlt | heq | hlt
  · rw [hafter m' hlt line' hline'] at hp'
    cases hp'
  · exact heq
  · rw [hafter' m hlt line hline] at hp
    cases hp

theorem lastOf_zero : LastOf p (line :: lines) 0 ↔ p line = true ∧ ∀ found ∈ lines, p found = false := by
  unfold LastOf
  refine and_congr (by simp) ⟨fun h found hfound => ?_, fun h j hj found hfound => ?_⟩
  · obtain ⟨k, hk⟩ := List.mem_iff_getElem?.mp hfound
    exact h (k + 1) (Nat.succ_pos k) found hk
  · obtain ⟨k, rfl⟩ := Nat.exists_eq_succ_of_ne_zero (Nat.ne_of_gt hj)
    exact h found (List.mem_of_getElem? hfound)

theorem lastOf_succ : LastOf p (line :: lines) (m + 1) ↔ LastOf p lines m := by
  unfold LastOf
  refine and_congr Iff.rfl ⟨fun h j hj found hfound => h (j + 1) (Nat.succ_lt_succ hj) found hfound,
    fun h j hj found hfound => ?_⟩
  obtain ⟨k, rfl⟩ := Nat.exists_eq_succ_of_ne_zero (Nat.ne_of_gt (Nat.lt_of_le_of_lt (Nat.zero_le _) hj))
  exact h k (Nat.lt_of_succ_lt_succ hj) found hfound

theorem lastOf_drop (n : Nat) : LastOf p (lines.drop n) m ↔ LastOf p lines (n + m) := by
  unfold LastOf
  rw [List.getElem?_drop]
  refine and_congr Iff.rfl ⟨fun h j hj found hfound => ?_, fun h j hj found hfound => ?_⟩
  · obtain ⟨k, rfl⟩ := Nat.exists_eq_add_of_le (Nat.le_of_lt (Nat.lt_of_le_of_lt (Nat.le_add_right n m) hj))
    exact h k (by omega) found (by rwa [List.getElem?_drop])
  · rw [List.getElem?_drop] at hfound
    exact h (n + j) (by omega) found hfound

theorem LastOf.lt (h : LastOf p lines m) : m < lines.length := by
  obtain ⟨⟨line, hline, -⟩, -⟩ := h
  exact (List.getElem?_eq_some_iff.mp hline).1

/-- Some line is the last that `p` holds of, unless it holds of none. -/
theorem not_exists_lastOf (h : ∀ line ∈ lines, p line = false) : ¬ LastOf p lines m := by
  rintro ⟨⟨line, hline, hp⟩, -⟩
  rw [h line (List.mem_of_getElem? hline)] at hp
  cases hp

end LastOf

/-! ## The header -/

def isHeader (line : Text) : Bool := startsAny ["extends ", "class_name ", "@tool", "@icon"] (stringsTrim line)

/-- The header of a script ends before line `n`: the line above it is the last that begins with one of its keywords. -/
def HeaderEnds (lines : List Text) (n : Nat) : Prop :=
  (∃ h, LastOf isHeader lines h ∧ n = h + 1) ∨ (∀ line ∈ lines, isHeader line = false) ∧ n = 0

theorem headerEnds_headerLength (lines : List Text) : HeaderEnds lines (headerLength lines) := by
  induction lines with
  | nil => exact .inr ⟨fun line hline => absurd hline List.not_mem_nil, rfl⟩
  | cons line lines ih =>
    rw [headerLength]
    rcases ih with ⟨h, hlast, hlength⟩ | ⟨hnone, hlength⟩
    · rw [hlength, if_pos (Nat.succ_ne_zero h)]
      exact .inl ⟨h + 1, lastOf_succ.mpr hlast, rfl⟩
    · rw [hlength, if_neg (fun hne => hne rfl)]
      by_cases hline : isHeader line = true
      · refine .inl ⟨0, lastOf_zero.mpr ⟨hline, hnone⟩, ?_⟩
        exact if_pos hline
      · refine .inr ⟨List.forall_mem_cons.mpr ⟨Bool.eq_false_iff.mpr hline, hnone⟩, ?_⟩
        exact if_neg hline

theorem headerEnds_iff {n : Nat} : HeaderEnds lines n ↔ n = headerLength lines := by
  have hends := headerEnds_headerLength lines
  constructor
  · intro h
    rcases h with ⟨k, hk, rfl⟩ | ⟨hnone, rfl⟩ <;> rcases hends with ⟨k', hk', hlength⟩ | ⟨hnone', hlength⟩
    · rw [hlength, hk.unique hk']
    · exact absurd hk (not_exists_lastOf hnone')
    · exact absurd hk' (not_exists_lastOf hnone)
    · exact hlength.symm
  · rintro rfl
    exact hends

/-- How many lines the doc comment below the header takes, and the blank lines above it. -/
def docLength (below : List Text) : Nat :=
  let blank := (below.takeWhile fun line => stringsTrim line = []).length
  let doc := ((below.drop blank).takeWhile fun line => isDoc (stringsTrim line)).length
  if doc = 0 then 0 else blank + doc

theorem insertPosition_eq (lines : List Text) :
    insertPosition lines = headerLength lines + docLength (lines.drop (headerLength lines)) := by
  unfold insertPosition docLength
  dsimp only
  rw [List.drop_drop]
  split
  · rfl
  · exact Nat.add_assoc _ _ _

theorem take_length_takeWhile (q : Text → Bool) (lines : List Text) :
    lines.take (lines.takeWhile q).length = lines.takeWhile q :=
  (List.prefix_iff_eq_take.mp (List.takeWhile_prefix q)).symm

theorem not_isStatement_of_doc {below : List Text} : ∀ line ∈ below.take (docLength below), isStatement line = false := by
  intro line hline
  unfold docLength at hline
  dsimp only at hline
  split at hline
  · cases hline
  · rw [List.take_add, take_length_takeWhile, take_length_takeWhile] at hline
    unfold isStatement
    rcases List.mem_append.mp hline with hline | hline
    · have hblank := List.mem_takeWhile_imp hline
      simp [of_decide_eq_true hblank]
    · have hdoc := List.mem_takeWhile_imp hline
      cases htrim : stringsTrim line with
      | nil => rfl
      | cons c rest =>
        rw [htrim] at hdoc
        have hc : c = '#' := by
          unfold isDoc at hdoc
          rw [List.isPrefixOf_cons_cons, Bool.and_eq_true, beq_iff_eq] at hdoc
          exact hdoc.1.symm
        rw [hc]
        rfl

/-! ## The members -/

/-- A line at column 0 that declares a member of the kind. -/
def isMember (kind : SymbolKind) (line : Text) : Bool :=
  (line ≠ [] && !(line.head?.any isBlankChar)) && (parseDeclaration line).any fun declaration => declaration.kind = kind

def isOnreadyMember (kind : SymbolKind) (line : Text) : Bool := isMember kind line && isOnready line

/-- A blank line or a comment declares nothing. -/
theorem parseDeclaration_of_not_isStatement {line : Text} (h : isStatement line = false) :
    parseDeclaration line = none := by
  cases hparse : parseDeclaration line with
  | none => rfl
  | some declaration =>
    obtain ⟨exported, source, hskip, hread⟩ := parseDeclaration_eq_some.mp hparse
    obtain ⟨p, hp, hstarts, -, -⟩ := readDeclaration_eq_some.mp hread
    obtain ⟨spaces, more, hline, hspaces, hcomment⟩ := spaces_of_not_isStatement h
    have hhead : ∀ c ∈ (line.dropWhile isBlankChar).head?, c ∈ ['\n', '\r', '#'] := by
      intro c hc
      rw [hline, List.dropWhile_append] at hc
      split at hc
      · cases more with
        | nil => cases hc
        | cons d more =>
          obtain rfl := hcomment d rfl
          rw [List.dropWhile_cons_of_neg (by decide)] at hc
          obtain rfl := Option.some.inj hc
          decide
      · rename_i hne
        cases hdrop : spaces.dropWhile isBlankChar with
        | nil => exact absurd (by rw [hdrop]; rfl) hne
        | cons d rest =>
          rw [hdrop] at hc
          obtain rfl := Option.some.inj hc
          have hblank : isBlankChar d = false := by
            have hnot := List.head?_dropWhile_not isBlankChar spaces
            rw [hdrop] at hnot
            simpa using hnot
          have hmem : d ∈ spaces := (List.dropWhile_suffix isBlankChar).subset (hdrop ▸ List.mem_cons_self)
          have hchars : ∀ c ∈ [' ', '\t', '\n', '\r'], isBlankChar c = false → c ∈ ['\n', '\r', '#'] :=
            List.all_iff_forall_prop.mp (by decide)
          exact hchars d (hspaces d hmem) hblank
    have hat : (line.dropWhile isBlankChar).head? ≠ some '@' := by
      intro hat
      exact absurd (hhead '@' hat) (by decide)
    rw [skipAnnotations_of_ne _ _ hat] at hskip
    obtain ⟨-, rfl⟩ := Prod.mk.inj (Option.some.inj hskip)
    have hkeywords : ∀ p ∈ prefixes, (p.1.head?.any fun c => c ∉ ['\n', '\r', '#']) = true := by decide
    have hkeyword := hkeywords p hp
    obtain ⟨tail, htail⟩ := hstarts
    cases hp1 : p.1 with
    | nil =>
      rw [hp1] at hkeyword
      cases hkeyword
    | cons c rest =>
      rw [hp1] at hkeyword htail
      exact absurd (hhead c (by rw [← htail]; rfl)) (of_decide_eq_true hkeyword)

theorem not_isMember_of_not_isStatement {line : Text} (h : isStatement line = false) (kind : SymbolKind) :
    isMember kind line = false := by
  unfold isMember
  rw [parseDeclaration_of_not_isStatement h, Option.any_none, Bool.and_false]

/-- The last member of a kind, or what was found before, by the lines of its value. -/
theorem lastOfKind_spec (kind : SymbolKind) (i : Nat) (lines : List Text) (found : Option Nat × Option Nat) :
    ((∃ m, LastOf (isMember kind) lines m ∧
        (lastOfKind kind i lines found).1 = some (i + m + valueLength {} (lines.drop m))) ∨
      (∀ line ∈ lines, isMember kind line = false) ∧ (lastOfKind kind i lines found).1 = found.1) ∧
    ((∃ m, LastOf (isOnreadyMember kind) lines m ∧
        (lastOfKind kind i lines found).2 = some (i + m + valueLength {} (lines.drop m))) ∨
      (∀ line ∈ lines, isOnreadyMember kind line = false) ∧ (lastOfKind kind i lines found).2 = found.2) := by
  induction lines generalizing i found with
  | nil =>
    exact ⟨.inr ⟨fun line hline => absurd hline List.not_mem_nil, rfl⟩,
      .inr ⟨fun line hline => absurd hline List.not_mem_nil, rfl⟩⟩
  | cons line lines ih =>
    have hstep : lastOfKind kind i (line :: lines) found = lastOfKind kind (i + 1) lines
        (if isMember kind line = true then some (i + valueLength {} (line :: lines)) else found.1,
          if isOnreadyMember kind line = true then some (i + valueLength {} (line :: lines)) else found.2) := by
      rw [lastOfKind]
      unfold isOnreadyMember isMember
      dsimp only
      split <;> rename_i hmember
      · rw [hmember, Bool.true_and]
      · rw [Bool.not_eq_true] at hmember
        rw [hmember, Bool.false_and]
        rfl
    rw [hstep]
    obtain ⟨hfirst, hsecond⟩ := ih (i + 1) (if isMember kind line = true then some (i + valueLength {} (line :: lines))
      else found.1, if isOnreadyMember kind line = true then some (i + valueLength {} (line :: lines)) else found.2)
    have hone : ∀ {p : Text → Bool} {result before : Option Nat},
        ((∃ m, LastOf p lines m ∧ result = some (i + 1 + m + valueLength {} (lines.drop m))) ∨
          (∀ line ∈ lines, p line = false) ∧
            result = if p line = true then some (i + valueLength {} (line :: lines)) else before) →
        (∃ m, LastOf p (line :: lines) m ∧ result = some (i + m + valueLength {} ((line :: lines).drop m))) ∨
          (∀ found ∈ line :: lines, p found = false) ∧ result = before := by
      rintro p result before (⟨m, hlast, rfl⟩ | ⟨hnone, rfl⟩)
      · refine .inl ⟨m + 1, lastOf_succ.mpr hlast, ?_⟩
        rw [List.drop_succ_cons, Nat.add_right_comm i 1 m, Nat.add_assoc i m 1]
      · by_cases hline : p line = true
        · refine .inl ⟨0, lastOf_zero.mpr ⟨hline, hnone⟩, ?_⟩
          rw [if_pos hline, List.drop_zero, Nat.add_zero]
        · rw [if_neg hline]
          exact .inr ⟨List.forall_mem_cons.mpr ⟨Bool.eq_false_iff.mpr hline, hnone⟩, rfl⟩
    exact ⟨hone hfirst, hone hsecond⟩

/-- The member that a created one is put beside, in a script whose header ends before line `n`: the last of its kind
below the header, for an `@onready` variable the last `@onready` one. -/
def Beside (lines : List Text) (newDefinition : Text) (kind : SymbolKind) (n m : Nat) : Prop :=
  n ≤ m ∧ if isOnready newDefinition = true ∧ (lines.drop n).any (isOnreadyMember kind) = true then
    LastOf (isOnreadyMember kind) lines m else LastOf (isMember kind) lines m

/-! ## The lines of a value -/

/-- Read from its first line on, in `state`, a value ends `v` lines below: something is open after each line before, and
nothing after that one, unless it is the last. -/
structure ValueEnds (state : BlockState) (lines : List Text) (v : Nat) : Prop where
  lt : v < lines.length
  continued : ∀ k, 0 < k → k ≤ v → ((lines.take k).foldl BlockState.countBrackets state).continued = true
  closed : ((lines.take (v + 1)).foldl BlockState.countBrackets state).continued = false ∨ v + 1 = lines.length

theorem valueEnds_valueLength (state : BlockState) (hne : lines ≠ []) :
    ValueEnds state lines (valueLength state lines) := by
  induction lines generalizing state with
  | nil => exact absurd rfl hne
  | cons line lines ih =>
    rw [valueLength]
    by_cases hends : (state.countBrackets line).continued = false ∨ lines = []
    · rw [if_pos hends]
      refine ⟨Nat.succ_pos _, fun k hpos hle => absurd hpos (Nat.not_lt.mpr hle), ?_⟩
      rcases hends with hclosed | rfl
      · exact .inl hclosed
      · exact .inr rfl
    · rw [if_neg hends]
      obtain ⟨hclosed, hne⟩ := not_or.mp hends
      obtain ⟨hlt, hcontinued, hend⟩ := ih (state.countBrackets line) hne
      refine ⟨Nat.succ_lt_succ hlt, fun k hpos hle => ?_, ?_⟩
      · obtain ⟨k, rfl⟩ := Nat.exists_eq_succ_of_ne_zero (Nat.ne_of_gt hpos)
        rw [Nat.succ_eq_add_one, List.take_succ_cons, List.foldl_cons]
        rcases Nat.eq_zero_or_pos k with rfl | hk
        · exact Bool.not_eq_false _ ▸ hclosed
        · exact hcontinued k hk (Nat.le_of_succ_le_succ hle)
      · rw [List.take_succ_cons, List.foldl_cons, List.length_cons]
        exact hend.imp_right (congrArg (· + 1))

theorem ValueEnds.unique {state : BlockState} {v v' : Nat} (h : ValueEnds state lines v)
    (h' : ValueEnds state lines v') : v = v' := by
  have hle : ∀ {v v' : Nat}, ValueEnds state lines v → ValueEnds state lines v' → v ≤ v' := by
    intro v v' h h'
    by_contra hlt
    have hcontinued := h.continued (v' + 1) (Nat.succ_pos v') (by omega)
    rcases h'.closed with hclosed | hlast
    · rw [hclosed] at hcontinued
      cases hcontinued
    · have := h.lt
      omega
  exact Nat.le_antisymm (hle h h') (hle h' h)

/-! ## Room for a member -/

/-- There is room after the member in line `m`. Where it begins a statement, nothing is open or joined after the lines of
its value, and what follows stands in no block. -/
def RoomAfter (lines : List Text) (m : Nat) : Prop :=
  if (layoutOf lines m).inside = false then
    ∃ e, m ≤ e ∧ e < lines.length ∧ (∀ k, m < k → k ≤ e → (layoutOf lines k).block.continued = true) ∧
      ClassLevel lines (e + 1)
  else ∃ v, ValueEnds {} (lines.drop m) v ∧ ClassLevel lines (m + v + 1)

/-- There is room below a header that ends before line `n`. -/
def RoomBelow (lines : List Text) (n : Nat) : Prop :=
  if (layoutOf lines n).inside = false then ∀ line ∈ (statements {} (lines.drop n)).head?, getIndentLevel line = 0
  else ClassLevel lines (n + docLength (lines.drop n))

/-- There is room for a member: after the one it is put beside, or else below the header. -/
def Room (lines : List Text) (newDefinition : Text) (kind : SymbolKind) : Prop :=
  ∃ n, HeaderEnds lines n ∧ ((∃ m, Beside lines newDefinition kind n m ∧ RoomAfter lines m) ∨
    (∀ line ∈ lines.drop n, isMember kind line = false) ∧ RoomBelow lines n)

theorem roomAfter_iff {m : Nat} (hm : m < lines.length) :
    RoomAfter lines m ↔ ClassLevel lines (m + valueLength {} (lines.drop m) + 1) := by
  have hne : lines.drop m ≠ [] := by
    rw [Ne, List.drop_eq_nil_iff]
    omega
  have hends := valueEnds_valueLength {} hne
  unfold RoomAfter
  split
  · rename_i hstart
    have hblock : ∀ k, ((lines.drop m).take k).foldl BlockState.countBrackets {} = (layoutOf lines (m + k)).block := by
      intro k
      rw [layoutOf_add, block_foldl_read, eq_start_of_not_inside hstart]
    constructor
    · rintro ⟨e, hle, hlt, hcontinued, hlevel⟩
      obtain ⟨v, rfl⟩ := Nat.exists_eq_add_of_le hle
      have hv : ValueEnds {} (lines.drop m) v := by
        refine ⟨by rw [List.length_drop]; omega, fun k hpos hkv => ?_, .inl ?_⟩
        · rw [hblock]
          exact hcontinued (m + k) (by omega) (by omega)
        · rw [hblock, ← Nat.add_assoc]
          exact (Bool.or_eq_false_iff.mp hlevel.outside).1
      rwa [hends.unique hv]
    · intro hlevel
      have hlt := hends.lt
      rw [List.length_drop] at hlt
      refine ⟨_, Nat.le_add_right m _, by omega, fun k hmk hke => ?_, hlevel⟩
      obtain ⟨j, rfl⟩ := Nat.exists_eq_add_of_le (Nat.le_of_lt hmk)
      rw [← hblock]
      exact hends.continued j (by omega) (by omega)
  · constructor
    · rintro ⟨v, hv, hlevel⟩
      rwa [hends.unique hv]
    · exact fun hlevel => ⟨_, hends, hlevel⟩

theorem roomBelow_iff (lines : List Text) (n : Nat) :
    RoomBelow lines n ↔ ClassLevel lines (n + docLength (lines.drop n)) := by
  unfold RoomBelow
  split
  · rename_i hstart
    obtain ⟨hlayout, hstatements⟩ := statements_of_not (@not_isStatement_of_doc (lines.drop n))
      (lines.drop (n + docLength (lines.drop n)))
    have hbelow : statements {} (lines.drop n) = statements {} (lines.drop (n + docLength (lines.drop n))) := by
      rw [← hstatements, ← List.drop_drop, List.take_append_drop]
    rw [hbelow]
    refine ⟨fun h => ⟨?_, h⟩, ClassLevel.column⟩
    rw [layoutOf_add, eq_start_of_not_inside hstart, hlayout]
    rfl
  · exact Iff.rfl

/-- The lines between the header and the end of the doc comment declare nothing. -/
theorem forall_drop_insertPosition {q : Text → Bool} (hq : ∀ line, isStatement line = false → q line = false)
    (lines : List Text) : (∀ line ∈ lines.drop (insertPosition lines), q line = false) ↔
      ∀ line ∈ lines.drop (headerLength lines), q line = false := by
  rw [insertPosition_eq, ← List.drop_drop]
  constructor
  · intro h line hline
    rw [← List.take_append_drop (docLength (lines.drop (headerLength lines))) (lines.drop (headerLength lines))] at hline
    rcases List.mem_append.mp hline with hline | hline
    · exact hq line (not_isStatement_of_doc line hline)
    · exact h line hline
  · exact fun h line hline => h line (List.mem_of_mem_drop hline)

theorem not_isOnreadyMember_of_not_isStatement {line : Text} (h : isStatement line = false) (kind : SymbolKind) :
    isOnreadyMember kind line = false := by
  unfold isOnreadyMember
  rw [not_isMember_of_not_isStatement h kind, Bool.false_and]

/-- A created member is put after the value of the member it is put beside, or there is none. -/
theorem besideOf_spec (lines : List Text) (newDefinition : Text) (kind : SymbolKind) :
    (∃ m, Beside lines newDefinition kind (headerLength lines) m ∧
      besideOf lines newDefinition kind = some (m + valueLength {} (lines.drop m))) ∨
    (∀ line ∈ lines.drop (headerLength lines), isMember kind line = false) ∧
      besideOf lines newDefinition kind = none := by
  have hposition := insertPosition_eq lines
  obtain ⟨hfirst, hsecond⟩ := lastOfKind_spec kind (insertPosition lines) (lines.drop (insertPosition lines)) (none, none)
  rw [forall_drop_insertPosition fun line h => not_isMember_of_not_isStatement h kind] at hfirst
  rw [forall_drop_insertPosition fun line h => not_isOnreadyMember_of_not_isStatement h kind] at hsecond
  simp only [lastOf_drop, List.drop_drop] at hfirst hsecond
  unfold besideOf
  dsimp only
  generalize lastOfKind kind (insertPosition lines) (lines.drop (insertPosition lines)) (none, none) = found at *
  obtain ⟨last, lastOnready⟩ := found
  dsimp only at hfirst hsecond ⊢
  have honready : lastOnready.isSome = true ↔ (lines.drop (headerLength lines)).any (isOnreadyMember kind) = true := by
    rw [List.any_eq_true]
    rcases hsecond with ⟨m, hlast, rfl⟩ | ⟨hnone, rfl⟩
    · refine iff_of_true rfl (by_contra fun hnot => ?_)
      obtain ⟨⟨line, hline, hp⟩, -⟩ := hlast
      refine hnot ⟨line, ?_, hp⟩
      refine List.mem_of_getElem? (i := insertPosition lines + m - headerLength lines) ?_
      rw [List.getElem?_drop, ← hline]
      congr 1
      omega
    · refine iff_of_false (fun hsome => by cases hsome) ?_
      rintro ⟨line, hline, hp⟩
      rw [hnone line hline] at hp
      cases hp
  unfold Beside
  by_cases hboth : isOnready newDefinition = true ∧ (lines.drop (headerLength lines)).any (isOnreadyMember kind) = true
  · rw [if_pos ⟨hboth.1, honready.mpr hboth.2⟩]
    rcases hsecond with ⟨m, hlast, rfl⟩ | ⟨hnone, rfl⟩
    · refine .inl ⟨_, ⟨?_, ?_⟩, rfl⟩
      · omega
      · rw [if_pos hboth]
        exact hlast
    · exact absurd (honready.mpr hboth.2) (by decide)
  · rw [if_neg fun h => hboth ⟨h.1, honready.mp h.2⟩]
    rcases hfirst with ⟨m, hlast, rfl⟩ | ⟨hnone, rfl⟩
    · refine .inl ⟨_, ⟨?_, ?_⟩, rfl⟩
      · omega
      · rw [if_neg hboth]
        exact hlast
    · exact .inr ⟨hnone, rfl⟩

/-- The insertion point is after the value of the member it is put beside, or below the header. -/
theorem insertionPoint_spec (lines : List Text) (newDefinition : Text) (kind : SymbolKind) :
    (∃ m, Beside lines newDefinition kind (headerLength lines) m ∧
      insertionPoint lines newDefinition kind = m + valueLength {} (lines.drop m) + 1) ∨
    (∀ line ∈ lines.drop (headerLength lines), isMember kind line = false) ∧
      insertionPoint lines newDefinition kind = headerLength lines + docLength (lines.drop (headerLength lines)) := by
  unfold insertionPoint
  rcases besideOf_spec lines newDefinition kind with ⟨m, hm, hbeside⟩ | ⟨hnone, hbeside⟩
  · rw [hbeside]
    exact .inl ⟨m, hm, rfl⟩
  · rw [hbeside]
    exact .inr ⟨hnone, insertPosition_eq lines⟩

theorem Beside.lt {newDefinition : Text} {kind : SymbolKind} {n m : Nat}
    (h : Beside lines newDefinition kind n m) : m < lines.length := by
  obtain ⟨-, hlast⟩ := h
  split at hlast
  · exact hlast.lt
  · exact hlast.lt

theorem Beside.unique {newDefinition : Text} {kind : SymbolKind} {n m m' : Nat}
    (h : Beside lines newDefinition kind n m) (h' : Beside lines newDefinition kind n m') : m = m' := by
  obtain ⟨-, hlast⟩ := h
  obtain ⟨-, hlast'⟩ := h'
  split at hlast <;> rename_i hboth
  · rw [if_pos hboth] at hlast'
    exact hlast.unique hlast'
  · rw [if_neg hboth] at hlast'
    exact hlast.unique hlast'

theorem Beside.isMember {newDefinition : Text} {kind : SymbolKind} {n m : Nat}
    (h : Beside lines newDefinition kind n m) : ∃ line ∈ lines.drop n, isMember kind line = true := by
  obtain ⟨hle, hlast⟩ := h
  have hmem : ∃ line ∈ lines[m]?, Script.isMember kind line = true := by
    split at hlast
    · obtain ⟨⟨line, hline, hp⟩, -⟩ := hlast
      exact ⟨line, hline, (Bool.and_eq_true_iff.mp hp).1⟩
    · exact hlast.1
  obtain ⟨line, hline, hp⟩ := hmem
  refine ⟨line, List.mem_of_getElem? (i := m - n) ?_, hp⟩
  rw [List.getElem?_drop, Nat.add_sub_cancel' hle]
  exact hline

/-- The insertion point is at class level where there is room. -/
theorem classLevel_insertionPoint_iff (lines : List Text) (newDefinition : Text) (kind : SymbolKind) :
    ClassLevel lines (insertionPoint lines newDefinition kind) ↔ Room lines newDefinition kind := by
  unfold Room
  simp only [headerEnds_iff, exists_eq_left]
  rcases insertionPoint_spec lines newDefinition kind with ⟨m, hbeside, hpoint⟩ | ⟨hnone, hpoint⟩
  · rw [hpoint, ← roomAfter_iff hbeside.lt]
    constructor
    · exact fun h => .inl ⟨m, hbeside, h⟩
    · rintro (⟨m', hbeside', h⟩ | ⟨hnone, -⟩)
      · rwa [hbeside.unique hbeside']
      · obtain ⟨line, hline, hp⟩ := hbeside.isMember
        rw [hnone line hline] at hp
        cases hp
  · rw [hpoint, ← roomBelow_iff]
    constructor
    · exact fun h => .inr ⟨hnone, h⟩
    · rintro (⟨m, hbeside, -⟩ | ⟨-, h⟩)
      · obtain ⟨line, hline, hp⟩ := hbeside.isMember
        rw [hnone line hline] at hp
        cases hp
      · exact h

/-! ## The patch -/

/-- A symbol that is created is one that no line declares. -/
theorem patchSymbol_created {sourceText symbolName newDefinition : Text} {symbolType : String} {createIfMissing : Bool}
    {patched : SymbolPatch} (h : patchSymbol sourceText symbolName newDefinition symbolType createIfMissing = .ok patched)
    (hcreated : patched.created = true) : ∃ kind, symbolTypes.lookup symbolType = some kind ∧
      findDeclarationLines (sourceText.splitOn '\n') symbolName kind = [] ∧
      patched.sourceText = createdText sourceText newDefinition kind := by
  unfold patchSymbol at h
  cases hvalid : validatePatchArguments symbolName newDefinition symbolType with
  | error e =>
    rw [hvalid] at h
    cases h
  | ok kind =>
    rw [hvalid] at h
    refine ⟨kind, lookup_of_validate hvalid, ?_⟩
    simp only [bind, Except.bind] at h
    cases hfound : findDeclarationLines (sourceText.splitOn '\n') symbolName kind with
    | nil =>
      rw [hfound] at h
      dsimp only at h
      split at h
      · rw [← Except.ok.inj h]
        exact ⟨rfl, rfl⟩
      · cases h
    | cons i rest =>
      rw [hfound] at h
      cases rest with
      | nil =>
        rw [← Except.ok.inj h] at hcreated
        cases hcreated
      | cons j rest => cases h

/-- **A created member lands at class level exactly where there is room for it:** between two statements of the script's
own class, so that no statement of the script changes its scope. -/
theorem created_lands_iff {sourceText symbolName newDefinition : Text} {symbolType : String} {createIfMissing : Bool}
    {patched : SymbolPatch} {kind : SymbolKind}
    (h : patchSymbol sourceText symbolName newDefinition symbolType createIfMissing = .ok patched)
    (hcreated : patched.created = true) (hkind : symbolTypes.lookup symbolType = some kind)
    (hmember : kind ∈ [.variable, .constant, .signal, .enum]) :
    Lands (sourceText.splitOn '\n') newDefinition kind patched.sourceText ↔
      Room (sourceText.splitOn '\n') newDefinition kind := by
  obtain ⟨found, hfound, -, htext⟩ := patchSymbol_created h hcreated
  obtain rfl : kind = found := Option.some.inj (hkind.symm.trans hfound)
  have hother : ¬ (kind = .function ∨ kind = .klass) := by
    rintro (rfl | rfl) <;> exact absurd hmember (by decide)
  obtain ⟨inserted, hinserted⟩ := @createdText_inserts sourceText newDefinition kind hother
  rw [← classLevel_insertionPoint_iff, htext]
  constructor
  · exact And.left
  · intro hlevel
    exact ⟨hlevel, inserted, hinserted, fun hclosed => scopes_insert hlevel hclosed⟩

/-- A script with a variable between its header and its function. -/
def counter : Text := "extends Node\n\nvar hp = [\n\t1]\n\nfunc run():\n\tpass".toList

theorem created_lands_iff_counter :
    Lands (counter.splitOn '\n') "var mp = 1".toList .variable
        "extends Node\n\nvar hp = [\n\t1]\nvar mp = 1\n\nfunc run():\n\tpass".toList ↔
      Room (counter.splitOn '\n') "var mp = 1".toList .variable :=
  @created_lands_iff counter "mp".toList "var mp = 1".toList "variable" true
    ⟨"extends Node\n\nvar hp = [\n\t1]\nvar mp = 1\n\nfunc run():\n\tpass".toList, true, 0, 0⟩ .variable
    (Except.toOption_eq_some.mp (by decide +kernel)) rfl rfl (by decide)

/-- A variable with a setter, in lines of its own. -/
def withSetter : Text := "var hp = 0:\n\tset(value):\n\t\thp = value".toList

/-- The new variable comes between the old one and its setter. -/
theorem not_created_lands : ¬ ∀ (sourceText symbolName newDefinition : Text) (symbolType : String)
    (patched : SymbolPatch) (kind : SymbolKind),
    patchSymbol sourceText symbolName newDefinition symbolType true = .ok patched → patched.created = true →
      symbolTypes.lookup symbolType = some kind → kind ∈ [.variable, .constant, .signal, .enum] →
      Lands (sourceText.splitOn '\n') newDefinition kind patched.sourceText := by
  intro h
  have hlands := h withSetter "mp".toList "var mp = 1".toList "variable"
    ⟨"var hp = 0:\nvar mp = 1\n\tset(value):\n\t\thp = value".toList, true, 0, 0⟩ .variable rfl rfl rfl (by decide)
  have hcolumn := hlands.1.column "\tset(value):".toList (by decide)
  revert hcolumn
  decide

end Didi.Script
