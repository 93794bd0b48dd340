import Mathlib.Data.Set.Card
import Didi.Lib.Locked
import Didi.Search.Lines

/-!
# What the text search misses

* `Occurs`, `Qualifies` : the query stands at a place of a line, and with no identifier byte beside it;
* `Taken` : the occurrences that begin in no earlier one that is taken itself; `mem_occurrences` : the search looks at
  these;
* `Clear`, `clearTotal` : the matches that there are to be reported;
* `Reports` : every line with an occurrence that qualifies is reported, and no other;
* `reports_iff` : the search reports so exactly when it has enough matches without, or no line has all its occurrences
  that qualify inside others.
-/

namespace Didi.Search
open Didi.Config Didi.Script

/-! ## Occurrences -/

/-- The query stands here in the line, as the two are compared. -/
def Occurs (options : SearchOptions) (line : Text) (start : Nat) : Prop :=
  options.folded options.query <+: (options.folded line).drop start

/-- It stands here, and with a whole word asked for no byte beside it is of an identifier. -/
def Qualifies (options : SearchOptions) (line : Text) (start : Nat) : Prop :=
  Occurs options line start ∧ (options.wholeWord = true →
    (∀ c, 0 < start → (line)[start - 1]? = some c → isIdentifierByte c = false) ∧
      ∀ c, (line)[start + options.query.length]? = some c → isIdentifierByte c = false)

/-- An occurrence that begins in no earlier one that is taken. -/
def Taken (query text : Text) (start : Nat) : Prop :=
  query <+: text.drop start ∧ ∀ earlier, (_ : earlier < start) → Taken query text earlier →
    earlier + query.length ≤ start
termination_by start

section Occurrences
variable {query text rest : Text} {offset skip start : Nat}

theorem taken_iff : Taken query text start ↔
    query <+: text.drop start ∧ ∀ earlier < start, Taken query text earlier → earlier + query.length ≤ start := by
  rw [Taken]

theorem lt_of_taken (hquery : query ≠ []) (h : Taken query text start) : start < text.length := by
  by_contra hle
  have hprefix := (taken_iff.mp h).1
  rw [List.drop_eq_nil_of_le (not_lt.mp hle)] at hprefix
  exact hquery (List.prefix_nil.mp hprefix)

/-- The search looks at the occurrences that are taken: `skip` bytes are still inside the last of them. -/
theorem mem_occurrences_of (hquery : query ≠ []) (hrest : text.drop offset = rest)
    (hbefore : ∀ earlier < offset, Taken query text earlier → earlier + query.length ≤ offset + skip)
    (hskip : 0 < skip → ∃ earlier < offset, Taken query text earlier ∧ earlier + query.length = offset + skip) :
    start ∈ occurrences query offset skip rest ↔ offset ≤ start ∧ Taken query text start := by
  have hlength := List.length_pos_iff.mpr hquery
  induction rest generalizing offset skip with
  | nil =>
    have hno : ¬ (offset ≤ start ∧ Taken query text start) := by
      rintro ⟨hle, htaken⟩
      have hlt := lt_of_taken hquery htaken
      rw [List.drop_eq_nil_iff] at hrest
      omega
    cases skip <;> simpa [occurrences] using hno
  | cons c rest ih =>
    have hrest' : text.drop (offset + 1) = rest := by rw [← List.drop_drop, hrest, List.drop_one, List.tail_cons]
    have hfrom (h : ¬ Taken query text offset) :
        (offset + 1 ≤ start ∧ Taken query text start) ↔ (offset ≤ start ∧ Taken query text start) := by
      constructor
      · rintro ⟨hle, htaken⟩
        exact ⟨by omega, htaken⟩
      · rintro ⟨hle, htaken⟩
        refine ⟨lt_of_le_of_ne hle ?_, htaken⟩
        rintro rfl
        exact h htaken
    have hbefore' {skip' : Nat} (hle : skip ≤ skip' + 1)
        (hhere : Taken query text offset → query.length ≤ skip' + 1) :
        ∀ j < offset + 1, Taken query text j → j + query.length ≤ offset + 1 + skip' := by
      intro j hj hjtaken
      rcases Nat.lt_succ_iff_lt_or_eq.mp hj with hj | rfl
      · have hends := hbefore j hj hjtaken
        omega
      · have hlength := hhere hjtaken
        omega
    cases skip with
    | succ skip =>
      obtain ⟨earlier, hlt, htaken, heq⟩ := hskip (Nat.succ_pos skip)
      have hinside : ¬ Taken query text offset := by
        intro h
        have hle := (taken_iff.mp h).2 earlier hlt htaken
        omega
      rw [occurrences, ← hfrom hinside]
      exact ih hrest' (hbefore' le_rfl (absurd · hinside)) fun _ => ⟨earlier, by omega, htaken, by omega⟩
    | zero =>
      have htaken : Taken query text offset ↔ query.isPrefixOf (c :: rest) = true := by
        rw [taken_iff, List.isPrefixOf_iff_prefix, hrest]
        exact and_iff_left fun j hj hjtaken => hbefore j hj hjtaken
      rw [occurrences]
      split_ifs with hprefix
      · have htaken := htaken.mpr hprefix
        have hnext : start ∈ occurrences query (offset + 1) (max 1 query.length - 1) rest ↔
            offset + 1 ≤ start ∧ Taken query text start :=
          ih hrest' (hbefore' (by omega) fun _ => by omega) fun _ =>
            ⟨offset, Nat.lt_succ_self offset, htaken, by omega⟩
        rw [List.mem_cons, hnext]
        constructor
        · rintro (rfl | ⟨hle, h⟩)
          · exact ⟨le_rfl, htaken⟩
          · exact ⟨by omega, h⟩
        · rintro ⟨hle, h⟩
          rcases eq_or_lt_of_le hle with rfl | hlt
          · exact .inl rfl
          · exact .inr ⟨hlt, h⟩
      · have hnot : ¬ Taken query text offset := fun h => hprefix (htaken.mp h)
        rw [← hfrom hnot]
        exact ih hrest' (hbefore' (Nat.zero_le _) (absurd · hnot)) fun h => absurd h (lt_irrefl 0)

theorem mem_occurrences (hquery : query ≠ []) : start ∈ occurrences query 0 0 text ↔ Taken query text start := by
  have hall : start ∈ occurrences query 0 0 text ↔ 0 ≤ start ∧ Taken query text start :=
    mem_occurrences_of hquery List.drop_zero (fun _ h => absurd h (Nat.not_lt_zero _)) fun h => absurd h (lt_irrefl 0)
  exact hall.trans (and_iff_right (Nat.zero_le start))

theorem occurrences_ge : ∀ start ∈ occurrences query offset skip text, offset ≤ start := by
  induction text generalizing offset skip with
  | nil => cases skip <;> simp [occurrences]
  | cons c text ih =>
    intro start h
    cases skip with
    | succ skip =>
      rw [occurrences] at h
      exact Nat.le_of_succ_le (ih start h)
    | zero =>
      rw [occurrences] at h
      split_ifs at h
      · rcases List.mem_cons.mp h with rfl | h
        · exact le_rfl
        · exact Nat.le_of_succ_le (ih start h)
      · exact Nat.le_of_succ_le (ih start h)

theorem nodup_occurrences : (occurrences query offset skip text).Nodup := by
  induction text generalizing offset skip with
  | nil => cases skip <;> simp [occurrences]
  | cons c text ih =>
    cases skip with
    | succ skip =>
      rw [occurrences]
      exact ih
    | zero =>
      rw [occurrences]
      split_ifs
      · exact List.nodup_cons.mpr ⟨fun h => absurd (occurrences_ge _ h) (by omega), ih⟩
      · exact ih

end Occurrences

/-! ## The matches of a line -/

section Line
variable {options : SearchOptions} {line : Text} {start : Nat}

theorem length_folded (value : Text) : (options.folded value).length = value.length := by
  rw [SearchOptions.folded]
  split_ifs
  · rfl
  · exact List.length_map _

theorem getElem?_folded (value : Text) (i : Nat) (f : Char → Bool) (hf : ∀ c : Char, f c.toLower = f c) :
    ((options.folded value)[i]?).any f = (value[i]?).any f := by
  rw [SearchOptions.folded]
  split_ifs
  · rfl
  · rw [asciiFold, List.getElem?_map]
    cases value[i]? with
    | none => rfl
    | some c => exact hf c

theorem toLower_of_ge {c : Char} (h : 128 ≤ c.toNat) : c.toLower = c := by
  delta Char.toLower
  apply dif_neg
  rintro ⟨-, hle⟩
  have hle : c.toNat ≤ 90 := hle
  omega

/-- A letter stays what it is for a search when it is folded. -/
theorem kinds_toLower (c : Char) :
    isIdentifierByte c.toLower = isIdentifierByte c ∧ isContinuation c.toLower = isContinuation c := by
  by_cases h : 128 ≤ c.toNat
  · rw [toLower_of_ge h]
    exact ⟨rfl, rfl⟩
  · have hall : ∀ n < 128, isIdentifierByte (Char.ofNat n).toLower = isIdentifierByte (Char.ofNat n) ∧
        isContinuation (Char.ofNat n).toLower = isContinuation (Char.ofNat n) := by
      decide
    rw [← Char.ofNat_toNat c]
    exact hall c.toNat (not_le.mp h)

theorem isIdentifierByte_toLower (c : Char) : isIdentifierByte c.toLower = isIdentifierByte c := (kinds_toLower c).1

theorem isContinuation_toLower (c : Char) : isContinuation c.toLower = isContinuation c := (kinds_toLower c).2

theorem any_eq_false_iff {o : Option Char} :
    (!o.any isIdentifierByte) = true ↔ ∀ c, o = some c → isIdentifierByte c = false := by
  cases o <;> simp

theorem qualifies_iff : Qualifies options line start ↔
    Occurs options line start ∧ standsAlone options (options.folded line) start = true := by
  rw [Qualifies]
  refine and_congr_right fun _ => ?_
  rw [standsAlone, getElem?_folded _ _ _ isIdentifierByte_toLower, getElem?_folded _ _ _ isIdentifierByte_toLower,
    length_folded]
  cases options.wholeWord with
  | false => simp
  | true =>
    have hafter : (start + options.query.length = line.length ∨
        ∀ c, (line)[start + options.query.length]? = some c → isIdentifierByte c = false) ↔
        ∀ c, (line)[start + options.query.length]? = some c → isIdentifierByte c = false := by
      refine or_iff_right_of_imp fun h c hc => ?_
      rw [h, List.getElem?_eq_none le_rfl] at hc
      cases hc
    rw [Bool.and_eq_true, Bool.or_eq_true, Bool.or_eq_true, Bool.or_eq_true, Bool.or_eq_true, decide_eq_true_iff,
      decide_eq_true_iff, Bool.not_true, any_eq_false_iff, any_eq_false_iff]
    simp only [Bool.false_eq_true, false_or, hafter, forall_const]
    refine and_congr_left fun _ => ?_
    rcases Nat.eq_zero_or_pos start with rfl | hpos
    · simp
    · simp [hpos, hpos.ne']

/-- An occurrence that qualifies and that the search comes to. -/
def Clear (options : SearchOptions) (line : Text) (start : Nat) : Prop :=
  Taken (options.folded options.query) (options.folded line) start ∧ Qualifies options line start

/-- The places of the matches in a line. -/
def hitsOf (options : SearchOptions) (line : Text) : List Nat :=
  (occurrences (options.folded options.query) 0 0 (options.folded line)).filter
    (standsAlone options (options.folded line))

theorem folded_ne_nil (h : options.query ≠ []) : options.folded options.query ≠ [] := by
  rw [← List.length_pos_iff, length_folded]
  exact List.length_pos_iff.mpr h

theorem mem_hitsOf (hquery : options.query ≠ []) : start ∈ hitsOf options line ↔ Clear options line start := by
  rw [hitsOf, List.mem_filter, mem_occurrences (folded_ne_nil hquery), Clear, qualifies_iff]
  refine and_congr_right fun htaken => ?_
  exact (and_iff_right (taken_iff.mp htaken).1).symm

/-- How many matches there are to be reported in a line. -/
noncomputable def clearCount (options : SearchOptions) (line : Text) : Nat := {start | Clear options line start}.ncard

theorem length_hitsOf (hquery : options.query ≠ []) : (hitsOf options line).length = clearCount options line := by
  have hset : {start | Clear options line start} = ((hitsOf options line).toFinset : Set Nat) := by
    ext start
    rw [List.coe_toFinset]
    exact (mem_hitsOf hquery).symm
  have hnodup : (hitsOf options line).Nodup := nodup_occurrences.filter _
  rw [clearCount, hset, Set.ncard_coe_finset, List.toFinset_card_of_nodup hnodup]

/-- The match at a place of a line. -/
def matchAt (path : Text) (entry : Text × Nat) (start : Nat) : TextMatch :=
  { path, line := entry.2, column := columnOf entry.1 start, preview := previewOf entry.1 }

end Line

/-! ## The matches of a run -/

/-- The lines of a file that can be read. -/
def textLines (file : FileRecord) : List Text :=
  match readTextFile file with
  | .ok contents => fileLines contents
  | .error _ => []

def fileMatches (options : SearchOptions) (file : FileRecord) : List TextMatch :=
  ((textLines file).zipIdx 1).flatMap fun entry => (hitsOf options entry.1).map (matchAt file.resourcePath entry)

/-- The search has found these after those, or it has returned with the first of them. -/
def Pushed (options : SearchOptions) (before results : List TextMatch) : Except SearchResponse SearchResponse → Prop
  | .ok response => response.found = before ++ results ∧ response.found.length < options.maxResults
  | .error response =>
    response.found = (before ++ results).take options.maxResults ∧ options.maxResults ≤ (before ++ results).length

section Run
variable {options : SearchOptions} {response : SearchResponse} {before results results' : List TextMatch}
  {x : Except SearchResponse SearchResponse}

theorem Pushed.append (h : Pushed options (before ++ results) results' x) :
    Pushed options before (results ++ results') x := by
  cases x with
  | ok response => exact ⟨h.1.trans (List.append_assoc ..), h.2⟩
  | error response =>
    obtain ⟨hfound, hle⟩ := h
    rw [List.append_assoc] at hfound hle
    exact ⟨hfound, hle⟩

theorem Pushed.bind {f : SearchResponse → Except SearchResponse SearchResponse} (h : Pushed options before results x)
    (hf : ∀ response, x = .ok response → Pushed options response.found results' (f response)) :
    Pushed options before (results ++ results') (x >>= f) := by
  cases x with
  | ok response =>
    have hpushed := hf response rfl
    rw [h.1] at hpushed
    exact hpushed.append
  | error response =>
    obtain ⟨hfound, hle⟩ := h
    refine ⟨?_, ?_⟩
    · rw [hfound, ← List.append_assoc, List.take_append_of_le_length hle]
    · rw [← List.append_assoc, List.length_append]
      omega

theorem pushed_nil (h : response.found.length < options.maxResults) :
    Pushed options response.found [] (.ok response) := ⟨(List.append_nil _).symm, h⟩

theorem pushed_addMatch (result : TextMatch) (h : response.found.length < options.maxResults) :
    Pushed options response.found [result] (addMatch options response result) := by
  rw [addMatch]
  dsimp only
  split_ifs with hfull
  · refine ⟨?_, hfull⟩
    rw [List.length_append, List.length_singleton] at hfull
    exact (List.take_of_length_le (by rw [List.length_append, List.length_singleton]; omega)).symm
  · exact ⟨rfl, not_le.mp hfull⟩

/-- A loop whose steps each push their results pushes them all. -/
theorem pushed_foldlM {α : Type} {f : SearchResponse → α → Except SearchResponse SearchResponse}
    {resultsOf : α → List TextMatch}
    (hf : ∀ response a, response.found.length < options.maxResults →
      Pushed options response.found (resultsOf a) (f response a))
    (l : List α) (h : response.found.length < options.maxResults) :
    Pushed options response.found (l.flatMap resultsOf) (l.foldlM f response) := by
  induction l generalizing response with
  | nil => exact pushed_nil h
  | cons a l ih =>
    rw [List.foldlM_cons, List.flatMap_cons]
    refine (hf response a h).bind fun next hnext => ih ?_
    have hstep := hf response a h
    rw [hnext] at hstep
    exact hstep.2

theorem pushed_searchLine (path : Text) (entry : Text × Nat) (h : response.found.length < options.maxResults) :
    Pushed options response.found ((hitsOf options entry.1).map (matchAt path entry))
      (searchLine options path response entry) := by
  have hall : (hitsOf options entry.1).map (matchAt path entry) =
      (occurrences (options.folded options.query) 0 0 (options.folded entry.1)).flatMap fun start =>
        if standsAlone options (options.folded entry.1) start then [matchAt path entry start] else [] := by
    rw [hitsOf]
    induction occurrences (options.folded options.query) 0 0 (options.folded entry.1) with
    | nil => rfl
    | cons start l ih =>
      rw [List.flatMap_cons, ← ih, List.filter_cons]
      split_ifs <;> rfl
  rw [hall]
  refine pushed_foldlM (fun response start hlt => ?_) _ h
  split_ifs
  · exact pushed_addMatch _ hlt
  · exact pushed_nil hlt

theorem pushed_searchFile (file : FileRecord) (h : response.found.length < options.maxResults) :
    Pushed options response.found (fileMatches options file) (searchFile options response file) := by
  rw [searchFile, fileMatches, textLines]
  cases readTextFile file with
  | error e => exact ⟨(List.append_nil _).symm, h⟩
  | ok contents =>
    have hlt : { response with scannedFiles := response.scannedFiles + 1 }.found.length < options.maxResults := h
    exact pushed_foldlM (fun response entry hlt => pushed_searchLine file.resourcePath entry hlt) _ hlt

/-- The search finds the first of all the matches, as many as it may report. -/
theorem found_eq {collected : Collected} (h : searchText options collected = .ok response) : options.query ≠ [] ∧
    response.found = (collected.files.flatMap (fileMatches options)).take options.maxResults := by
  obtain ⟨⟨⟩, hvalid, hrun⟩ := Except.bind_eq_ok.mp h
  rw [validateCommon] at hvalid
  split_ifs at hvalid with hbad hrange
  refine ⟨fun hnil => hbad (.inl hnil), ?_⟩
  have hmax : 0 < options.maxResults := by
    rw [not_or, not_lt] at hrange
    exact hrange.1
  obtain rfl := Except.ok.inj hrun
  have hpushed : Pushed options [] (collected.files.flatMap (fileMatches options)) (collected.files.foldlM
      (searchFile options) { skippedFiles := collected.skippedFiles, truncated := collected.truncated }) :=
    pushed_foldlM (fun response file hlt => pushed_searchFile file hlt) collected.files hmax
  cases hfold : collected.files.foldlM (searchFile options)
      { skippedFiles := collected.skippedFiles, truncated := collected.truncated } with
  | error returned =>
    rw [hfold] at hpushed
    exact hpushed.1
  | ok response =>
    rw [hfold] at hpushed
    obtain ⟨hfound, hlt⟩ := hpushed
    rw [List.nil_append] at hfound
    rw [← hfound]
    exact (List.take_of_length_le hlt.le).symm

end Run

/-! ## Code points -/

section CodePoints
variable {bytes : List UInt8} {text line : Text} {file : FileRecord} {options : SearchOptions} {start : Nat}

/-- The bytes are so many characters. -/
def CodePoints (bytes : List UInt8) (n : Nat) : Prop :=
  ∃ characters : List (List UInt8), (∀ c ∈ characters, Utf8.IsCharacter c) ∧ characters.flatten = bytes ∧
    characters.length = n

theorem toNat_ofNat_byte (b : UInt8) : (Char.ofNat b.toNat).toNat = b.toNat := by
  have h : b.toNat.isValidChar := .inl (b.toNat_lt.trans (by decide))
  rw [Char.ofNat, dif_pos h]
  rfl

theorem isContinuation_ofNat (b : UInt8) : isContinuation (Char.ofNat b.toNat) = Utf8.continues b := by
  rw [isContinuation, toNat_ofNat_byte, Utf8.continues, Bool.eq_iff_iff, Bool.and_eq_true, decide_eq_true_iff,
    decide_eq_true_iff, decide_eq_true_iff, UInt8.le_iff_toNat_le, UInt8.le_iff_toNat_le]
  change _ ↔ 128 ≤ b.toNat ∧ b.toNat ≤ 191
  omega

theorem codePointCount_textOf : codePointCount (textOf bytes) = bytes.countP fun b => !Utf8.continues b := by
  rw [codePointCount, textOf, List.countP_map]
  refine List.countP_congr fun b _ => ?_
  rw [Function.comp_apply, isContinuation_ofNat]

theorem textOf_eq_newline {b : UInt8} : Char.ofNat b.toNat = '\n' ↔ b = 10 := by
  rw [← Char.toNat_inj, toNat_ofNat_byte, ← UInt8.toNat_inj]
  exact Iff.rfl

theorem textOf_eq_return {b : UInt8} : Char.ofNat b.toNat = '\r' ↔ b = 13 := by
  rw [← Char.toNat_inj, toNat_ofNat_byte, ← UInt8.toNat_inj]
  exact Iff.rfl

/-- The pieces between the newlines of a well-formed text are well formed. -/
theorem wellFormed_pieces {pieces : List Text} (h : Utf8.WellFormed bytes)
    (hsplit : (textOf bytes).splitOn '\n' = pieces) :
    ∀ piece ∈ pieces, ∃ part, piece = textOf part ∧ Utf8.WellFormed part := by
  induction pieces generalizing bytes with
  | nil => exact List.forall_mem_nil _
  | cons first pieces ih =>
    by_cases hlast : pieces = []
    · have hjoin : ['\n'].intercalate ((textOf bytes).splitOn '\n') = textOf bytes := List.intercalate_splitOn '\n'
      rw [hsplit, hlast] at hjoin
      rw [hlast]
      intro piece hpiece
      obtain rfl := List.mem_singleton.mp hpiece
      exact ⟨bytes, by simpa using hjoin, h⟩
    · obtain ⟨rest, htext, hrest⟩ := List.splitOn_eq_cons hsplit hlast
      obtain ⟨part, bytes', rfl, hpart, hbytes'⟩ := List.map_eq_append_iff.mp htext
      obtain ⟨b, tail, rfl, hb, htail⟩ := List.map_eq_cons_iff.mp hbytes'
      obtain rfl := textOf_eq_newline.mp hb
      have hfirst := Utf8.wellFormed_of_lead (by decide) h
      have hrestWell : Utf8.WellFormed tail :=
        (Utf8.wellFormed_ascii_append (s := [10]) (by decide)).mp ((Utf8.wellFormed_append hfirst).mp h)
      intro piece hpiece
      rcases List.mem_cons.mp hpiece with rfl | hpiece
      · exact ⟨part, hpart.symm, hfirst⟩
      · refine ih hrestWell ?_ piece hpiece
        rw [← hrest, ← htail]
        rfl

/-- The lines of a file are well formed. -/
theorem wellFormed_textLines (h : line ∈ textLines file) : ∃ part, line = textOf part ∧ Utf8.WellFormed part := by
  obtain ⟨bytes, hbytes, hline⟩ : ∃ bytes, Utf8.WellFormed bytes ∧ line ∈ fileLines (textOf bytes) := by
    rw [textLines, readTextFile] at h
    cases hfile : file.bytes with
    | none =>
      rw [hfile] at h
      cases h
    | some bytes =>
      rw [hfile] at h
      dsimp only at h
      split_ifs at h with hvalid
      · exact ⟨bytes, Validators.wellFormed_of_isValidUtf8Text hvalid, h⟩
      · cases h
  obtain ⟨piece, hpiece, rfl⟩ := mem_fileLines hline
  obtain ⟨part, rfl, hpart⟩ := wellFormed_pieces hbytes rfl piece hpiece
  rw [dropReturn]
  split_ifs with hreturn
  · obtain ⟨init, hinit⟩ := List.getLast?_eq_some_iff.mp hreturn
    obtain ⟨part', last, rfl, hpart', hlast⟩ := List.map_eq_append_iff.mp hinit
    obtain ⟨b, tail, rfl, hb, htail⟩ := List.map_eq_cons_iff.mp hlast
    obtain rfl := textOf_eq_return.mp hb
    obtain rfl := List.map_eq_nil_iff.mp htail
    refine ⟨part', ?_, (Utf8.wellFormed_append_ascii (t := [13]) (by decide)).mp hpart⟩
    rw [hinit, List.dropLast_concat]
    exact hpart'.symm
  · exact ⟨part, rfl, hpart⟩

/-- The byte where the query stands continues no character. -/
theorem lead_of_occurs {q : List UInt8} (hquery : options.query = textOf q) (hq : Utf8.WellFormed q)
    (hne : options.query ≠ []) (h : Occurs options line start) :
    ∃ c rest, line.drop start = c :: rest ∧ isContinuation c = false := by
  obtain ⟨b, tail, rfl⟩ : ∃ b tail, q = b :: tail := by
    cases q with
    | nil => exact absurd hquery hne
    | cons b tail => exact ⟨b, tail, rfl⟩
  obtain ⟨n, hn, -⟩ := Utf8.wellFormed_cons.mp hq
  have hlead : isContinuation (Char.ofNat b.toNat) = false := by
    rw [isContinuation_ofNat]
    exact (Utf8.character_continues hn).1
  have hquery : options.query = Char.ofNat b.toNat :: textOf tail := hquery
  rw [Occurs, hquery, SearchOptions.folded, SearchOptions.folded] at h
  split_ifs at h
  · obtain ⟨rest, hrest⟩ := h
    exact ⟨_, _, hrest.symm, hlead⟩
  · obtain ⟨rest, hrest⟩ := h
    rw [asciiFold, asciiFold, ← List.map_drop, List.map_cons, List.cons_append, eq_comm,
      List.map_eq_cons_iff] at hrest
    obtain ⟨c, rest', hdrop, hc, -⟩ := hrest
    refine ⟨c, rest', hdrop, ?_⟩
    rw [← isContinuation_toLower, hc, isContinuation_toLower, hlead]

/-- An occurrence begins a character. -/
theorem codePoints_before {q : List UInt8} (hquery : options.query = textOf q) (hq : Utf8.WellFormed q)
    (hne : options.query ≠ []) (hbytes : Utf8.WellFormed bytes) (h : Occurs options (textOf bytes) start) :
    ∃ before n, (textOf bytes).take start = textOf before ∧ CodePoints before n ∧
      columnOf (textOf bytes) start = 1 + n := by
  obtain ⟨c, rest, hdrop, hc⟩ := lead_of_occurs hquery hq hne h
  rw [textOf, ← List.map_drop, List.map_eq_cons_iff] at hdrop
  obtain ⟨b, tail, hdrop, rfl, -⟩ := hdrop
  rw [isContinuation_ofNat] at hc
  have hbefore : Utf8.WellFormed (bytes.take start) := by
    refine Utf8.wellFormed_of_lead hc (t := tail) ?_
    rw [← hdrop, List.take_append_drop]
    exact hbytes
  obtain ⟨characters, hall, hflatten, hlength⟩ := hbefore.characters
  have htake : (textOf bytes).take start = textOf (bytes.take start) := List.map_take.symm
  refine ⟨bytes.take start, _, htake, ⟨characters, hall, hflatten, rfl⟩, ?_⟩
  rw [columnOf, htake, codePointCount_textOf, hlength]

end CodePoints

/-! ## What is reported -/

/-- Every line with an occurrence that qualifies is reported, unless there are as many matches as may be, and every
match is an occurrence that qualifies, its column being after the characters before it. -/
structure Reports (options : SearchOptions) (collected : Collected) (response : SearchResponse) : Prop where
  everyLine : response.found.length = options.maxResults ∨ ∀ file ∈ collected.files, ∀ i line,
    (textLines file)[i]? = some line → (∃ start, Qualifies options line start) →
      ∃ result ∈ response.found, result.path = file.resourcePath ∧ result.line = i + 1
  nothingElse : ∀ result ∈ response.found, ∃ file ∈ collected.files, ∃ i line start,
    (textLines file)[i]? = some line ∧
    Qualifies options line start ∧ result.path = file.resourcePath ∧ result.line = i + 1 ∧
    ∃ before n, line.take start = textOf before ∧ CodePoints before n ∧ result.column = 1 + n

/-- How many matches there are to be reported in all files. -/
noncomputable def clearTotal (options : SearchOptions) (collected : Collected) : Nat :=
  ((collected.files.flatMap textLines).map (clearCount options)).sum

section Reported
variable {options : SearchOptions} {collected : Collected} {response : SearchResponse} {file : FileRecord}
  {result : TextMatch}

theorem mem_fileMatches (hquery : options.query ≠ []) : result ∈ fileMatches options file ↔ ∃ i line start,
    (textLines file)[i]? = some line ∧ Clear options line start ∧
      result = matchAt file.resourcePath (line, i + 1) start := by
  rw [fileMatches, List.mem_flatMap]
  constructor
  · rintro ⟨⟨line, n⟩, hentry, hresult⟩
    obtain ⟨hle, hget⟩ := List.mem_zipIdx_iff_le_and_getElem?_sub.mp hentry
    obtain ⟨start, hstart, rfl⟩ := List.mem_map.mp hresult
    exact ⟨n - 1, line, start, hget, (mem_hitsOf hquery).mp hstart, by rw [Nat.sub_add_cancel hle]⟩
  · rintro ⟨i, line, start, hget, hclear, rfl⟩
    refine ⟨(line, i + 1), ?_, List.mem_map.mpr ⟨start, (mem_hitsOf hquery).mpr hclear, rfl⟩⟩
    rw [List.mem_zipIdx_iff_le_and_getElem?_sub]
    exact ⟨Nat.le_add_left 1 i, hget⟩

theorem length_fileMatches (hquery : options.query ≠ []) :
    (fileMatches options file).length = ((textLines file).map (clearCount options)).sum := by
  rw [fileMatches, List.length_flatMap]
  have hmap : ((textLines file).zipIdx 1).map (fun entry => ((hitsOf options entry.1).map
      (matchAt file.resourcePath entry)).length) =
      (((textLines file).zipIdx 1).map Prod.fst).map (clearCount options) := by
    rw [List.map_map]
    refine List.map_congr_left fun entry _ => ?_
    rw [List.length_map, length_hitsOf hquery, Function.comp_apply]
  rw [hmap, List.zipIdx_map_fst]

theorem length_matches (hquery : options.query ≠ []) :
    (collected.files.flatMap (fileMatches options)).length = clearTotal options collected := by
  rw [clearTotal, List.length_flatMap]
  induction collected.files with
  | nil => rfl
  | cons file files ih =>
    rw [List.map_cons, List.sum_cons, ih, length_fileMatches hquery, List.flatMap_cons, List.map_append,
      List.sum_append]

theorem reports_nothingElse {q : List UInt8} (hquery : options.query = textOf q) (hq : Utf8.WellFormed q)
    (h : searchText options collected = .ok response) (hresult : result ∈ response.found) :
    ∃ file ∈ collected.files, ∃ i line start, (textLines file)[i]? = some line ∧ Qualifies options line start ∧
      result.path = file.resourcePath ∧ result.line = i + 1 ∧
      ∃ before n, line.take start = textOf before ∧ CodePoints before n ∧ result.column = 1 + n := by
  obtain ⟨hne, hfound⟩ := found_eq h
  rw [hfound] at hresult
  obtain ⟨file, hfile, hmatch⟩ := List.mem_flatMap.mp (List.mem_of_mem_take hresult)
  obtain ⟨i, line, start, hget, ⟨-, hqualifies⟩, rfl⟩ := (mem_fileMatches hne).mp hmatch
  obtain ⟨part, rfl, hpart⟩ := wellFormed_textLines (List.mem_of_getElem? hget)
  exact ⟨file, hfile, i, textOf part, start, hget, hqualifies, rfl, rfl,
    codePoints_before hquery hq hne hpart hqualifies.1⟩

/-- Every line is reported exactly when there are enough matches without, or each has a clear one. -/
theorem everyLine_iff (h : searchText options collected = .ok response) :
    (response.found.length = options.maxResults ∨
      ∀ file ∈ collected.files, ∀ i line, (textLines file)[i]? = some line →
      (∃ start, Qualifies options line start) →
        ∃ result ∈ response.found, result.path = file.resourcePath ∧ result.line = i + 1) ↔
    options.maxResults ≤ clearTotal options collected ∨ ∀ file ∈ collected.files, ∀ line ∈ textLines file,
      (∃ start, Qualifies options line start) → ∃ start, Clear options line start := by
  obtain ⟨hne, hfound⟩ := found_eq h
  have hlength : response.found.length = options.maxResults ↔ options.maxResults ≤ clearTotal options collected := by
    rw [hfound, List.length_take, length_matches hne]
    omega
  constructor
  · refine Or.imp hlength.mp fun hevery file hfile line hline hqualifies => ?_
    obtain ⟨i, hget⟩ := List.mem_iff_getElem?.mp hline
    obtain ⟨result, hresult, hpath, hnumber⟩ := hevery file hfile i line hget hqualifies
    rw [hfound] at hresult
    obtain ⟨file', hfile', hmatch⟩ := List.mem_flatMap.mp (List.mem_of_mem_take hresult)
    obtain ⟨i', line', start, hget', hclear, rfl⟩ := (mem_fileMatches hne).mp hmatch
    obtain rfl := List.inj_on_of_nodup_map collected.nodup hfile' hfile hpath
    obtain rfl := Nat.succ.inj hnumber
    rw [hget] at hget'
    obtain rfl := Option.some.inj hget'
    exact ⟨start, hclear⟩
  · intro hcondition
    by_cases hfull : options.maxResults ≤ clearTotal options collected
    · exact .inl (hlength.mpr hfull)
    · right
      intro file hfile i line hget hqualifies
      obtain ⟨start, hclear⟩ :=
        hcondition.resolve_left hfull file hfile line (List.mem_of_getElem? hget) hqualifies
      refine ⟨matchAt file.resourcePath (line, i + 1) start, ?_, rfl, rfl⟩
      rw [hfound, List.take_of_length_le (by rw [length_matches hne]; omega)]
      exact List.mem_flatMap.mpr ⟨file, hfile, (mem_fileMatches hne).mpr ⟨i, line, start, hget, hclear, rfl⟩⟩

/-- **The search reports every line that it should exactly when it has enough matches without, or on every such line
there is an occurrence that qualifies and that no earlier one shadows.** -/
theorem reports_iff {q : List UInt8} (hquery : options.query = textOf q) (hq : Utf8.WellFormed q)
    (h : searchText options collected = .ok response) :
    Reports options collected response ↔ options.maxResults ≤ clearTotal options collected ∨
      ∀ file ∈ collected.files, ∀ line ∈ textLines file,
        (∃ start, Qualifies options line start) → ∃ start, Clear options line start := by
  constructor
  · intro hreports
    exact (everyLine_iff h).mp hreports.everyLine
  · intro hcondition
    exact ⟨(everyLine_iff h).mpr hcondition, fun result => reports_nothingElse hquery hq h⟩

end Reported

/-! ## Queries that shadow nothing -/

section Solid
variable {options : SearchOptions} {line : Text} {start : Nat}

/-- Wherever the query meets itself, an identifier byte stands in front of the place. -/
def Solid (query : Text) : Prop := ∀ p, 0 < p → p < query.length → query.drop p <+: query →
  (query[p - 1]?).any isIdentifierByte = true

/-- The first occurrence is taken. -/
theorem exists_taken {query text : Text} (h : query <+: text.drop start) : ∃ first, Taken query text first := by
  classical
  obtain ⟨first, hfirst, hleast⟩ := Nat.findX (⟨start, h⟩ : ∃ n, query <+: text.drop n)
  exact ⟨first, taken_iff.mpr ⟨hfirst, fun earlier hlt htaken => absurd (taken_iff.mp htaken).1 (hleast earlier hlt)⟩⟩

/-- Such a query is inside no earlier occurrence of itself where it stands as a word. -/
theorem taken_of_solid (hsolid : Solid (options.folded options.query)) (hword : options.wholeWord = true)
    (h : Qualifies options line start) : Taken (options.folded options.query) (options.folded line) start := by
  refine taken_iff.mpr ⟨h.1, fun earlier hlt htaken => ?_⟩
  by_contra hinside
  obtain ⟨p, rfl⟩ := Nat.exists_eq_add_of_le hlt.le
  have hp : p < (options.folded options.query).length := by omega
  obtain ⟨after, hafter⟩ := (taken_iff.mp htaken).1
  have hmeets : (options.folded options.query).drop p <+: options.folded options.query := by
    refine List.prefix_of_prefix_length_le ?_ h.1 (by rw [List.length_drop]; omega)
    rw [← List.drop_drop, ← hafter, List.drop_append_of_le_length hp.le]
    exact List.prefix_append _ _
  have hbyte : (options.folded line)[earlier + p - 1]? = (options.folded options.query)[p - 1]? := by
    rw [Nat.add_sub_assoc (by omega), ← List.getElem?_drop, ← hafter, List.getElem?_append_left (by omega)]
  have hidentifier := hsolid p (by omega) hp hmeets
  rw [← hbyte, getElem?_folded _ _ _ isIdentifierByte_toLower] at hidentifier
  obtain ⟨c, hc, hidentifier⟩ : ∃ c, (line)[earlier + p - 1]? = some c ∧ isIdentifierByte c = true := by
    cases hget : (line)[earlier + p - 1]? with
    | none =>
      rw [hget] at hidentifier
      cases hidentifier
    | some c =>
      rw [hget] at hidentifier
      exact ⟨c, rfl, hidentifier⟩
  rw [(h.2 hword).1 c (by omega) hc] at hidentifier
  cases hidentifier

theorem clear_of_solid (hsolid : options.wholeWord = true → Solid (options.folded options.query))
    (h : Qualifies options line start) : ∃ start, Clear options line start := by
  cases hword : options.wholeWord with
  | true => exact ⟨start, taken_of_solid (hsolid hword) hword h, h⟩
  | false =>
    obtain ⟨first, hfirst⟩ := exists_taken h.1
    refine ⟨first, hfirst, (taken_iff.mp hfirst).1, fun hyes => ?_⟩
    rw [hword] at hyes
    cases hyes

/-- A query without such a place is found on every line that has it. -/
theorem reports_of_solid {collected : Collected} {response : SearchResponse} {q : List UInt8}
    (hsolid : options.wholeWord = true → Solid (options.folded options.query)) (hquery : options.query = textOf q)
    (hq : Utf8.WellFormed q) (h : searchText options collected = .ok response) :
    Reports options collected response := by
  refine ⟨(everyLine_iff h).mpr (.inr fun file _ line _ ⟨start, hqualifies⟩ => ?_), fun result => ?_⟩
  · exact clear_of_solid hsolid hqualifies
  · exact reports_nothingElse hquery hq h

end Solid

/-! ### A query that overlaps itself -/

/-- A project of one file. -/
def oneFile (text : String) : Collected where
  files := [{ resourcePath := "res://a.gd".toList, bytes := some text.toUTF8.toList }]
  nodup := List.nodup_singleton _

def wholeWord (query : String) : SearchOptions where
  query := query.toList
  wholeWord := true

theorem reports_iff_word : ∃ response, searchText (wholeWord "run") (oneFile "func run():\n") = .ok response ∧
    (Reports (wholeWord "run") (oneFile "func run():\n") response ↔
      (wholeWord "run").maxResults ≤ clearTotal (wholeWord "run") (oneFile "func run():\n") ∨
      ∀ file ∈ (oneFile "func run():\n").files, ∀ line ∈ textLines file,
        (∃ start, Qualifies (wholeWord "run") line start) → ∃ start, Clear (wholeWord "run") line start) := by
  have hok : (searchText (wholeWord "run") (oneFile "func run():\n")).toOption.isSome = true := by decide
  cases hsearch : searchText (wholeWord "run") (oneFile "func run():\n") with
  | error e =>
    rw [hsearch] at hok
    cases hok
  | ok response =>
    exact ⟨response, rfl, reports_iff (q := "run".toUTF8.toList) (by decide +kernel) (by decide +kernel) hsearch⟩

theorem reports_of_solid_word : ∃ response, searchText (wholeWord "run") (oneFile "func run():\n") = .ok response ∧
    Reports (wholeWord "run") (oneFile "func run():\n") response := by
  have hok : (searchText (wholeWord "run") (oneFile "func run():\n")).toOption.isSome = true := by decide
  have hsolid : Solid ((wholeWord "run").folded (wholeWord "run").query) := fun p _ hp => by
    have hbyte : ∀ p < 3, (("run".toList)[p]?).any isIdentifierByte = true := by decide
    have hlength : p < 3 := hp
    exact fun _ => hbyte (p - 1) (by omega)
  cases hsearch : searchText (wholeWord "run") (oneFile "func run():\n") with
  | error e =>
    rw [hsearch] at hok
    cases hok
  | ok response =>
    exact ⟨response, rfl, reports_of_solid (q := "run".toUTF8.toList) (fun _ => hsolid) (by decide +kernel)
      (by decide +kernel) hsearch⟩

/-- The occurrence at the third byte is no word, and the search goes on behind it. -/
theorem not_reports : ¬ ∀ (options : SearchOptions) (collected : Collected) (response : SearchResponse)
    (q : List UInt8),
    options.query = textOf q → Utf8.WellFormed q → searchText options collected = .ok response →
      Reports options collected response := by
  intro h
  have hfound : (searchText (wholeWord "a-a") (oneFile "xa-a-a\n")).toOption.map SearchResponse.found = some [] := by
    decide +kernel
  cases hsearch : searchText (wholeWord "a-a") (oneFile "xa-a-a\n") with
  | error e =>
    rw [hsearch] at hfound
    cases hfound
  | ok response =>
    rw [hsearch] at hfound
    have hnone : response.found = [] := Option.some.inj hfound
    have hreports := h _ _ response "a-a".toUTF8.toList (by decide +kernel) (by decide +kernel) hsearch
    have hqualifies : Qualifies (wholeWord "a-a") "xa-a-a".toList 3 := by
      rw [qualifies_iff, Occurs]
      decide
    rcases hreports.everyLine with hfull | hevery
    · rw [hnone] at hfull
      cases hfull
    · obtain ⟨result, hresult, -⟩ := hevery _ List.mem_cons_self 0 "xa-a-a".toList (by decide +kernel) ⟨3, hqualifies⟩
      rw [hnone] at hresult
      cases hresult

end Didi.Search
