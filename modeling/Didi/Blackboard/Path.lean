import Didi.Common
import Didi.Json.Pointer
import Didi.Lib.Split

/-!
# Board paths

A path is written with dots or slashes, `blackboardSplitPath` reads its segments and `joinPath`
writes them with dots, which is how the metadata of a board is keyed.

* `splitPath_joinPath` : the segments of a path that was accepted are the segments of its dotted form;
* `underPath_joinPath` : one dotted path lies under another exactly when its segments extend the other's;
* `pointerFor_eq` : the escapes `pointerFor` writes are the ones the pointer constructor undoes.
-/

namespace Didi.Blackboard
variable {segments : List String}

def kBlackboardMaxPathCharacters : Nat := 512
def kBlackboardMaxPathSegments : Nat := 32

def isLegalSegment (segment : String) : Bool :=
  segment ≠ "" && segment ≠ "." && segment ≠ ".." &&
    segment.toList.all fun c => !(c.toNat < 0x20 || c.toNat = 0x7f)

def isSeparator (c : Char) : Bool := c = '.' || c = '/'

def blackboardSplitPath (path : String) : Except Error (List String) :=
  if kBlackboardMaxPathCharacters < path.length then
    .error (.invalidArgument
      ("path is longer than " ++ toString kBlackboardMaxPathCharacters ++ " characters"))
  else
    let segments := (path.toList.splitOnP isSeparator).map String.ofList
    if segments.all isLegalSegment then
      if kBlackboardMaxPathSegments < segments.length then
        .error (.invalidArgument
          ("path has more than " ++ toString kBlackboardMaxPathSegments ++ " segments"))
      else .ok segments
    else
      .error (.invalidArgument
        "path segments cannot be empty, '.', '..', or hold control characters")

def joinPath (segments : List String) : String :=
  segments.foldl (fun joined segment => (if joined = "" then joined else joined ++ ".") ++ segment) ""

def escapeSegment (segment : String) : List Char :=
  segment.toList.flatMap fun c => if c = '~' then ['~', '0'] else if c = '/' then ['~', '1'] else [c]

def pointerFor (segments : List String) : Except JsonException JsonPointer :=
  JsonPointer.parse (String.ofList (segments.flatMap fun segment => '/' :: escapeSegment segment))

/-- Whether a dotted path begins with another one and a dot. -/
def underPath (path entry : String) : Bool := (path ++ ".").toList.isPrefixOf entry.toList

/-! ## Segments -/

/-- The segments that `blackboardSplitPath` answers. -/
structure LegalPath (segments : List String) : Prop where
  ne_nil : segments ≠ []
  legal : ∀ s ∈ segments, isLegalSegment s = true
  plain : ∀ s ∈ segments, ∀ c ∈ s.toList, isSeparator c = false

theorem LegalPath.ne_empty (h : LegalPath segments) {s : String} (hs : s ∈ segments) : s ≠ "" := by
  have := h.legal s hs
  simp only [isLegalSegment, Bool.and_eq_true, decide_eq_true_eq] at this
  exact this.1.1.1

theorem legalPath_of_split {path : String} (h : blackboardSplitPath path = .ok segments) : LegalPath segments := by
  unfold blackboardSplitPath at h
  dsimp only at h
  split_ifs at h with hlen hall hmax
  obtain rfl := Except.ok.inj h
  refine ⟨by simp, fun s hs => List.all_eq_true.mp hall s hs, fun s hs c hc => ?_⟩
  obtain ⟨l, hl, rfl⟩ := List.mem_map.mp hs
  rw [String.toList_ofList] at hc
  exact List.splitOnP_plain isSeparator path.toList l hl c hc

/-! ## Dotted paths -/

theorem foldl_joinPath (segments : List String) (joined : String) (h : joined ≠ "") :
    segments.foldl (fun joined segment => (if joined = "" then joined else joined ++ ".") ++ segment) joined =
      joined ++ String.ofList (segments.flatMap fun s => '.' :: s.toList) := by
  induction segments generalizing joined with
  | nil => simp
  | cons s segments ih =>
    have hne : joined ++ "." ++ s ≠ "" := by
      intro he
      have := congrArg String.toList he
      simp at this
    rw [List.foldl_cons, if_neg h, ih _ hne, List.flatMap_cons]
    apply String.toList_inj.mp
    simp

theorem toList_joinPath_cons {s : String} (h : s ≠ "") (segments : List String) :
    (joinPath (s :: segments)).toList = s.toList ++ segments.flatMap fun s => '.' :: s.toList := by
  unfold joinPath
  rw [List.foldl_cons, if_pos rfl, foldl_joinPath _ _ (by simpa using h)]
  simp

/-- Splitting the characters of a dotted path. -/
theorem splitOnP_joinPath (h : LegalPath segments) :
    (joinPath segments).toList.splitOnP isSeparator = segments.map String.toList := by
  obtain ⟨s, ss, rfl⟩ := List.exists_cons_of_ne_nil h.ne_nil
  rw [toList_joinPath_cons (h.ne_empty List.mem_cons_self)]
  have hplain := h.plain
  clear h
  induction ss generalizing s with
  | nil =>
    rw [List.flatMap_nil, List.append_nil]
    exact List.splitOnP_eq_singleton (hplain s List.mem_cons_self)
  | cons t ss ih =>
    rw [List.flatMap_cons, List.cons_append, List.splitOnP_append_cons_of_forall_mem
      (hplain s List.mem_cons_self) '.' rfl, ih t fun u hu => hplain u (List.mem_cons_of_mem _ hu)]
    rfl

/-- Joining the pieces of a path rewrites its separators to dots. -/
theorem flatMap_splitOnP (cs : List Char) :
    ∃ s ss, cs.splitOnP isSeparator = s :: ss ∧
      s ++ ss.flatMap (fun s => '.' :: s) = cs.map fun c => if isSeparator c then '.' else c := by
  induction cs with
  | nil => exact ⟨[], [], List.splitOnP_nil, rfl⟩
  | cons c cs ih =>
    obtain ⟨s, ss, hsplit, hjoin⟩ := ih
    rw [List.splitOnP_cons_eq_if_modifyHead, hsplit]
    split_ifs with hc
    · refine ⟨[], s :: ss, rfl, ?_⟩
      simp [hc, ← hjoin]
    · refine ⟨c :: s, ss, rfl, ?_⟩
      simp [hc, ← hjoin]

/-- The segments of a path that was accepted are the segments of its dotted form. -/
theorem splitPath_joinPath {path : String} (h : blackboardSplitPath path = .ok segments) :
    blackboardSplitPath (joinPath segments) = .ok segments := by
  have hlegal := legalPath_of_split h
  have hsplit : (joinPath segments).toList.splitOnP isSeparator = segments.map String.toList :=
    splitOnP_joinPath hlegal
  have hmap : (segments.map String.toList).map String.ofList = segments := by
    simp [List.map_map, Function.comp_def]
  have hlen : (joinPath segments).length = path.length := by
    unfold blackboardSplitPath at h
    dsimp only at h
    split_ifs at h
    obtain ⟨s, ss, hs, hjoin⟩ := flatMap_splitOnP path.toList
    rw [hs] at h
    obtain rfl := Except.ok.inj h
    have hne : String.ofList s ≠ "" := hlegal.ne_empty List.mem_cons_self
    have htext := toList_joinPath_cons hne (ss.map String.ofList)
    simp only [List.flatMap_map, String.toList_ofList] at htext
    have hchars := congrArg List.length (htext.trans hjoin)
    rwa [List.length_map, String.length_toList, String.length_toList] at hchars
  unfold blackboardSplitPath at h ⊢
  dsimp only at h ⊢
  rw [hlen, hsplit, hmap]
  split_ifs at h with h1 h2 h3
  obtain rfl := Except.ok.inj h
  rw [if_neg h1, if_pos h2, if_neg h3]

theorem joinPath_injective {p q : List String} (hp : LegalPath p) (hq : LegalPath q)
    (h : joinPath p = joinPath q) : p = q := by
  have hpq := (splitOnP_joinPath hp).symm.trans (h ▸ splitOnP_joinPath hq)
  have := congrArg (List.map String.ofList) hpq
  simpa [List.map_map, Function.comp_def] using this

/-- One dotted path lies under another exactly when its segments extend the other's. -/
theorem underPath_joinPath {p q : List String} (hp : LegalPath p) (hq : LegalPath q) :
    underPath (joinPath p) (joinPath q) = true ↔ ∃ r, r ≠ [] ∧ q = p ++ r := by
  unfold underPath
  rw [List.isPrefixOf_iff_prefix]
  constructor
  · rintro ⟨rest, hrest⟩
    have hsplit := splitOnP_joinPath hq
    rw [← hrest, String.toList_append, List.append_assoc] at hsplit
    change ((joinPath p).toList ++ '.' :: rest).splitOnP isSeparator = _ at hsplit
    rw [List.splitOnP_append_cons _ _ (show isSeparator '.' = true from rfl), splitOnP_joinPath hp] at hsplit
    refine ⟨(rest.splitOnP isSeparator).map String.ofList, by simp, ?_⟩
    have := congrArg (List.map String.ofList) hsplit
    simpa [List.map_map, Function.comp_def] using this.symm
  · rintro ⟨r, hr, rfl⟩
    obtain ⟨s, ss, rfl⟩ := List.exists_cons_of_ne_nil hp.ne_nil
    obtain ⟨t, ts, rfl⟩ := List.exists_cons_of_ne_nil hr
    have hs := hp.ne_empty List.mem_cons_self
    refine ⟨t.toList ++ ts.flatMap fun s => '.' :: s.toList, ?_⟩
    rw [String.toList_append, List.cons_append, toList_joinPath_cons hs, toList_joinPath_cons hs]
    simp

/-! ## Pointers -/

theorem unescape_escapeSegment (s : String) : JsonPointer.unescape (escapeSegment s) = some s.toList := by
  unfold escapeSegment
  induction s.toList with
  | nil => rfl
  | cons c cs ih =>
    rw [List.flatMap_cons]
    split_ifs with h1 h2
    · simp [JsonPointer.unescape, ih, h1]
    · simp [JsonPointer.unescape, ih, h2]
    · rw [List.singleton_append, JsonPointer.unescape.eq_def]
      simp [h1, ih]

theorem slash_notMem_escapeSegment (s : String) : '/' ∉ escapeSegment s := by
  unfold escapeSegment
  intro h
  obtain ⟨c, -, hc⟩ := List.mem_flatMap.mp h
  split_ifs at hc with h1 h2
  · simp at hc
  · simp at hc
  · exact h2 (List.mem_singleton.mp hc).symm

/-- The escapes `pointerFor` writes are the ones the pointer constructor undoes. -/
theorem pointerFor_eq (segments : List String) : pointerFor segments = .ok segments := by
  have htokens : ∀ ss : List String, JsonPointer.parseTokens (ss.map escapeSegment) = .ok ss := by
    intro ss
    induction ss with
    | nil => rfl
    | cons s ss ih =>
      rw [List.map_cons, JsonPointer.parseTokens, unescape_escapeSegment, ih]
      simp [Except.map]
  have hsplit : ∀ (s : String) (ss : List String),
      (escapeSegment s ++ ss.flatMap fun s => '/' :: escapeSegment s).splitOn '/' =
        (s :: ss).map escapeSegment := by
    intro s ss
    induction ss generalizing s with
    | nil => simp [List.splitOn_eq_singleton (slash_notMem_escapeSegment s)]
    | cons t ss ih =>
      rw [List.flatMap_cons, List.cons_append,
        List.splitOn_append_cons_self_of_not_mem (slash_notMem_escapeSegment s), ih t]
      rfl
  unfold pointerFor JsonPointer.parse
  rw [String.toList_ofList]
  cases segments with
  | nil => rfl
  | cons s ss =>
    rw [List.flatMap_cons, List.cons_append]
    dsimp only
    rw [if_pos rfl, hsplit, htokens]

end Didi.Blackboard
