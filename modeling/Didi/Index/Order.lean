import Didi.Index.Shared
import Mathlib.Data.List.Induction

/-!
# A whole scan, in the order of its walk

* `Entry` : what a directory holds, in the order in which the walk meets it; `Reordered` : the same tree met in another;
* `filesIn` : the files that the walk comes to;
* `readFacts` : what is read of a file, its parts one after the other;
* `indexFile`, `scan` : the scan of files that do not change, with the memo that it finds and leaves;
* `Scanned.listed` : the list and the uid map that a reader of the index sees;
* `Reordered.files_perm`, `entry_ends`, `list_ends` : the orders that a tree can be walked in;
* `Overflows` : the memo starts again among these files;
* `Scanning` : what a walk has listed of the files that it has met, from the memo that it found;
* `Scanning.foldl` : a whole walk.

The steps of `Walk` are those of a scan between which files change; here no file does, and a scan by those steps lists
what `scan` does (`lists_scan`, in `Unchanged`). Names are text: what lies under a name that is not UTF-8 is in no list.
The memo is held in the order of its keys.
-/

namespace Didi.Index

/-! ## The tree -/

inductive Entry
  | symlink (name : String)
  | directory (name : String) (entries : List Entry)
  | file (name : String)
  -- neither a file nor a directory
  | other (name : String)

mutual

/-- The files that the walk comes to at an entry of the directory `location`. -/
def Entry.files : Path → Entry → List Path
  | location, .file name => [location ++ name]
  | location, .directory name entries =>
    if skipsDirectory (location ++ name) then [] else filesIn (location ++ name ++ "/") entries
  | _, .symlink _ => []
  | _, .other _ => []

/-- The files that the walk comes to below a directory, in its order. -/
def filesIn : Path → List Entry → List Path
  | _, [] => []
  | location, e :: entries => e.files location ++ filesIn location entries

end

/-- The same tree, met in another order. -/
inductive Reordered : List Entry → List Entry → Prop
  | nil : Reordered [] []
  | cons (e : Entry) {es es' : List Entry} : Reordered es es' → Reordered (e :: es) (e :: es')
  | directory (name : String) {inner inner' es es' : List Entry} : Reordered inner inner' → Reordered es es' →
    Reordered (.directory name inner :: es) (.directory name inner' :: es')
  | swap (d e : Entry) (es : List Entry) : Reordered (d :: e :: es) (e :: d :: es)
  | trans {es es' es'' : List Entry} : Reordered es es' → Reordered es' es'' → Reordered es es''

/-- A project, with the text of its files. No two entries have one path. -/
structure Project where
  root : Path
  entries : List Entry
  disk : Disk
  nodup : (filesIn (root ++ "/") entries).Nodup

def Project.files (project : Project) (entries : List Entry) : List Path := filesIn (project.root ++ "/") entries

/-! ## A file -/

/-- The files do not change, so every reading is the first. -/
def addPart (scanners : Scanners) (disk : Disk) (p : Path) (facts : FileFacts) (part : Part) : FileFacts :=
  facts.add scanners part (disk (part.source p)) ⟨part.source p, 0⟩

/-- A header without a uid leaves the uid to the sidecar. -/
def readPart (scanners : Scanners) (disk : Disk) (p : Path) (facts : FileFacts) (part : Part) : FileFacts :=
  let facts := addPart scanners disk p facts part
  if part = .header ∧ facts.uid = "" then addPart scanners disk p facts .uidSidecar else facts

def readFacts (scanners : Scanners) (disk : Disk) (p : Path) : FileFacts :=
  (partsOf p).foldl (readPart scanners disk p) {}

/-! ## The memo -/

abbrev Memo := OrderedMap Path FileMemoEntry

namespace Memo

/-- `lookupFileFacts`, for a file that has stamps. -/
def recalled (memo : Memo) (disk : Disk) (p : Path) : Option FileFacts :=
  (stampsOf disk p).bind (lookupFileFacts memo.entries p)

/-- `rememberFileFacts`, for a file that has stamps. -/
def remember (memo : Memo) (disk : Disk) (p : Path) (facts : FileFacts) : Memo :=
  match stampsOf disk p with
  | none => memo
  | some stamps => (if kMaxIndexedResources < memo.size then ∅ else memo).insert p ⟨stamps, facts⟩

theorem entries_remember (memo : Memo) (disk : Disk) (p : Path) (facts : FileFacts) {stamps : Stamps}
    (h : stampsOf disk p = some stamps) :
    (memo.remember disk p facts).entries = rememberFileFacts memo.entries p stamps facts := by
  rw [remember, h, rememberFileFacts]
  dsimp only
  change List.insertKey p _ (ite _ _ _ : Memo).entries = List.insertKey p _ (ite (kMaxIndexedResources < memo.size) _ _)
  split_ifs <;> rfl

end Memo

/-! ## The scan -/

/-- What the index shows of a file, whatever it was read from. -/
def ResourceInfo.shown (info : ResourceInfo) : ResourceInfo := { info with readings := [] }

/-- A scan under way. -/
structure Scanned where
  memo : Memo
  resources : List ResourceInfo := []
  uidMap : String → Option String := fun _ => none
  truncated : Bool := false

namespace Scanned

/-- The file is in the index. A uid leads to the last file that was met with it. -/
def push (s : Scanned) (info : ResourceInfo) : Scanned :=
  { s with
    resources := s.resources ++ [info]
    uidMap := if info.uid = "" then s.uidMap else Function.update s.uidMap info.uid (some info.path) }

def indexFile (scanners : Scanners) (project : Project) (s : Scanned) (p : Path) : Scanned :=
  if s.truncated then s
  else if kMaxIndexedResources ≤ s.resources.length then { s with truncated := true }
  else
    let info := resourceInfo project.root p [] (stampsOf project.disk p)
    match s.memo.recalled project.disk p with
    | some facts => s.push (info facts)
    | none =>
      let facts := readFacts scanners project.disk p
      { s with memo := s.memo.remember project.disk p facts }.push (info facts)

/-- The list, in path order, and the uid map. -/
def listed (s : Scanned) : List ResourceInfo × (String → Option String) :=
  (s.resources.insertionSort (fun a b => a.path ≤ b.path) |>.map ResourceInfo.shown, s.uidMap)

end Scanned

/-- The scan of a project whose walk meets its entries in this order. -/
def scan (scanners : Scanners) (project : Project) (memo : Memo) (entries : List Entry) : Scanned :=
  (project.files entries).foldl (Scanned.indexFile scanners project) { memo }

/-! ## The orders of a walk -/

namespace Reordered
variable {es es' : List Entry} {location : Path} {p : Path}

theorem refl : ∀ es : List Entry, Reordered es es
  | [] => .nil
  | e :: es => .cons e (refl es)

theorem files_perm (h : Reordered es es') (location : Path) : (filesIn location es).Perm (filesIn location es') := by
  induction h generalizing location with
  | nil => exact .refl _
  | cons e _ ih => exact (ih location).append_left _
  | directory name _ _ ihinner ih =>
    refine List.Perm.append ?_ (ih location)
    rw [Entry.files, Entry.files]
    split_ifs
    · exact .refl _
    · exact ihinner _
  | swap d e es => exact List.perm_append_comm_assoc _ _ _
  | trans _ _ ih ih' => exact (ih location).trans (ih' location)

/-- An entry may be met last. -/
theorem rotate (e : Entry) : ∀ es : List Entry, Reordered (e :: es) (es ++ [e])
  | [] => refl [e]
  | d :: es => (swap e d es).trans (.cons d (rotate e es))

end Reordered

theorem filesIn_append (location : Path) (es es' : List Entry) :
    filesIn location (es ++ es') = filesIn location es ++ filesIn location es' := by
  induction es with
  | nil => rfl
  | cons e es ih => rw [List.cons_append, filesIn, filesIn, ih, List.append_assoc]

theorem filesIn_singleton (location : Path) (e : Entry) : filesIn location [e] = e.files location := by
  rw [filesIn, filesIn, List.append_nil]

mutual

/-- Within an entry every file is met first in some order, and last in some other. -/
theorem entry_ends {p : Path} (location : Path) : ∀ e : Entry, p ∈ e.files location →
    (∃ e' l, (∀ es, Reordered (e :: es) (e' :: es)) ∧ e'.files location = p :: l) ∧
      ∃ e' l, (∀ es, Reordered (e :: es) (e' :: es)) ∧ e'.files location = l ++ [p]
  | .file name, h => by
    obtain rfl := List.mem_singleton.mp h
    exact ⟨⟨.file name, [], fun _ => Reordered.refl _, rfl⟩, ⟨.file name, [], fun _ => Reordered.refl _, rfl⟩⟩
  | .directory name inner, h => by
    rw [Entry.files] at h
    split_ifs at h with hskip
    · cases h
    obtain ⟨⟨first, l, hfirst, hl⟩, ⟨last, l', hlast, hl'⟩⟩ := list_ends (location ++ name ++ "/") inner h
    refine ⟨⟨.directory name first, l, fun es => .directory name hfirst (Reordered.refl es), ?_⟩,
      ⟨.directory name last, l', fun es => .directory name hlast (Reordered.refl es), ?_⟩⟩
    · rw [Entry.files, if_neg hskip, hl]
    · rw [Entry.files, if_neg hskip, hl']
  | .symlink _, h => by cases h
  | .other _, h => by cases h

theorem list_ends {p : Path} (location : Path) : ∀ es : List Entry, p ∈ filesIn location es →
    (∃ es' l, Reordered es es' ∧ filesIn location es' = p :: l) ∧
      ∃ es' l, Reordered es es' ∧ filesIn location es' = l ++ [p]
  | [], h => by cases h
  | e :: es, h => by
    rcases List.mem_append.mp h with h | h
    · obtain ⟨⟨first, l, hfirst, hl⟩, ⟨last, l', hlast, hl'⟩⟩ := entry_ends location e h
      refine ⟨⟨first :: es, l ++ filesIn location es, hfirst es, ?_⟩,
        ⟨es ++ [last], filesIn location es ++ l', (hlast es).trans (Reordered.rotate last es), ?_⟩⟩
      · rw [filesIn, hl, List.cons_append]
      · rw [filesIn_append, filesIn_singleton, hl', List.append_assoc]
    · obtain ⟨⟨first, l, hfirst, hl⟩, ⟨last, l', hlast, hl'⟩⟩ := list_ends location es h
      refine ⟨⟨first ++ [e], l ++ e.files location, (Reordered.cons e hfirst).trans (Reordered.rotate e first), ?_⟩,
        ⟨e :: last, e.files location ++ l', .cons e hlast, ?_⟩⟩
      · rw [filesIn_append, filesIn_singleton, hl, List.cons_append]
      · rw [filesIn, hl', List.append_assoc]

end

/-! ## The memo along a walk -/

theorem Memo.size_insert (memo : Memo) (p : Path) (entry : FileMemoEntry) :
    (OrderedMap.insert memo p entry).size = if (memo.get p).isSome then memo.size else memo.size + 1 :=
  List.length_insertKey entry memo.sorted

theorem Memo.recall_congr {memo memo' : Memo} {p : Path} (h : memo.get p = memo'.get p) (disk : Disk) :
    memo.recalled disk p = memo'.recalled disk p := by
  refine congrArg _ (funext fun stamps => ?_)
  change memo.entries.lookup p = memo'.entries.lookup p at h
  rw [lookupFileFacts, h, lookupFileFacts]

theorem Memo.recall_of_none {memo : Memo} {p : Path} (h : memo.get p = none) (disk : Disk) :
    memo.recalled disk p = none := by
  rw [Memo.recalled, Option.bind_eq_none_iff]
  intro stamps _
  change memo.entries.lookup p = none at h
  rw [lookupFileFacts, h]

/-- A place in a list that has grown at its end is the end, or a place of the list. -/
theorem concat_split {α : Type*} {before met after : List α} {p q : α} (h : before ++ [p] = met ++ q :: after) :
    (met = before ∧ q = p) ∨ ∃ after', before = met ++ q :: after' := by
  rcases List.eq_nil_or_concat after with rfl | ⟨after, last, rfl⟩
  · obtain ⟨rfl, hq⟩ := List.append_inj' h rfl
    cases hq
    exact .inl ⟨rfl, rfl⟩
  · rw [List.concat_eq_append, ← List.cons_append, ← List.append_assoc] at h
    obtain ⟨rfl, -⟩ := List.append_inj' h rfl
    exact .inr ⟨after, rfl⟩

section Walk
variable (scanners : Scanners) (project : Project) (memo : Memo)

/-- The facts of the file have to be read, and can be remembered. -/
def isMissed (p : Path) : Bool := (stampsOf project.disk p).isSome && (memo.recalled project.disk p).isNone

/-- They are remembered where nothing is. -/
def isNew (p : Path) : Bool := (stampsOf project.disk p).isSome && (memo.get p).isNone

/-- The memo starts again among these files: it is past its ceiling when one of them has to be read. -/
def Overflows (files : List Path) : Prop :=
  ∃ before p after, files = before ++ p :: after ∧ isMissed project memo p = true ∧
    kMaxIndexedResources < memo.size + before.countP (isNew project memo)

/-- The facts that the memo has of the file, or else that are read of it. -/
def known (p : Path) : FileFacts := (memo.recalled project.disk p).getD (readFacts scanners project.disk p)

/-- What the index shows of the file with these facts. -/
def infoOf (p : Path) (facts : FileFacts) : ResourceInfo :=
  (resourceInfo project.root p [] (stampsOf project.disk p) facts).shown

/-- Each uid leads to the last file that has it. -/
def uidMapOf (resources : List ResourceInfo) (uid : String) : Option String :=
  if uid = "" then none else (resources.reverse.find? (·.uid = uid)).map ResourceInfo.path

/-- A scan that has met the files `before`. -/
structure Scanning (before : List Path) (s : Scanned) : Prop where
  untruncated : s.truncated = false
  length_eq : s.resources.length = before.length
  read : ∀ met p after, before = met ++ p :: after → Overflows project memo met →
    (s.resources.map ResourceInfo.shown)[met.length]? = some (infoOf project p (readFacts scanners project.disk p))
  recalled : ∀ met p after, before = met ++ p :: after → ¬ Overflows project memo met →
    (s.resources.map ResourceInfo.shown)[met.length]? = some (infoOf project p (known scanners project memo p))
  uidMap_eq : s.uidMap = uidMapOf (s.resources.map ResourceInfo.shown)
  emptied : Overflows project memo before → ∀ p ∉ before, s.memo.get p = none
  kept : ¬ Overflows project memo before → ∀ p ∉ before, s.memo.get p = memo.get p
  size_eq : ¬ Overflows project memo before → s.memo.size = memo.size + before.countP (isNew project memo)

variable {scanners project memo} {before : List Path} {s : Scanned} {p : Path}

theorem overflows_concat : Overflows project memo (before ++ [p]) ↔ Overflows project memo before ∨
    isMissed project memo p = true ∧ kMaxIndexedResources < memo.size + before.countP (isNew project memo) := by
  constructor
  · rintro ⟨met, q, after, hsplit, hmissed, hlt⟩
    rcases concat_split hsplit with ⟨rfl, rfl⟩ | ⟨after, rfl⟩
    · exact .inr ⟨hmissed, hlt⟩
    · exact .inl ⟨met, q, after, rfl, hmissed, hlt⟩
  · rintro (⟨met, q, after, rfl, hmissed, hlt⟩ | ⟨hmissed, hlt⟩)
    · exact ⟨met, q, after ++ [p], by simp, hmissed, hlt⟩
    · exact ⟨before, p, [], rfl, hmissed, hlt⟩

theorem not_overflows_nil : ¬ Overflows project memo [] := by
  rintro ⟨met, q, after, hsplit, -⟩
  simp at hsplit

theorem scanning_nil : Scanning scanners project memo [] { memo } where
  untruncated := rfl
  length_eq := rfl
  read met p after h := by simp at h
  recalled met p after h := by simp at h
  uidMap_eq := by
    funext uid
    rw [uidMapOf]
    split_ifs <;> rfl
  emptied h := absurd h not_overflows_nil
  kept _ _ _ := rfl
  size_eq _ := rfl

theorem uidMapOf_concat (resources : List ResourceInfo) (info : ResourceInfo) :
    uidMapOf (resources ++ [info]) =
      if info.uid = "" then uidMapOf resources else Function.update (uidMapOf resources) info.uid (some info.path) := by
  funext uid
  rw [uidMapOf, List.reverse_append, List.reverse_singleton, List.singleton_append, List.find?_cons]
  by_cases huid : info.uid = uid
  · subst huid
    by_cases hempty : info.uid = ""
    · rw [if_pos hempty, if_pos hempty, uidMapOf, if_pos hempty]
    · simp [hempty]
  · simp only [huid, decide_false]
    split_ifs with hempty hinfo hinfo
    · rw [uidMapOf, if_pos hempty]
    · rw [Function.update_of_ne (Ne.symm huid), uidMapOf, if_pos hempty]
    · rw [uidMapOf, if_neg hempty]
    · rw [Function.update_of_ne (Ne.symm huid), uidMapOf, if_neg hempty]

theorem Memo.remember_of_none (m : Memo) {disk : Disk} (h : stampsOf disk p = none) (facts : FileFacts) :
    m.remember disk p facts = m := by rw [Memo.remember, h]

theorem Memo.remember_of_some (m : Memo) {disk : Disk} {stamps : Stamps} (h : stampsOf disk p = some stamps)
    (facts : FileFacts) : m.remember disk p facts =
      OrderedMap.insert (if kMaxIndexedResources < m.size then ∅ else m) p ⟨stamps, facts⟩ := by rw [Memo.remember, h]

namespace Scanning

/-- The file `p` is met, with these facts. -/
theorem push (h : Scanning scanners project memo before s) {facts : FileFacts} {memo' : Memo}
    (hread : Overflows project memo before → facts = readFacts scanners project.disk p)
    (hknown : ¬ Overflows project memo before → facts = known scanners project memo p)
    (hemptied : Overflows project memo (before ++ [p]) → ∀ q ∉ before ++ [p], memo'.get q = none)
    (hkept : ¬ Overflows project memo (before ++ [p]) → ∀ q ∉ before ++ [p], memo'.get q = memo.get q)
    (hsize : ¬ Overflows project memo (before ++ [p]) →
      memo'.size = memo.size + (before ++ [p]).countP (isNew project memo)) :
    Scanning scanners project memo (before ++ [p])
      (Scanned.push { s with memo := memo' } (resourceInfo project.root p [] (stampsOf project.disk p) facts)) := by
  have hlast : ((s.resources ++ [resourceInfo project.root p [] (stampsOf project.disk p) facts]).map
      ResourceInfo.shown)[before.length]? = some (infoOf project p facts) := by
    rw [List.map_append, List.getElem?_append_right (by rw [List.length_map, h.length_eq]), List.length_map,
      h.length_eq, Nat.sub_self]
    rfl
  have hearlier : ∀ met q after info, before = met ++ q :: after →
      (s.resources.map ResourceInfo.shown)[met.length]? = some info →
      ((s.resources ++ [resourceInfo project.root p [] (stampsOf project.disk p) facts]).map
        ResourceInfo.shown)[met.length]? = some info := by
    intro met q after info hbefore hinfo
    rw [List.map_append, List.getElem?_append_left, hinfo]
    rw [List.length_map, h.length_eq, hbefore, List.length_append, List.length_cons]
    omega
  refine
    { untruncated := h.untruncated
      length_eq := ?_
      read := ?_
      recalled := ?_
      uidMap_eq := ?_
      emptied := hemptied
      kept := hkept
      size_eq := hsize }
  · exact (List.length_append ..).trans (by rw [h.length_eq, List.length_append]; rfl)
  · intro met q after hsplit hover
    rcases concat_split hsplit with ⟨rfl, rfl⟩ | ⟨after, hbefore⟩
    · rw [← hread hover]
      exact hlast
    · exact hearlier met q after _ hbefore (h.read met q after hbefore hover)
  · intro met q after hsplit hover
    rcases concat_split hsplit with ⟨rfl, rfl⟩ | ⟨after, hbefore⟩
    · rw [← hknown hover]
      exact hlast
    · exact hearlier met q after _ hbefore (h.recalled met q after hbefore hover)
  · change (if _ then s.uidMap else Function.update s.uidMap _ _) = uidMapOf ((s.resources ++ [_]).map _)
    rw [List.map_append, h.uidMap_eq, List.map_singleton, uidMapOf_concat]
    rfl

/-- The memo knows the file, so it has not started again. -/
theorem indexFile_recalled (h : Scanning scanners project memo before s) (hp : p ∉ before) {facts : FileFacts}
    (hrecall : s.memo.recalled project.disk p = some facts) :
    Scanning scanners project memo (before ++ [p])
      (s.push (resourceInfo project.root p [] (stampsOf project.disk p) facts)) := by
  have hover : ¬ Overflows project memo before := by
    intro hover
    rw [Memo.recall_of_none (h.emptied hover p hp)] at hrecall
    cases hrecall
  have hfacts : memo.recalled project.disk p = some facts :=
    (Memo.recall_congr (h.kept hover p hp) project.disk).symm.trans hrecall
  have hmissed : isMissed project memo p = false := by rw [isMissed, hfacts, Option.isNone_some, Bool.and_false]
  have hnew : isNew project memo p = false := by
    rw [isNew]
    cases hget : memo.get p with
    | none =>
      rw [Memo.recall_of_none hget] at hfacts
      cases hfacts
    | some entry => rw [Option.isNone_some, Bool.and_false]
  have hover' : ¬ Overflows project memo (before ++ [p]) := by
    rw [overflows_concat, hmissed]
    simpa using hover
  refine @push _ _ _ _ _ _ h _ s.memo (absurd · hover) (fun _ => ?_) (absurd · hover') (fun _ q hq => ?_) (fun _ => ?_)
  · rw [known, hfacts, Option.getD_some]
  · exact h.kept hover q fun hmem => hq (List.mem_append_left _ hmem)
  · rw [h.size_eq hover, List.countP_append, List.countP_singleton, hnew, if_neg Bool.false_ne_true, Nat.add_zero]

/-- The file has to be read; the memo may start again with it. -/
theorem indexFile_read (h : Scanning scanners project memo before s) (hp : p ∉ before)
    (hrecall : s.memo.recalled project.disk p = none) :
    Scanning scanners project memo (before ++ [p])
      (Scanned.push { s with memo := s.memo.remember project.disk p (readFacts scanners project.disk p) }
        (resourceInfo project.root p [] (stampsOf project.disk p) (readFacts scanners project.disk p))) := by
  have hnone : ¬ Overflows project memo before → memo.recalled project.disk p = none := fun hover =>
    (Memo.recall_congr (h.kept hover p hp) project.disk).symm.trans hrecall
  have hmem {q : Path} (hq : q ∉ before ++ [p]) : q ∉ before ∧ q ≠ p := by
    rwa [List.mem_append, List.mem_singleton, not_or] at hq
  refine h.push (fun _ => rfl) (fun hover => by rw [known, hnone hover, Option.getD_none]) ?_ ?_ ?_
  all_goals
    cases hstamps : stampsOf project.disk p with
    | none =>
      have hnew : isNew project memo p = false := by rw [isNew, hstamps, Option.isSome_none, Bool.false_and]
      rw [Memo.remember_of_none _ hstamps, overflows_concat, isMissed, hstamps, Option.isSome_none, Bool.false_and]
      simp only [Bool.false_eq_true, false_and, or_false, List.countP_append, List.countP_singleton, hnew, if_false,
        Nat.add_zero]
      first
        | exact fun hover q hq => h.emptied hover q (hmem hq).1
        | exact fun hover q hq => h.kept hover q (hmem hq).1
        | exact h.size_eq
    | some stamps => ?_
  all_goals rw [Memo.remember_of_some _ hstamps, overflows_concat]
  · rintro hover q hq
    rw [OrderedMap.get_insert_of_ne _ _ (hmem hq).2]
    split_ifs with hfull
    · rfl
    rcases hover with hover | ⟨-, hlt⟩
    · exact h.emptied hover q (hmem hq).1
    · by_cases hover : Overflows project memo before
      · exact h.emptied hover q (hmem hq).1
      · rw [h.size_eq hover] at hfull
        exact absurd hlt hfull
  all_goals
    intro hover
    obtain ⟨hover, hlt⟩ := not_or.mp hover
    rw [isMissed, hstamps, hnone hover, ← h.size_eq hover] at hlt
    rw [if_neg fun hfull => hlt ⟨rfl, hfull⟩]
  · intro q hq
    rw [OrderedMap.get_insert_of_ne _ _ (hmem hq).2, h.kept hover q (hmem hq).1]
  · rw [Memo.size_insert, h.kept hover p hp, h.size_eq hover, List.countP_append, List.countP_singleton, isNew, hstamps]
    cases memo.get p <;> rfl

/-- One more file is met. -/
theorem indexFile (h : Scanning scanners project memo before s) (hp : p ∉ before)
    (hlt : before.length < kMaxIndexedResources) :
    Scanning scanners project memo (before ++ [p]) (s.indexFile scanners project p) := by
  have hopen : ¬ s.truncated = true := by rw [h.untruncated]; exact Bool.false_ne_true
  rw [Scanned.indexFile, if_neg hopen, h.length_eq, if_neg hlt.not_ge]
  dsimp only
  cases hrecall : s.memo.recalled project.disk p with
  | none => exact h.indexFile_read hp hrecall
  | some facts => exact h.indexFile_recalled hp hrecall

/-- All the files of a walk are met. -/
theorem foldl (h : Scanning scanners project memo before s) {files : List Path} (hnodup : (before ++ files).Nodup)
    (hle : (before ++ files).length ≤ kMaxIndexedResources) :
    Scanning scanners project memo (before ++ files) (files.foldl (Scanned.indexFile scanners project) s) := by
  induction files generalizing before s with
  | nil => rwa [List.append_nil]
  | cons p files ih =>
    have hp : p ∉ before := fun hmem => (List.nodup_append.mp hnodup).2.2 p hmem p List.mem_cons_self rfl
    have hlt : before.length < kMaxIndexedResources := by
      rw [List.length_append, List.length_cons] at hle
      omega
    rw [List.append_cons] at hnodup hle ⊢
    exact ih (h.indexFile hp hlt) hnodup hle

end Scanning

end Walk

end Didi.Index
