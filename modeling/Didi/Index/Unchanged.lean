import Didi.Index.Order

/-!
# A scan of files that do not change

* `Comes` : the files that a walk of some paths comes to, as the disk has them;
* `Project.Stands` : the disk holds the tree of the project;
* `Follows` : a scan that is under way, beside the whole scan of the files that it has met;
* `Onto` : what the steps of such a scan keep, the scan that it comes to;
* `lists_scan` : a scan that ends, step by step, lists what `scan` lists.
-/

namespace Didi.Index

/-! ## The tree on the disk -/

/-- The walk of these paths comes to these files. -/
inductive Comes (root : Path) (disk : Disk) : List Path → List Path → Prop
  | nil : Comes root disk [] []
  | passed {p : Path} {pending files : List Path} (hnode : disk p = .absent ∨ disk p = .symlink)
      (h : Comes root disk pending files) : Comes root disk (p :: pending) files
  | skipped {p : Path} {entries pending files : List Path} (hnode : disk p = .directory entries)
      (hskip : p ≠ root ∧ skipsDirectory p = true) (h : Comes root disk pending files) :
      Comes root disk (p :: pending) files
  | directory {p : Path} {entries pending files : List Path} (hnode : disk p = .directory entries)
      (hskip : ¬ (p ≠ root ∧ skipsDirectory p = true)) (h : Comes root disk (entries ++ pending) files) :
      Comes root disk (p :: pending) files
  | file {p : Path} {modified size : Nat} {text : String} {pending files : List Path}
      (hnode : disk p = .file modified size text) (h : Comes root disk pending files) :
      Comes root disk (p :: pending) (p :: files)

def Entry.name : Entry → String
  | .symlink name => name
  | .directory name _ => name
  | .file name => name
  | .other name => name

def pathsIn (location : Path) (entries : List Entry) : List Path := entries.map fun e => location ++ e.name

mutual

/-- The disk holds the entry in the directory `location`. -/
def Entry.On (disk : Disk) : Path → Entry → Prop
  | location, .symlink name => disk (location ++ name) = .symlink
  | location, .directory name entries =>
    disk (location ++ name) = .directory (pathsIn (location ++ name ++ "/") entries) ∧
      EntriesOn disk (location ++ name ++ "/") entries
  | location, .file name => ∃ modified size text, disk (location ++ name) = .file modified size text
  | location, .other name => disk (location ++ name) = .absent

def EntriesOn (disk : Disk) : Path → List Entry → Prop
  | _, [] => True
  | location, e :: es => e.On disk location ∧ EntriesOn disk location es

end

/-- The disk holds the tree of the project. -/
def Project.Stands (project : Project) : Prop :=
  project.disk project.root = .directory (pathsIn (project.root ++ "/") project.entries) ∧
    EntriesOn project.disk (project.root ++ "/") project.entries

mutual

/-- The walk of an entry below the root comes to its files. -/
theorem comes_entry {root location : Path} {disk : Disk} {pending files : List Path}
    (hroot : root.length < location.length) : ∀ e : Entry, e.On disk location → Comes root disk pending files →
      Comes root disk ((location ++ e.name) :: pending) (e.files location ++ files)
  | .symlink _, hon, h => .passed (.inr hon) h
  | .other _, hon, h => .passed (.inl hon) h
  | .file _, ⟨_, _, _, hon⟩, h => .file hon h
  | .directory name entries, hon, h => by
    rw [Entry.On] at hon
    have hlength : (location ++ name).length = location.length + name.length := String.length_append ..
    have hne : location ++ name ≠ root := by
      rintro rfl
      omega
    rw [Entry.files]
    split_ifs with hskip
    · exact .skipped hon.1 ⟨hne, hskip⟩ h
    · refine .directory hon.1 (fun hskips => hskip hskips.2) (comes_entries ?_ entries hon.2 h)
      rw [String.length_append]
      omega

theorem comes_entries {root location : Path} {disk : Disk} {pending files : List Path}
    (hroot : root.length < location.length) : ∀ es : List Entry, EntriesOn disk location es →
      Comes root disk pending files → Comes root disk (pathsIn location es ++ pending) (filesIn location es ++ files)
  | [], _, h => h
  | e :: es, hon, h => by
    rw [EntriesOn] at hon
    rw [filesIn, List.append_assoc]
    exact comes_entry hroot e hon.1 (comes_entries hroot es hon.2 h)

end

theorem Project.Stands.comes {project : Project} (h : project.Stands) :
    Comes project.root project.disk [project.root] (project.files project.entries) := by
  have hbelow : project.root.length < (project.root ++ "/").length := by
    rw [String.length_append]
    exact Nat.lt_succ_self _
  have hfiles := comes_entries hbelow _ h.2 .nil
  rw [List.append_nil (filesIn _ _)] at hfiles
  exact .directory h.1 (fun hskip => hskip.1 rfl) hfiles

example : Project.Stands
    { root := "/p", entries := [.directory "a" [.file "b.gd"], .symlink "c"], nodup := by decide,
      disk := fun
        | "/p" => .directory ["/p/a", "/p/c"]
        | "/p/a" => .directory ["/p/a/b.gd"]
        | "/p/a/b.gd" => .file 1 40 "extends Node"
        | "/p/c" => .symlink
        | _ => .absent } := by
  simp [Project.Stands, EntriesOn, Entry.On, pathsIn, Entry.name]

/-! ## The steps of the scan -/

section Steps
variable {scanners : Scanners} {project : Project} {w : Walk} {memo : FileMemo} {s final : Scanned} {files : List Path}
  {root : Path} {pending : List Path} {looking : Looking} {resources : List ResourceInfo} {truncated : Bool}
  {listings : List Reading}

/-- Where the scan stands with a file that is read as it is. -/
def Stage.Fits (scanners : Scanners) (disk : Disk) (memo : FileMemo) (p : Path) : Stage → Prop
  | .met => True
  | .stated stamps => stamps = stampsOf disk p
  | .reading stamps todo facts => stamps = stampsOf disk p ∧ (stampsOf disk p).bind (lookupFileFacts memo p) = none ∧
    todo.foldl (readPart scanners disk p) facts = readFacts scanners disk p

/-- The scan has listed what `s` has, and the walk comes to `files`. -/
structure Follows (scanners : Scanners) (project : Project) (w : Walk) (memo : FileMemo) (s : Scanned)
    (files : List Path) : Prop where
  root : w.root = project.root
  memo_eq : s.memo.entries = memo
  resources : s.resources.map ResourceInfo.shown = w.resources.map ResourceInfo.shown
  truncated : s.truncated = w.truncated
  ended : w.truncated = true → w.pending = []
  comes : Comes project.root project.disk w.pending files
  looking : ∀ looking ∈ w.looking, s.truncated = false ∧ s.resources.length < kMaxIndexedResources ∧
    looking.stage.Fits scanners project.disk memo looking.path

/-- The scan comes to `final` with the files that it is still to list. -/
def Onto (scanners : Scanners) (project : Project) (final : Scanned) (w : Walk) (memo : FileMemo) : Prop :=
  ∃ s files, Follows scanners project w memo s files ∧
    ((w.looking.map Looking.path).toList ++ files).foldl (Scanned.indexFile scanners project) s = final

theorem foldl_truncated (h : s.truncated = true) (files : List Path) :
    files.foldl (Scanned.indexFile scanners project) s = s := by
  induction files with
  | nil => rfl
  | cons p files ih => rw [List.foldl_cons, Scanned.indexFile, if_pos h, ih]

theorem Follows.length_eq (h : Follows scanners project w memo s files) : s.resources.length = w.resources.length := by
  simpa using congrArg List.length h.resources

theorem Onto.visit (h : Onto scanners project final w memo) :
    Onto scanners project final (w.visit project.disk 0) memo := by
  obtain ⟨s, files, h, rfl⟩ := h
  have hlength := h.length_eq
  obtain ⟨root, pending, looking, resources, truncated, listings⟩ := w
  cases looking with
  | some looking => exact ⟨s, files, h, rfl⟩
  | none =>
    obtain ⟨rfl, hmemo, hresources, htruncated, hended, hcomes, -⟩ := h
    have hopen : pending ≠ [] → ¬ truncated = true := fun hne ht => hne (hended ht)
    have hnext : ∀ pending' files' listings', pending ≠ [] → Comes project.root project.disk pending' files' →
        Onto scanners project (files'.foldl (Scanned.indexFile scanners project) s)
          ⟨project.root, pending', none, resources, truncated, listings'⟩ memo := fun _ _ _ hne hcomes =>
      ⟨s, _, ⟨rfl, hmemo, hresources, htruncated, (absurd · (hopen hne)), hcomes, by rintro _ ⟨⟩⟩, rfl⟩
    unfold Walk.visit
    cases hcomes with
    | nil => exact ⟨s, [], ⟨rfl, hmemo, hresources, htruncated, hended, .nil, by rintro _ ⟨⟩⟩, rfl⟩
    | passed hnode hcomes =>
      rcases hnode with hnode | hnode <;> simpa [hnode] using hnext _ _ _ (List.cons_ne_nil _ _) hcomes
    | skipped hnode hskip hcomes =>
      simpa [hnode, hskip] using hnext _ _ _ (List.cons_ne_nil _ _) hcomes
    | directory hnode hskip hcomes =>
      simp only [hnode, if_neg hskip]
      exact hnext _ _ _ (List.cons_ne_nil _ _) hcomes
    | @file p _ _ _ pending files hnode hcomes =>
      have hopen : ¬ s.truncated = true := htruncated ▸ hopen (List.cons_ne_nil _ _)
      simp only [hnode]
      split_ifs with hfull
      · have hindex : s.indexFile scanners project p = { s with truncated := true } := by
          rw [Scanned.indexFile, if_neg hopen, if_pos (hlength ▸ hfull)]
        refine ⟨{ s with truncated := true }, [], ⟨rfl, hmemo, hresources, rfl, fun _ => rfl, .nil, by rintro _ ⟨⟩⟩, ?_⟩
        change { s with truncated := true } = (p :: files).foldl _ s
        rw [List.foldl_cons, hindex, foldl_truncated rfl]
      · refine ⟨s, files, ⟨rfl, hmemo, hresources, htruncated, fun ht => absurd (htruncated.trans ht) hopen, hcomes, ?_⟩, rfl⟩
        rintro looking ⟨rfl⟩
        exact ⟨Bool.eq_false_iff.mpr hopen, hlength ▸ Nat.lt_of_not_le hfull, trivial⟩

/-- A step that only goes on with its file. -/
theorem Onto.look {looking' : Looking}
    (h : Onto scanners project final ⟨root, pending, some looking, resources, truncated, listings⟩ memo)
    (hpath : looking'.path = looking.path)
    (hfits : looking.stage.Fits scanners project.disk memo looking.path →
      looking'.stage.Fits scanners project.disk memo looking'.path) :
    Onto scanners project final ⟨root, pending, some looking', resources, truncated, listings⟩ memo := by
  obtain ⟨s, files, h, rfl⟩ := h
  obtain ⟨hopen, hlt, hstands⟩ := h.looking looking rfl
  refine ⟨s, files, { h with looking := ?_ }, ?_⟩
  · rintro _ ⟨rfl⟩
    exact ⟨hopen, hlt, hfits hstands⟩
  · change (looking'.path :: files).foldl _ s = (looking.path :: files).foldl _ s
    rw [hpath]

theorem Onto.stat (h : Onto scanners project final w memo) :
    Onto scanners project final (w.stat project.disk 0) memo := by
  obtain ⟨root, pending, _ | ⟨p, _ | stamps | ⟨stamps, todo, facts⟩, readings⟩, resources, truncated, listings⟩ := w
  case some.met => exact Onto.look h rfl fun _ => rfl
  all_goals exact h

/-- The file is listed, with the facts that it is indexed with. -/
theorem Onto.push {stamps : Option Stamps} {facts : FileFacts} {memo' : FileMemo}
    (h : Onto scanners project final ⟨root, pending, some looking, resources, truncated, listings⟩ memo)
    (hindex : ∀ s : Scanned, s.memo.entries = memo → s.truncated = false →
      s.resources.length < kMaxIndexedResources → looking.stage.Fits scanners project.disk memo looking.path →
        ∃ kept : Memo, kept.entries = memo' ∧ s.indexFile scanners project looking.path =
          { s with memo := kept }.push (resourceInfo project.root looking.path [] stamps facts)) :
    Onto scanners project final
      (Walk.push ⟨root, pending, some looking, resources, truncated, listings⟩ looking stamps facts) memo' := by
  obtain ⟨s, files, h, rfl⟩ := h
  obtain ⟨hopen, hlt, hstands⟩ := h.looking looking rfl
  obtain ⟨kept, hkept, hindexed⟩ := hindex s h.memo_eq hopen hlt hstands
  have hroot : root = project.root := h.root
  have hresources : s.resources.map ResourceInfo.shown = resources.map ResourceInfo.shown := h.resources
  refine ⟨Scanned.push { s with memo := kept } (resourceInfo project.root looking.path [] stamps facts), files,
    ⟨hroot, hkept, ?_, h.truncated, h.ended, h.comes, by rintro _ ⟨⟩⟩, ?_⟩
  · change (s.resources ++ [_]).map _ = (resources ++ [resourceInfo root _ _ _ _]).map _
    rw [List.map_append, List.map_append, hresources, hroot]
    rfl
  · change files.foldl _ _ = (looking.path :: files).foldl _ s
    rw [List.foldl_cons, hindexed]

theorem Onto.recallFacts (h : Onto scanners project final w memo) :
    Onto scanners project final (w.recallFacts (lookupFileFacts memo)) memo := by
  obtain ⟨root, pending, _ | ⟨p, _ | stamps | ⟨stamps, todo, facts⟩, readings⟩, resources, truncated, listings⟩ := w
  case some.stated =>
    unfold Walk.recallFacts
    dsimp only
    cases hrecall : stamps.bind (lookupFileFacts memo p) with
    | none => exact Onto.look h rfl fun hstamps => ⟨hstamps, hstamps ▸ hrecall, rfl⟩
    | some facts =>
      refine Onto.push h fun s hmemo hopen hlt hstamps => ⟨s.memo, hmemo, ?_⟩
      have hstamps : stamps = stampsOf project.disk p := hstamps
      have hrecalled : s.memo.recalled project.disk p = some facts := by
        rw [Memo.recalled, hmemo, ← hstamps, hrecall]
      rw [Scanned.indexFile, if_neg (by simp [hopen]), if_neg hlt.not_ge, hrecalled, hstamps]
  all_goals exact h

theorem Onto.readPart (h : Onto scanners project final w memo) :
    Onto scanners project final (w.readPart scanners project.disk 0) memo := by
  obtain ⟨root, pending, _ | ⟨p, _ | stamps | ⟨stamps, _ | ⟨part, todo⟩, facts⟩, readings⟩, resources, truncated,
    listings⟩ := w
  case some.reading.cons =>
    refine Onto.look h rfl fun hstands => ⟨hstands.1, hstands.2.1, ?_⟩
    rw [← hstands.2.2, List.foldl_cons, Index.readPart]
    change (if part = Part.header ∧ (addPart scanners project.disk p facts part).uid = "" then _ else _ : List Part).foldl
      _ (addPart scanners project.disk p facts part) = _
    dsimp only
    split_ifs
    · rw [List.foldl_cons, Index.readPart, if_neg (by simp)]
    · rfl
  all_goals exact h

theorem Onto.remember {stamps : Option Stamps} {facts : FileFacts} (h : Onto scanners project final w memo)
    (hout : w.readOut = some (looking, stamps, facts)) : Onto scanners project final (w.push looking stamps facts)
      (stamps.elim memo fun stamps => rememberFileFacts memo looking.path stamps facts) := by
  obtain ⟨root, pending, _ | ⟨p, _ | _ | ⟨_, _ | ⟨part, todo⟩, _⟩, readings⟩, resources, truncated, listings⟩ := w
  all_goals cases hout
  refine Onto.push h fun s hmemo hopen hlt ⟨hstamps, hrecall, hfacts⟩ => ?_
  refine ⟨s.memo.remember project.disk p facts, ?_, ?_⟩
  · cases stamps with
    | none => rw [Memo.remember, ← hstamps, hmemo, Option.elim_none]
    | some stamps => rw [Memo.entries_remember _ _ _ _ hstamps.symm, hmemo, Option.elim_some]
  · have hrecalled : s.memo.recalled project.disk p = none := by rw [Memo.recalled, hmemo, hrecall]
    rw [Scanned.indexFile, if_neg (by simp [hopen]), if_neg hlt.not_ge, hrecalled, hstamps, ← hfacts]
    rfl

/-! ## A whole scan -/

/-- A step of the scan of the call `c`. -/
def Act.IsScan (c : Nat) (act : Act) : Prop :=
  act ∈ [.visit c, .stat c, .recallFacts c, .readPart c, .remember c]

/-- The call `c` scans the files that lead to `final`, and no file was written. -/
def Scans (scanners : Scanners) (project : Project) (c : Nat) (final : Scanned) (s : State) : Prop :=
  s.disk = project.disk ∧ s.written = 0 ∧ ∃ floor walk, s.calls c = .scanning floor walk ∧
    Onto scanners project final walk s.memo

theorem scans_next {c : Nat} {state : State} {act : Act} (hact : act.IsScan c)
    (h : Scans scanners project c final state) : Scans scanners project c final (state.next scanners act) := by
  obtain ⟨hdisk, hwritten, floor, walk, hcall, h⟩ := h
  have hwalk : ∀ f : Walk → Walk, Onto scanners project final (f walk) state.memo →
      Scans scanners project c final (state.walkStep c f) := by
    intro f hf
    rw [State.walkStep, hcall]
    exact ⟨hdisk, hwritten, floor, f walk, Function.update_self .., hf⟩
  unfold Act.IsScan at hact
  simp only [List.mem_cons, List.not_mem_nil, or_false] at hact
  rcases hact with rfl | rfl | rfl | rfl | rfl
  · exact hwalk _ (hdisk ▸ hwritten ▸ h.visit)
  · exact hwalk _ (hdisk ▸ hwritten ▸ h.stat)
  · exact hwalk _ h.recallFacts
  · exact hwalk _ (hdisk ▸ hwritten ▸ h.readPart)
  · change Scans scanners project c final (state.remember c)
    rw [State.remember, hcall]
    dsimp only
    cases hout : walk.readOut with
    | none => exact ⟨hdisk, hwritten, floor, walk, hcall, h⟩
    | some out =>
      obtain ⟨looking, stamps, facts⟩ := out
      refine ⟨hdisk, hwritten, floor, _, Function.update_self .., ?_⟩
      cases stamps <;> exact h.remember hout

/-- A call that begins to scan the project, with the memo that it finds. -/
def scanning (project : Project) (memo : Memo) (c : Nat) : State where
  disk := project.disk
  memo := memo.entries
  calls := Function.update (fun _ => .idle) c (.scanning 0 { root := project.root, pending := [project.root] })

/-- **A scan that ends, step by step, lists what the whole scan lists.** -/
theorem lists_scan (hstands : project.Stands) (memo : Memo) {c : Nat} {acts : List Act} (hacts : ∀ act ∈ acts, act.IsScan c)
    {floor : Path → Nat} {walk : Walk}
    (hcall : (Run.exec (step scanners) (scanning project memo c) acts).calls c = .scanning floor walk)
    (hdone : walk.isDone = true) :
    walk.toIndex.resources.map ResourceInfo.shown = (scan scanners project memo project.entries).listed.1 ∧
      walk.truncated = (scan scanners project memo project.entries).truncated := by
  have hbegin : Scans scanners project c (scan scanners project memo project.entries) (scanning project memo c) := by
    refine ⟨rfl, rfl, 0, _, by simp [scanning]; rfl, { memo }, _, ?_, rfl⟩
    exact ⟨rfl, rfl, rfl, rfl, (absurd · Bool.false_ne_true), hstands.comes, by rintro _ ⟨⟩⟩
  have hend : Scans scanners project c (scan scanners project memo project.entries)
      (Run.exec (step scanners) (scanning project memo c) acts) :=
    Run.exec_of_along (fun _ _ => scans_next) (Run.along_of_forall hacts) hbegin
  obtain ⟨-, -, floor', walk', hcall', s, files, h, hfinal⟩ := hend
  cases hcall.symm.trans hcall'
  obtain ⟨hpending, hlooking⟩ : walk.pending = [] ∧ walk.looking = none := by simpa [Walk.isDone] using hdone
  have hnone : files = [] := by
    have hcomes := h.comes
    rw [hpending] at hcomes
    cases hcomes
    rfl
  rw [hnone, hlooking] at hfinal
  rw [← hfinal]
  refine ⟨?_, h.truncated.symm⟩
  have hsort : ∀ l : List ResourceInfo, (l.insertionSort fun a b => a.path ≤ b.path).map ResourceInfo.shown =
      (l.map ResourceInfo.shown).insertionSort fun a b => a.path ≤ b.path := fun l =>
    List.map_insertionSort _ _ _ l fun _ _ _ _ => Iff.rfl
  exact (hsort _).trans ((congrArg _ h.resources.symm).trans (hsort _).symm)

end Steps

end Didi.Index
