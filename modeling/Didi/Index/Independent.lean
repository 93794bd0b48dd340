import Didi.Index.Order

/-!
# When the index does not depend on the walk

* `listed_eq` : the list and the uid map of a walk, in terms of the facts that the memo has or that are read;
* `OrderFree` : no two files share a uid, and no file that the memo is out of date about is met after it has started again;
* `independent_iff` : exactly then every order of the walk gives the same list and the same uid map.
-/

namespace Didi.Index
variable {es : List Entry}

/-! ## Paths -/

mutual

theorem entry_prefix {p location : Path} : ∀ e : Entry, p ∈ e.files location → ∃ s, p = location ++ s
  | .file name, h => ⟨name, List.mem_singleton.mp h⟩
  | .directory name inner, h => by
    rw [Entry.files] at h
    split_ifs at h with hskip
    · cases h
    obtain ⟨s, rfl⟩ := list_prefix inner h
    exact ⟨name ++ "/" ++ s, by simp only [String.append_assoc]⟩
  | .symlink _, h => by cases h
  | .other _, h => by cases h

theorem list_prefix {p location : Path} : ∀ es : List Entry, p ∈ filesIn location es → ∃ s, p = location ++ s
  | [], h => by cases h
  | e :: es, h => by
    rcases List.mem_append.mp h with h | h
    · exact entry_prefix e h
    · exact list_prefix es h

end

theorem resourcePath_below (root s : Path) : resourcePath root (root ++ "/" ++ s) = "res://" ++ s := by
  have hdrop : (root ++ "/" ++ s).toList.drop (root.length + 1) = s.toList := by
    have hlen : root.length + 1 = (root ++ "/").toList.length := by
      rw [String.toList_append, List.length_append, String.length_toList]
      rfl
    rw [String.toList_append, hlen, List.drop_left]
  rw [resourcePath, hdrop, String.ofList_toList]

/-- Two files of a project have two paths. -/
theorem resourcePath_inj {root p q : Path} (hp : p ∈ filesIn (root ++ "/") es) (hq : q ∈ filesIn (root ++ "/") es)
    (h : resourcePath root p = resourcePath root q) : p = q := by
  obtain ⟨s, rfl⟩ := list_prefix es hp
  obtain ⟨t, rfl⟩ := list_prefix es hq
  rw [resourcePath_below, resourcePath_below] at h
  rw [(String.append_right_inj _).mp h]

section Walk
variable {scanners : Scanners} {project : Project} {memo : Memo} {files : List Path} {s : Scanned}

/-! ## What a walk has listed -/

namespace Scanning

/-- At the place of each file the list has what the memo knew of it, or what was read. -/
theorem get (h : Scanning scanners project memo files s) {met after : List Path} {p : Path}
    (hsplit : files = met ++ p :: after) : ∃ facts,
      (s.resources.map ResourceInfo.shown)[met.length]? = some (infoOf project p facts) ∧
      (Overflows project memo met → facts = readFacts scanners project.disk p) ∧
      (¬ Overflows project memo met → facts = known scanners project memo p) := by
  by_cases hover : Overflows project memo met
  · exact ⟨_, h.read met p after hsplit hover, fun _ => rfl, (absurd hover ·)⟩
  · exact ⟨_, h.recalled met p after hsplit hover, (absurd · hover), fun _ => rfl⟩

theorem paths (h : Scanning scanners project memo files s) :
    (s.resources.map ResourceInfo.shown).map ResourceInfo.path = files.map (resourcePath project.root) := by
  refine List.ext_getElem? fun i => ?_
  by_cases hi : i < files.length
  · have hsplit : files = files.take i ++ files[i] :: files.drop (i + 1) := by
      rw [← List.drop_eq_getElem_cons hi, List.take_append_drop]
    obtain ⟨facts, hget, -⟩ := h.get hsplit
    rw [List.length_take, min_eq_left hi.le] at hget
    rw [List.getElem?_map, hget, List.getElem?_map, List.getElem?_eq_getElem hi]
    rfl
  · rw [List.getElem?_eq_none, List.getElem?_eq_none]
    · rw [List.length_map]
      omega
    · rw [List.length_map, List.length_map, h.length_eq]
      omega

/-- No two resources of a walk have one path. -/
theorem eq_of_path (h : Scanning scanners project memo files s) (hfiles : files = project.files es)
    (hnodup : files.Nodup) {a b : ResourceInfo} (ha : a ∈ s.resources.map ResourceInfo.shown)
    (hb : b ∈ s.resources.map ResourceInfo.shown) (hab : a.path = b.path) : a = b := by
  subst hfiles
  refine List.inj_on_of_nodup_map ?_ ha hb hab
  rw [h.paths]
  exact hnodup.map_on fun p hp q hq hpq => resourcePath_inj hp hq hpq

end Scanning

theorem scanning_scan (h : Reordered project.entries es)
    (hle : (project.files project.entries).length ≤ kMaxIndexedResources) :
    Scanning scanners project memo (project.files es) (scan scanners project memo es) := by
  have hperm := h.files_perm (project.root ++ "/")
  refine Scanning.foldl scanning_nil ?_ ?_
  · exact hperm.nodup_iff.mp project.nodup
  · exact hperm.length_eq.symm.le.trans hle

/-! ## The condition -/

variable (scanners project memo)

/-- No two files share a uid, and no file whose facts in the memo are out of date is met after the memo has started
again. -/
structure OrderFree : Prop where
  distinct : ∀ p ∈ project.files project.entries, ∀ q ∈ project.files project.entries,
    (known scanners project memo p).uid ≠ "" →
    (known scanners project memo p).uid = (known scanners project memo q).uid → p = q
  current : ∀ es, Reordered project.entries es → ∀ met p after, project.files es = met ++ p :: after →
    Overflows project memo met →
    infoOf project p (readFacts scanners project.disk p) = infoOf project p (known scanners project memo p)

variable {scanners project memo}

/-- What such a walk lists is not in the order of the walk, but for its order. -/
theorem OrderFree.shown_eq (hfree : OrderFree scanners project memo) (h : Reordered project.entries es)
    (hscan : Scanning scanners project memo (project.files es) s) :
    s.resources.map ResourceInfo.shown =
      (project.files es).map fun p => infoOf project p (known scanners project memo p) := by
  refine List.ext_getElem? fun i => ?_
  by_cases hi : i < (project.files es).length
  · have hsplit : project.files es =
        (project.files es).take i ++ (project.files es)[i] :: (project.files es).drop (i + 1) := by
      rw [← List.drop_eq_getElem_cons hi, List.take_append_drop]
    obtain ⟨facts, hget, hread, hknown⟩ := hscan.get hsplit
    rw [List.length_take, min_eq_left hi.le] at hget
    rw [hget, List.getElem?_map, List.getElem?_eq_getElem hi, Option.map_some]
    by_cases hover : Overflows project memo ((project.files es).take i)
    · rw [hread hover, hfree.current es h _ _ _ hsplit hover]
    · rw [hknown hover]
  · rw [List.getElem?_eq_none, List.getElem?_eq_none]
    · rw [List.length_map]
      omega
    · rw [List.length_map, hscan.length_eq]
      omega

/-! ## The list and the uid map -/

theorem listed_fst : s.listed.1 = (s.resources.map ResourceInfo.shown).insertionSort (fun a b => a.path ≤ b.path) :=
  List.map_insertionSort _ _ _ _ fun _ _ _ _ => Iff.rfl

theorem mem_listed {info : ResourceInfo} : info ∈ s.listed.1 ↔ info ∈ s.resources.map ResourceInfo.shown := by
  rw [listed_fst, List.mem_insertionSort]

/-- Resources of different paths are sorted the same, whatever order they came in. -/
theorem sort_congr {l l' : List ResourceInfo} (h : l.Perm l') (hl : (l.map ResourceInfo.path).Nodup) :
    l.insertionSort (fun a b => a.path ≤ b.path) = l'.insertionSort (fun a b => a.path ≤ b.path) := by
  have htotal : Std.Total fun a b : ResourceInfo => a.path ≤ b.path := ⟨fun a b => le_total a.path b.path⟩
  have htrans : IsTrans ResourceInfo fun a b => a.path ≤ b.path := ⟨fun _ _ _ => le_trans⟩
  have hperm : (l.insertionSort fun a b => a.path ≤ b.path).Perm (l'.insertionSort fun a b => a.path ≤ b.path) :=
    (List.perm_insertionSort _ l).trans (h.trans (List.perm_insertionSort _ l').symm)
  refine hperm.eq_of_pairwise (fun a b ha hb hab hba => ?_) (List.pairwise_insertionSort _ l)
    (List.pairwise_insertionSort _ l')
  rw [List.mem_insertionSort] at ha hb
  exact List.inj_on_of_nodup_map hl ha (h.mem_iff.mpr hb) (le_antisymm hab hba)

/-- Where no two resources share a uid, the uid map does not care for their order. -/
theorem uidMapOf_congr {l l' : List ResourceInfo} (h : l.Perm l')
    (hl : ∀ a ∈ l, ∀ b ∈ l, a.uid ≠ "" → a.uid = b.uid → a = b) : uidMapOf l = uidMapOf l' := by
  funext uid
  rw [uidMapOf, uidMapOf]
  split_ifs with huid
  · rfl
  have hmem {a : ResourceInfo} {m : List ResourceInfo} (ha : m.reverse.find? (·.uid = uid) = some a) :
      a ∈ m ∧ a.uid = uid :=
    ⟨List.mem_reverse.mp (List.mem_of_find?_eq_some ha), by simpa using List.find?_some ha⟩
  cases ha : l.reverse.find? (·.uid = uid) with
  | none =>
    cases hb : l'.reverse.find? (·.uid = uid) with
    | none => rfl
    | some b =>
      have hnone := List.find?_eq_none.mp ha b (List.mem_reverse.mpr (h.mem_iff.mpr (hmem hb).1))
      exact absurd (decide_eq_true (hmem hb).2) hnone
  | some a =>
    cases hb : l'.reverse.find? (·.uid = uid) with
    | none =>
      have hnone := List.find?_eq_none.mp hb a (List.mem_reverse.mpr (h.mem_iff.mp (hmem ha).1))
      exact absurd (decide_eq_true (hmem ha).2) hnone
    | some b =>
      obtain ⟨ha, hauid⟩ := hmem ha
      obtain ⟨hb, hbuid⟩ := hmem hb
      rw [hl a ha b (h.mem_iff.mpr hb) (hauid ▸ huid) (hauid.trans hbuid.symm)]

/-- A uid leads to the file that is met last, if it has it. -/
theorem uidMapOf_last (l : List ResourceInfo) {info : ResourceInfo} (h : info.uid ≠ "") :
    uidMapOf (l ++ [info]) info.uid = some info.path := by
  rw [uidMapOf_concat, if_neg h, Function.update_self]

theorem OrderFree.listed_eq (hfree : OrderFree scanners project memo)
    (hle : (project.files project.entries).length ≤ kMaxIndexedResources)
    (h : Reordered project.entries es) : (scan scanners project memo es).listed =
      (((project.files project.entries).map fun p => infoOf project p (known scanners project memo p)).insertionSort
        (fun a b => a.path ≤ b.path),
      uidMapOf ((project.files project.entries).map fun p => infoOf project p (known scanners project memo p))) := by
  have hscan : Scanning scanners project memo (project.files es) (scan scanners project memo es) := scanning_scan h hle
  have hperm := ((h.files_perm (project.root ++ "/")).map
    fun p => infoOf project p (known scanners project memo p)).symm
  have hnodup : (project.files es).Nodup := (h.files_perm _).nodup_iff.mp project.nodup
  refine Prod.ext ?_ ?_
  · rw [listed_fst, hfree.shown_eq h hscan]
    refine sort_congr hperm ?_
    rw [← hfree.shown_eq h hscan, hscan.paths]
    exact hnodup.map_on fun p hp q hq hpq => resourcePath_inj hp hq hpq
  · rw [Scanned.listed, hscan.uidMap_eq, hfree.shown_eq h hscan]
    refine uidMapOf_congr hperm fun a ha b hb huid hab => ?_
    obtain ⟨p, hp, rfl⟩ := List.mem_map.mp ha
    obtain ⟨q, hq, rfl⟩ := List.mem_map.mp hb
    have hmem {r : Path} (hr : r ∈ project.files es) : r ∈ project.files project.entries :=
      (h.files_perm (project.root ++ "/")).mem_iff.mpr hr
    rw [hfree.distinct p (hmem hp) q (hmem hq) huid hab]

/-! ## Both directions -/

/-- Every order of the walk gives the same list and the same uid map. -/
def Independent (scanners : Scanners) (project : Project) (memo : Memo) : Prop :=
  ∀ es es', Reordered project.entries es → Reordered project.entries es' →
    (scan scanners project memo es).listed = (scan scanners project memo es').listed

/-- A file can be met first, before the memo has started again. -/
theorem Independent.current (h : Independent scanners project memo)
    (hle : (project.files project.entries).length ≤ kMaxIndexedResources) (hes : Reordered project.entries es)
    {met after : List Path} {p : Path} (hsplit : project.files es = met ++ p :: after)
    (hover : Overflows project memo met) :
    infoOf project p (readFacts scanners project.disk p) = infoOf project p (known scanners project memo p) := by
  have hscan : Scanning scanners project memo (project.files es) (scan scanners project memo es) := scanning_scan hes hle
  have hp : p ∈ project.files es := hsplit ▸ List.mem_append_right _ List.mem_cons_self
  obtain ⟨⟨first, l, hfirst, hl⟩, -⟩ := list_ends _ es hp
  have hfirst := hes.trans hfirst
  have hscan' : Scanning scanners project memo (project.files first) (scan scanners project memo first) :=
    scanning_scan hfirst hle
  have hread := List.mem_of_getElem? (hscan.read met p after hsplit hover)
  have hknown := List.mem_of_getElem? (hscan'.recalled [] p l hl not_overflows_nil)
  rw [← mem_listed, h es first hes hfirst, mem_listed] at hread
  exact hscan'.eq_of_path rfl ((hfirst.files_perm _).nodup_iff.mp project.nodup) hread hknown rfl

/-- A file can be met last, and then its uid leads to it. -/
theorem Independent.last (h : Independent scanners project memo)
    (hle : (project.files project.entries).length ≤ kMaxIndexedResources) {p : Path}
    (hp : p ∈ project.files project.entries) (huid : (known scanners project memo p).uid ≠ "") :
    (scan scanners project memo project.entries).uidMap (known scanners project memo p).uid =
      some (resourcePath project.root p) := by
  obtain ⟨-, last, l, hlast, hl⟩ := list_ends _ project.entries hp
  have hscan : Scanning scanners project memo (project.files last) (scan scanners project memo last) :=
    scanning_scan hlast hle
  obtain ⟨facts, hget, hread, hknown⟩ := hscan.get hl
  have hinfo : infoOf project p facts = infoOf project p (known scanners project memo p) := by
    by_cases hover : Overflows project memo l
    · rw [hread hover, h.current hle hlast hl hover]
    · rw [hknown hover]
  have hlength : ((scan scanners project memo last).resources.map ResourceInfo.shown).length = l.length + 1 := by
    rw [List.length_map, hscan.length_eq]
    exact (congrArg List.length hl).trans List.length_append
  have hconcat : (scan scanners project memo last).resources.map ResourceInfo.shown =
      ((scan scanners project memo last).resources.map ResourceInfo.shown).dropLast ++
        [infoOf project p (known scanners project memo p)] := by
    refine (List.dropLast_append_getLast? _ ?_).symm
    rw [List.getLast?_eq_getElem?, hlength, Nat.add_sub_cancel, hget, hinfo]
    rfl
  have hmap := congrArg Prod.snd (h _ _ (Reordered.refl _) hlast)
  change (scan scanners project memo project.entries).uidMap = (scan scanners project memo last).uidMap at hmap
  rw [hmap, hscan.uidMap_eq, hconcat]
  exact @uidMapOf_last _ (infoOf project p (known scanners project memo p)) huid

/-- The index does not depend on the walk exactly when it has nothing to depend on. -/
theorem independent_iff (scanners : Scanners) (project : Project) (memo : Memo)
    (hle : (project.files project.entries).length ≤ kMaxIndexedResources) :
    Independent scanners project memo ↔ OrderFree scanners project memo := by
  constructor
  · intro h
    refine ⟨fun p hp q hq huid hpq => ?_, fun es hes met p after hsplit hover => h.current hle hes hsplit hover⟩
    have hlast := h.last hle hp huid
    rw [hpq, h.last hle hq (hpq ▸ huid)] at hlast
    exact (resourcePath_inj hq hp (Option.some.inj hlast)).symm
  · intro hfree es es' hes hes'
    rw [hfree.listed_eq hle hes, hfree.listed_eq hle hes']

end Walk

/-! ### Two scripts of one uid -/

/-- A uid sidecar is its uid. -/
def sidecarScanners : Scanners where
  headerUid _ := none
  sidecarUid text := text
  imported _ := {}
  dependencies _ := []
  declaredType _ := ""

/-- A script, and a copy of it that was made with its sidecar. -/
def copied : Project where
  root := "/p"
  entries := [.file "a.gd", .file "a.gd.uid", .file "b.gd", .file "b.gd.uid"]
  disk p := if p = "/p/a.gd.uid" ∨ p = "/p/b.gd.uid" then .file 2 9 "uid://two" else .file 1 40 "extends Node"
  nodup := by decide

/-- Two scripts, each with a uid of its own. -/
def pair : Project where
  root := "/p"
  entries := copied.entries
  disk p := if p = "/p/a.gd.uid" then .file 2 9 "uid://one" else copied.disk p
  nodup := copied.nodup

theorem independent_pair : Independent sidecarScanners pair ∅ := by
  refine (independent_iff sidecarScanners pair ∅ (by decide)).mpr ⟨by decide +kernel, ?_⟩
  rintro es hes met p after hsplit ⟨before, q, between, rfl, -, hlt⟩
  have hlength := (hes.files_perm (pair.root ++ "/")).length_eq
  change (pair.files pair.entries).length = (pair.files es).length at hlength
  have hfour : (pair.files pair.entries).length = 4 := by decide
  have hcount := before.countP_le_length (p := isNew pair ∅)
  have hempty : (∅ : Memo).size = 0 := rfl
  simp only [hfour, hsplit, List.length_append, List.length_cons] at hlength
  simp only [hempty, kMaxIndexedResources] at hlt
  omega

theorem not_independent : ¬ ∀ (scanners : Scanners) (project : Project) (memo : Memo),
    (project.files project.entries).length ≤ kMaxIndexedResources → Independent scanners project memo := by
  intro h
  have hswap : Reordered copied.entries [.file "b.gd", .file "b.gd.uid", .file "a.gd", .file "a.gd.uid"] := by
    refine .trans (.cons _ (.swap _ _ _)) ?_
    refine .trans (.swap _ _ _) ?_
    refine .cons _ (.trans (.cons _ (.swap _ _ _)) ?_)
    exact .swap _ _ _
  have hmap := congrArg (fun listed => listed.2 "uid://two")
    (h sidecarScanners copied ∅ (by decide) _ _ (Reordered.refl _) hswap)
  revert hmap
  decide +kernel

end Didi.Index
