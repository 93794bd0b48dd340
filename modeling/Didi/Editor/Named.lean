import Didi.Editor.Refresh

/-!
# Stale tabs are named

* `Stale` : some answer reported a path's tab open, and every answer about the path left it open and not rebuilt;
* `Grows` : what reading an answer never takes back;
* `Inv` : a stale path is pending or named, and so is what a request without an answer asked about;
* `firstRequests_inv`, `pendingTabs_inv` : the requests keep it;
* `refresh_named` : at the end nothing is pending.
-/

namespace Didi.Editor
open Json (find)
variable {s s' : Refreshing} {path : String} {result : Json} {found : List Json} {tabOnly : Bool}

def About (result : Json) (path : String) : Prop := find result "path" = some (.string path)

/-- The results that an exchange reported, if its answer can be read. -/
def Exchange.results (e : Exchange) : Option (List Json) := readableAnswer e.answer (1 < e.asked.length)

/-- A request is answered with a result for each path, in any order, or not readably. -/
def Exchange.PerPath (e : Exchange) : Prop :=
  ∀ results, e.results = some results → ∀ path ∈ e.asked, ∃ r ∈ results, About r path

def reports (sent : List Exchange) : List Json := sent.flatMap fun e => e.results.getD []

/-- An open tab that no answer reported rebuilt or closed. -/
def Stale (sent : List Exchange) (path : String) : Prop :=
  (∃ r ∈ reports sent, About r path) ∧
    ∀ r ∈ reports sent, About r path → flag r "scene_open" = true ∧ flag r "scene_reloaded" = false

def Named (s : Refreshing) (path : String) : Prop := ∃ reason, reason ≠ "" ∧ (path, reason) ∈ s.refresh.failed

/-! ## Reading -/

structure Grows (s s' : Refreshing) : Prop where
  sent : s'.sent = s.sent
  answered : s'.refresh.answered = s.refresh.answered
  failed : s.refresh.failed ⊆ s'.refresh.failed
  pending : s.pending ⊆ s'.pending

theorem Grows.rfl : Grows s s := ⟨Eq.refl _, Eq.refl _, List.Subset.refl _, List.Subset.refl _⟩

theorem Grows.trans {s'' : Refreshing} (h : Grows s s') (h' : Grows s' s'') : Grows s s'' :=
  ⟨h'.sent.trans h.sent, h'.answered.trans h.answered, List.Subset.trans h.failed h'.failed,
    List.Subset.trans h.pending h'.pending⟩

theorem Grows.named (h : Grows s s') (hnamed : Named s path) : Named s' path := by
  obtain ⟨reason, hreason, hmem⟩ := hnamed
  exact ⟨reason, hreason, h.failed hmem⟩

theorem Grows.held (h : Grows s s') (hheld : path ∈ s.pending ∨ Named s path) : path ∈ s'.pending ∨ Named s' path :=
  hheld.imp (fun hmem => h.pending hmem) h.named

theorem grows_fail (path reason : String) : Grows s (s.fail path reason) :=
  ⟨Eq.refl _, Eq.refl _, List.subset_append_left _ _, List.Subset.refl _⟩

theorem named_fail {reason : String} (hreason : reason ≠ "") : Named (s.fail path reason) path :=
  ⟨reason, hreason, List.mem_append_right _ (List.mem_singleton_self _)⟩

theorem append_ne_empty {a : String} (b : String) (h : a ≠ "") : a ++ b ≠ "" := by
  intro hnil
  have hlist := congrArg String.toList hnil
  rw [String.toList_append] at hlist
  exact h (String.toList_inj.mp (List.append_eq_nil_iff.mp hlist).1)

theorem grows_readTab : Grows s (readTab s path result) := by
  unfold readTab
  split_ifs
  · exact .rfl
  · exact ⟨Eq.refl _, Eq.refl _, List.Subset.refl _, List.Subset.refl _⟩
  · exact ⟨Eq.refl _, Eq.refl _, List.Subset.refl _, List.subset_append_left _ _⟩
  · exact grows_fail _ _

/-- A tab that an answer leaves open and not rebuilt is asked about again, or named. -/
theorem readTab_held (hopen : flag result "scene_open" = true) (hreloaded : flag result "scene_reloaded" = false) :
    path ∈ (readTab s path result).pending ∨ Named (readTab s path result) path := by
  unfold readTab
  rw [hopen, hreloaded]
  simp only [Bool.not_true, Bool.false_eq_true, ↓reduceIte]
  split_ifs with hpending hreason
  · exact .inl (List.mem_append_right _ (List.mem_singleton_self _))
  · exact .inr (named_fail (append_ne_empty _ (by decide)))
  · exact .inr (named_fail hreason)

theorem grows_readCopy : Grows s (readCopy s path result) := by
  have hindex : Grows s (if flag result "index_pending" then
      { s with refresh := { s.refresh with indexPending := s.refresh.indexPending ++ [path] } } else s) := by
    split_ifs
    · exact ⟨Eq.refl _, Eq.refl _, List.Subset.refl _, List.Subset.refl _⟩
    · exact .rfl
  refine hindex.trans ?_
  unfold readCopy
  dsimp only
  split_ifs
  all_goals first
    | exact ⟨Eq.refl _, Eq.refl _, List.Subset.refl _, List.Subset.refl _⟩
    | exact .rfl
    | exact grows_fail _ _

theorem grows_readResult : Grows s (readResult tabOnly s result) := by
  unfold readResult
  split
  · dsimp only
    split_ifs
    · exact grows_readTab
    · exact grows_readTab.trans grows_readCopy
  · exact .rfl

theorem readResult_held (habout : About result path) (hopen : flag result "scene_open" = true)
    (hreloaded : flag result "scene_reloaded" = false) :
    path ∈ (readResult tabOnly s result).pending ∨ Named (readResult tabOnly s result) path := by
  unfold readResult
  rw [habout]
  dsimp only
  split_ifs
  · exact readTab_held hopen hreloaded
  · exact grows_readCopy.held (readTab_held hopen hreloaded)

theorem grows_readResults : Grows s (found.foldl (readResult tabOnly) s) := by
  induction found generalizing s with
  | nil => exact .rfl
  | cons result found ih => exact grows_readResult.trans ih

theorem readResults_held (hmem : result ∈ found) (habout : About result path)
    (hopen : flag result "scene_open" = true) (hreloaded : flag result "scene_reloaded" = false) :
    path ∈ (found.foldl (readResult tabOnly) s).pending ∨ Named (found.foldl (readResult tabOnly) s) path := by
  induction found generalizing s with
  | nil => cases hmem
  | cons first found ih =>
    rcases List.mem_cons.mp hmem with rfl | hmem
    · have hgrows : Grows (readResult tabOnly s result) (found.foldl (readResult tabOnly) (readResult tabOnly s result)) :=
        grows_readResults
      exact hgrows.held (readResult_held habout hopen hreloaded)
    · exact ih hmem

/-! ## A request -/

/-- Every stale path is pending or named, and every path of a request without an answer is named. -/
structure Inv (s : Refreshing) : Prop where
  stale : ∀ path, Stale s.sent path → path ∈ s.pending ∨ Named s path
  unanswered : ∀ e ∈ s.sent, e.results = none → ∀ path ∈ e.asked, Named s path

theorem inv_start : Inv {} := by
  refine ⟨?_, fun e he => nomatch he⟩
  rintro path ⟨⟨r, hr, -⟩, -⟩
  cases hr

theorem reports_append (sent : List Exchange) (e : Exchange) :
    reports (sent ++ [e]) = reports sent ++ e.results.getD [] := by
  rw [reports, List.flatMap_append, List.flatMap_singleton]
  rfl

theorem named_failAll {asked : List String} {reason : String} (hreason : reason ≠ "") (hpath : path ∈ asked) :
    Named (s.failAll asked reason) path :=
  ⟨reason, hreason, List.mem_append_right _ (List.mem_map.mpr ⟨path, hpath, rfl⟩)⟩

theorem grows_failAll (asked : List String) (reason : String) : Grows s (s.failAll asked reason) :=
  ⟨Eq.refl _, Eq.refl _, List.subset_append_left _ _, List.Subset.refl _⟩

section Ask
variable {e : Exchange} {s₁ : Refreshing}

/-- A request without an answer, whose paths are all named. -/
theorem Inv.unreadable (h : Inv s) (hsent : s₁.sent = s.sent ++ [e]) (hfailed : s₁.refresh.failed = s.refresh.failed)
    (hpending : ∀ path ∈ s.pending, path ∈ s₁.pending ∨ path ∈ e.asked) (hnone : e.results = none)
    {reason : String} (hreason : reason ≠ "") :
    Inv (s₁.failAll e.asked reason) := by
  have hold : ∀ path, Named s path → Named (s₁.failAll e.asked reason) path := by
    rintro path ⟨reason', hreason', hmem⟩
    exact ⟨reason', hreason', List.mem_append_left _ (hfailed ▸ hmem)⟩
  refine ⟨?_, ?_⟩
  · intro path hstale
    change Stale s₁.sent path at hstale
    rw [hsent, Stale, reports_append, hnone, Option.getD_none, List.append_nil] at hstale
    rcases h.stale path hstale with hpath | hnamed
    · exact (hpending path hpath).imp_right (named_failAll hreason)
    · exact .inr (hold path hnamed)
  · intro e' he' hnone' path hpath
    change e' ∈ s₁.sent at he'
    rw [hsent] at he'
    rcases List.mem_append.mp he' with he' | he'
    · exact hold path (h.unanswered e' he' hnone' path hpath)
    · rw [List.mem_singleton.mp he'] at hpath
      exact named_failAll hreason hpath

/-- A request whose answer is read. -/
theorem Inv.readable (h : Inv s) (hsent : s₁.sent = s.sent ++ [e]) (hfailed : s₁.refresh.failed = s.refresh.failed)
    (hpending : ∀ path ∈ s.pending, path ∈ s₁.pending ∨ path ∈ e.asked) (hfound : e.results = some found)
    (hperPath : e.PerPath) :
    Inv (found.foldl (readResult tabOnly) s₁) := by
  have hgrows : Grows s₁ (found.foldl (readResult tabOnly) s₁) := grows_readResults
  have hold : ∀ path, Named s path → Named s₁ path := by
    rintro path ⟨reason, hreason, hmem⟩
    exact ⟨reason, hreason, hfailed ▸ hmem⟩
  refine ⟨?_, ?_⟩
  · rw [hgrows.sent, hsent]
    rintro path ⟨⟨r, hr, habout⟩, hall⟩
    rw [reports_append, hfound, Option.getD_some] at hr hall
    by_cases hnew : ∃ r ∈ found, About r path
    · obtain ⟨r, hr, habout⟩ := hnew
      obtain ⟨hopen, hreloaded⟩ := hall r (List.mem_append_right _ hr) habout
      exact readResults_held hr habout hopen hreloaded
    · have hstale : Stale s.sent path := by
        refine ⟨?_, fun r hr => hall r (List.mem_append_left _ hr)⟩
        rcases List.mem_append.mp hr with hr | hr
        · exact ⟨r, hr, habout⟩
        · exact absurd ⟨r, hr, habout⟩ hnew
      rcases h.stale path hstale with hpath | hnamed
      · rcases hpending path hpath with hpath | hasked
        · exact .inl (hgrows.pending hpath)
        · exact absurd (hperPath found hfound path hasked) hnew
      · exact .inr (hgrows.named (hold path hnamed))
  · rw [hgrows.sent, hsent]
    intro e' he' hnone path hpath
    rcases List.mem_append.mp he' with he' | he'
    · exact hgrows.named (hold path (h.unanswered e' he' hnone path hpath))
    · rw [List.mem_singleton.mp he', hfound] at hnone
      cases hnone

end Ask

/-! ## The requests -/

variable {answers : Nat → Except Error Json} {discardUnsaved : Bool}

theorem sent_readResults (tabOnly : Bool) (found : List Json) (s : Refreshing) :
    (found.foldl (readResult tabOnly) s).sent = s.sent :=
  grows_readResults.sent

theorem firstRequests_sent {batches : List (List String)} :
    s.sent <+: (firstRequests answers discardUnsaved batches s).1.sent := by
  induction batches generalizing s with
  | nil => exact List.prefix_rfl
  | cons asked batches ih =>
    have hask : s.sent <+: (ask answers discardUnsaved false asked s).2.sent := List.prefix_append _ _
    rw [firstRequests]
    dsimp only
    split
    · split_ifs
      · exact hask
      · refine List.IsPrefix.trans ?_ ih
        exact hask
    · refine List.IsPrefix.trans ?_ ih
      rw [sent_readResults]
      exact hask

theorem pendingTabs_sent {rounds : Nat} : s.sent <+: (pendingTabs answers discardUnsaved rounds s).sent := by
  induction rounds generalizing s with
  | zero => exact List.prefix_rfl
  | succ rounds ih =>
    have hask : s.sent <+: (ask answers discardUnsaved true s.pending { s with pending := [] }).2.sent :=
      List.prefix_append _ _
    rw [pendingTabs]
    split_ifs
    · exact List.prefix_rfl
    · dsimp only
      split
      · exact hask
      · refine List.IsPrefix.trans ?_ ih
        rw [sent_readResults]
        exact hask

/-- No answer was read where the first requests end early, and else they keep the invariant. -/
theorem firstRequests_inv {batches : List (List String)} (h : Inv s)
    (hperPath : ∀ e ∈ (firstRequests answers discardUnsaved batches s).1.sent, e.PerPath) :
    ((firstRequests answers discardUnsaved batches s).2 = true → Inv (firstRequests answers discardUnsaved batches s).1) ∧
      ((firstRequests answers discardUnsaved batches s).2 = false →
        (firstRequests answers discardUnsaved batches s).1.refresh.answered = false) := by
  induction batches generalizing s with
  | nil => exact ⟨fun _ => h, fun hfalse => nomatch hfalse⟩
  | cons asked batches ih =>
    let e : Exchange := ⟨asked, refreshParams asked discardUnsaved, false, answers s.sent.length⟩
    have hpending : ∀ path ∈ s.pending, path ∈ s.pending ∨ path ∈ e.asked := fun path hpath => .inl hpath
    rw [firstRequests] at hperPath ⊢
    dsimp only at hperPath ⊢
    split at hperPath
    · rename_i hnone
      split_ifs at hperPath ⊢ with hanswered
      · exact ⟨fun htrue => htrue.elim, fun _ => by simpa using hanswered⟩
      · refine ih ?_ hperPath
        exact @Inv.unreadable s e (ask answers discardUnsaved false asked s).2 h rfl rfl hpending hnone _
          (append_ne_empty _ (by decide))
    · rename_i found hfound
      refine ih ?_ hperPath
      refine @Inv.readable s _ _ e { (ask answers discardUnsaved false asked s).2 with refresh := _ } h rfl rfl
        hpending hfound (hperPath e (firstRequests_sent.subset ?_))
      rw [sent_readResults]
      exact List.mem_append_right _ (List.mem_singleton_self _)

theorem pendingTabs_inv {rounds : Nat} (h : Inv s)
    (hperPath : ∀ e ∈ (pendingTabs answers discardUnsaved rounds s).sent, e.PerPath) :
    Inv (pendingTabs answers discardUnsaved rounds s) := by
  induction rounds generalizing s with
  | zero => exact h
  | succ rounds ih =>
    let e : Exchange := ⟨s.pending, refreshParams s.pending discardUnsaved, true, answers s.sent.length⟩
    let s₁ := (ask answers discardUnsaved true s.pending { s with pending := [] }).2
    have hpending : ∀ path ∈ s.pending, path ∈ s₁.pending ∨ path ∈ e.asked := fun path hpath => .inr hpath
    rw [pendingTabs] at hperPath ⊢
    split_ifs at hperPath ⊢
    · exact h
    · dsimp only at hperPath ⊢
      split at hperPath
      · rename_i hnone
        exact @Inv.unreadable s e s₁ h rfl rfl hpending hnone _
          (append_ne_empty _ (append_ne_empty _ (by decide)))
      · rename_i found hfound
        refine ih ?_ hperPath
        refine @Inv.readable s _ _ e s₁ h rfl rfl hpending hfound (hperPath e (pendingTabs_sent.subset ?_))
        rw [sent_readResults]
        exact List.mem_append_right _ (List.mem_singleton_self _)

/-! ## The whole refresh -/

/-- The first requests keep the bridge's bound. -/
def Bounded (sent : List Exchange) : Prop := ∀ e ∈ sent, e.tabOnly = false → e.asked.length ≤ kPathsPerRequest

theorem bounded_append {sent : List Exchange} {e : Exchange} (h : Bounded sent)
    (he : e.tabOnly = false → e.asked.length ≤ kPathsPerRequest) : Bounded (sent ++ [e]) := by
  intro e' hmem
  rcases List.mem_append.mp hmem with hmem | hmem
  · exact h e' hmem
  · rw [List.mem_singleton.mp hmem]
    exact he

theorem requestsOf_length {paths : List String} : ∀ asked ∈ requestsOf paths, asked.length ≤ kPathsPerRequest := by
  induction paths using requestsOf.induct with
  | case1 => simp [requestsOf]
  | case2 paths hne ih =>
    rw [requestsOf, if_neg hne]
    intro asked hmem
    rcases List.mem_cons.mp hmem with rfl | hmem
    · exact List.length_take_le _ _
    · exact ih asked hmem

theorem firstRequests_bounded {batches : List (List String)} (h : Bounded s.sent)
    (hbatches : ∀ asked ∈ batches, asked.length ≤ kPathsPerRequest) :
    Bounded (firstRequests answers discardUnsaved batches s).1.sent := by
  induction batches generalizing s with
  | nil => exact h
  | cons asked batches ih =>
    have hask : Bounded (ask answers discardUnsaved false asked s).2.sent :=
      bounded_append h fun _ => hbatches asked List.mem_cons_self
    have hrest := fun asked hmem => hbatches asked (List.mem_cons_of_mem _ hmem)
    rw [firstRequests]
    dsimp only
    split
    · split_ifs
      · exact hask
      · exact ih hask hrest
    · refine ih ?_ hrest
      rw [sent_readResults]
      exact hask

theorem pendingTabs_bounded {rounds : Nat} (h : Bounded s.sent) :
    Bounded (pendingTabs answers discardUnsaved rounds s).sent := by
  induction rounds generalizing s with
  | zero => exact h
  | succ rounds ih =>
    have hask : Bounded (ask answers discardUnsaved true s.pending { s with pending := [] }).2.sent :=
      bounded_append h fun htrue => nomatch htrue
    rw [pendingTabs]
    split_ifs
    · exact h
    · dsimp only
      split
      · exact hask
      · refine ih ?_
        rw [sent_readResults]
        exact hask

theorem grows_stillPending : Grows s (stillPending s) := grows_failAll _ _

theorem grows_restoreEdited (back : Except Error Json) : Grows s (restoreEdited back s) := by
  by_cases hneeded : s.restore.needed
  case neg =>
    rw [restoreEdited, Bool.eq_false_of_not_eq_true hneeded]
    exact .rfl
  case pos =>
    rw [restoreEdited, if_neg (by simp [hneeded])]
    dsimp only
    split
    · exact ⟨Eq.refl _, Eq.refl _, List.Subset.refl _, List.Subset.refl _⟩
    · exact ⟨Eq.refl _, Eq.refl _, List.subset_append_left _ _, List.Subset.refl _⟩

theorem stillPending_held (hheld : path ∈ s.pending ∨ Named s path) : Named (stillPending s) path := by
  rcases hheld with hpath | hnamed
  · exact named_failAll (append_ne_empty _ (by decide)) hpath
  · exact grows_stillPending.named hnamed

variable {connected : Bool} {back : Except Error Json} {rounds : Nat} {paths : List String}

theorem refreshEditorCopies_bounded :
    Bounded (refreshEditorCopies connected answers back rounds paths discardUnsaved).sent := by
  unfold refreshEditorCopies
  split_ifs
  · exact fun e he => nomatch he
  · have hfirst : Bounded (firstRequests answers discardUnsaved (requestsOf paths) {}).1.sent :=
      firstRequests_bounded (fun e he => nomatch he) requestsOf_length
    split
    · rename_i s hs
      rw [hs] at hfirst
      exact hfirst
    · rename_i s hs
      rw [hs] at hfirst
      rw [(grows_restoreEdited back).sent, grows_stillPending.sent]
      exact pendingTabs_bounded hfirst

/-- Once the editor has answered, a path whose tab some answer reported open and none reported rebuilt or closed is
named with a reason, and so is every path of a request that was not answered readably. The requests that ask about every
path keep the bound of the bridge. -/
theorem refresh_named
    (hperPath : ∀ e ∈ (refreshEditorCopies connected answers back rounds paths discardUnsaved).sent, e.PerPath) :
    let s := refreshEditorCopies connected answers back rounds paths discardUnsaved
    (∀ e ∈ s.sent, e.tabOnly = false → e.asked.length ≤ kPathsPerRequest) ∧
      (s.refresh.answered = true →
        (∀ path, Stale s.sent path → Named s path) ∧
          ∀ e ∈ s.sent, e.results = none → ∀ path ∈ e.asked, Named s path) := by
  refine ⟨refreshEditorCopies_bounded, ?_⟩
  unfold refreshEditorCopies at hperPath ⊢
  split_ifs at hperPath ⊢
  · exact fun hanswered => nomatch hanswered
  · split at hperPath
    · rename_i s hs
      have hfirst := (@firstRequests_inv _ _ _ (requestsOf paths) inv_start (by rw [hs]; exact hperPath)).2
      rw [hs] at hfirst
      intro hanswered
      rw [hfirst rfl] at hanswered
      cases hanswered
    · rename_i s hs
      intro _
      rw [(grows_restoreEdited back).sent, grows_stillPending.sent] at hperPath ⊢
      have hfirst := (@firstRequests_inv _ _ _ (requestsOf paths) inv_start
        (by rw [hs]; exact fun e he => hperPath e (pendingTabs_sent.subset he))).1
      rw [hs] at hfirst
      have hinv : Inv (pendingTabs answers discardUnsaved rounds s) := pendingTabs_inv (hfirst rfl) hperPath
      refine ⟨fun path hstale => ?_, fun e he hnone path hpath => ?_⟩
      · exact (grows_restoreEdited back).named (stillPending_held (hinv.stale path hstale))
      · exact (grows_restoreEdited back).named (grows_stillPending.named (hinv.unanswered e he hnone path hpath))

/-- A tab that was open and pending, and that a later answer reports no longer open. -/
def closedMeanwhile : Nat → Except Error Json
  | 0 => .ok (.object [("results", .array [
      .object [("path", .string "a"), ("scene_open", .boolean true), ("scene_reload_pending", .boolean true)],
      .object [("path", .string "b"), ("scene_open", .boolean true), ("scene_reloaded", .boolean true)]])])
  | 1 => .ok (.object [("path", .string "a")])
  | _ => .error ⟨503, "Disconnected", .null⟩

def pendingTab : Json :=
  .object [("path", .string "a"), ("scene_open", .boolean true), ("scene_reload_pending", .boolean true)]

theorem requestsOf_pair : requestsOf ["a", "b"] = [["a", "b"]] := by
  simp [requestsOf, kPathsPerRequest]

theorem refresh_named_pending :
    Named (refreshEditorCopies true closedMeanwhile (.ok .null) 0 ["a", "b"] false) "a" := by
  have hsent : (refreshEditorCopies true closedMeanwhile (.ok .null) 0 ["a", "b"] false).sent =
      [⟨["a", "b"], refreshParams ["a", "b"] false, false, closedMeanwhile 0⟩] := by
    rw [refreshEditorCopies, requestsOf_pair]
    rfl
  have hanswered : (refreshEditorCopies true closedMeanwhile (.ok .null) 0 ["a", "b"] false).refresh.answered = true := by
    rw [refreshEditorCopies, requestsOf_pair]
    rfl
  refine ((@refresh_named closedMeanwhile _ _ _ _ _ ?_).2 hanswered).1 "a" ?_
  · rw [hsent]
    rintro e he results hresults path hpath
    rw [List.mem_singleton.mp he] at hresults hpath
    cases hresults
    simp only [List.mem_cons, List.not_mem_nil, or_false] at hpath
    rcases hpath with rfl | rfl
    · exact ⟨_, List.mem_cons_self, rfl⟩
    · exact ⟨_, List.mem_cons_of_mem _ List.mem_cons_self, rfl⟩
  · rw [hsent]
    refine ⟨⟨pendingTab, List.mem_cons_self, rfl⟩, ?_⟩
    intro r hr habout
    change r ∈ [pendingTab, _] at hr
    rcases List.mem_cons.mp hr with rfl | hr
    · exact ⟨rfl, rfl⟩
    · rw [List.mem_singleton.mp hr] at habout
      exact absurd (Json.string.inj (Option.some.inj habout)) (by decide)

/-- The tab of `a` was reported open and no answer reported it rebuilt, but the second answer reports it closed: it is
not named. -/
theorem closedMeanwhile_unnamed :
    let s := refreshEditorCopies true closedMeanwhile (.ok .null) 1 ["a", "b"] false
    (∀ e ∈ s.sent, e.PerPath) ∧ s.refresh.answered = true ∧
      (∃ r ∈ reports s.sent, About r "a" ∧ flag r "scene_open" = true) ∧
      (∀ r ∈ reports s.sent, About r "a" → flag r "scene_reloaded" = false) ∧ ¬Named s "a" := by
  have hfinal : refreshEditorCopies true closedMeanwhile (.ok .null) 1 ["a", "b"] false =
      { refresh := { answered := true, scenesReloaded := ["b"] }
        sent := [⟨["a", "b"], refreshParams ["a", "b"] false, false, closedMeanwhile 0⟩,
          ⟨["a"], refreshParams ["a"] false, true, closedMeanwhile 1⟩] } := by
    rw [refreshEditorCopies, requestsOf_pair]
    rfl
  rw [hfinal]
  refine ⟨?_, rfl, ⟨pendingTab, List.mem_cons_self, rfl, rfl⟩, ?_, ?_⟩
  · rintro e he results hresults path hpath
    simp only [List.mem_cons, List.not_mem_nil, or_false] at he
    rcases he with rfl | rfl
    · cases hresults
      simp only [List.mem_cons, List.not_mem_nil, or_false] at hpath
      rcases hpath with rfl | rfl
      · exact ⟨_, List.mem_cons_self, rfl⟩
      · exact ⟨_, List.mem_cons_of_mem _ List.mem_cons_self, rfl⟩
    · cases hresults
      rw [List.mem_singleton.mp hpath]
      exact ⟨_, List.mem_cons_self, rfl⟩
  · intro r hr habout
    change r ∈ [pendingTab, _, _] at hr
    simp only [List.mem_cons, List.not_mem_nil, or_false] at hr
    rcases hr with rfl | rfl | rfl
    · rfl
    · exact absurd (Json.string.inj (Option.some.inj habout)) (by decide)
    · rfl
  · rintro ⟨reason, -, hmem⟩
    cases hmem

end Didi.Editor
