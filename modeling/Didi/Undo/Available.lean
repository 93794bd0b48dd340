import Didi.Undo.Ledger

/-!
# What is available is undone next

* `Names c h i a` : the numbers and the name of a commit are those of a slot and its action;
* `Unmistaken` : a person's commit does not get the numbers and the name of a commit that is remembered;
* `Sound w` : the action in a slot was the last to be recorded of the slot, or no remembered commit names it;
* `available_undone_next` : the editor's Undo takes the action of a commit that is judged available.
-/

namespace Didi.Undo

/-! ## What the ledger answers -/

namespace UndoLedger
variable {ledger : UndoLedger}

/-- What holds when a commit is judged available. -/
theorem evaluate_available {ref : UndoCommit} {own : UndoHistoryState} {ownIsCandidate : Bool}
    {other : Option UndoHistoryState} {nameAt : Int → String}
    (h : (ledger.evaluate ref own ownIsCandidate other nameAt).state = .available) :
    ref.run = ledger.run ∧ 0 ≤ ref.index ∧ ref.index < own.count ∧
      own.version - own.current = ref.version - ref.index ∧ nameAt ref.index = ref.action ∧
      ledger.replacedLater ref = false ∧ own.current = ref.index ∧ ownIsCandidate = true ∧
      ∀ history, other = some history → 0 ≤ history.current →
        ∃ top, ledger.topOf history = some top ∧ top.serial ≤ ref.serial := by
  unfold evaluate at h
  dsimp only at h
  by_cases hrun : ref.run ≠ ledger.run
  · rw [if_pos hrun] at h
    cases h
  rw [if_neg hrun] at h
  by_cases hslot : ref.index < 0 ∨ own.count ≤ ref.index ∨ own.version - own.current ≠ ref.version - ref.index
  · rw [if_pos hslot] at h
    cases h
  rw [if_neg hslot] at h
  by_cases hname : nameAt ref.index ≠ ref.action ∨ ledger.replacedLater ref = true
  · rw [if_pos hname] at h
    cases h
  rw [if_neg hname] at h
  by_cases hundone : own.current < ref.index
  · rw [if_pos hundone] at h
    cases h
  rw [if_neg hundone] at h
  by_cases hlater : ref.index < own.current
  · rw [if_pos hlater] at h
    cases h
  rw [if_neg hlater] at h
  by_cases hcandidate : (!ownIsCandidate) = true
  · rw [if_pos hcandidate] at h
    cases h
  rw [if_neg hcandidate] at h
  push Not at hrun hslot hname
  refine ⟨hrun, hslot.1, hslot.2.1, hslot.2.2, hname.1, Bool.not_eq_true _ ▸ hname.2, by omega,
    by simpa using hcandidate, fun history hother hcurrent => ?_⟩
  subst hother
  dsimp only at h
  rw [if_neg (by omega)] at h
  cases htop : ledger.topOf history with
  | none =>
    rw [htop] at h
    cases h
  | some top =>
    rw [htop] at h
    dsimp only at h
    by_cases hnewer : ref.serial < top.serial
    · rw [if_pos hnewer] at h
      cases h
    · exact ⟨top, rfl, not_lt.mp hnewer⟩

/-- The commit on top of a history is the newest of those with its numbers and its name. -/
theorem topOf_newest (hordered : ledger.commits.Pairwise fun c d => c.serial < d.serial) {history : UndoHistoryState}
    {top c : UndoCommit} (h : ledger.topOf history = some top) (hc : c ∈ ledger.commits)
    (hid : c.historyId = history.id) (hindex : c.index = history.current) (hversion : c.version = history.version)
    (haction : c.action = history.action) : c.serial ≤ top.serial := by
  unfold topOf at h
  split at h
  · cases h
  · obtain ⟨htop, newer, older, hsplit, hnewer⟩ := List.find?_eq_some_iff_append.mp h
    have hrev : (newer ++ top :: older).Pairwise fun c d => d.serial < c.serial := by
      rw [← hsplit]
      exact List.pairwise_reverse.mpr hordered
    have hmem : c ∈ newer ++ top :: older := by
      rw [← hsplit]
      exact List.mem_reverse.mpr hc
    rcases List.mem_append.mp hmem with hin | hin
    · have hno := hnewer c hin
      simp [hid, hindex, hversion, haction] at hno
    · rcases List.mem_cons.mp hin with rfl | hin
      · exact le_rfl
      · exact ((List.pairwise_cons.mp (List.pairwise_append.mp hrev).2.1).1 c hin).le

/-- The commit on top of a history is remembered, with the history's numbers and its name. -/
theorem topOf_spec {history : UndoHistoryState} {top : UndoCommit} (h : ledger.topOf history = some top) :
    top ∈ ledger.commits ∧ top.historyId = history.id ∧ top.index = history.current ∧
      top.version = history.version ∧ top.action = history.action := by
  unfold topOf at h
  split at h
  · cases h
  · have hmem := List.mem_of_find?_eq_some h
    have hsome := List.find?_some h
    simp only [Bool.and_eq_true, decide_eq_true_eq] at hsome
    exact ⟨List.mem_reverse.mp hmem, hsome.1.1.1, hsome.1.1.2, hsome.1.2, hsome.2⟩

/-- No remembered commit is newer, in the same history, at a version that is no higher. -/
theorem not_newer_of_replacedLater (hordered : ledger.commits.Pairwise fun c d => c.serial < d.serial)
    {ref c : UndoCommit} (h : ledger.replacedLater ref = false) (hc : c ∈ ledger.commits) (hrun : c.run = ref.run)
    (hid : c.historyId = ref.historyId) (hversion : c.version ≤ ref.version) : c.serial ≤ ref.serial := by
  by_contra hlt
  rw [not_le] at hlt
  obtain ⟨newer, older, hsplit⟩ := List.append_of_mem (List.mem_reverse.mpr hc)
  have hrev : (newer ++ c :: older).Pairwise fun c d => d.serial < c.serial := by
    rw [← hsplit]
    exact List.pairwise_reverse.mpr hordered
  have hnewer : ∀ d ∈ newer, decide (ref.serial < d.serial) = true := by
    intro d hd
    have hcd : c.serial < d.serial := (List.pairwise_append.mp hrev).2.2 d hd c List.mem_cons_self
    exact decide_eq_true (hlt.trans hcd)
  unfold replacedLater at h
  rw [hsplit, List.takeWhile_append_of_pos hnewer, List.takeWhile_cons, if_pos (decide_eq_true hlt),
    List.any_append, List.any_cons, Bool.or_eq_false_iff, Bool.or_eq_false_iff] at h
  simp [hrun, hid, hversion] at h

end UndoLedger

/-! ## The slots of a history -/

namespace History
variable {h : History}

/-- What tells the times between two clears apart. -/
def offset (h : History) : Int := h.version - h.applied

theorem commit_offset (action : Action) : (h.commit action).offset = h.offset := by
  unfold offset commit
  push_cast
  omega

theorem commit_getElem? (happlied : h.applied ≤ h.actions.length) {action b : Action} {i : Nat}
    (hi : (h.commit action).actions[i]? = some b) :
    i < h.applied ∧ h.actions[i]? = some b ∨ i = h.applied ∧ b = action := by
  have hlen : (h.actions.take h.applied).length = h.applied := List.length_take_of_le happlied
  have hi' : (h.actions.take h.applied ++ [action])[i]? = some b := hi
  by_cases hlt : i < h.applied
  · rw [List.getElem?_append_left (by omega), List.getElem?_take_of_lt hlt] at hi'
    exact Or.inl ⟨hlt, hi'⟩
  · have hlast : i - h.applied < [action].length := by
      rw [List.getElem?_append_right (by omega), hlen] at hi'
      exact (List.getElem?_eq_some_iff.mp hi').1
    have heq : i = h.applied := by
      rw [List.length_singleton] at hlast
      omega
    subst heq
    rw [List.getElem?_append_right hlen.le, hlen, Nat.sub_self] at hi'
    exact Or.inr ⟨rfl, (Option.some.inj hi').symm⟩

theorem commit_applied_le (happlied : h.applied ≤ h.actions.length) (action : Action) :
    (h.commit action).applied ≤ (h.commit action).actions.length := by
  show h.applied + 1 ≤ (h.actions.take h.applied ++ [action]).length
  rw [List.length_append, List.length_take_of_le happlied]
  exact le_rfl

theorem undo_spec (happlied : h.applied ≤ h.actions.length) :
    h.undo.offset = h.offset ∧ h.undo.actions = h.actions ∧ h.undo.applied ≤ h.undo.actions.length := by
  unfold undo
  by_cases hzero : h.applied = 0
  · rw [if_pos hzero]
    exact ⟨rfl, rfl, happlied⟩
  · rw [if_neg hzero]
    refine ⟨?_, rfl, ?_⟩
    · show h.version - 1 - ((h.applied - 1 : Nat) : Int) = h.version - h.applied
      omega
    · show h.applied - 1 ≤ h.actions.length
      omega

theorem redo_spec (happlied : h.applied ≤ h.actions.length) :
    h.redo.offset = h.offset ∧ h.redo.actions = h.actions ∧ h.redo.applied ≤ h.redo.actions.length := by
  unfold redo
  by_cases hlt : h.applied < h.actions.length
  · rw [if_pos hlt]
    refine ⟨?_, rfl, hlt⟩
    show h.version + 1 - ((h.applied + 1 : Nat) : Int) = h.version - h.applied
    omega
  · rw [if_neg hlt]
    exact ⟨rfl, rfl, happlied⟩

theorem clear_offset : h.offset < h.clear.offset := by
  show h.version - h.applied < h.version + 1 - ((0 : Nat) : Int)
  omega

end History

/-! ## What holds in every world -/

/-- The numbers and the name of a commit are those of a slot of a history, and of the action in it. -/
structure Names (c : UndoCommit) (id : Int) (h : History) (i : Nat) (a : Action) : Prop where
  historyId : c.historyId = id
  index : c.index = i
  offset : c.version - 1 - c.index = h.offset
  action : c.action = a.name

/-- Only the offset of the history counts. -/
theorem names_congr {c : UndoCommit} {id : Int} {h h' : History} {i : Nat} {a : Action} (hoffset : h'.offset = h.offset) :
    Names c id h' i a ↔ Names c id h i a :=
  ⟨fun n => ⟨n.1, n.2, n.3.trans hoffset, n.4⟩, fun n => ⟨n.1, n.2, n.3.trans hoffset.symm, n.4⟩⟩

namespace World
variable {w : World}

/-- A person's commit does not get the numbers and the name of a commit that is remembered. -/
def Unmistaken (w : World) : Event → Prop
  | .commit id name =>
    ∀ c ∈ w.ledger.commits, ¬(c.historyId = id ∧ c.index = (w.histories id).applied ∧
      c.version = (w.histories id).version + 1 ∧ c.action = name)
  | _ => True

structure Sound (w : World) : Prop where
  runs : ∀ e ∈ w.recorded, e.1.run = w.ledger.run
  ordered : w.recorded.Pairwise fun e f => e.1.serial < f.1.serial ∧ e.2 < f.2
  bounded : ∀ e ∈ w.recorded, e.1.serial < w.ledger.nextSerial ∧ e.2 < w.clock
  remembered : w.ledger.commits <:+ w.recorded.map Prod.fst
  applied : ∀ id, (w.histories id).applied ≤ (w.histories id).actions.length
  offsets : ∀ e ∈ w.recorded, e.1.version - 1 - e.1.index ≤ (w.histories e.1.historyId).offset
  -- what is in a slot is no older than what was recorded of the slot
  newest : ∀ e ∈ w.recorded, e.1.version - 1 - e.1.index = (w.histories e.1.historyId).offset → ∀ (i : Nat) a,
    e.1.index = i → (w.histories e.1.historyId).actions[i]? = some a → e.2 ≤ a.stamp
  named : ∀ id (i : Nat) a, (w.histories id).actions[i]? = some a →
    (∃ e ∈ w.recorded, Names e.1 id (w.histories id) i a ∧ e.2 = a.stamp) ∨
      ∀ c ∈ w.ledger.commits, ¬Names c id (w.histories id) i a

/-- A history whose slots hold what they held, or that lost them all. -/
theorem Sound.update (hw : w.Sound) {id : Int} {h : History} (happlied : h.applied ≤ h.actions.length)
    (hoffset : (w.histories id).offset ≤ h.offset)
    (hslots : ∀ (i : Nat) a, h.actions[i]? = some a → h.offset = (w.histories id).offset ∧
      (w.histories id).actions[i]? = some a) : (w.update id h).Sound where
  runs := hw.runs
  ordered := hw.ordered
  bounded := hw.bounded
  remembered := hw.remembered
  applied j := by
    rw [update_histories]
    by_cases hj : j = id
    · subst hj
      rw [Function.update_self]
      exact happlied
    · rw [Function.update_of_ne hj]
      exact hw.applied j
  offsets e he := by
    rw [update_histories]
    by_cases hj : e.1.historyId = id
    · rw [hj, Function.update_self]
      have hle := hw.offsets e he
      rw [hj] at hle
      omega
    · rw [Function.update_of_ne hj]
      exact hw.offsets e he
  newest e he hstands i a hindex hi := by
    rw [update_histories] at hstands hi
    by_cases hj : e.1.historyId = id
    · rw [hj, Function.update_self] at hstands hi
      obtain ⟨hsame, hold⟩ := hslots i a hi
      exact hw.newest e he (by rw [hj, hstands, hsame]) i a hindex (by rw [hj, hold])
    · rw [Function.update_of_ne hj] at hstands hi
      exact hw.newest e he hstands i a hindex hi
  named j i a hi := by
    rw [update_histories] at hi ⊢
    by_cases hj : j = id
    · subst hj
      rw [Function.update_self] at hi ⊢
      obtain ⟨hsame, hold⟩ := hslots i a hi
      simp only [names_congr hsame]
      exact hw.named j i a hold
    · rw [Function.update_of_ne hj] at hi ⊢
      exact hw.named j i a hi

/-- A commit leaves the offset of each history as it was. -/
theorem commit_histories_offset (w : World) (id : Int) (name : String) (j : Int) :
    ((w.commit id name).histories j).offset = (w.histories j).offset := by
  show (Function.update w.histories id _ j).offset = _
  by_cases hj : j = id
  · subst hj
    rw [Function.update_self, History.commit_offset]
  · rw [Function.update_of_ne hj]

/-- A slot holds what it held, unless it is the one that is committed to. -/
theorem commit_slot (hw : w.Sound) {id j : Int} {name : String} {i : Nat} {b : Action}
    (hi : ((w.commit id name).histories j).actions[i]? = some b) :
    ((w.histories j).actions[i]? = some b ∧ (j = id → i < (w.histories j).applied)) ∨
      (j = id ∧ i = (w.histories j).applied ∧ b = ⟨w.clock, name⟩) := by
  change (Function.update w.histories id _ j).actions[i]? = some b at hi
  by_cases hj : j = id
  · subst hj
    rw [Function.update_self] at hi
    rcases History.commit_getElem? (hw.applied j) hi with ⟨hlt, hold⟩ | ⟨heq, hnew⟩
    · exact Or.inl ⟨hold, fun _ => hlt⟩
    · exact Or.inr ⟨rfl, heq, hnew⟩
  · rw [Function.update_of_ne hj] at hi
    exact Or.inl ⟨hi, fun h => absurd h hj⟩

theorem commit_applied (hw : w.Sound) (id : Int) (name : String) (j : Int) :
    ((w.commit id name).histories j).applied ≤ ((w.commit id name).histories j).actions.length := by
  show (Function.update w.histories id _ j).applied ≤ (Function.update w.histories id _ j).actions.length
  by_cases hj : j = id
  · subst hj
    rw [Function.update_self]
    exact History.commit_applied_le (hw.applied j) _
  · rw [Function.update_of_ne hj]
    exact hw.applied j

theorem Sound.commit (hw : w.Sound) {id : Int} {name : String} (hclear : w.Unmistaken (.commit id name)) :
    (w.commit id name).Sound where
  runs := hw.runs
  ordered := hw.ordered
  bounded e he := ⟨(hw.bounded e he).1, Nat.lt_succ_of_lt (hw.bounded e he).2⟩
  remembered := hw.remembered
  applied := commit_applied hw id name
  offsets e he := by
    rw [commit_histories_offset]
    exact hw.offsets e he
  newest e he hstands i a hindex hi := by
    rw [commit_histories_offset] at hstands
    rcases commit_slot hw hi with ⟨hold, _⟩ | ⟨_, _, rfl⟩
    · exact hw.newest e he hstands i a hindex hold
    · exact (hw.bounded e he).2.le
  named j i a hi := by
    simp only [names_congr (commit_histories_offset w id name j)]
    rcases commit_slot hw hi with ⟨hold, _⟩ | ⟨rfl, rfl, rfl⟩
    · exact hw.named j i a hold
    · refine Or.inr fun c hc n => hclear c hc ⟨n.1, n.2, ?_, n.4⟩
      have hoffset := n.3
      have hindex := n.2
      unfold History.offset at hoffset
      omega

/-- The commit that is recorded of an action. -/
theorem Sound.commitRecorded (hw : w.Sound) (id : Int) (name : String) : (w.commitRecorded id name).Sound where
  runs e he := by
    rcases List.mem_append.mp he with hold | hnew
    · exact hw.runs e hold
    · rw [List.mem_singleton.mp hnew]
      rfl
  ordered := by
    refine List.pairwise_append.mpr ⟨hw.ordered, List.pairwise_singleton _ _, fun e he f hf => ?_⟩
    rw [List.mem_singleton.mp hf]
    exact hw.bounded e he
  bounded e he := by
    rcases List.mem_append.mp he with hold | hnew
    · exact ⟨Nat.lt_succ_of_lt (hw.bounded e hold).1, Nat.lt_succ_of_lt (hw.bounded e hold).2⟩
    · rw [List.mem_singleton.mp hnew]
      exact ⟨Nat.lt_succ_self _, Nat.lt_succ_self _⟩
  remembered := by
    refine (List.drop_suffix _ _).trans ?_
    show _ <:+ (w.recorded ++ [_]).map Prod.fst
    rw [List.map_append]
    obtain ⟨older, holder⟩ := hw.remembered
    exact ⟨older, by rw [← holder, List.append_assoc]; rfl⟩
  applied := commit_applied hw id name
  offsets e he := by
    show _ ≤ ((w.commit id name).histories e.1.historyId).offset
    rw [commit_histories_offset]
    rcases List.mem_append.mp he with hold | hnew
    · exact hw.offsets e hold
    · rw [List.mem_singleton.mp hnew]
      show (w.histories id).version + 1 - 1 - (w.histories id).applied ≤ (w.histories id).version - (w.histories id).applied
      omega
  newest e he hstands i a hindex hi := by
    change _ = ((w.commit id name).histories e.1.historyId).offset at hstands
    rw [commit_histories_offset] at hstands
    rcases List.mem_append.mp he with hrec | hnew
    · rcases commit_slot hw hi with ⟨hold, _⟩ | ⟨_, _, rfl⟩
      · exact hw.newest e hrec hstands i a hindex hold
      · exact (hw.bounded e hrec).2.le
    · rw [List.mem_singleton.mp hnew] at hindex hi ⊢
      rcases commit_slot hw hi with ⟨_, hlt⟩ | ⟨_, _, rfl⟩
      · have hlt' : i < (w.histories id).applied := hlt rfl
        have happ : ((w.histories id).applied : Int) = i := hindex
        omega
      · exact le_rfl
  named j i a hi := by
    simp only [names_congr (show ((w.commitRecorded id name).histories j).offset = (w.histories j).offset from
      commit_histories_offset w id name j)]
    rcases commit_slot hw hi with ⟨hold, hlt⟩ | ⟨rfl, rfl, rfl⟩
    · rcases hw.named j i a hold with ⟨e, he, n, hstamp⟩ | hnone
      · exact Or.inl ⟨e, List.mem_append_left _ he, n, hstamp⟩
      · refine Or.inr fun c hc n => ?_
        rcases List.mem_append.mp ((List.drop_suffix _ _).subset hc) with hin | hin
        · exact hnone c hin n
        · rw [List.mem_singleton.mp hin] at n
          have hid : id = j := n.1
          have hindex : ((w.histories id).applied : Int) = i := n.2
          have hlt' := hlt hid.symm
          rw [hid] at hindex
          omega
    · refine Or.inl ⟨_, List.mem_append_right _ (List.mem_singleton_self _), ⟨rfl, rfl, ?_, rfl⟩, rfl⟩
      show (w.histories j).version + 1 - 1 - (w.histories j).applied = (w.histories j).version - (w.histories j).applied
      omega

theorem sound_start (run : String) (capacity : Nat) : (start run capacity).Sound where
  runs e he := absurd he (List.not_mem_nil)
  ordered := List.Pairwise.nil
  bounded e he := absurd he (List.not_mem_nil)
  remembered := List.suffix_refl _
  applied id := le_rfl
  offsets e he := absurd he (List.not_mem_nil)
  newest e he := absurd he (List.not_mem_nil)
  named id i a hi := by cases hi

theorem sound_step (w : World) (event : Event) (hclear : w.Unmistaken event) (hw : w.Sound) :
    (w.step event).2.Sound := by
  cases event with
  | command id names =>
    show (w.command id names).1.Sound
    rw [command_eq (hw.applied id)]
    induction names generalizing w with
    | nil => exact hw
    | cons name names ih => exact ih (w.commitRecorded id name) (hw.commitRecorded id name) trivial
  | commit id name => exact hw.commit hclear
  | undo id =>
    obtain ⟨hoffset, hactions, happlied⟩ := History.undo_spec (hw.applied id)
    exact hw.update happlied hoffset.ge fun i a hi => ⟨hoffset, hactions ▸ hi⟩
  | redo id =>
    obtain ⟨hoffset, hactions, happlied⟩ := History.redo_spec (hw.applied id)
    exact hw.update happlied hoffset.ge fun i a hi => ⟨hoffset, hactions ▸ hi⟩
  | clear id => exact hw.update le_rfl History.clear_offset.le fun i a hi => by cases hi
  | openScene scene => exact ⟨hw.1, hw.2, hw.3, hw.4, hw.5, hw.6, hw.7, hw.8⟩

/-! ## The next undo -/

theorem Sound.serials (hw : w.Sound) : w.ledger.commits.Pairwise fun c d => c.serial < d.serial := by
  refine List.Pairwise.sublist hw.remembered.sublist ?_
  rw [List.pairwise_map]
  exact hw.ordered.imp fun h => h.1

/-- A commit that was recorded after a remembered one is remembered. -/
theorem Sound.remembered_of_lt (hw : w.Sound) {c : UndoCommit} (hc : c ∈ w.ledger.commits) {e : UndoCommit × Nat}
    (he : e ∈ w.recorded) (hlt : c.serial < e.1.serial) : e.1 ∈ w.ledger.commits := by
  obtain ⟨older, holder⟩ := hw.remembered
  have hordered : (older ++ w.ledger.commits).Pairwise fun c d => c.serial < d.serial := by
    rw [holder, List.pairwise_map]
    exact hw.ordered.imp fun h => h.1
  have hmem : e.1 ∈ older ++ w.ledger.commits := holder ▸ List.mem_map_of_mem he
  rcases List.mem_append.mp hmem with hin | hin
  · have hbefore := (List.pairwise_append.mp hordered).2.2 e.1 hin c hc
    omega
  · exact hin

/-- What was recorded earlier was committed earlier. -/
theorem Sound.compare (hw : w.Sound) {e f : UndoCommit × Nat} (he : e ∈ w.recorded) (hf : f ∈ w.recorded) :
    e = f ∨ (e.1.serial < f.1.serial ∧ e.2 < f.2) ∨ (f.1.serial < e.1.serial ∧ f.2 < e.2) := by
  refine List.Pairwise.forall_of_forall_of_flip
    (R := fun e f => e = f ∨ (e.1.serial < f.1.serial ∧ e.2 < f.2) ∨ (f.1.serial < e.1.serial ∧ f.2 < e.2))
    (fun e _ => Or.inl rfl) ?_ ?_ he hf
  · exact hw.ordered.imp fun h => Or.inr (Or.inl h)
  · exact hw.ordered.imp fun h => Or.inr (Or.inr h)

/-- The action that a remembered commit names was recorded, and stands with the stamp of its record. -/
theorem Sound.named_of_remembered (hw : w.Sound) {id : Int} {i : Nat} {a : Action} {c : UndoCommit}
    (hc : c ∈ w.ledger.commits) (hn : Names c id (w.histories id) i a)
    (hi : (w.histories id).actions[i]? = some a) :
    ∃ e ∈ w.recorded, Names e.1 id (w.histories id) i a ∧ e.2 = a.stamp :=
  (hw.named id i a hi).resolve_right fun hnone => hnone c hc hn

/-- A commit on top of its history, not replaced as far as the ledger knows, names the action that it recorded. -/
theorem Sound.stamp_of_standing (hw : w.Sound) {commit : UndoCommit} {stamp : Nat} {i : Nat} {a : Action}
    (hrec : (commit, stamp) ∈ w.recorded) (hc : commit ∈ w.ledger.commits)
    (hn : Names commit commit.historyId (w.histories commit.historyId) i a)
    (hi : (w.histories commit.historyId).actions[i]? = some a) (hkept : w.ledger.replacedLater commit = false) :
    a.stamp = stamp := by
  obtain ⟨e, he, hne, hstamp⟩ := hw.named_of_remembered hc hn hi
  rcases hw.compare he hrec with rfl | ⟨_, hlt⟩ | ⟨hlt, _⟩
  · exact hstamp.symm
  -- an older action does not stand where a newer one was recorded
  · have hle := hw.newest (commit, stamp) hrec hn.3 i a hn.2 hi
    dsimp only at hle hlt
    omega
  -- a newer record of the slot is remembered, and tells that the commit was replaced
  · have hversion : e.1.version ≤ commit.version := by
      have h1 := hn.3
      have h2 := hne.3
      have h3 := hn.2
      have h4 := hne.2
      omega
    have hrun : e.1.run = commit.run := (hw.runs e he).trans (hw.runs _ hrec).symm
    have hle := UndoLedger.not_newer_of_replacedLater hw.serials hkept (hw.remembered_of_lt hc he hlt) hrun hne.1 hversion
    dsimp only at hlt
    omega

/-- The action on top of the other history is older, if the ledger takes it for a commit that is not newer. -/
theorem Sound.stamp_lt_of_top (hw : w.Sound) {commit top : UndoCommit} {stamp : Nat} {id : Int} {b : Action}
    (hrec : (commit, stamp) ∈ w.recorded) (hc : commit ∈ w.ledger.commits) (hid : id ≠ commit.historyId)
    (hb : (w.histories id).top = some b) (htop : w.ledger.topOf ((w.histories id).state id) = some top)
    (hle : top.serial ≤ commit.serial) : b.stamp < stamp := by
  obtain ⟨htopmem, htopid, htopindex, htopversion, htopaction⟩ := UndoLedger.topOf_spec htop
  unfold History.top at hb
  by_cases hzero : (w.histories id).applied = 0
  · rw [if_pos hzero] at hb
    cases hb
  rw [if_neg hzero] at hb
  have hcurrent : ((w.histories id).state id).current = ((w.histories id).applied - 1 : Nat) := by
    show ((w.histories id).applied : Int) - 1 = _
    omega
  have haction : ((w.histories id).state id).action = b.name := by
    unfold History.state History.top
    rw [if_neg hzero, hb]
    rfl
  have hn : Names top id (w.histories id) ((w.histories id).applied - 1) b := by
    refine ⟨htopid, htopindex.trans hcurrent, ?_, htopaction.trans haction⟩
    rw [htopindex, htopversion, hcurrent]
    show (w.histories id).version - 1 - _ = (w.histories id).version - (w.histories id).applied
    omega
  obtain ⟨e, he, hne, hstamp⟩ := hw.named_of_remembered htopmem hn hb
  have hserial : e.1.serial ≤ commit.serial := by
    by_contra hlt
    have hmem := hw.remembered_of_lt hc he (not_le.mp hlt)
    have hversion : e.1.version = ((w.histories id).state id).version := by
      have h1 := hn.3
      have h2 := hne.3
      have h3 := hn.2
      have h4 := hne.2
      rw [← htopversion]
      omega
    have hnewest := UndoLedger.topOf_newest hw.serials htop hmem hne.1 (hne.2.trans hcurrent.symm) hversion
      (hne.4.trans haction.symm)
    omega
  rcases hw.compare he hrec with rfl | ⟨_, hlt⟩ | ⟨hlt, _⟩
  · exact absurd hne.1.symm hid
  · rw [← hstamp]
    exact hlt
  · exact absurd hlt (not_lt.mpr hserial)

/-- What is undone next is the one candidate that is newer than the others. -/
theorem nextUndo_eq {id : Int} {a : Action} (hid : id ∈ w.candidates) (ha : (w.histories id).top = some a)
    (hnewer : ∀ j ∈ w.candidates, j ≠ id → ∀ b, (w.histories j).top = some b → b.stamp < a.stamp) :
    w.nextUndo = some (id, a) := by
  unfold nextUndo
  have hmem : (id, a) ∈ w.candidates.filterMap fun id => (w.histories id).top.map (id, ·) :=
    List.mem_filterMap.mpr ⟨id, hid, by rw [ha]; rfl⟩
  cases hmax : (w.candidates.filterMap fun id => (w.histories id).top.map (id, ·)).argmax fun e => e.2.stamp with
  | none => rw [List.argmax_eq_none.mp hmax] at hmem; cases hmem
  | some m =>
    have hle := List.le_of_mem_argmax hmem hmax
    obtain ⟨j, hj, hm⟩ := List.mem_filterMap.mp (List.argmax_mem hmax)
    obtain ⟨b, hb, rfl⟩ := Option.map_eq_some_iff.mp hm
    by_cases hji : j = id
    · subst hji
      rw [ha] at hb
      rw [Option.some.inj hb]
    · have hlt := hnewer j hj hji b hb
      dsimp only at hle
      omega

/-- The candidate beside a candidate is the other history. -/
theorem otherOf_eq {id j : Int} (hid : id ∈ w.candidates) (hj : j ∈ w.candidates) (hne : j ≠ id) :
    w.otherOf id = some ((w.histories j).state j) := by
  unfold otherOf
  unfold candidates at hid hj
  by_cases hglobal : id = kGlobalUndoHistory
  · rw [if_pos hglobal]
    rcases List.mem_cons.mp hj with hj | hj
    · exact absurd (hj.trans hglobal.symm) hne
    · rw [Option.mem_toList.mp hj]
      rfl
  · rw [if_neg hglobal]
    have hscene := Option.mem_toList.mp ((List.mem_cons.mp hid).resolve_left hglobal)
    rcases List.mem_cons.mp hj with hj | hj
    · rw [hj]
    · rw [Option.mem_toList] at hj
      exact absurd (Option.some.inj (hj.symm.trans hscene)) hne

/-- The editor's next Undo takes the action that a remembered commit recorded, whenever the commit is judged
available, if no person's commit was mistaken for one that was remembered. -/
theorem available_undone_next {run : String} {capacity : Nat} {events : List Event}
    (h : Run.Along step Unmistaken (start run capacity) events) {commit : UndoCommit} {stamp : Nat}
    (hrec : (commit, stamp) ∈ (Run.exec step (start run capacity) events).recorded)
    (hc : commit ∈ (Run.exec step (start run capacity) events).ledger.commits)
    (havailable : ((Run.exec step (start run capacity) events).judge commit).state = .available) :
    ∃ a, (Run.exec step (start run capacity) events).nextUndo = some (commit.historyId, a) ∧ a.stamp = stamp ∧
      a.name = commit.action := by
  have hw : (Run.exec step (start run capacity) events).Sound :=
    Run.exec_of_along sound_step h (sound_start run capacity)
  generalize Run.exec step (start run capacity) events = w at *
  obtain ⟨-, hindex, hcount, hoffset, hname, hkept, hcurrent, hcandidate, hother⟩ :=
    UndoLedger.evaluate_available havailable
  obtain ⟨i, hi⟩ := Int.eq_ofNat_of_zero_le hindex
  have happlied : ((w.histories commit.historyId).applied : Int) - 1 = commit.index := hcurrent
  have hlt : i < (w.histories commit.historyId).actions.length := by
    change _ < (((w.histories commit.historyId).actions.length : Nat) : Int) at hcount
    omega
  have hslot : (w.histories commit.historyId).actions[i]? = some (w.histories commit.historyId).actions[i] :=
    List.getElem?_eq_getElem hlt
  have hn : Names commit commit.historyId (w.histories commit.historyId) i (w.histories commit.historyId).actions[i] := by
    refine ⟨rfl, hi, ?_, ?_⟩
    · change (w.histories commit.historyId).version - ((w.histories commit.historyId).applied - 1) = _ at hoffset
      unfold History.offset
      omega
    · unfold History.nameAt at hname
      rw [if_pos hindex, hi, Int.toNat_natCast, hslot] at hname
      exact hname.symm
  have hstamp := hw.stamp_of_standing hrec hc hn hslot hkept
  have htop : (w.histories commit.historyId).top = some (w.histories commit.historyId).actions[i] := by
    unfold History.top
    rw [if_neg (by omega), show (w.histories commit.historyId).applied - 1 = i by omega, hslot]
  refine ⟨_, nextUndo_eq (of_decide_eq_true hcandidate) htop fun j hj hne b hb => ?_, hstamp, hn.4.symm⟩
  have hpositive : 0 ≤ ((w.histories j).state j).current := by
    show (0 : Int) ≤ (w.histories j).applied - 1
    by_contra hneg
    unfold History.top at hb
    rw [if_pos (by omega)] at hb
    cases hb
  obtain ⟨top, htopOf, hle⟩ := hother _ (otherOf_eq (of_decide_eq_true hcandidate) hj hne) hpositive
  rw [hstamp]
  exact hw.stamp_lt_of_top hrec hc hne hb htopOf hle

/-- Two actions of a command, the second one undone. -/
def undoneOnce : List Event := [.openScene (some 7), .command 7 ["Didi: add node", "Didi: set position"], .undo 7]

def addNode : UndoCommit :=
  { run := "r1", serial := 1, historyId := 7, scenePath := "", index := 0, version := 2, action := "Didi: add node" }

theorem available_undone_next_add : ∃ a, (Run.exec step (start "r1" 4096) undoneOnce).nextUndo = some (7, a) ∧
    a.stamp = 0 ∧ a.name = "Didi: add node" :=
  @available_undone_next "r1" 4096 undoneOnce ⟨trivial, trivial, trivial, trivial⟩ addNode 0 (by decide) (by decide)
    (by decide)

/-- A person commits an action of the same name where a command's action was undone. -/
def sameName : List Event :=
  [.openScene (some 7), .command 7 ["Didi: set position"], .undo 7, .commit 7 "Didi: set position"]

def setPosition : UndoCommit :=
  { run := "r1", serial := 1, historyId := 7, scenePath := "", index := 0, version := 2, action := "Didi: set position" }

/-- A commit is judged available, and the editor's Undo takes a person's action that replaced it. -/
theorem available_undone_other :
    (setPosition, 0) ∈ (Run.exec step (start "r1" 4096) sameName).recorded ∧
      setPosition ∈ (Run.exec step (start "r1" 4096) sameName).ledger.commits ∧
      ((Run.exec step (start "r1" 4096) sameName).judge setPosition).state = .available ∧
      (Run.exec step (start "r1" 4096) sameName).nextUndo = some (7, ⟨1, "Didi: set position"⟩) := by
  decide

end World

end Didi.Undo
