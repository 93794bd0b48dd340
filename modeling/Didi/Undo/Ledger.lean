import Mathlib.Data.List.MinMax
import Mathlib.Data.String.Basic
import Didi.Lib.Run

/-!
# The undo references of the change journal

* `UndoLedger` : the actions that commands committed, as the editor's histories showed them;
* `observe` : what a command committed in one history; `evaluate` : whether a commit can be undone on its own;
* `World` : the editor's histories with a ledger, where commands are observed and a person's edits are not;
* `pushAll` : the commits of actions committed one after another;
* `commitRecorded` : an action that is committed and recorded at once;
* `command_eq` : what is observed of a command is recorded action by action.
-/

namespace Didi.Undo

def kGlobalUndoHistory : Int := 0

structure UndoHistoryState where
  id : Int := kGlobalUndoHistory
  version : Int := 0
  -- the action that an undo would take, -1 when there is none
  current : Int := -1
  -- redo entries included
  count : Int := 0
  action : String := ""
  scenePath : String := ""

structure UndoCommit where
  run : String
  serial : Nat
  historyId : Int
  scenePath : String
  index : Int
  version : Int
  action : String
deriving DecidableEq

inductive UndoState
  | available
  | blocked
  | laterHistory
  | undone
  | gone
deriving DecidableEq

structure UndoVerdict where
  state : UndoState := .gone
  reason : String
  laterActions : Int := 0
  newerAction : String := ""
  newerHistory : String := ""
  needsSceneTab : Bool := false

structure UndoLedger where
  run : String
  capacity : Nat
  nextSerial : Nat := 1
  -- the oldest first
  commits : List UndoCommit := []

namespace UndoLedger

def make (run : String) (capacity : Nat) : UndoLedger := { run, capacity := if capacity = 0 then 1 else capacity }

/-- One commit is remembered, and the oldest one goes when there are too many. -/
def push (ledger : UndoLedger) (commit : UndoCommit) : UndoLedger :=
  let commits := ledger.commits ++ [commit]
  { ledger with nextSerial := ledger.nextSerial + 1, commits := commits.drop (commits.length - ledger.capacity) }

/-- The commits of the steps `ks`, of `steps` in all. -/
def observeSteps (steps : Int) (before after : UndoHistoryState) (namesAt : Int → String) :
    UndoLedger → List Nat → UndoLedger × List UndoCommit
  | ledger, [] => (ledger, [])
  | ledger, k :: ks =>
    let index := after.current - (steps - 1 - k)
    if index < 0 then observeSteps steps before after namesAt ledger ks
    else
      let commit : UndoCommit :=
        { run := ledger.run, serial := ledger.nextSerial, historyId := after.id, scenePath := after.scenePath, index,
          version := before.version + 1 + k,
          action := if k = steps - 1 then after.action else namesAt index }
      let (ledger, made) := observeSteps steps before after namesAt (ledger.push commit) ks
      (ledger, commit :: made)

def observe (ledger : UndoLedger) (before after : UndoHistoryState) (namesAt : Int → String) :
    UndoLedger × List UndoCommit :=
  if before.id ≠ after.id ∨ after.version ≤ before.version then (ledger, [])
  -- a cleared history has a higher version as well
  else if after.current < 0 ∨ after.count = 0 then (ledger, [])
  else
    let steps := after.version - before.version
    observeSteps steps before after namesAt ledger (List.range steps.toNat)

def topOf (ledger : UndoLedger) (history : UndoHistoryState) : Option UndoCommit :=
  if history.current < 0 then none
  else ledger.commits.reverse.find? fun commit =>
    commit.historyId = history.id && commit.index = history.current && commit.version = history.version &&
      commit.action = history.action

/-- A later commit in the same history, at a version that is no higher. -/
def replacedLater (ledger : UndoLedger) (commit : UndoCommit) : Bool :=
  (ledger.commits.reverse.takeWhile fun later => commit.serial < later.serial).any fun later =>
    later.run = commit.run && later.historyId = commit.historyId && later.version ≤ commit.version

def evaluate (ledger : UndoLedger) (ref : UndoCommit) (own : UndoHistoryState) (ownIsCandidate : Bool)
    (other : Option UndoHistoryState) (nameAt : Int → String) : UndoVerdict :=
  let available : UndoVerdict :=
    { state := .available, reason := "On top of its history; the editor's Undo takes it next." }
  if ref.run ≠ ledger.run then
    { reason := "Recorded by an earlier editor run. The editor's undo history ends with the editor, so there is " ++
        "nothing left to undo it with." }
  else if ref.index < 0 ∨ own.count ≤ ref.index ∨ own.version - own.current ≠ ref.version - ref.index then
    { reason := "No longer in its history. Closing or reloading its scene clears the history, and a change made " ++
        "after undoing it replaces it." }
  else if nameAt ref.index ≠ ref.action ∨ ledger.replacedLater ref = true then
    { reason := "Replaced. It was undone and a later change took its place in the history." }
  else if own.current < ref.index then
    { state := .undone
      reason := "Already undone. It is still in the history's redo entries until something new is committed there." }
  else if ref.index < own.current then
    { state := .laterHistory
      laterActions := own.current - ref.index
      reason := "Still applied, under " ++ toString (own.current - ref.index) ++
        (if own.current - ref.index = 1 then " later action" else " later actions") ++
        " in the same history, which depend on it. The editor undoes only the newest action of a history." }
  else if !ownIsCandidate then
    { state := .blocked
      needsSceneTab := true
      reason := "On top of its scene's history, but that scene is not the current tab. The editor's Undo reaches " ++
        "only the current scene's history and the global one." }
  else match other with
    | none => available
    | some other =>
      if other.current < 0 then available
      else
        let newerHistory := if other.id = kGlobalUndoHistory then "global" else "scene"
        match ledger.topOf other with
        | none =>
          { state := .blocked
            newerAction := other.action
            newerHistory
            reason := "The " ++ newerHistory ++ " history's last action (\"" ++ other.action ++
              "\") was not made by Didi in this editor run, so which of the two is newer cannot be told, and the " ++
              "editor's Undo might take it instead." }
        | some top =>
          if ref.serial < top.serial then
            { state := .blocked
              newerAction := other.action
              newerHistory
              reason := "The editor's Undo would take a newer change in the " ++ newerHistory ++
                " history first (\"" ++ other.action ++ "\")." }
          else available

end UndoLedger

/-! ## The editor's histories -/

/-- An action of a history, stamped with the moment it was committed. -/
structure Action where
  stamp : Nat
  name : String
deriving DecidableEq

/-- A history as the editor keeps it: the first `applied` of its actions are done, the others can be redone. -/
structure History where
  actions : List Action := []
  applied : Nat := 0
  version : Int := 1

namespace History

def commit (h : History) (action : Action) : History where
  actions := h.actions.take h.applied ++ [action]
  applied := h.applied + 1
  version := h.version + 1

def undo (h : History) : History :=
  if h.applied = 0 then h else { h with applied := h.applied - 1, version := h.version - 1 }

def redo (h : History) : History :=
  if h.applied < h.actions.length then { h with applied := h.applied + 1, version := h.version + 1 } else h

def clear (h : History) : History where
  actions := []
  applied := 0
  version := h.version + 1

/-- The action that an undo would take. -/
def top (h : History) : Option Action := if h.applied = 0 then none else h.actions[h.applied - 1]?

/-- `get_action_name`. -/
def nameAt (h : History) (index : Int) : String :=
  if 0 ≤ index then (h.actions[index.toNat]?.map Action.name).getD "" else ""

/-- What the editor reports of a history. -/
def state (h : History) (id : Int) : UndoHistoryState where
  id
  version := h.version
  current := h.applied - 1
  count := h.actions.length
  action := (h.top.map Action.name).getD ""

end History

/-- The editor, and the ledger that watches it. -/
structure World where
  histories : Int → History := fun _ => {}
  -- the history of the current scene
  scene : Option Int := none
  clock : Nat := 0
  ledger : UndoLedger
  -- the commits that were ever recorded, each with the stamp of its action
  recorded : List (UndoCommit × Nat) := []

inductive Event
  -- a command commits actions of these names, one after another
  | command (id : Int) (names : List String)
  | commit (id : Int) (name : String)
  | undo (id : Int)
  | redo (id : Int)
  | clear (id : Int)
  | openScene (scene : Option Int)

namespace World

/-- An editor run as it starts. -/
def start (run : String) (capacity : Nat) : World := { ledger := .make run capacity }

def update (w : World) (id : Int) (h : History) : World := { w with histories := Function.update w.histories id h }

/-- An action is committed to a history. -/
def commit (w : World) (id : Int) (name : String) : World :=
  { w.update id ((w.histories id).commit ⟨w.clock, name⟩) with clock := w.clock + 1 }

/-- Actions are committed to a history, one after another. -/
def commitAll (w : World) (id : Int) (names : List String) : World := names.foldl (fun w name => w.commit id name) w

/-- A command, observed. -/
def command (w : World) (id : Int) (names : List String) : World × List UndoCommit :=
  let after := w.commitAll id names
  let (ledger, made) := w.ledger.observe ((w.histories id).state id) ((after.histories id).state id)
    (after.histories id).nameAt
  ({ after with ledger, recorded := w.recorded ++ made.zip (List.range' w.clock names.length) }, made)

def step (w : World) : Event → List UndoCommit × World
  | .command id names => ((w.command id names).2, (w.command id names).1)
  | .commit id name => ([], w.commit id name)
  | .undo id => ([], w.update id (w.histories id).undo)
  | .redo id => ([], w.update id (w.histories id).redo)
  | .clear id => ([], w.update id (w.histories id).clear)
  | .openScene scene => ([], { w with scene := scene.filter (· ≠ kGlobalUndoHistory) })

/-- The histories that the editor's Undo chooses between. -/
def candidates (w : World) : List Int := kGlobalUndoHistory :: w.scene.toList

/-- The newest action of the candidates, with its history. -/
def nextUndo (w : World) : Option (Int × Action) :=
  (w.candidates.filterMap fun id => (w.histories id).top.map (id, ·)).argmax fun e => e.2.stamp

/-- The other candidate. -/
def otherOf (w : World) (id : Int) : Option UndoHistoryState :=
  if id = kGlobalUndoHistory then w.scene.map fun scene => (w.histories scene).state scene
  else some ((w.histories kGlobalUndoHistory).state kGlobalUndoHistory)

/-- A reference, judged against the editor as it is. -/
def judge (w : World) (ref : UndoCommit) : UndoVerdict :=
  w.ledger.evaluate ref ((w.histories ref.historyId).state ref.historyId) (ref.historyId ∈ w.candidates)
    (w.otherOf ref.historyId) (w.histories ref.historyId).nameAt

end World

/-! ## One action of a command -/

namespace UndoLedger

/-- The commits that are recorded for actions of these names, from an index and a version on. -/
def pushAll (ledger : UndoLedger) (id index version : Int) : List String → UndoLedger × List UndoCommit
  | [] => (ledger, [])
  | name :: names =>
    let commit : UndoCommit :=
      { run := ledger.run, serial := ledger.nextSerial, historyId := id, scenePath := "", index, version, action := name }
    let rest := (ledger.push commit).pushAll id (index + 1) (version + 1) names
    (rest.1, commit :: rest.2)

/-- The steps that are observed are those of the names. -/
theorem observeSteps_eq {before after : UndoHistoryState} {namesAt : Int → String} {steps : Int} {names : List String}
    {j : Nat} (hpath : after.scenePath = "") (hindex : 0 ≤ after.current - (steps - 1 - j))
    (hnames : ∀ k name, names[k]? = some name →
      (if ((j + k : Nat) : Int) = steps - 1 then after.action else namesAt (after.current - (steps - 1 - (j + k : Nat)))) =
        name) (ledger : UndoLedger) :
    observeSteps steps before after namesAt ledger (List.range' j names.length) =
      ledger.pushAll after.id (after.current - (steps - 1 - j)) (before.version + 1 + j) names := by
  induction names generalizing j ledger with
  | nil => rfl
  | cons name names ih =>
    have hname := hnames 0 name rfl
    have hrest := @ih (j + 1) (by push_cast; omega) (fun k name hk => by
      have hk' := hnames (k + 1) name hk
      rwa [show j + (k + 1) = j + 1 + k by omega] at hk')
    rw [List.length_cons, List.range'_succ, observeSteps, pushAll]
    dsimp only
    rw [if_neg (by omega), hpath]
    rw [Nat.add_zero] at hname
    rw [hname, hrest, show after.current - (steps - 1 - (j + 1 : Nat)) = after.current - (steps - 1 - j) + 1 by
      push_cast; omega, show before.version + 1 + ((j + 1 : Nat) : Int) = before.version + 1 + j + 1 by push_cast; omega]

end UndoLedger

namespace History

def commitAll (h : History) (clock : Nat) : List String → History
  | [] => h
  | name :: names => (h.commit ⟨clock, name⟩).commitAll (clock + 1) names

/-- The name of the action on top stands in the slot of its index. -/
theorem state_action (h : History) (id : Int) : (h.state id).action = h.nameAt (h.state id).current := by
  unfold state top nameAt
  by_cases hzero : h.applied = 0
  · rw [if_pos hzero, if_neg (show ¬ (0 : Int) ≤ (h.applied : Int) - 1 by omega)]
    rfl
  · rw [if_neg hzero, if_pos (show (0 : Int) ≤ (h.applied : Int) - 1 by omega),
      show ((h.applied : Int) - 1).toNat = h.applied - 1 by omega]

theorem commitAll_spec {h : History} (happlied : h.applied ≤ h.actions.length) (clock : Nat) (names : List String) :
    (h.commitAll clock names).applied = h.applied + names.length ∧
      (h.commitAll clock names).version = h.version + names.length ∧
      h.applied + names.length ≤ (h.commitAll clock names).actions.length ∧
      ∀ k name, names[k]? = some name → (h.commitAll clock names).nameAt (h.applied + k : Nat) = name := by
  suffices hall : (h.commitAll clock names).applied = h.applied + names.length ∧
      (h.commitAll clock names).version = h.version + names.length ∧
      ∃ rest, (h.commitAll clock names).actions =
        h.actions.take h.applied ++ (List.zipWith Action.mk (List.range' clock names.length) names ++ rest) by
    obtain ⟨hlen, hversion, rest, hactions⟩ := hall
    have htake : (h.actions.take h.applied).length = h.applied := List.length_take_of_le happlied
    refine ⟨hlen, hversion, ?_, fun k name hk => ?_⟩
    · rw [hactions, List.length_append, List.length_append, htake, List.length_zipWith, List.length_range']
      omega
    · have hlt : k < names.length := (List.getElem?_eq_some_iff.mp hk).1
      unfold nameAt
      rw [if_pos (Int.natCast_nonneg _), Int.toNat_natCast, hactions, List.getElem?_append_right (by omega), htake,
        Nat.add_sub_cancel_left, List.getElem?_append_left (by simpa using hlt), List.getElem?_zipWith,
        List.getElem?_range' hlt, hk]
      rfl
  induction names generalizing h clock with
  | nil =>
    exact ⟨rfl, (Int.add_zero _).symm, h.actions.drop h.applied, (List.take_append_drop _ _).symm⟩
  | cons name names ih =>
    have hlen : (h.actions.take h.applied ++ [(⟨clock, name⟩ : Action)]).length = h.applied + 1 := by
      rw [List.length_append, List.length_take_of_le happlied]
      rfl
    obtain ⟨happ, hversion, rest, hactions⟩ := @ih (h.commit ⟨clock, name⟩) hlen.ge (clock + 1)
    refine ⟨?_, ?_, rest, ?_⟩
    · rw [commitAll, happ, List.length_cons]
      show h.applied + 1 + names.length = _
      omega
    · rw [commitAll, hversion, List.length_cons]
      show h.version + 1 + names.length = _
      push_cast
      omega
    · rw [commitAll, hactions, List.length_cons, List.range'_succ]
      show (h.actions.take h.applied ++ [(⟨clock, name⟩ : Action)]).take (h.applied + 1) ++ _ = _
      rw [List.take_of_length_le hlen.le, List.zipWith_cons_cons, List.append_assoc]
      rfl

end History

namespace World

@[simp] theorem update_histories (w : World) (id : Int) (h : History) :
    (w.update id h).histories = Function.update w.histories id h := rfl

/-- One action of a command, recorded as it is committed. -/
def commitRecorded (w : World) (id : Int) (name : String) : World :=
  let commit : UndoCommit :=
    { run := w.ledger.run, serial := w.ledger.nextSerial, historyId := id, scenePath := ""
      index := (w.histories id).applied, version := (w.histories id).version + 1, action := name }
  { w.commit id name with ledger := w.ledger.push commit, recorded := w.recorded ++ [(commit, w.clock)] }

theorem commitAll_eq (w : World) (id : Int) (names : List String) :
    w.commitAll id names =
      { w.update id ((w.histories id).commitAll w.clock names) with clock := w.clock + names.length } := by
  induction names generalizing w with
  | nil =>
    show w = { w with histories := Function.update w.histories id (w.histories id), clock := w.clock + 0 }
    rw [Function.update_eq_self]
    rfl
  | cons name names ih =>
    show (w.commit id name).commitAll id names = _
    have hall : (w.histories id).commitAll w.clock (name :: names) =
        ((w.histories id).commit ⟨w.clock, name⟩).commitAll (w.clock + 1) names := rfl
    rw [ih, hall]
    unfold commit update
    simp only [Function.update_self, Function.update_idem, List.length_cons]
    rw [Nat.add_assoc, Nat.add_comm 1]

/-- What is recorded of the actions does not touch the histories. -/
theorem commitAll_recorded (w : World) (id : Int) (names : List String) (ledger : UndoLedger)
    (recorded : List (UndoCommit × Nat)) :
    commitAll { w with ledger, recorded } id names = { w.commitAll id names with ledger, recorded } := by
  rw [commitAll_eq, commitAll_eq]
  rfl

theorem foldl_commitRecorded (w : World) (id : Int) (names : List String) :
    names.foldl (fun w name => w.commitRecorded id name) w =
      let pushed := w.ledger.pushAll id (w.histories id).applied ((w.histories id).version + 1) names
      { w.commitAll id names with
        ledger := pushed.1, recorded := w.recorded ++ pushed.2.zip (List.range' w.clock names.length) } := by
  induction names generalizing w with
  | nil => simp [UndoLedger.pushAll, commitAll]
  | cons name names ih =>
    rw [List.foldl_cons, ih]
    unfold commitRecorded
    rw [commitAll_recorded]
    simp only [UndoLedger.pushAll, commit, update_histories, Function.update_self, History.commit, List.length_cons,
      List.range'_succ, List.zip_cons_cons, List.append_assoc, List.singleton_append]
    push_cast
    rfl

/-- What is observed of a command is what is recorded action by action. -/
theorem observe_eq {h : History} (happlied : h.applied ≤ h.actions.length) (ledger : UndoLedger) (id : Int)
    (clock : Nat) (names : List String) :
    ledger.observe (h.state id) ((h.commitAll clock names).state id) (h.commitAll clock names).nameAt =
      ledger.pushAll id h.applied (h.version + 1) names := by
  obtain ⟨happ, hversion, hlen, hnames⟩ := History.commitAll_spec happlied clock names
  unfold UndoLedger.observe
  by_cases hnil : names = []
  · subst hnil
    exact if_pos (Or.inr (le_refl h.version))
  have hpos : 0 < names.length := List.length_pos_of_ne_nil hnil
  have hsteps : (h.commitAll clock names).version - h.version = names.length := by omega
  have hcurrent : ((h.commitAll clock names).state id).current = h.applied + names.length - 1 := by
    show ((h.commitAll clock names).applied : Int) - 1 = _
    rw [happ]
    push_cast
    rfl
  have hversions : ((h.commitAll clock names).state id).version = h.version + names.length := hversion
  have hcount : ((h.commitAll clock names).state id).count = (h.commitAll clock names).actions.length := rfl
  have hfirst : (h.state id).version = h.version := rfl
  rw [if_neg (by rw [hversions, hfirst]; exact fun hor => hor.elim (fun hne => hne rfl) (by omega)),
    if_neg (by rw [hcurrent, hcount]; omega)]
  have hnamesAt : ∀ k name, names[k]? = some name →
      (if ((0 + k : Nat) : Int) = names.length - 1 then ((h.commitAll clock names).state id).action
        else (h.commitAll clock names).nameAt
          (((h.commitAll clock names).state id).current - (names.length - 1 - (0 + k : Nat)))) = name := by
    intro k name hk
    rw [Nat.zero_add, History.state_action, ← hnames k name hk, hcurrent]
    split
    · rename_i hlast
      congr 1
      push_cast
      omega
    · congr 1
      push_cast
      omega
  have heq := @UndoLedger.observeSteps_eq (h.state id) _ _ _ _ 0 rfl (by rw [hcurrent]; push_cast; omega) hnamesAt ledger
  rw [hversions, hfirst, show h.version + names.length - h.version = (names.length : Int) by omega]
  dsimp only
  rw [Int.toNat_natCast, List.range_eq_range', heq, hcurrent, hfirst]
  show ledger.pushAll id _ _ names = _
  congr 1
  · push_cast
    omega
  · push_cast
    omega

/-- A command is recorded action by action. -/
theorem command_eq {w : World} {id : Int} (happlied : (w.histories id).applied ≤ (w.histories id).actions.length)
    (names : List String) :
    (w.command id names).1 = names.foldl (fun w name => w.commitRecorded id name) w := by
  have hafter : (w.commitAll id names).histories id = (w.histories id).commitAll w.clock names := by
    rw [commitAll_eq]
    exact Function.update_self ..
  have hobserve := observe_eq happlied w.ledger id w.clock names
  rw [← hafter] at hobserve
  rw [foldl_commitRecorded, ← hobserve]
  rfl

end World

end Didi.Undo
