import Mathlib.Data.List.Induction
import Didi.Lib.Run
import Didi.Journal.Document

/-!
# What the journal keeps of its history

A history is the list of the calls that appended, oldest first; the `k`-th of them has the number
`k`.

* `documentOf` : the document a history leaves;
* `append_documentOf` : one entry more is one call more in the history;
* `step_fileOf` : the same of the file, for every call;
* `journal_keeps_newest` : what the journal answers after every run.
-/

namespace Didi.Journal
open Locked
open Blackboard (Failure)
variable {call : AppendCall} {history : List AppendCall}

/-- One append: what it is given, and what the file system refuses it. -/
structure AppendCall where
  disk : Disk := {}
  entry : JsonObject
  nowMs : Int

/-- One append on the journal's file. The calls take its lock one after the other. -/
def step (file : File) (call : AppendCall) : Except Failure JsonObject × File :=
  (append call.disk call.entry call.nowMs).run file

/-- Whether the call's entry undoes the entry with the number `i`. -/
def AppendCall.names (call : AppendCall) (i : Nat) : Bool :=
  match call.entry.lookup "undoes" with
  | some (.integer undone) => undone = i
  | _ => false

/-- The number of the latest entry that was appended after number `i` and undoes it. -/
def latestUndo (history : List AppendCall) (i : Nat) : Option Nat :=
  (((history.zipIdx 1).filter fun c => i < c.2 && c.1.names i).map Prod.snd).getLast?

/-- What the journal holds of the call with the number `i`. -/
def entryOf (history : List AppendCall) (i : Nat) (call : AppendCall) : JsonObject :=
  match latestUndo history i with
  | none => stamped i call.nowMs call.entry
  | some j => (stamped i call.nowMs call.entry).insertKey "undone_by" (.integer j)

/-- Every entry of a history, kept or not. -/
def entriesOf (history : List AppendCall) : List JsonObject :=
  history.mapIdx fun k call => entryOf history (k + 1) call

/-- How many entries the journal has dropped. -/
def droppedOf (history : List AppendCall) : Nat := history.length - kMaxEntries

def documentOf (history : List AppendCall) : Document :=
  { emptyDocument with
    nextId := history.length + 1
    dropped := droppedOf history
    entries := ((entriesOf history).drop (droppedOf history)).map .object }

/-! ## One entry -/

theorem lookup_stamped_id (id nowMs : Int) (entry : JsonObject) :
    (stamped id nowMs entry).lookup "id" = some (.integer id) := by
  simp [stamped, List.lookup_insertKey]

theorem lookup_stamped (id nowMs : Int) (entry : JsonObject) {key : String} (hid : key ≠ "id")
    (hat : key ≠ "at") : (stamped id nowMs entry).lookup key = entry.lookup key := by
  simp [stamped, List.lookup_insertKey, hid, hat]

theorem lookup_entryOf_id (history : List AppendCall) (i : Nat) (call : AppendCall) :
    (entryOf history i call).lookup "id" = some (.integer i) := by
  unfold entryOf
  split
  · exact lookup_stamped_id _ _ _
  · rw [List.lookup_insertKey, if_neg (by decide), lookup_stamped_id]

/-- The first append is marked as none, and each one that names an entry replaces the mark. -/
theorem latestUndo_append (history : List AppendCall) (call : AppendCall) (i : Nat) :
    latestUndo (history ++ [call]) i =
      if i ≤ history.length ∧ call.names i = true then some (history.length + 1)
      else latestUndo history i := by
  unfold latestUndo
  rw [List.zipIdx_append, List.filter_append, List.map_append, List.getLast?_append]
  by_cases h : i ≤ history.length ∧ call.names i = true
  · have hone : List.filter (fun c : AppendCall × Nat => decide (i < c.2) && c.1.names i)
        ([call].zipIdx (1 + history.length)) = [(call, history.length + 1)] := by
      have hlt : i < history.length + 1 := by omega
      simp [hlt, h.2, Nat.add_comm 1]
    rw [hone, if_pos h]
    rfl
  · have hlt : ¬ (i < 1 + history.length ∧ call.names i = true) := by
      rintro ⟨h1, h2⟩
      exact h ⟨by omega, h2⟩
    have hnil : List.filter (fun c : AppendCall × Nat => decide (i < c.2) && c.1.names i)
        ([call].zipIdx (1 + history.length)) = [] := by
      simp only [List.zipIdx_cons, List.zipIdx_nil, List.filter_cons, List.filter_nil]
      rw [if_neg (by simpa using hlt)]
    rw [hnil, if_neg h]
    rfl

theorem latestUndo_of_le {i : Nat} (h : history.length ≤ i) :
    latestUndo history i = none := by
  have hnil : (history.zipIdx 1).filter (fun c => decide (i < c.2) && c.1.names i) = [] := by
    rw [List.filter_eq_nil_iff]
    intro c hc
    have hlt := List.snd_lt_of_mem_zipIdx hc
    have hle : ¬ i < c.2 := by omega
    simp [hle]
  simp [latestUndo, hnil]

theorem entryOf_append (history : List AppendCall) (call earlier : AppendCall) {i : Nat}
    (hi : i ≤ history.length) : entryOf (history ++ [call]) i earlier =
      if call.names i = true then
        (entryOf history i earlier).insertKey "undone_by" (.integer (history.length + 1))
      else entryOf history i earlier := by
  unfold entryOf
  rw [latestUndo_append]
  by_cases hnames : call.names i = true
  · rw [if_pos ⟨hi, hnames⟩, if_pos hnames]
    cases latestUndo history i with
    | none => simp
    | some j => simp [List.insertKey_insertKey]
  · rw [if_neg fun h => hnames h.2, if_neg hnames]

theorem entriesOf_append (history : List AppendCall) (call : AppendCall) :
    entriesOf (history ++ [call]) =
      (history.mapIdx fun k earlier => entryOf (history ++ [call]) (k + 1) earlier) ++
        [stamped (history.length + 1) call.nowMs call.entry] := by
  have hlast : entryOf (history ++ [call]) (history.length + 1) call =
      stamped (history.length + 1) call.nowMs call.entry := by
    unfold entryOf
    rw [latestUndo_of_le (by simp)]
    simp
  rw [entriesOf, List.mapIdx_append]
  simp [hlast]

theorem length_entriesOf (history : List AppendCall) : (entriesOf history).length = history.length := by
  simp [entriesOf]

/-! ## One append -/

theorem trim_eq (dropped : Int) (entries : List Json) :
    trim dropped entries =
      (dropped + (entries.length - kMaxEntries : Nat), entries.drop (entries.length - kMaxEntries)) := by
  induction entries generalizing dropped with
  | nil => simp [trim]
  | cons entry entries ih =>
    unfold trim
    split_ifs with h
    · have hsub : (entry :: entries).length - kMaxEntries = (entries.length - kMaxEntries) + 1 := by
        simp only [List.length_cons] at h ⊢
        omega
      rw [ih, hsub, List.drop_succ_cons, Prod.mk.injEq]
      exact ⟨by omega, rfl⟩
    · have hsub : (entry :: entries).length - kMaxEntries = 0 := by omega
      rw [hsub, List.drop_zero]
      simp

theorem names_of_lookup {undone : Int} (h : call.entry.lookup "undoes" = some (.integer undone)) (i : Nat) :
    call.names i = true ↔ (i : Int) = undone := by
  rw [AppendCall.names, h, decide_eq_true_iff]
  exact eq_comm

/-- The mark that an append leaves on an earlier entry is the one its history has. -/
theorem markUndone_entryOf {undone : Int} (h : call.entry.lookup "undoes" = some (.integer undone))
    (earlier : AppendCall) {i : Nat} (hi : i ≤ history.length) :
    markUndone (history.length + 1) undone (.object (entryOf history i earlier)) =
      .ok (.object (entryOf (history ++ [call]) i earlier)) := by
  unfold markUndone
  rw [Json.valueInteger_of_lookup 0 (lookup_entryOf_id history i earlier), entryOf_append _ _ _ hi]
  by_cases hnames : call.names i = true
  · have hid := (names_of_lookup h i).mp hnames
    show Except.ok (if (i : Int) = undone then _ else _) = _
    rw [if_pos hid, if_pos hnames]
  · have hid : ¬ (i : Int) = undone := fun hid => hnames ((names_of_lookup h i).mpr hid)
    show Except.ok (if (i : Int) = undone then _ else _) = _
    rw [if_neg hid, if_neg hnames]

theorem entryOf_append_of_not_names (h : ∀ undone, call.entry.lookup "undoes" ≠ some (.integer undone))
    (earlier : AppendCall) {i : Nat}
    (hi : i ≤ history.length) : entryOf (history ++ [call]) i earlier = entryOf history i earlier := by
  have hnames : call.names i = false := by
    unfold AppendCall.names
    split
    · rename_i undone hundone
      exact absurd hundone (h undone)
    · rfl
  rw [entryOf_append _ _ _ hi, hnames]
  rfl

/-- What an append makes of the kept entries before it drops any. -/
theorem kept_append (history : List AppendCall) (call : AppendCall) :
    ∃ entries : List Json,
      markEarlier (history.length + 1) (stamped (history.length + 1) call.nowMs call.entry)
        (documentOf history).entries = .ok entries ∧
      entries ++ [.object (stamped (history.length + 1) call.nowMs call.entry)] =
        ((entriesOf (history ++ [call])).drop (droppedOf history)).map .object := by
  have hkept : (documentOf history).entries = (history.zipIdx.drop (droppedOf history)).map
      fun c => .object (entryOf history (c.2 + 1) c.1) := by
    unfold documentOf entriesOf
    simp only [List.mapIdx_eq_zipIdx_map, ← List.map_drop, List.map_map, Function.comp_def]
  have hlater : ((entriesOf (history ++ [call])).drop (droppedOf history)).map Json.object =
      ((history.zipIdx.drop (droppedOf history)).map
        fun c => .object (entryOf (history ++ [call]) (c.2 + 1) c.1)) ++
        [.object (stamped (history.length + 1) call.nowMs call.entry)] := by
    have hle : droppedOf history ≤ history.length := Nat.sub_le _ _
    rw [entriesOf_append, List.drop_append_of_le_length (by rw [List.length_mapIdx]; exact hle)]
    simp [List.mapIdx_eq_zipIdx_map, List.map_drop, Function.comp_def]
  have hnumber : ∀ c ∈ history.zipIdx.drop (droppedOf history), c.2 + 1 ≤ history.length := by
    intro c hc
    have hlt := List.snd_lt_of_mem_zipIdx (List.mem_of_mem_drop hc)
    omega
  refine ⟨_, ?_, hlater.symm⟩
  unfold markEarlier
  rw [hkept, lookup_stamped _ _ _ (by decide) (by decide)]
  split
  · rename_i undone hundone
    rw [List.mapM_map]
    exact Except.mapM_eq_ok_map fun c hc => markUndone_entryOf hundone c.1 (hnumber c hc)
  · rename_i hnot
    refine congrArg Except.ok (List.map_congr_left fun c hc => ?_)
    rw [entryOf_append_of_not_names hnot c.1 (hnumber c hc)]

/-- One entry more is one call more in the history. -/
theorem append_documentOf (history : List AppendCall) (call : AppendCall) :
    (documentOf history).append call.entry call.nowMs =
      .ok (stamped (history.length + 1) call.nowMs call.entry, documentOf (history ++ [call])) := by
  have hid : max (documentOf history).nextId 1 = (history.length : Int) + 1 := by
    show max ((history.length : Int) + 1) 1 = _
    omega
  obtain ⟨entries, hentries, hkept⟩ := kept_append history call
  have hlength : (entries ++ [Json.object (stamped (history.length + 1) call.nowMs call.entry)]).length =
      history.length + 1 - droppedOf history := by
    rw [hkept, List.length_map, List.length_drop, length_entriesOf, List.length_append]
    rfl
  have hdropped : droppedOf (history ++ [call]) =
      droppedOf history + (history.length + 1 - droppedOf history - kMaxEntries) := by
    simp only [droppedOf, List.length_append, List.length_singleton]
    omega
  unfold Document.append
  simp only [hid, hentries]
  show Except.ok _ = _
  rw [trim_eq, hlength, hkept, ← List.map_drop, List.drop_drop, ← hdropped]
  have hnext : ((history ++ [call]).length : Int) + 1 = history.length + 1 + 1 := by simp
  have hcount : (droppedOf (history ++ [call]) : Int) =
      (documentOf history).dropped + (history.length + 1 - droppedOf history - kMaxEntries : Nat) := by
    rw [hdropped, Int.natCast_add]
    rfl
  rw [← hcount, ← hnext]
  simp only [documentOf]

/-- What an append stored reads back as the document it stored. -/
theorem parseDocument_toJson (nextId dropped : Int) (entries : List Json) :
    parseDocument (some { emptyDocument with nextId, dropped, entries }.toJson) =
      .ok { emptyDocument with nextId, dropped, entries } := by
  have hmembers : { emptyDocument with nextId, dropped, entries }.toJson = .object
      [("dropped", .integer dropped), ("entries", .array entries), ("format", .integer kFormat),
        ("next_id", .integer nextId)] := by
    rfl
  rw [hmembers]
  simp [parseDocument, List.lookup_cons_eq, List.eraseKey, emptyDocument, Json.asSigned, kFormat]

/-! ## The file -/

/-- The file a history leaves. -/
def fileOf : List AppendCall → File
  | [] => none
  | call :: history => some (some (documentOf (call :: history)).toJson)

theorem fileOf_concat (history : List AppendCall) (call : AppendCall) :
    fileOf (history ++ [call]) = some (some (documentOf (history ++ [call])).toJson) := by
  cases history <;> rfl

theorem load_fileOf {disk : Disk} (hread : disk.read = none) (history : List AppendCall) :
    (load disk).run (fileOf history) = (.ok (documentOf history), fileOf history) := by
  cases history with
  | nil => rfl
  | cons call history =>
    show (refuse disk.read >>= fun _ => _).run (fileOf (call :: history)) = _
    rw [hread]
    show ((parseDocument (some (documentOf (call :: history)).toJson)).mapError Failure.error, _) = _
    rw [documentOf, parseDocument_toJson]
    rfl

theorem openDocument_fileOf (disk : Disk) (nowMs : Int) (history : List AppendCall) :
    (openDocument disk nowMs).run (fileOf history) = (.ok (documentOf history), fileOf history) ∨
      ∃ e, (openDocument disk nowMs).run (fileOf history) = (.error (.error e), fileOf history) ∧
        disk.read = some e := by
  cases history with
  | nil => exact .inl rfl
  | cons call history =>
    cases hread : disk.read with
    | some e =>
      refine .inr ⟨e, ?_, rfl⟩
      show (refuse disk.read >>= fun _ => _).run (fileOf (call :: history)) = _
      rw [hread]
      rfl
    | none =>
      refine .inl ?_
      show (refuse disk.read >>= _).run (fileOf (call :: history)) = _
      rw [hread]
      simp only [documentOf, parseDocument_toJson]
      rfl

/-- **One append.** It adds its entry under the next number, or its file system refuses it and
nothing changes. -/
theorem step_fileOf (history : List AppendCall) (call : AppendCall) :
    step (fileOf history) call =
        (.ok (stamped (history.length + 1) call.nowMs call.entry), fileOf (history ++ [call])) ∨
      ∃ e, step (fileOf history) call = (.error e, fileOf history) ∧ call.disk ≠ {} := by
  obtain ⟨⟨directory, lockHeld, read, move, write⟩, entry, nowMs⟩ := call
  cases directory with
  | some message => exact .inr ⟨_, rfl, by simp⟩
  | none =>
    cases lockHeld with
    | true => exact .inr ⟨_, rfl, by simp⟩
    | false =>
      show ((openDocument _ nowMs >>= _ : JournalM JsonObject).run (fileOf history)) = _ ∨
        ∃ e, (openDocument _ nowMs >>= _ : JournalM JsonObject).run (fileOf history) = _ ∧ _
      rw [run_bind]
      rcases openDocument_fileOf ⟨none, false, read, move, write⟩ nowMs history with hdoc | ⟨e, hdoc, he⟩
      · have happend := append_documentOf history ⟨⟨none, false, read, move, write⟩, entry, nowMs⟩
        rw [hdoc]
        dsimp only
        rw [run_bind, happend]
        cases write with
        | some e => exact .inr ⟨_, rfl, by simp⟩
        | none =>
          refine .inl ?_
          rw [fileOf_concat]
          rfl
      · rw [hdoc]
        refine .inr ⟨_, rfl, ?_⟩
        intro hdisk
        cases (congrArg Disk.read hdisk).symm.trans he

/-! ## A run -/

/-- The calls of a run that append, in their order. -/
def accepted (file : File) : List AppendCall → List AppendCall
  | [] => []
  | call :: calls =>
    match step file call with
    | (.ok _, file') => call :: accepted file' calls
    | (.error _, file') => accepted file' calls

theorem run_fileOf (history calls : List AppendCall) :
    Run.exec step (fileOf history) calls = fileOf (history ++ accepted (fileOf history) calls) := by
  induction calls generalizing history with
  | nil => simp [accepted]
  | cons call calls ih =>
    rw [Run.exec_cons, accepted]
    rcases step_fileOf history call with h | ⟨e, h, -⟩
    · rw [h]
      dsimp only
      rw [ih, List.append_assoc, List.singleton_append]
    · rw [h]
      exact ih history

theorem answers_fileOf (history calls : List AppendCall) :
    (Run.answers step (fileOf history) calls).filterMap Except.toOption =
      (accepted (fileOf history) calls).mapIdx fun k call =>
        stamped (history.length + k + 1) call.nowMs call.entry := by
  induction calls generalizing history with
  | nil => rfl
  | cons call calls ih =>
    rw [Run.answers, accepted]
    rcases step_fileOf history call with h | ⟨e, h, -⟩
    · rw [h]
      dsimp only
      rw [List.filterMap_cons]
      dsimp only [Except.toOption]
      rw [ih, List.mapIdx_cons]
      congr 1
      simp [Int.add_assoc, Int.add_comm 1]
    · rw [h]
      exact ih history

theorem accepted_eq_self (history : List AppendCall) {calls : List AppendCall}
    (h : ∀ call ∈ calls, call.disk = {}) : accepted (fileOf history) calls = calls := by
  induction calls generalizing history with
  | nil => rfl
  | cons call calls ih =>
    rcases step_fileOf history call with hstep | ⟨e, -, hdisk⟩
    · rw [accepted, hstep]
      exact congrArg (call :: ·) (ih _ fun c hc => h c (List.mem_cons_of_mem _ hc))
    · exact absurd (h call List.mem_cons_self) hdisk

/-- Number `j` is the latest that was appended after number `i` and undoes it. -/
def IsLatestUndo (history : List AppendCall) (i j : Nat) : Prop :=
  i < j ∧ (∃ call, history[j - 1]? = some call ∧ call.names i = true) ∧
    ∀ j' call, j < j' → history[j' - 1]? = some call → call.names i = false

theorem isLatestUndo_append (history : List AppendCall) (call : AppendCall) (i j : Nat) :
    IsLatestUndo (history ++ [call]) i j ↔
      if i ≤ history.length ∧ call.names i = true then j = history.length + 1
      else IsLatestUndo history i j := by
  have hlast : (history ++ [call])[history.length]? = some call := by simp
  have hearlier : ∀ {k : Nat}, k < history.length → (history ++ [call])[k]? = history[k]? :=
    fun hk => List.getElem?_append_left hk
  have hlt : ∀ {k : Nat} {c : AppendCall}, (history ++ [call])[k]? = some c → k < history.length + 1 := by
    intro k c hk
    have := (List.getElem?_eq_some_iff.mp hk).1
    simpa using this
  split_ifs with h
  · constructor
    · rintro ⟨hij, ⟨c, hc, -⟩, hlatest⟩
      by_contra hne
      have hj := hlt hc
      have hfalse := hlatest (history.length + 1) call (by omega) hlast
      rw [h.2] at hfalse
      cases hfalse
    · rintro rfl
      refine ⟨by omega, ⟨call, hlast, h.2⟩, ?_⟩
      intro j' c hj' hc
      have := hlt hc
      omega
  · constructor
    · rintro ⟨hij, ⟨c, hc, hnames⟩, hlatest⟩
      have hj : j - 1 < history.length := by
        by_contra hge
        have hj := hlt hc
        have hj : j - 1 = history.length := by omega
        rw [hj, hlast] at hc
        cases hc
        exact h ⟨by omega, hnames⟩
      refine ⟨hij, ⟨c, by rwa [hearlier hj] at hc, hnames⟩, ?_⟩
      intro j' c' hj' hc'
      have hj' := (List.getElem?_eq_some_iff.mp hc').1
      exact hlatest j' c' (by omega) (by rwa [hearlier hj'])
    · rintro ⟨hij, ⟨c, hc, hnames⟩, hlatest⟩
      have hj := (List.getElem?_eq_some_iff.mp hc).1
      refine ⟨hij, ⟨c, by rwa [hearlier hj], hnames⟩, ?_⟩
      intro j' c' hj' hc'
      by_cases hlen : j' - 1 < history.length
      · exact hlatest j' c' hj' (by rwa [hearlier hlen] at hc')
      · have hend := hlt hc'
        have hend : j' - 1 = history.length := by omega
        rw [hend, hlast] at hc'
        cases hc'
        by_contra hnot
        exact h ⟨by omega, by simpa using hnot⟩

theorem latestUndo_eq_some {i j : Nat} :
    latestUndo history i = some j ↔ IsLatestUndo history i j := by
  induction history using List.reverseRecOn with
  | nil => simp [latestUndo, IsLatestUndo]
  | append_singleton history call ih =>
    rw [latestUndo_append, isLatestUndo_append]
    split_ifs with h
    · simp [eq_comm]
    · exact ih

/-! ## Finding an entry -/

theorem firstWithId_numbered {entries : List Json} {first : Int}
    (h : ∀ (k : Nat) e, entries[k]? = some e → e.valueInteger "id" 0 = .ok (first + k)) (id : Int) :
    firstWithId id entries = .ok (if first ≤ id then entries[(id - first).toNat]? else none) := by
  induction entries generalizing first with
  | nil => simp [firstWithId]
  | cons entry entries ih =>
    have hentry : entry.valueInteger "id" 0 = .ok first := by simpa using h 0 entry rfl
    have hrest := @ih (first + 1) fun k e he => by
      have := h (k + 1) e he
      rw [this]
      congr 1
      push_cast
      omega
    unfold firstWithId
    rw [hentry, hrest]
    show (if first = id then _ else _) = _
    split_ifs with h1 h2 h3 h3
    · have hzero : (id - first).toNat = 0 := by omega
      rw [hzero]
      rfl
    · omega
    · have hsucc : (id - first).toNat = (id - (first + 1)).toNat + 1 := by omega
      rw [hsucc]
      rfl
    · omega
    · omega
    · rfl

theorem kept_getElem? (history : List AppendCall) (k : Nat) :
    (documentOf history).entries[k]? = history[droppedOf history + k]?.map
      fun call => .object (entryOf history (droppedOf history + k + 1) call) := by
  unfold documentOf entriesOf
  simp only [List.getElem?_map, List.getElem?_drop, List.getElem?_mapIdx, Option.map_map, Function.comp_def]

theorem firstWithId_documentOf (history : List AppendCall) (id : Int) :
    firstWithId id (documentOf history).entries = .ok
      (if (droppedOf history : Int) + 1 ≤ id then
        (documentOf history).entries[(id - (droppedOf history + 1)).toNat]?
      else none) := by
  apply firstWithId_numbered
  intro k e he
  rw [kept_getElem?] at he
  obtain ⟨call, -, rfl⟩ := Option.map_eq_some_iff.mp he
  rw [Json.valueInteger_of_lookup 0 (lookup_entryOf_id _ _ _)]
  congr 1
  push_cast
  omega

theorem oldest_documentOf (history : List AppendCall) :
    (documentOf history).oldest = .ok (droppedOf history + 1) := by
  have hhead := kept_getElem? history 0
  unfold Document.oldest
  cases hentries : (documentOf history).entries with
  | nil =>
    have hlength := congrArg List.length hentries
    have hnil : history.length = 0 := by
      simp only [documentOf, List.length_map, List.length_drop, length_entriesOf, droppedOf, kMaxEntries,
        List.length_nil] at hlength
      omega
    show Except.ok ((history.length : Int) + 1) = _
    simp [droppedOf, hnil]
  | cons entry entries =>
    rw [hentries] at hhead
    obtain ⟨call, -, hcall⟩ := Option.map_eq_some_iff.mp hhead.symm
    show entry.valueInteger "id" _ = _
    rw [← hcall, Json.valueInteger_of_lookup _ (lookup_entryOf_id _ _ _)]
    rfl

theorem findEntry_fileOf {disk : Disk} (hread : disk.read = none) (history : List AppendCall) (id : Int) :
    (findEntry disk id).run (fileOf history) =
      (match (if (droppedOf history : Int) + 1 ≤ id then
          (documentOf history).entries[(id - (droppedOf history + 1)).toNat]? else none) with
        | some entry => .ok entry
        | none =>
          if 1 ≤ id ∧ id < droppedOf history + 1 then
            .error (.error (entryDropped id (droppedOf history + 1)))
          else .error (.error (noSuchEntry id (history.length + 1))), fileOf history) := by
  unfold findEntry
  rw [run_bind, load_fileOf hread]
  dsimp only
  rw [run_bind]
  have hfirst : (liftThrows (firstWithId id (documentOf history).entries)).run (fileOf history) =
      (.ok (if (droppedOf history : Int) + 1 ≤ id then
        (documentOf history).entries[(id - (droppedOf history + 1)).toNat]? else none), fileOf history) := by
    show ((firstWithId id _).mapError Failure.exception, _) = _
    rw [firstWithId_documentOf]
    rfl
  rw [hfirst]
  dsimp only
  generalize (if (droppedOf history : Int) + 1 ≤ id then
    (documentOf history).entries[(id - (droppedOf history + 1)).toNat]? else none) = found
  cases found with
  | some entry => rfl
  | none =>
    dsimp only
    rw [run_bind, oldest_documentOf]
    show (Locked.require _ _ >>= _).run (fileOf history) = _
    rw [run_require_bind]
    by_cases h : 1 ≤ id ∧ id < (droppedOf history : Int) + 1
    · rw [if_neg (not_not_intro h), if_pos h]
    · rw [if_pos h, if_neg h]
      rfl

/-! ## The whole run -/

/-- An entry that brings no mark of its own is marked by the latest entry that undoes it. -/
theorem lookup_undone_by (history : List AppendCall) (i : Nat) (h : call.entry.lookup "undone_by" = none) (j : Nat) :
    (entryOf history i call).lookup "undone_by" = some (.integer j) ↔ IsLatestUndo history i j := by
  rw [← latestUndo_eq_some]
  unfold entryOf
  cases latestUndo history i with
  | none =>
    dsimp only
    rw [lookup_stamped _ _ _ (by decide) (by decide), h]
    simp
  | some j' =>
    rw [List.lookup_insertKey, if_pos rfl, Option.some_inj, Option.some_inj, Json.integer.injEq]
    exact Int.ofNat_inj

theorem droppedOf_eq (history : List AppendCall) :
    droppedOf history = history.length - min history.length kMaxEntries := by
  unfold droppedOf
  omega

theorem find_kept (history : List AppendCall) {k : Nat} (hcall : history[k]? = some call)
    (hk : history.length - min history.length kMaxEntries ≤ k) :
    (findEntry {} (k + 1)).run (fileOf history) =
      (.ok (.object (entryOf history (k + 1) call)), fileOf history) := by
  rw [← droppedOf_eq] at hk
  have hpos : (droppedOf history : Int) + 1 ≤ (k : Int) + 1 := by omega
  have hindex : ((k : Int) + 1 - (droppedOf history + 1)).toNat = k - droppedOf history := by omega
  have hsum : droppedOf history + (k - droppedOf history) = k := by omega
  rw [findEntry_fileOf rfl, if_pos hpos, hindex, kept_getElem?, hsum, hcall]
  rfl

theorem find_dropped (history : List AppendCall) (id : Int) :
    (∃ oldest, ((findEntry {} id).run (fileOf history)).1 = .error (.error (entryDropped id oldest))) ↔
      1 ≤ id ∧ id < (history.length - min history.length kMaxEntries : Nat) + 1 := by
  rw [← droppedOf_eq, findEntry_fileOf rfl]
  dsimp only
  constructor
  · rintro ⟨oldest, h⟩
    split at h
    · cases h
    · split_ifs at h with hid
      · exact hid
      · have hdata := congrArg Error.data (Failure.error.inj (Except.error.inj h))
        simp [noSuchEntry, entryDropped] at hdata
  · intro hid
    refine ⟨droppedOf history + 1, ?_⟩
    rw [if_neg (by omega)]
    dsimp only
    rw [if_pos hid]

/-- **The journal numbers and keeps what is appended.** The calls of a run that append get the
numbers 1, 2, 3 and so on, and only a call that its file system refuses appends nothing. The file
then holds the newest of them in order, with both counters, each marked by the latest entry that was
appended after it and undoes it, and an id is answered as dropped where it precedes the oldest kept. -/
theorem journal_keeps_newest (calls : List AppendCall) :
    let history := accepted none calls
    let file := Run.exec step none calls
    let first := history.length - min history.length kMaxEntries
    (Run.answers step none calls).filterMap Except.toOption =
        (history.mapIdx fun k call => stamped (k + 1) call.nowMs call.entry) ∧
      ((∀ call ∈ calls, call.disk = {}) → history = calls) ∧
      (∃ doc, (load {}).run file = (.ok doc, file) ∧ doc.nextId = history.length + 1 ∧
        doc.dropped = first ∧
        doc.entries = ((history.mapIdx fun k call => entryOf history (k + 1) call).drop first).map .object) ∧
      (∀ k call, history[k]? = some call →
        (∀ j, IsLatestUndo history (k + 1) j → entryOf history (k + 1) call =
          (stamped (k + 1) call.nowMs call.entry).insertKey "undone_by" (.integer j)) ∧
        ((∀ j, ¬ IsLatestUndo history (k + 1) j) →
          entryOf history (k + 1) call = stamped (k + 1) call.nowMs call.entry) ∧
        (call.entry.lookup "undone_by" = none → ∀ j : Nat,
          (entryOf history (k + 1) call).lookup "undone_by" = some (.integer j) ↔
            IsLatestUndo history (k + 1) j)) ∧
      (∀ k call, history[k]? = some call → first ≤ k →
        (findEntry {} (k + 1)).run file = (.ok (.object (entryOf history (k + 1) call)), file)) ∧
      ∀ id, (∃ oldest, ((findEntry {} id).run file).1 = .error (.error (entryDropped id oldest))) ↔
        1 ≤ id ∧ id < (first : Int) + 1 := by
  intro history file first
  have hfile : file = fileOf history := run_fileOf [] calls
  have hanswers := answers_fileOf [] calls
  refine ⟨?_, accepted_eq_self [], ?_, ?_, ?_, ?_⟩
  · simp only [List.length_nil, Int.natCast_zero, Int.zero_add] at hanswers
    exact hanswers
  · rw [hfile]
    exact ⟨documentOf history, load_fileOf rfl history, rfl, congrArg Nat.cast (droppedOf_eq history),
      by rw [documentOf, droppedOf_eq]; rfl⟩
  · intro k call hcall
    refine ⟨?_, ?_, fun h j => lookup_undone_by history (k + 1) h j⟩
    · intro j hj
      rw [entryOf, latestUndo_eq_some.mpr hj]
      rfl
    · intro hnone
      have hlatest : latestUndo history (k + 1) = none :=
        Option.eq_none_iff_forall_ne_some.mpr fun j hj => hnone j (latestUndo_eq_some.mp hj)
      rw [entryOf, hlatest]
      rfl
  · intro k call hcall hk
    rw [hfile]
    exact find_kept history hcall hk
  · intro id
    rw [hfile]
    exact find_dropped history id

/-- An entry that names a later one leaves it unmarked: entry 1 undoes entry 2, the latest that does,
and entry 2 is kept without a mark. -/
theorem early_undo_leaves_no_mark :
    let calls : List AppendCall :=
      [{ entry := [("undoes", .integer 2)], nowMs := 0 }, { entry := [], nowMs := 0 }]
    (∃ first second, (Run.answers step none calls).filterMap Except.toOption = [first, second] ∧
      first.lookup "undoes" = some (.integer 2) ∧ second.lookup "undoes" = none ∧
      ((findEntry {} 2).run (Run.exec step none calls)).1 = .ok (.object second) ∧
      second.lookup "undone_by" = none) := by
  exact ⟨_, _, rfl, rfl, rfl, rfl, rfl⟩

end Didi.Journal
