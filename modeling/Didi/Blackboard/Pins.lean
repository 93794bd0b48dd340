import Didi.Blackboard.Rules

/-!
# Pinned writes

A pinned write goes ahead only while the path has the stamp it expects, and a stamp is the clock
reading of the write that set it.

* `step_stamp` : a call keeps the metadata of a path, drops it, or is a write to the path, which
  stamps it with its clock reading;
* `pinned_writes_exclude` : once a write to a path succeeded, no write pinned to the stamp from
  before succeeds, as long as no write to the path brings that stamp back;
* `pinned_write_refused` : where every call that changes what a path resolves to also moves its
  stamp, a write pinned to the stamp of a read is refused once that changed.
-/

namespace Didi.Blackboard
open Locked
variable {call : Call} {request : BlackboardWriteRequest} {path : String} {file : File}

/-- The path a request names, spelled the way the metadata is keyed. -/
def namedPath (path : String) : Option String := (blackboardSplitPath path).toOption.map joinPath

/-- Whether an operation is a write to the path, and not a dry run. -/
def writesTo (path : String) : Operation → Bool
  | .write request => namedPath request.path = some path && !request.dryRun
  | _ => false

theorem namedPath_eq_some {path named : String} :
    namedPath path = some named ↔ ∃ parts, blackboardSplitPath path = .ok parts ∧ joinPath parts = named := by
  unfold namedPath
  cases blackboardSplitPath path <;> simp [Except.toOption]

theorem writesTo_write {parts : List String} (hparts : blackboardSplitPath request.path = .ok parts)
    (hreal : request.dryRun = false) (hpath : joinPath parts = path) : writesTo path (.write request) = true := by
  simp [writesTo, namedPath_eq_some.mpr ⟨parts, hparts, hpath⟩, hreal]

/-! ## Stamps -/

def stampOf (file : File) (path : String) : Int := heldUpdatedAtMs (boardOf file) path

/-- Whether the path has metadata that has lapsed. -/
def entryLapsed (path : String) (file : File) (nowMs : Int) : Prop :=
  ∃ entry, (boardOf file).meta.get path = some entry ∧ entry.lapsed nowMs = true

theorem stamp_of_meta {board : Board} {entry : Meta} (h : board.meta.get path = some entry) :
    heldUpdatedAtMs board path = entry.updatedAtMs := by
  rw [heldUpdatedAtMs, h]

theorem stamp_of_no_meta {board : Board} (h : board.meta.get path = none) :
    heldUpdatedAtMs board path = 0 := by
  rw [heldUpdatedAtMs, h]

theorem meta_of_swept {board swept : Board} {nowMs : Int} {dropped : Bool}
    (h : sweepExpired board nowMs = .ok (dropped, swept)) (path : String) :
    swept.meta.get path = board.meta.get path ∨
      swept.meta.get path = none ∧ ∃ entry, board.meta.get path = some entry ∧ entry.lapsed nowMs = true := by
  rw [get_meta_of_sweep h]
  cases hentry : board.meta.get path with
  | none => exact .inl rfl
  | some entry =>
    cases hlapsed : entry.lapsed nowMs with
    | false => simp [hlapsed]
    | true => simp [hlapsed]

/-- What a call does to the metadata of a path. -/
inductive Stamped (path : String) (before : Option Meta) (call : Call) : Option Meta → Prop
  | kept : Stamped path before call before
  | dropped : Stamped path before call none
  | written {entry : Meta} (hwrites : writesTo path call.operation = true)
      (hstamp : entry.updatedAtMs = call.nowMs) : Stamped path before call (some entry)

theorem Stamped.of_swept {board swept : Board} {dropped : Bool}
    (h : sweepExpired board call.nowMs = .ok (dropped, swept)) :
    Stamped path (board.meta.get path) call (swept.meta.get path) := by
  rcases meta_of_swept h path with hsame | ⟨hnone, -⟩
  · rw [hsame]
    exact .kept
  · rw [hnone]
    exact .dropped

theorem Stamped.filter {before after : Option Meta} (h : Stamped path before call after)
    (p : Meta → Bool) : Stamped path before call (after.filter p) := by
  cases after with
  | none => exact h
  | some entry =>
    rw [Option.filter_some]
    split_ifs
    · exact h
    · exact .dropped

/-- **A call keeps the metadata of a path, drops it, or is a write to the path** that stamps it with
its clock reading. -/
theorem step_stamp (file : File) (call : Call) (path : String) :
    Stamped path ((boardOf file).meta.get path) call ((boardOf (step file call).2).meta.get path) := by
  obtain ⟨operation, nowMs⟩ := call
  have hmove := step_keyMove file ⟨operation, nowMs⟩
  generalize boardOf (step file ⟨operation, nowMs⟩).2 = board at hmove
  dsimp only at hmove
  cases hmove with
  | kept => exact .kept
  | swept hsaves hsweep => exact .of_swept hsweep
  | @wrote request parts dropped swept plan hreal hparts hsweep hplan =>
    obtain ⟨⟨state, -, hboard⟩, -, hentry⟩ := hplan
    rw [hboard, OrderedMap.get_insert]
    split_ifs with hpath
    · exact .written (writesTo_write hparts hreal hpath.symm) (by rw [hentry])
    · exact .of_swept hsweep
  | patched hreal hoperations hsweep hplan =>
    rw [OrderedMap.get_filterM hplan.described]
    exact (Stamped.of_swept hsweep).filter _
  | cleared hreal hparts hsweep hplan =>
    cases hplan with
    | all => exact .dropped
    | path hne hremoved hleft =>
      obtain ⟨-, -, hgone, -⟩ := clearPath_ok (hleft hreal)
      rw [recordClear, hgone, get_eraseAll]
      split_ifs
      · exact .dropped
      · exact .of_swept hsweep

/-! ## Two writers with one stamp -/

/-- The call drops the metadata of the path: a sweep that finds it lapsed, a clear at or above the
path, or a patch that leaves nothing at it. -/
def DropsEntry (path : String) (file : File) (call : Call) : Prop :=
  (boardOf file).meta.get path ≠ none ∧ (boardOf (step file call).2).meta.get path = none

/-- The call does not bring the stamp of the path back to `stamp`: it is no write to the path with
that clock reading and, where that stamp says that the path has no metadata, it does not drop it. -/
structure MovesOn (path : String) (stamp : Int) (file : File) (call : Call) : Prop where
  write : writesTo path call.operation = true → call.nowMs ≠ stamp
  drop : stamp = 0 → ¬ DropsEntry path file call

theorem stampOf_ne_of_movesOn {stamp : Int} (hmoves : MovesOn path stamp file call) (h : stampOf file path ≠ stamp) :
    stampOf (step file call).2 path ≠ stamp := by
  have hstamped := step_stamp file call path
  unfold stampOf heldUpdatedAtMs at h ⊢
  generalize hafter : (boardOf (step file call).2).meta.get path = after at hstamped ⊢
  cases hstamped with
  | kept => exact h
  | dropped =>
    intro hzero
    refine hmoves.drop hzero.symm ⟨fun hnone => h ?_, hafter⟩
    rw [hnone]
    exact hzero
  | @written entry hwrites hstamp =>
    change entry.updatedAtMs ≠ stamp
    rw [hstamp]
    exact hmoves.write hwrites

/-- A run of calls that do not bring a stamp back. -/
theorem stampOf_ne_of_along {stamp : Int} {calls : List Call} (hmoves : Run.Along step (MovesOn path stamp) file calls)
    (h : stampOf file path ≠ stamp) :
    stampOf (Run.exec step file calls) path ≠ stamp :=
  Run.exec_of_along (fun _ _ => stampOf_ne_of_movesOn) hmoves h

/-- How a write that names a path ends: it fails and leaves the board, or it found the stamp that it
is pinned to and, unless it is a dry run, stamped the path. -/
def WriteEnds (path : String) (request : BlackboardWriteRequest) (nowMs : Int) (file : File)
    (r : Except Failure Answer) (file' : File) : Prop :=
  succeeded r = false ∧ file' = file ∨
    ∃ dropped swept, sweepExpired (boardOf file) nowMs = .ok (dropped, swept) ∧
      (∀ expected, request.expectedUpdatedAtMs = some expected → heldUpdatedAtMs swept path = expected) ∧
      (request.dryRun = true ∧ file' = file ∨ request.dryRun = false ∧ stampOf file' path = nowMs)

theorem step_write (file : File) (request : BlackboardWriteRequest) (nowMs : Int)
    (hnamed : namedPath request.path = some path) :
    WriteEnds path request nowMs file (step file ⟨.write request, nowMs⟩).1
      (step file ⟨.write request, nowMs⟩).2 := by
  change ((Operation.write request).perform nowMs).wp (WriteEnds path request nowMs file) file
  refine wp_perform (wp_mono (blackboardWrite_spec request nowMs file) fun r file' h => ?_)
  obtain ⟨parts, hparts, rfl⟩ := namedPath_eq_some.mp hnamed
  rcases h with ⟨⟨e, rfl⟩, rfl⟩ | ⟨parts', dropped, swept, plan, hparts', -, -, hsweep, hplan, -, h⟩
  · exact .inl ⟨rfl, rfl⟩
  · rw [hparts] at hparts'
    cases hparts'
    obtain ⟨⟨state, -, hboard⟩, hpinned, hentry⟩ := planWrite_ok hplan
    refine .inr ⟨dropped, swept, hsweep, hpinned, ?_⟩
    rcases h with ⟨hdry, rfl⟩ | ⟨hreal, -, rfl⟩
    · exact .inl ⟨hdry, rfl⟩
    · refine .inr ⟨hreal, ?_⟩
      have hget : plan.board.meta.get (joinPath parts) = some plan.entry := by
        rw [hboard, OrderedMap.get_insert_self]
      exact (stamp_of_meta hget).trans (by rw [hentry])

theorem stampOf_of_write (hwrites : writesTo path call.operation = true) (hok : succeeded (step file call).1 = true) :
    stampOf (step file call).2 path = call.nowMs := by
  obtain ⟨operation, nowMs⟩ := call
  cases operation with
  | write request =>
    simp only [writesTo, Bool.and_eq_true, decide_eq_true_eq, Bool.not_eq_true'] at hwrites
    rcases step_write file request nowMs hwrites.1 with ⟨hfail, -⟩ | ⟨_, _, -, -, ⟨hdry, -⟩ | ⟨-, hstamp⟩⟩
    · rw [hfail] at hok
      cases hok
    · rw [hwrites.2] at hdry
      cases hdry
    · exact hstamp
  | _ => cases hwrites

/-- A write pinned to a stamp that the path does not have, and does not get from the sweep, is
refused, and the board is left as it is. -/
theorem refused_of_stamp {stamp nowMs : Int} (hnamed : namedPath request.path = some path)
    (hpin : request.expectedUpdatedAtMs = some stamp)
    (hstamp : ∀ dropped swept, sweepExpired (boardOf file) nowMs = .ok (dropped, swept) →
      heldUpdatedAtMs swept path ≠ stamp) :
    succeeded (step file ⟨.write request, nowMs⟩).1 = false ∧ (step file ⟨.write request, nowMs⟩).2 = file := by
  rcases step_write file request nowMs hnamed with h | ⟨dropped, swept, hsweep, hpinned, -⟩
  · exact h
  · exact absurd (hpinned stamp hpin) (hstamp dropped swept hsweep)

/-- A sweep gives a path the stamp of no metadata only when its own metadata has lapsed. -/
theorem swept_stamp_ne {stamp nowMs : Int} (h : stampOf file path ≠ stamp)
    (hkept : stamp = 0 → ¬ entryLapsed path file nowMs) {dropped : Bool} {swept : Board}
    (hsweep : sweepExpired (boardOf file) nowMs = .ok (dropped, swept)) :
    heldUpdatedAtMs swept path ≠ stamp := by
  rcases meta_of_swept hsweep path with hsame | ⟨hnone, hlapsed⟩
  · unfold stampOf heldUpdatedAtMs at h
    rwa [heldUpdatedAtMs, hsame]
  · rw [stamp_of_no_meta hnone]
    exact fun hzero => hkept hzero.symm hlapsed

/-- **No lost update between pinned writers.** After a write to a path that succeeded at a clock
reading other than `stamp`, and any calls none of which brings that stamp back, a write pinned to it
does not succeed. -/
theorem pinned_writes_exclude {path : String} {stamp nowMs : Int} {file : File} {first : Call}
    {between : List Call} {second : BlackboardWriteRequest} (hfirst : writesTo path first.operation = true)
    (hok : succeeded (step file first).1 = true) (hclock : first.nowMs ≠ stamp)
    (hbetween : Run.Along step (MovesOn path stamp) (step file first).2 between)
    (hsecond : namedPath second.path = some path) (hpin : second.expectedUpdatedAtMs = some stamp)
    (hkept : stamp = 0 → ¬ entryLapsed path (Run.exec step file ([first] ++ between)) nowMs) :
    succeeded (step (Run.exec step file ([first] ++ between)) ⟨.write second, nowMs⟩).1 = false := by
  have hstamp : stampOf (step file first).2 path ≠ stamp := by rwa [stampOf_of_write hfirst hok]
  have hlast := stampOf_ne_of_along hbetween hstamp
  exact (refused_of_stamp hsecond hpin fun dropped swept hsweep => swept_stamp_ne hlast hkept hsweep).1

/-- The stamp that a read of the path answered. -/
def reportedStamp (path : String) (r : Except Failure Answer) : Option Int :=
  match r with
  | .ok (.read answer) => if answer.path = path then answer.updatedAtMs else none
  | _ => none

/-! One millisecond is enough for two writers with the stamp of one read. -/

def sampleCounter : Call := ⟨.write { path := "k", value := .integer 0 }, 1000⟩
def sampleRead : Call := ⟨.read { path := "k" }, 1000⟩

/-- Write 1 to the counter if it still has the stamp 1000. -/
def sampleIncrement : BlackboardWriteRequest :=
  { path := "k", value := .integer 1, expectedUpdatedAtMs := some 1000 }

theorem pinned_writers_tie :
    let file := Run.exec step none [sampleCounter]
    reportedStamp "k" (step file sampleRead).1 = some 1000 ∧
      succeeded (step (step file sampleRead).2 ⟨.write sampleIncrement, 1000⟩).1 = true ∧
      succeeded (step (Run.exec step file [sampleRead, ⟨.write sampleIncrement, 1000⟩])
        ⟨.write sampleIncrement, 1000⟩).1 = true := by
  decide +kernel

/-- A millisecond later the second writer is refused. -/
theorem pinned_writes_exclude_later :
    succeeded (step (Run.exec step (Run.exec step none [sampleCounter, sampleRead])
      ([⟨.write sampleIncrement, 1001⟩] ++ [])) ⟨.write sampleIncrement, 1001⟩).1 = false :=
  @pinned_writes_exclude "k" 1000 1001 _ _ _ _ (by decide +kernel) (by decide +kernel) (by decide)
    (Run.along_nil _ _) (by decide +kernel) rfl fun h => by cases h

/-! ## A write pinned to the stamp of a read -/

/-- What a path resolves to on a board. -/
def valueIn (board : Board) (path : String) : Option Json :=
  match blackboardSplitPath path with
  | .error _ => none
  | .ok parts => (Json.object board.state).resolve parts

/-- Each call reads its clock later than those before it. -/
def ClocksIncrease (calls : List Call) : Prop := calls.Pairwise fun a b => a.nowMs < b.nowMs

instance : DecidablePred ClocksIncrease := fun _ => inferInstanceAs (Decidable (List.Pairwise _ _))

/-- The call changes what the path resolves to. -/
def ChangesValue (path : String) (file : File) (call : Call) : Prop :=
  valueIn (boardOf (step file call).2) path ≠ valueIn (boardOf file) path

/-- A sweep at this time changes what the path resolves to. -/
def SweepChangesValue (path : String) (file : File) (nowMs : Int) : Prop :=
  ∃ dropped swept, sweepExpired (boardOf file) nowMs = .ok (dropped, swept) ∧
    valueIn swept path ≠ valueIn (boardOf file) path

/-- The stamp of the path follows its value: a call that changes the value is a write to the path
itself, or drops its metadata. The stamp of no metadata is not reached again. -/
structure StampFollows (path : String) (stamp : Int) (file : File) (call : Call) : Prop where
  change : ChangesValue path file call → writesTo path call.operation = true ∨ DropsEntry path file call
  zero : stamp = 0 → (writesTo path call.operation = true → call.nowMs ≠ 0) ∧ ¬ DropsEntry path file call

/-- The same for the sweep that a write runs before it compares the stamp. -/
structure SweepFollows (path : String) (stamp : Int) (file : File) (nowMs : Int) : Prop where
  change : SweepChangesValue path file nowMs → entryLapsed path file nowMs
  zero : stamp = 0 → ¬ entryLapsed path file nowMs

/-- The stamps of a board are clock readings of the calls that led to it. -/
theorem stamps_of_run (calls : List Call) {entry : Meta}
    (h : (boardOf (Run.exec step none calls)).meta.get path = some entry) :
    ∃ call ∈ calls, entry.updatedAtMs = call.nowMs := by
  have hcalls : Run.Along step (fun _ call => call ∈ calls) none calls := Run.along_of_forall fun _ h => h
  refine Run.exec_of_along (P := fun file => ∀ entry, (boardOf file).meta.get path = some entry →
    ∃ call ∈ calls, entry.updatedAtMs = call.nowMs) (fun file call hmem hfile entry hentry => ?_) hcalls
    (fun entry hentry => by cases hentry) entry h
  have hstamped := step_stamp file call path
  rw [hentry] at hstamped
  generalize hbefore : (boardOf file).meta.get path = before at hstamped
  cases hstamped with
  | kept => exact hfile entry hbefore
  | written _ hstamp => exact ⟨call, hmem, hstamp⟩

/-- A read leaves the path with the stamp it reports. -/
theorem stampOf_read {request : BlackboardReadRequest} {nowMs stamp : Int}
    (h : reportedStamp path (step file ⟨.read request, nowMs⟩).1 = some stamp) :
    stampOf (step file ⟨.read request, nowMs⟩).2 path = stamp := by
  have hspec : ((Operation.read request).perform nowMs).wp
      (fun r file' => reportedStamp path r = some stamp → stampOf file' path = stamp) file := by
    refine wp_perform (wp_mono (blackboardRead_spec request nowMs file) fun r file' h hreport => ?_)
    rcases h with ⟨⟨e, rfl⟩, -⟩ | ⟨parts, swept, -, -, hswept, rfl⟩
    · cases hreport
    · cases hread : readSwept request parts swept with
      | error e =>
        rw [hread] at hreport
        cases hreport
      | ok answer =>
        have hreports := readSwept_ok hread
        rw [hread] at hreport
        change (if answer.path = path then answer.updatedAtMs else none) = some stamp at hreport
        split_ifs at hreport with hsame
        rw [hreports.stamp] at hreport
        split_ifs at hreport
        rw [stampOf, hswept.boardOf, ← hsame, hreports.path]
        exact Option.some.inj hreport
  exact hspec h

/-- A write that passes without its pin is refused as stale when the stamp is another one. -/
theorem stale_of_unpinned {stamp nowMs : Int} (hnamed : namedPath request.path = some path)
    (hpin : request.expectedUpdatedAtMs = some stamp)
    (hstamp : ∀ dropped swept, sweepExpired (boardOf file) nowMs = .ok (dropped, swept) →
      heldUpdatedAtMs swept path ≠ stamp)
    (hunpinned : succeeded (step file ⟨.write { request with expectedUpdatedAtMs := none }, nowMs⟩).1 = true) :
    ∃ swept, (step file ⟨.write request, nowMs⟩).1 = .error (.error (staleWrite swept path stamp)) := by
  obtain ⟨parts, hparts, rfl⟩ := namedPath_eq_some.mp hnamed
  have hstep : (step file ⟨.write { request with expectedUpdatedAtMs := none }, nowMs⟩).1 =
      ((blackboardWrite { request with expectedUpdatedAtMs := none } nowMs).run file).1.map .write :=
    congrArg Prod.fst (run_perform _ _ _)
  rcases blackboardWrite_spec { request with expectedUpdatedAtMs := none } nowMs file with
    ⟨⟨e, he⟩, -⟩ | ⟨parts', dropped, swept, plan, hparts', hallowed, hloads, hsweep, hplan, -⟩
  · rw [hstep, he] at hunpinned
    cases hunpinned
  · obtain rfl : parts = parts' := Except.ok.inj (hparts.symm.trans hparts')
    obtain ⟨⟨state, hwritten, -⟩, -, -⟩ := planWrite_ok hplan
    have hstale : planWrite request parts nowMs swept = .error (staleWrite swept (joinPath parts) stamp) := by
      have hpinned : ¬ pinHolds request swept (joinPath parts) = true := by
        simpa [pinHolds, hpin] using hstamp dropped swept hsweep
      have hwritten' : writeAt request.value swept.state parts = .ok (plan.previous, state) := hwritten
      unfold planWrite
      rw [hwritten']
      change (Except.require _ _ >>= _) = _
      rw [Except.require_bind, if_neg hpinned, hpin]
      rfl
    refine ⟨swept, ?_⟩
    change ((Operation.write request).perform nowMs).wp
      (fun r _ => r = .error (.error (staleWrite swept (joinPath parts) stamp))) file
    refine wp_perform ?_
    unfold blackboardWrite
    refine wp_liftResult_bind (fun parts'' hparts'' => ?_) fun e he => by simp [hparts] at he
    obtain rfl : parts = parts'' := Except.ok.inj (hparts.symm.trans hparts'')
    refine wp_require_bind (fun _ => ?_) fun h => absurd hallowed.value h
    refine wp_require_bind (fun _ => ?_) fun h => absurd hallowed.ttl h
    refine wp_require_bind (fun _ => ?_) fun h => absurd hallowed.board h
    refine wp_loadBoard_bind (fun _ => ?_) fun h => absurd hloads h
    refine wp_liftThrows_bind (fun sweep hsweep' => ?_) fun e he => by simp [hsweep] at he
    obtain rfl : (dropped, swept) = sweep := Except.ok.inj (hsweep.symm.trans hsweep')
    refine wp_liftResult_bind (fun plan' hplan' => ?_) fun e he => ?_
    · simp [hstale] at hplan'
    · rw [hstale] at he
      cases he
      rfl

theorem staleWrite_reason (board : Board) (path : String) (stamp : Int) :
    (staleWrite board path stamp).code = 409 ∧
      (staleWrite board path stamp).dataString "reason_code" = some "stale_write" := by
  refine ⟨rfl, ?_⟩
  unfold staleWrite Error.dataString
  dsimp only
  cases (board.meta.get path).bind Meta.author <;> rfl

/-- A call that changes the value of a path moves its stamp. -/
theorem stampOf_ne_of_change {stamp : Int} (hfollows : StampFollows path stamp file call)
    (hmoves : MovesOn path stamp file call)
    (hchange : ChangesValue path file call) : stampOf (step file call).2 path ≠ stamp := by
  rcases hfollows.change hchange with hwrites | hdrops
  · obtain ⟨operation, nowMs⟩ := call
    cases operation with
    | write request =>
      have hnamed : namedPath request.path = some path := by
        simp only [writesTo, Bool.and_eq_true, decide_eq_true_eq] at hwrites
        exact hwrites.1
      rcases step_write file request nowMs hnamed with ⟨-, hsame⟩ | ⟨_, _, -, -, ⟨-, hsame⟩ | ⟨-, hstamp⟩⟩
      · exact absurd (by rw [hsame]) hchange
      · exact absurd (by rw [hsame]) hchange
      · rw [hstamp]
        exact hmoves.write hwrites
    | _ => cases hwrites
  · have hzero : stampOf (step file call).2 path = 0 := stamp_of_no_meta hdrops.2
    rw [hzero]
    exact fun h => hmoves.drop h.symm hdrops

/-- With clock readings that increase, a stamp that was read comes back only as that of no metadata. -/
theorem movesOn_of_follows {before between : List Call} {stamp : Int}
    (hclock : ∀ call ∈ before, ∀ later ∈ between, call.nowMs < later.nowMs)
    (hstamp : stampOf (Run.exec step none before) path = stamp) (hcall : call ∈ between)
    (hfollows : StampFollows path stamp file call) : MovesOn path stamp file call := by
  refine ⟨fun hwrites htie => ?_, fun hzero => (hfollows.zero hzero).2⟩
  cases hentry : (boardOf (Run.exec step none before)).meta.get path with
  | none =>
    have hzero : stamp = 0 := by
      rw [← hstamp]
      exact stamp_of_no_meta hentry
    exact (hfollows.zero hzero).1 hwrites (htie.trans hzero)
  | some entry =>
    obtain ⟨earlier, hearlier, hstamped⟩ := stamps_of_run before hentry
    have hlt := hclock earlier hearlier call hcall
    have hheld : stampOf (Run.exec step none before) path = entry.updatedAtMs := stamp_of_meta hentry
    omega

/-- **A pinned write is refused once the path changed.** In a run from the empty board whose clock
readings increase, where the stamp of the path follows its value in every call between a read and a
write pinned to the stamp of that read: once a call in between or the sweep of the write changed what
the path resolves to, the write fails and leaves the board as it is. The error is that of a stale
write if the write would pass without its pin. -/
theorem pinned_write_refused {before between : List Call} {read : BlackboardReadRequest}
    {request : BlackboardWriteRequest} {readMs nowMs stamp : Int} {path : String}
    (hclock : ClocksIncrease (before ++ [⟨.read read, readMs⟩] ++ between ++ [⟨.write request, nowMs⟩]))
    (hread : reportedStamp path (step (Run.exec step none before) ⟨.read read, readMs⟩).1 = some stamp)
    (hnamed : namedPath request.path = some path) (hpin : request.expectedUpdatedAtMs = some stamp)
    (hfollows : Run.Along step (StampFollows path stamp)
      (Run.exec step none (before ++ [⟨.read read, readMs⟩])) between)
    (hsweep : SweepFollows path stamp (Run.exec step none (before ++ [⟨.read read, readMs⟩] ++ between)) nowMs)
    (hchanged : (∃ first call rest, between = first ++ call :: rest ∧
        ChangesValue path (Run.exec step none (before ++ [⟨.read read, readMs⟩] ++ first)) call) ∨
      SweepChangesValue path (Run.exec step none (before ++ [⟨.read read, readMs⟩] ++ between)) nowMs) :
    let file := Run.exec step none (before ++ [⟨.read read, readMs⟩] ++ between)
    let r := step file ⟨.write request, nowMs⟩
    succeeded r.1 = false ∧ r.2 = file ∧
      (succeeded (step file ⟨.write { request with expectedUpdatedAtMs := none }, nowMs⟩).1 = true →
        ∃ e, r.1 = .error (.error e) ∧ e.code = 409 ∧ e.dataString "reason_code" = some "stale_write") := by
  intro file r
  have hstamp : stampOf (Run.exec step none (before ++ [⟨.read read, readMs⟩])) path = stamp := by
    rw [Run.exec_append]
    exact stampOf_read hread
  have hlater : ∀ call ∈ before ++ [⟨.read read, readMs⟩], ∀ later ∈ between, call.nowMs < later.nowMs := by
    have hpairs := (List.pairwise_append.mp hclock).1
    exact (List.pairwise_append.mp hpairs).2.2
  have hmoves : Run.Along step (MovesOn path stamp)
      (Run.exec step none (before ++ [⟨.read read, readMs⟩])) between :=
    hfollows.mono_mem fun _ _ => movesOn_of_follows hlater hstamp
  have hswept : ∀ dropped swept, sweepExpired (boardOf file) nowMs = .ok (dropped, swept) →
      heldUpdatedAtMs swept path ≠ stamp := by
    intro dropped swept h
    rcases hchanged with ⟨first, call, rest, hbetween, hchange⟩ | hchange
    · -- the stamp moves at the call that changed the value, and does not come back
      rw [hbetween, Run.along_append] at hfollows hmoves
      rw [Run.exec_append] at hchange
      have hmoved := stampOf_ne_of_change hfollows.2.1 hmoves.2.1 hchange
      have hlast := stampOf_ne_of_along hmoves.2.2 hmoved
      rw [← Run.exec_cons, ← Run.exec_append, ← hbetween, ← Run.exec_append] at hlast
      exact swept_stamp_ne hlast hsweep.zero h
    · -- the sweep of the write itself dropped the metadata of the path
      obtain ⟨entry, hentry, hlapsed⟩ := hsweep.change hchange
      have hnone : swept.meta.get path = none := by
        rw [get_meta_of_sweep h, hentry]
        simp [hlapsed]
      rw [stamp_of_no_meta hnone]
      exact fun hzero => hsweep.zero hzero.symm ⟨entry, hentry, hlapsed⟩
  obtain ⟨hfail, hsame⟩ := refused_of_stamp hnamed hpin hswept
  refine ⟨hfail, hsame, fun hunpinned => ?_⟩
  obtain ⟨swept, hstale⟩ := stale_of_unpinned hnamed hpin hswept hunpinned
  exact ⟨_, hstale, staleWrite_reason swept path stamp⟩

/-! A write to the container replaces what a path in it resolves to, and leaves its stamp. -/

def sampleInner : Call := ⟨.write { path := "a.b", value := .integer 1 }, 1⟩
def sampleInnerRead : BlackboardReadRequest := { path := "a.b" }
def sampleOuter : Call := ⟨.write { path := "a", value := .object [("b", .integer 2)] }, 3⟩
def sampleRewrite : Call := ⟨.write { path := "a.b", value := .integer 2 }, 3⟩
def samplePinned : BlackboardWriteRequest :=
  { path := "a.b", value := .integer 5, expectedUpdatedAtMs := some 1 }

theorem pinned_write_misses_container :
    let before := [sampleInner, ⟨.read sampleInnerRead, 2⟩]
    ClocksIncrease (before ++ [sampleOuter, ⟨.write samplePinned, 4⟩]) ∧
      reportedStamp "a.b" (step (Run.exec step none [sampleInner]) ⟨.read sampleInnerRead, 2⟩).1 = some 1 ∧
      ChangesValue "a.b" (Run.exec step none before) sampleOuter ∧
      succeeded (step (Run.exec step none (before ++ [sampleOuter])) ⟨.write samplePinned, 4⟩).1 = true := by
  refine ⟨by decide, by decide +kernel, fun h => ?_, by decide +kernel⟩
  exact absurd (congrArg (Option.map Json.dump) h) (by decide +kernel)

/-- A write to the path itself is noticed. -/
theorem pinned_write_refused_after_rewrite :
    let file := Run.exec step none ([sampleInner] ++ [⟨.read sampleInnerRead, 2⟩] ++ [sampleRewrite])
    let r := step file ⟨.write samplePinned, 4⟩
    succeeded r.1 = false ∧ r.2 = file ∧
      (succeeded (step file ⟨.write { samplePinned with expectedUpdatedAtMs := none }, 4⟩).1 = true →
        ∃ e, r.1 = .error (.error e) ∧ e.code = 409 ∧ e.dataString "reason_code" = some "stale_write") := by
  have hfollows : Run.Along step (StampFollows "a.b" 1)
      (Run.exec step none ([sampleInner] ++ [⟨.read sampleInnerRead, 2⟩])) [sampleRewrite] :=
    Run.along_cons ⟨fun _ => .inl (by decide +kernel), fun h => by cases h⟩ (Run.along_nil _ _)
  have hsweep : SweepFollows "a.b" 1
      (Run.exec step none ([sampleInner] ++ [⟨.read sampleInnerRead, 2⟩] ++ [sampleRewrite])) 4 := by
    refine ⟨?_, fun h => by cases h⟩
    rintro ⟨dropped, swept, h, hne⟩
    cases h
    exact absurd rfl hne
  refine pinned_write_refused (by decide) (by decide +kernel) (by decide +kernel) rfl hfollows hsweep
    (.inl ⟨[], sampleRewrite, [], rfl, fun h => ?_⟩)
  exact absurd (congrArg (Option.map Json.dump) h) (by decide +kernel)

end Didi.Blackboard
