import Didi.Blackboard.Rules

/-!
# What a clear of a path removes

* `readValue` : what a read finds; `readValue_swept` : it is what the swept tree resolves;
* `planClear_error`, `planClear_ok` : a path can be cleared exactly when an object holds it, since what
  `parent_pointer` refers to is erased from without a look at its kind;
* `clears_exactly_iff` : when a clear answers, leaves nothing at the path and everything elsewhere.
-/

namespace Didi.Blackboard
open Locked

/-! ## What a read finds -/

def ReadContent.value : ReadContent → Option Json
  | .found value _ => some value
  | _ => none

/-- What a read that did not fail found. -/
def readValue : Except Failure Answer → Option (Option Json)
  | .ok (.read answer) => some answer.content.value
  | _ => none

/-- What a read shows of a value. -/
def shown (request : BlackboardReadRequest) (value : Json) : Json :=
  if request.deep then value else shallowView value

theorem missingContent_value (board : Board) (path : String) : (missingContent board path).value = none := by
  unfold missingContent
  split
  · rfl
  · split <;> rfl

section Reads
variable {request : BlackboardReadRequest} {nowMs : Int} {file file' : File} {swept : Board} {parts : List String}

theorem readSwept_value {v : Json} :
    (∃ answer, readSwept request parts swept = .ok answer ∧ answer.content.value = some v) ↔
      ∃ w, (Json.object swept.state).resolve parts = some w ∧ v = shown request w := by
  unfold readSwept
  rw [pointerFor_eq]
  change (∃ answer, ((Json.object swept.state).contains parts >>= _) = .ok answer ∧ _) ↔ _
  cases hthere : (Json.object swept.state).contains parts with
  | error e =>
    refine iff_of_false ?_ ?_
    · rintro ⟨answer, hanswer, -⟩
      cases hanswer
    · rintro ⟨w, hw, -⟩
      rw [Json.contains_eq_true.mpr ⟨w, hw⟩] at hthere
      cases hthere
  | ok there =>
    cases there with
    | false =>
      refine iff_of_false ?_ ?_
      · rintro ⟨answer, hanswer, hvalue⟩
        cases hanswer
        rw [missingContent_value] at hvalue
        cases hvalue
      · rintro ⟨w, hw, -⟩
        rw [Json.contains_eq_true.mpr ⟨w, hw⟩] at hthere
        cases hthere
    | true =>
      obtain ⟨w, hw⟩ := Json.contains_eq_true.mp hthere
      change (∃ answer, ((Json.object swept.state).atPointer parts >>= _) = .ok answer ∧ _) ↔ _
      rw [Json.atPointer_of_resolve hw]
      constructor
      · rintro ⟨answer, hanswer, hvalue⟩
        cases hanswer
        cases hvalue
        exact ⟨w, hw, rfl⟩
      · rintro ⟨w', hw', rfl⟩
        rw [hw] at hw'
        cases hw'
        exact ⟨_, rfl, rfl⟩

theorem readSwept_missing (h : (Json.object swept.state).contains parts = .ok false) :
    ∃ answer, readSwept request parts swept = .ok answer ∧ answer.content = missingContent swept (joinPath parts) := by
  unfold readSwept
  rw [pointerFor_eq]
  change ∃ answer, ((Json.object swept.state).contains parts >>= _) = .ok answer ∧ _
  rw [h]
  exact ⟨_, rfl, rfl⟩

/-- A read that its own sweep does not keep from answering. -/
theorem step_read (hboard : isLegalBoardName request.board = true) (hparts : splitOptionalPath request.path = .ok parts)
    (hloads : Loads file) (hswept : SweptTo file nowMs swept file') :
    step file ⟨.read request, nowMs⟩ = (((readSwept request parts swept).mapError .exception).map .read, file') := by
  have hrun : (blackboardRead request nowMs).wp (fun r left =>
      r = (readSwept request parts swept).mapError .exception ∧ left = file') file := by
    unfold blackboardRead withBoardLock
    refine wp_liftResult_bind (fun found hfound => ?_) fun e he => ?_
    · rw [hparts] at hfound
      cases hfound
      refine wp_require_bind (fun _ => ?_) fun hno => absurd hboard hno
      refine wp_loadBoard_bind (fun _ => ?_) fun hno => absurd hloads hno
      refine wp_bind ?_
      unfold sweepAndSave
      refine wp_liftThrows_bind (fun sweep hsweep => ?_) fun e he => ?_
      · rcases hswept with ⟨hkept, rfl⟩ | ⟨hdropped, hsize, rfl⟩
        · rw [hkept] at hsweep
          cases hsweep
          exact ⟨rfl, rfl⟩
        · rw [hdropped] at hsweep
          cases hsweep
          exact wp_saveBoard_ok hsize ⟨rfl, rfl⟩
      · rcases hswept with ⟨hkept, -⟩ | ⟨hdropped, -, -⟩
        · rw [hkept] at he
          cases he
        · rw [hdropped] at he
          cases he
    · rw [hparts] at he
      cases he
  change (do return .read (← blackboardRead request nowMs) : BoardM Answer).run file = _
  rw [run_perform, hrun.1, hrun.2]

/-- **A read finds what the swept tree resolves.** -/
theorem readValue_swept (hboard : isLegalBoardName request.board = true)
    (hparts : splitOptionalPath request.path = .ok parts) (hloads : Loads file) (hswept : SweptTo file nowMs swept file')
    (v : Json) : readValue (step file ⟨.read request, nowMs⟩).1 = some (some v) ↔
      ∃ w, (Json.object swept.state).resolve parts = some w ∧ v = shown request w := by
  rw [step_read hboard hparts hloads hswept, ← readSwept_value]
  cases readSwept request parts swept with
  | error e =>
    refine iff_of_false (fun h => ?_) ?_
    · cases h
    · rintro ⟨answer, hanswer, -⟩
      cases hanswer
  | ok answer => simp [readValue, Except.map, Except.mapError]

/-- What a read that found something was asked, and what it swept. -/
theorem swept_of_readValue {found : Option Json} (h : readValue (step file ⟨.read request, nowMs⟩).1 = some found) :
    isLegalBoardName request.board = true ∧ Loads file ∧ ∃ parts swept file',
      splitOptionalPath request.path = .ok parts ∧ SweptTo file nowMs swept file' := by
  have hstep : (step file ⟨.read request, nowMs⟩).1 = ((blackboardRead request nowMs).run file).1.map .read :=
    congrArg Prod.fst (run_perform _ _ _)
  have hlegal : (blackboardRead request nowMs).wp (fun r _ =>
      (∃ e, r = .error e) ∨ isLegalBoardName request.board = true) file := by
    unfold blackboardRead withBoardLock
    refine wp_liftResult_bind (fun parts hparts => ?_) fun e _ => .inl ⟨_, rfl⟩
    refine wp_require_bind (fun hboard => ?_) fun _ => .inl ⟨_, rfl⟩
    exact .inr hboard
  have hspec := blackboardRead_spec request nowMs file
  unfold wp at hspec hlegal
  rw [hstep] at h
  generalize (blackboardRead request nowMs).run file = outcome at hspec hlegal h
  obtain ⟨r, file'⟩ := outcome
  rcases hspec with ⟨⟨e, rfl⟩, -⟩ | ⟨parts, swept, hparts, hloads, hswept, -⟩
  · cases h
  · rcases hlegal with ⟨e, rfl⟩ | hboard
    · cases h
    · exact ⟨hboard, hloads, parts, swept, file', hparts, hswept⟩

end Reads

/-! ## What a clear plans -/

section Plans
variable {request : BlackboardClearRequest} {nowMs : Int} {swept : Board} {parts : List String}

/-- A clear of a path that resolves without an object to hold it throws. -/
theorem planClear_error (hne : parts ≠ []) (hreal : request.dryRun = false) {w holder : Json}
    (hw : (Json.object swept.state).resolve parts = some w)
    (hholder : (Json.object swept.state).resolve parts.dropLast = some holder) (hkind : holder.isObject = false) :
    ∃ e, planClear request parts nowMs swept = .error e := by
  obtain ⟨e, he⟩ : ∃ e, holder.erase (parts.getLastD "") = .error e := by
    cases holder with
    | object members => cases hkind
    | _ => exact ⟨_, rfl⟩
  have halter := (Json.alterAt_of_resolve (f := Json.erase (parts.getLastD "")) hholder).1 e he
  refine ⟨e, ?_⟩
  unfold planClear
  rw [if_neg hne, pointerFor_eq]
  change ((Json.object swept.state).contains parts >>= _) = _
  rw [Json.contains_eq_true.mpr ⟨w, hw⟩]
  change ((Json.object swept.state).atPointer parts >>= _) = _
  rw [Json.atPointer_of_resolve hw]
  change (if request.dryRun = true then _ else clearPath request parts nowMs swept >>= _) = _
  rw [if_neg (by rw [hreal]; decide), clearPath, halter]
  rfl

theorem planClear_ok (hne : parts ≠ []) (hreal : request.dryRun = false)
    (hmember : (Json.object swept.state).IsMember parts) :
    ∃ event left, planClear request parts nowMs swept = .ok (some (event, left)) := by
  obtain ⟨⟨w, hw⟩, members, hholder⟩ := hmember
  obtain ⟨tree, halter⟩ := (Json.alterAt_of_resolve (f := Json.erase (parts.getLastD "")) hholder).2 _ rfl
  unfold planClear
  rw [if_neg hne, pointerFor_eq]
  change ∃ event left, ((Json.object swept.state).contains parts >>= _) = _
  rw [Json.contains_eq_true.mpr ⟨w, hw⟩]
  change ∃ event left, ((Json.object swept.state).atPointer parts >>= _) = _
  rw [Json.atPointer_of_resolve hw]
  change ∃ event left, (if request.dryRun = true then _ else clearPath request parts nowMs swept >>= _) = _
  rw [if_neg (by rw [hreal]; decide), clearPath, halter]
  exact ⟨_, _, rfl⟩

end Plans

/-! ## The clear -/

/-- The refusal of a board that is too large to be stored. -/
def oversize : Failure :=
  .error (.invalidArgument ("the write would take the board past the " ++ toString kBlackboardMaxBoardBytes ++
    " byte limit; nothing was written"))

theorem wp_saveAndReadBack_oversize {β : Type} {P : Except Failure β → File → Prop} {file : File} {board : Board}
    {f : Board → BoardM β} (hsize : ¬ board.byteSize ≤ kBlackboardMaxBoardBytes) (h : P (.error oversize) file) :
    (saveAndReadBack board >>= f).wp P file := by
  refine wp_bind ?_
  unfold saveAndReadBack
  refine wp_bind ?_
  unfold saveBoard
  exact wp_require_bind (fun hfits => absurd hfits hsize) fun _ => h

/-- How a clear of a path ends, by its plan. -/
theorem blackboardClear_plan {request : BlackboardClearRequest} {nowMs : Int} {file : File} {parts : List String}
    {dropped : Bool} {swept : Board} (hreal : request.dryRun = false) (hboard : isLegalBoardName request.board = true)
    (hparts : splitOptionalPath request.path = .ok parts) (hloads : Loads file)
    (hsweep : sweepExpired (boardOf file) nowMs = .ok (dropped, swept)) :
    (blackboardClear request nowMs).wp (fun r _ =>
      (∀ e, planClear request parts nowMs swept = .error e → r = .error (.exception e)) ∧
        ∀ event left, planClear request parts nowMs swept = .ok (some (event, left)) →
          r = .error oversize ∨ ∃ answer, r = .ok answer) file := by
  unfold blackboardClear withBoardLock
  refine wp_liftResult_bind (fun found hfound => ?_) fun e he => ?_
  · rw [hparts] at hfound
    cases hfound
    refine wp_require_bind (fun _ => ?_) fun hno => absurd hboard hno
    refine wp_loadBoard_bind (fun _ => ?_) fun hno => absurd hloads hno
    rw [hsweep]
    refine wp_liftThrows_bind (fun sweep hswept => ?_) fun e he => by cases he
    cases hswept
    dsimp only
    refine wp_liftThrows_bind (fun plan hplan => ?_) fun e he => ?_
    · rw [hplan]
      cases plan with
      | none => exact wp_pure ⟨nofun, nofun⟩
      | some plan =>
        obtain ⟨event, left⟩ := plan
        refine wp_ite (fun hdry => ?_) fun _ => ?_
        · rw [hreal] at hdry
          cases hdry
        · refine wp_mono ?_ fun r _ h => ⟨nofun, fun _ _ _ => h⟩
          by_cases hsize : left.byteSize ≤ kBlackboardMaxBoardBytes
          · refine wp_saveAndReadBack_ok hsize ?_
            rw [(planClear_some hplan).gone hreal]
            refine wp_liftThrows_bind (fun stillThere hstill => ?_) fun e he => by cases he
            cases hstill
            exact wp_require_bind (fun _ => wp_pure (.inr ⟨_, rfl⟩)) fun hno => absurd rfl hno
          · exact wp_saveAndReadBack_oversize hsize (.inl rfl)
    · rw [he]
      refine ⟨fun e' he' => ?_, nofun⟩
      cases he'
      rfl
  · rw [hparts] at he
    cases he

/-- A clear that answers, after which nothing is found at the path, and everything that is neither at it,
nor below it, nor above it is found as before. -/
structure ClearsExactly (file : File) (request : BlackboardClearRequest) (nowMs : Int) (parts : List String) :
    Prop where
  answers : succeeded (step file ⟨.clear request, nowMs⟩).1 = true
  gone : ∀ reading : BlackboardReadRequest, reading.board = request.board → reading.path = request.path →
    readValue (step (step file ⟨.clear request, nowMs⟩).2 ⟨.read reading, nowMs⟩).1 = some none
  others : ∀ (reading : BlackboardReadRequest) (other : List String), reading.board = request.board →
    blackboardSplitPath reading.path = .ok other → JsonPointer.Unrelated parts other →
      ∀ v, readValue (step file ⟨.read reading, nowMs⟩).1 = some (some v) ↔
        readValue (step (step file ⟨.clear request, nowMs⟩).2 ⟨.read reading, nowMs⟩).1 = some (some v)

/-- A board on which nothing has lapsed is left as it is. -/
theorem sweepExpired_of_fresh {board : Board} {nowMs : Int}
    (h : ∀ k entry, board.meta.get k = some entry → entry.lapsed nowMs = false) :
    sweepExpired board nowMs = .ok (false, board) := by
  have hempty : (lapsedEntries board nowMs).isEmpty = true := by
    rw [List.isEmpty_iff, List.eq_nil_iff_forall_not_mem]
    intro e he
    obtain ⟨hget, hlapsed⟩ := mem_lapsedEntries.mp he
    rw [h e.1 e.2 hget] at hlapsed
    cases hlapsed
  unfold lapsedEntries at hempty
  unfold sweepExpired
  dsimp only
  rw [if_pos hempty]
  rfl

theorem fresh_of_sweep {board swept : Board} {nowMs : Int} {dropped : Bool}
    (h : sweepExpired board nowMs = .ok (dropped, swept)) {k : String} {entry : Meta}
    (hget : swept.meta.get k = some entry) : entry.lapsed nowMs = false := by
  rw [get_meta_of_sweep h, Option.filter_eq_some_iff] at hget
  simpa using hget.2

/-- Nothing lapses on what a clear leaves. -/
theorem sweep_of_cleared {request : BlackboardClearRequest} {nowMs : Int} {loaded swept left : Board}
    {parts : List String} {dropped : Bool} {event : ClearEvent} (hsweep : sweepExpired loaded nowMs = .ok (dropped, swept))
    (hleft : clearPath request parts nowMs swept = .ok left) :
    sweepExpired (recordClear event left) nowMs = .ok (false, recordClear event left) := by
  refine sweepExpired_of_fresh fun k entry hget => ?_
  have hmeta : left.meta.get k = some entry := hget
  rw [(clearPath_ok hleft).gone, get_eraseAll] at hmeta
  split_ifs at hmeta
  exact fresh_of_sweep hsweep hmeta

theorem splitOptionalPath_of_split {path : String} {parts : List String} (h : blackboardSplitPath path = .ok parts) :
    splitOptionalPath path = .ok parts := by
  unfold splitOptionalPath
  rw [if_neg ?_, h]
  rintro rfl
  obtain ⟨s, hs⟩ := List.exists_mem_of_ne_nil _ (legalPath_of_split h).ne_nil
  refine (legalPath_of_split h).ne_empty hs ?_
  unfold blackboardSplitPath at h
  dsimp only at h
  split_ifs at h
  cases h
  simpa using hs

theorem clears_of_isMember {file : File} {request : BlackboardClearRequest} {nowMs : Int} {parts : List String}
    {dropped : Bool} {swept : Board} {file' : File} (hreal : request.dryRun = false)
    (hboard : isLegalBoardName request.board = true) (hparts : blackboardSplitPath request.path = .ok parts)
    (hloads : Loads file) (hswept : SweptTo file nowMs swept file')
    (hsweep : sweepExpired (boardOf file) nowMs = .ok (dropped, swept))
    (hok : succeeded (step file ⟨.clear request, nowMs⟩).1 = true)
    (hmember : (Json.object swept.state).IsMember parts) : ClearsExactly file request nowMs parts := by
  have hstep : step file ⟨.clear request, nowMs⟩ =
      (((blackboardClear request nowMs).run file).1.map .clear, ((blackboardClear request nowMs).run file).2) :=
    run_perform _ _ _
  obtain ⟨stored, left, hstored, hsize, hclear, hleft⟩ : ∃ (stored : Board) (left : Board),
      (step file ⟨.clear request, nowMs⟩).2 = some stored ∧ stored.byteSize ≤ kBlackboardMaxBoardBytes ∧
        clearPath request parts nowMs swept = .ok left ∧ ∃ event, stored = recordClear event left := by
    rw [hstep] at hok ⊢
    have hspec := blackboardClear_spec request nowMs file
    unfold wp at hspec
    generalize (blackboardClear request nowMs).run file = outcome at hspec hok ⊢
    obtain ⟨r, left⟩ := outcome
    rcases hspec with ⟨⟨e, rfl⟩, -⟩ | ⟨found, again, board, plan, hfound, -, hagain, hplan, hend⟩
    · cases hok
    · rw [splitOptionalPath_of_split hparts] at hfound
      cases hfound
      rw [hsweep] at hagain
      cases hagain
      rcases hend with ⟨rfl, -, -⟩ | ⟨event, stored, rfl, -, hend⟩
      · obtain ⟨event, left, hplanned⟩ := @planClear_ok request nowMs swept parts (legalPath_of_split hparts).ne_nil hreal
          hmember
        rw [hplanned] at hplan
        cases hplan
      · rcases hend with ⟨hdry, -⟩ | ⟨-, hsize, rfl⟩
        · rw [hreal] at hdry
          cases hdry
        · generalize hpair : (event, stored) = pair at hplan
          cases planClear_some hplan with
          | all => exact absurd rfl (legalPath_of_split hparts).ne_nil
          | path hne hremoved hleft =>
            cases hpair
            exact ⟨_, _, rfl, hsize, hleft hreal, _, rfl⟩
  obtain ⟨event, rfl⟩ := hleft
  have hloaded : Loads (some (recordClear event left)) := by
    rintro _ ⟨⟩
    exact hsize
  have hkept : SweptTo (some (recordClear event left)) nowMs (recordClear event left) (some (recordClear event left)) :=
    .inl ⟨sweep_of_cleared hsweep hclear, rfl⟩
  have herased := (clearPath_ok hclear).erased
  have hpath := Json.concat_of_ne_nil (legalPath_of_split hparts).ne_nil
  refine ⟨hok, fun reading hname hread => ?_, fun reading other hname hread hunrelated v => ?_⟩
  · rw [hstored, step_read (hname ▸ hboard) (hread ▸ splitOptionalPath_of_split hparts) hloaded hkept]
    have hgone := Json.contains_alterAt_erase herased
    rw [hpath] at hgone
    obtain ⟨answer, hanswer, hcontent⟩ := @readSwept_missing reading (recordClear event left) parts hgone
    rw [hanswer]
    change some answer.content.value = some none
    rw [hcontent, missingContent_value]
  · rw [hstored, readValue_swept (hname ▸ hboard) (splitOptionalPath_of_split hread) hloads hswept,
      readValue_swept (hname ▸ hboard) (splitOptionalPath_of_split hread) hloaded hkept]
    change _ ↔ ∃ w, (Json.object left.state).resolve other = some w ∧ _
    rw [Json.resolve_alterAt_erase herased (by rw [hpath]; exact hunrelated.1) fun habove => hunrelated.2 ?_]
    exact habove.trans (List.dropLast_prefix parts)

/-- **A clear of a path that a read finds answers, leaves nothing there and everything elsewhere, unless the
board is too large to be stored, exactly when an object holds what the path names.** -/
theorem clears_exactly_iff (calls : List Call) (request : BlackboardClearRequest) (nowMs : Int)
    {parts : List String} {v : Json} (hreal : request.dryRun = false)
    (hparts : blackboardSplitPath request.path = .ok parts)
    (hfound : readValue (step (Run.exec step none calls)
      ⟨.read { board := request.board, path := request.path }, nowMs⟩).1 = some (some v)) :
    let file := Run.exec step none calls
    ((step file ⟨.clear request, nowMs⟩).1 = .error oversize ∨ ClearsExactly file request nowMs parts) ↔
      ∃ dropped swept, sweepExpired (boardOf file) nowMs = .ok (dropped, swept) ∧
        (Json.object swept.state).IsMember parts := by
  intro file
  have hne := (legalPath_of_split hparts).ne_nil
  have hsplit := splitOptionalPath_of_split hparts
  obtain ⟨hboard, hloads, parts', swept, file', hparts', hswept⟩ := swept_of_readValue hfound
  have hstep : (step file ⟨.clear request, nowMs⟩).1 = ((blackboardClear request nowMs).run file).1.map .clear :=
    congrArg Prod.fst (run_perform _ _ _)
  obtain ⟨dropped, hsweep⟩ : ∃ dropped, sweepExpired (boardOf file) nowMs = .ok (dropped, swept) := by
    rcases hswept with ⟨hsweep, -⟩ | ⟨hsweep, -, -⟩
    · exact ⟨_, hsweep⟩
    · exact ⟨_, hsweep⟩
  obtain ⟨hthrows, hends⟩ := blackboardClear_plan hreal hboard hsplit hloads hsweep
  constructor
  · intro h
    refine ⟨dropped, swept, hsweep, ?_⟩
    obtain ⟨w, hw, -⟩ := (readValue_swept hboard hsplit hloads hswept v).mp hfound
    obtain ⟨holder, hholder, -⟩ := Json.resolve_prefix (p := parts.dropLast) (q := [parts.getLastD ""])
      (by rwa [Json.concat_of_ne_nil hne])
    refine ⟨⟨w, hw⟩, ?_⟩
    cases hkind : holder.isObject with
    | true =>
      cases holder with
      | object members => exact ⟨members, hholder⟩
      | _ => cases hkind
    | false =>
      -- what is no object cannot be erased from, and the clear throws
      obtain ⟨e, he⟩ := @planClear_error request nowMs swept parts hne hreal w holder hw hholder hkind
      rw [hstep, hthrows e he] at h
      rcases h with h | h
      · cases h
      · have hok := h.answers
        rw [hstep, hthrows e he] at hok
        cases hok
  · rintro ⟨dropped', swept', hsweep', hmember⟩
    rw [hsweep] at hsweep'
    cases hsweep'
    obtain ⟨event, left, hplan⟩ := @planClear_ok request nowMs swept parts hne hreal hmember
    rcases hends event left hplan with hover | ⟨answer, hanswer⟩
    · left
      rw [hstep, hover]
      rfl
    · right
      refine clears_of_isMember hreal hboard hparts hloads hswept hsweep ?_ hmember
      rw [hstep, hanswer]
      rfl

/-! An element of an array can be read and not cleared. -/

/-- Whether a read found a value. -/
def findsValue (r : Except Failure Answer) : Bool :=
  match readValue r with
  | some (some _) => true
  | _ => false

theorem findsValue_of_readValue {r : Except Failure Answer} {v : Json} (h : readValue r = some (some v)) :
    findsValue r = true := by
  rw [findsValue, h]

theorem exists_of_findsValue {r : Except Failure Answer} (h : findsValue r = true) :
    ∃ v, readValue r = some (some v) := by
  unfold findsValue at h
  split at h
  · exact ⟨_, ‹_›⟩
  · cases h

def arrayWrite : Call := ⟨.write { path := "a", value := .array [.integer 1] }, 0⟩

theorem not_clears_exactly_element : ¬ ∀ (calls : List Call) (request : BlackboardClearRequest) (nowMs : Int)
    (parts : List String) (v : Json), request.dryRun = false → blackboardSplitPath request.path = .ok parts →
      readValue (step (Run.exec step none calls)
        ⟨.read { board := request.board, path := request.path }, nowMs⟩).1 = some (some v) →
      (step (Run.exec step none calls) ⟨.clear request, nowMs⟩).1 = .error oversize ∨
        ClearsExactly (Run.exec step none calls) request nowMs parts := by
  intro h
  obtain ⟨v, hv⟩ := exists_of_findsValue (show findsValue (step (Run.exec step none [arrayWrite])
    ⟨.read { path := "a.0" }, 1⟩).1 = true by decide +kernel)
  have hthrows : (match (step (Run.exec step none [arrayWrite]) ⟨.clear { path := "a.0" }, 1⟩).1 with
      | .error (.exception _) => true
      | _ => false) = true := by
    decide +kernel
  rcases h [arrayWrite] { path := "a.0" } 1 ["a", "0"] v rfl rfl hv with hover | hclears
  · rw [hover] at hthrows
    cases hthrows
  · have hok := hclears.answers
    cases hr : (step (Run.exec step none [arrayWrite]) ⟨.clear { path := "a.0" }, 1⟩).1 with
    | ok answer =>
      rw [hr] at hthrows
      cases hthrows
    | error e =>
      rw [hr] at hok
      cases hok

def memberWrite : Call := ⟨.write { path := "a", value := .object [("b", .integer 1)] }, 0⟩

theorem clears_exactly_member :
    ClearsExactly (Run.exec step none [memberWrite]) { path := "a.b" } 1 ["a", "b"] := by
  obtain ⟨v, hv⟩ := exists_of_findsValue (show findsValue (step (Run.exec step none [memberWrite])
    ⟨.read { path := "a.b" }, 1⟩).1 = true by decide +kernel)
  have hok : succeeded (step (Run.exec step none [memberWrite]) ⟨.clear { path := "a.b" }, 1⟩).1 = true := by
    decide +kernel
  refine ((clears_exactly_iff [memberWrite] { path := "a.b" } 1 rfl rfl hv).mpr
    ⟨false, _, rfl, ⟨.integer 1, rfl⟩, [("b", .integer 1)], rfl⟩).resolve_left fun hover => ?_
  rw [hover] at hok
  cases hok

end Didi.Blackboard
