import Mathlib.Data.Bool.AllAny
import Didi.Blackboard.Clearing
import Didi.Json.Names

/-!
# Listed paths and paths that are read

* `memberPaths` : the members of a tree below its objects, each with the names that lead to it;
  `collectMembers_eq` : a listing joins these names;
* `BringsPlain` : the calls that bring in no member name but plain ones, and `step_plain` : what they keep;
* `lists_readable` : in a run of such calls, what is listed is what can be read.
-/

namespace Didi.Blackboard
open Locked

/-! ## The members of a tree -/

mutual

/-- The members below a value, reached through objects, each with the names that lead to it. -/
def valuePaths : Json → List (List String × Json)
  | .object members => memberPaths members
  | _ => []

def memberPaths : List (String × Json) → List (List String × Json)
  | [] => []
  | (k, child) :: members =>
    ([k], child) :: (valuePaths child).map (fun e => (k :: e.1, e.2)) ++ memberPaths members

end

theorem joinPath_concat (names : List String) (k : String) :
    joinPath (names ++ [k]) = if joinPath names = "" then k else joinPath names ++ "." ++ k := by
  unfold joinPath
  rw [List.foldl_append, List.foldl_cons, List.foldl_nil]
  split_ifs with h
  · rw [h]
    exact String.empty_append
  · rfl

mutual

theorem collectPaths_eq (above : List String) : ∀ v : Json,
    collectPaths (joinPath above) v = (valuePaths v).map fun e => (joinPath (above ++ e.1), keyKind e.2)
  | .object members => by
    rw [collectPaths, valuePaths]
    exact collectMembers_eq above members
  | .null => rfl
  | .boolean _ => rfl
  | .integer _ => rfl
  | .real _ _ => rfl
  | .string _ => rfl
  | .array _ => rfl

/-- **A listing joins the names that lead to each member.** -/
theorem collectMembers_eq (above : List String) : ∀ members : List (String × Json),
    collectMembers (joinPath above) members = (memberPaths members).map fun e => (joinPath (above ++ e.1), keyKind e.2)
  | [] => rfl
  | (k, child) :: members => by
    rw [collectMembers, memberPaths]
    rw [← joinPath_concat, collectPaths_eq (above ++ [k]) child, collectMembers_eq above members]
    simp

end

/-! ## Which members there are -/

section Members
variable {P : String → Prop} {members : JsonObject} {q : List String} {w : Json}

theorem mem_memberPaths : (q, w) ∈ memberPaths members ↔ ∃ k ks child, q = k :: ks ∧ (k, child) ∈ members ∧
    (ks = [] ∧ w = child ∨ (ks, w) ∈ valuePaths child) := by
  induction members with
  | nil => simp [memberPaths]
  | cons e members ih =>
    obtain ⟨k, child⟩ := e
    rw [memberPaths, List.mem_append, List.mem_cons, List.mem_map, ih]
    constructor
    · rintro ((h | ⟨below, hbelow, h⟩) | ⟨k', ks, child', hq, hmem, hrest⟩)
      · cases h
        exact ⟨k, [], _, rfl, List.mem_cons_self, .inl ⟨rfl, rfl⟩⟩
      · cases h
        exact ⟨k, below.1, _, rfl, List.mem_cons_self, .inr hbelow⟩
      · exact ⟨k', ks, child', hq, List.mem_cons_of_mem _ hmem, hrest⟩
    · rintro ⟨k', ks, child', rfl, hmem, hrest⟩
      rcases List.mem_cons.mp hmem with he | hmem
      · cases he
        rcases hrest with ⟨rfl, rfl⟩ | hbelow
        · exact .inl (.inl rfl)
        · exact .inl (.inr ⟨(ks, w), hbelow, rfl⟩)
      · exact .inr ⟨k', ks, child', rfl, hmem, hrest⟩

theorem ne_nil_of_mem_valuePaths {v : Json} (h : (q, w) ∈ valuePaths v) : q ≠ [] := by
  cases v with
  | object members =>
    rw [valuePaths] at h
    obtain ⟨k, ks, -, rfl, -⟩ := mem_memberPaths.mp h
    exact List.cons_ne_nil k ks
  | _ => cases h

/-- The members that are listed are those that a chain of objects leads to. -/
theorem mem_memberPaths_iff (h : (Json.object members).Named P) :
    (q, w) ∈ memberPaths members ↔ q ≠ [] ∧ (Json.object members).Holds q w := by
  induction q generalizing members with
  | nil =>
    rw [mem_memberPaths]
    exact iff_of_false (by rintro ⟨k, ks, child, h, -⟩; cases h) fun h => h.1 rfl
  | cons k ks ih =>
    have hlookup : ∀ child, (k, child) ∈ members ↔ members.lookup k = some child :=
      fun child => ⟨List.lookup_of_mem (Json.named_object.mp h).1, List.mem_of_lookup⟩
    have hbelow : ∀ child, members.lookup k = some child →
        ((ks = [] ∧ w = child ∨ (ks, w) ∈ valuePaths child) ↔ child.Holds ks w) := by
      intro child hchild
      by_cases hks : ks = []
      · subst hks
        rw [Json.holds_nil]
        exact ⟨fun h => h.elim (fun h => h.2.symm) fun h => absurd rfl (ne_nil_of_mem_valuePaths h),
          fun h => .inl ⟨rfl, h.symm⟩⟩
      · cases child with
        | object children =>
          rw [valuePaths, ih (h.lookup hchild).2]
          simp [hks]
        | _ =>
          refine iff_of_false (by rintro (⟨h, -⟩ | h); exact hks h; cases h) fun hholds => ?_
          obtain ⟨j, js, rfl⟩ := List.exists_cons_of_ne_nil hks
          obtain ⟨_, _, he, -⟩ := Json.holds_cons.mp hholds
          cases he
    rw [mem_memberPaths, Json.holds_cons]
    constructor
    · rintro ⟨j, js, child, hq, hmem, hrest⟩
      cases hq
      have hchild := (hlookup child).mp hmem
      exact ⟨List.cons_ne_nil k ks, members, child, rfl, hchild, (hbelow child hchild).mp hrest⟩
    · rintro ⟨-, _, child, he, hchild, hholds⟩
      cases he
      exact ⟨k, ks, child, rfl, (hlookup child).mpr hchild, (hbelow child hchild).mpr hholds⟩

mutual

theorem nodup_valuePaths : ∀ v : Json, v.Named P → ((valuePaths v).map Prod.fst).Nodup
  | .object members => fun h => by
    rw [valuePaths]
    exact nodup_memberPaths members h
  | .null => fun _ => List.nodup_nil
  | .boolean _ => fun _ => List.nodup_nil
  | .integer _ => fun _ => List.nodup_nil
  | .real _ _ => fun _ => List.nodup_nil
  | .string _ => fun _ => List.nodup_nil
  | .array _ => fun _ => List.nodup_nil

/-- No names lead to two members. -/
theorem nodup_memberPaths : ∀ members : List (String × Json), (Json.object members).Named P →
    ((memberPaths members).map Prod.fst).Nodup
  | [] => fun _ => List.nodup_nil
  | (k, child) :: members => fun h => by
    obtain ⟨hsorted, hall⟩ := Json.named_object.mp h
    rw [List.pairwise_cons] at hsorted
    have hchild := nodup_valuePaths child (hall _ List.mem_cons_self).2
    have hrest := nodup_memberPaths members
      (Json.named_object.mpr ⟨hsorted.2, fun e he => hall e (List.mem_cons_of_mem _ he)⟩)
    have hmap : (((valuePaths child).map fun e => (k :: e.1, e.2)).map Prod.fst) =
        ((valuePaths child).map Prod.fst).map (List.cons k) := by
      simp
    rw [memberPaths, List.map_append, List.map_cons, hmap, List.nodup_append, List.nodup_cons]
    refine ⟨⟨fun hmem => ?_, hchild.map (List.cons_injective)⟩, hrest, fun p hp p' hp' he => ?_⟩
    · obtain ⟨p, hp, he⟩ := List.mem_map.mp hmem
      obtain ⟨e, he', rfl⟩ := List.mem_map.mp hp
      exact ne_nil_of_mem_valuePaths (w := e.2) he' (List.cons.inj he).2
    · -- the paths of later members begin with later names
      obtain ⟨e, he', rfl⟩ := List.mem_map.mp hp'
      obtain ⟨j, js, later, hj, hmem, -⟩ := mem_memberPaths.mp he'
      have hlt : k < j := hsorted.1 _ hmem
      have hhead : p.head? = some k := by
        rcases List.mem_cons.mp hp with rfl | hp
        · rfl
        · obtain ⟨below, -, rfl⟩ := List.mem_map.mp hp
          rfl
      rw [he, hj] at hhead
      cases hhead
      exact lt_irrefl _ hlt

end

end Members

/-! ## Plain names -/

/-- A name that a path can have as a segment, and that holds no separator. -/
def PlainName (k : String) : Prop := isLegalSegment k = true ∧ ∀ c ∈ k.toList, isSeparator c = false

/-- What a call brings into the tree has plain names only: the value of a write, and in a patch the values and
the names that the paths end with. -/
def BringsPlain : Operation → Prop
  | .write request => request.value.Named PlainName
  | .patch request => ∀ operations, elementsOf request.operations = some operations →
    ∀ operation ∈ operations, Json.BringsNamed PlainName operation
  | _ => True

/-- The names in the tree of a board are plain. -/
def PlainBoard (board : Board) : Prop := (Json.object board.state).Named PlainName

theorem named_nil {P : String → Prop} : (Json.object []).Named P :=
  Json.named_object.mpr ⟨List.Pairwise.nil, nofun⟩

theorem named_writeAt {P : String → Prop} {value : Json} (hvalue : value.Named P) {parts : List String}
    (hparts : ∀ k ∈ parts, P k) {m : JsonObject} (hm : (Json.object m).Named P) {w : Option Json × JsonObject}
    (h : writeAt value m parts = .ok w) : (Json.object w.2).Named P := by
  induction parts generalizing m w with
  | nil =>
    cases h
    exact hm
  | cons k ks ih =>
    have hk := hparts k List.mem_cons_self
    cases ks with
    | nil =>
      cases h
      exact hm.insertKey hk hvalue
    | cons k' ks =>
      obtain ⟨children, written, hchildren, hr, hw⟩ := writeAt_below h
      have hnamed : (Json.object children).Named P := by
        rcases hchildren with hlookup | ⟨-, rfl⟩
        · exact (hm.lookup hlookup).2
        · exact named_nil
      rw [hw]
      exact hm.insertKey hk (ih (fun j hj => hparts j (List.mem_cons_of_mem _ hj)) hnamed hr)

theorem named_applyOperations {P : String → Prop} {operations : List Json} {patched patched' : Json} {index : Nat}
    (hbrings : ∀ operation ∈ operations, Json.BringsNamed P operation) (hnamed : patched.Named P)
    (h : applyOperations patched index operations = .ok patched') : patched'.Named P := by
  induction operations generalizing patched index with
  | nil =>
    cases h
    exact hnamed
  | cons operation operations ih =>
    rw [applyOperations] at h
    split at h
    · cases h
    · split at h
      · rename_i next hnext
        refine ih (fun o ho => hbrings o (List.mem_cons_of_mem _ ho)) ?_ h
        exact hnamed.patchOne (hbrings operation List.mem_cons_self) hnext
      · cases h

theorem plain_of_sweep {board swept : Board} {nowMs : Int} {dropped : Bool} (h : PlainBoard board)
    (hsweep : sweepExpired board nowMs = .ok (dropped, swept)) : PlainBoard swept :=
  sweep_induct (P := fun state => (Json.object state).Named PlainName) hsweep h
    fun _ _ _ _ _ _ hs herase => hs.eraseMember herase

theorem KeyMove.plain {loaded board : Board} {nowMs : Int} {operation : Operation}
    (hmove : KeyMove loaded nowMs operation board) (hbrings : BringsPlain operation) (h : PlainBoard loaded) :
    PlainBoard board := by
  cases hmove with
  | kept tasks => exact h
  | swept hsaves hsweep => exact plain_of_sweep h hsweep
  | wrote hreal hparts hsweep hplan =>
    obtain ⟨⟨state, hwritten, hboard⟩, -, -⟩ := hplan
    have hlegal := legalPath_of_split hparts
    rw [PlainBoard, hboard]
    exact named_writeAt hbrings (fun k hk => ⟨hlegal.legal k hk, hlegal.plain k hk⟩) (plain_of_sweep h hsweep) hwritten
  | patched hreal hoperations hsweep hplan =>
    exact named_applyOperations (hbrings _ hoperations) (plain_of_sweep h hsweep) hplan.applied
  | cleared hreal hparts hsweep hplan =>
    cases hplan with
    | all => exact named_nil
    | path hne hremoved hleft =>
      exact (plain_of_sweep h hsweep).alterAt (fun _ _ hc => hc.erase) (clearPath_ok (hleft hreal)).erased

/-- A run of calls that bring in plain names only leaves a board of plain names. -/
theorem plain_of_run {calls : List Call} (h : ∀ call ∈ calls, BringsPlain call.operation) :
    PlainBoard (boardOf (Run.exec step none calls)) :=
  Run.exec_of_along (P := fun file => PlainBoard (boardOf file)) (C := fun _ call => BringsPlain call.operation)
    (fun file call hcall h => (step_keyMove file call).plain hcall h) (Run.along_of_forall h) named_nil

/-! ## What a listing answers -/

/-- What a listing answered. -/
def listedKeys : Except Failure Answer → Option KeysAnswer
  | .ok (.listKeys answer) => some answer
  | _ => none

theorem legalPath_of_plain {q : List String} (hne : q ≠ []) (h : ∀ k ∈ q, PlainName k) : LegalPath q :=
  ⟨hne, fun k hk => (h k hk).1, fun k hk => (h k hk).2⟩

theorem plain_of_holds {v w : Json} {q : List String} (h : v.Named PlainName) (hholds : v.Holds q w) :
    ∀ k ∈ q, PlainName k := by
  induction q generalizing v with
  | nil => nofun
  | cons k ks ih =>
    obtain ⟨members, child, rfl, hchild, hbelow⟩ := Json.holds_cons.mp hholds
    intro j hj
    rcases List.mem_cons.mp hj with rfl | hj
    · exact (h.lookup hchild).1
    · exact ih (h.lookup hchild).2 hbelow j hj

/-- A dotted path of legal segments that is no longer than a path may be is split into them. -/
theorem splitPath_of_legal {q : List String} (hlegal : LegalPath q)
    (hlength : (joinPath q).length ≤ kBlackboardMaxPathCharacters) (hsegments : q.length ≤ kBlackboardMaxPathSegments) :
    blackboardSplitPath (joinPath q) = .ok q := by
  have hmap : (q.map String.toList).map String.ofList = q := by
    simp [List.map_map, Function.comp_def]
  have hall : q.all isLegalSegment = true := List.all_eq_true.mpr hlegal.legal
  unfold blackboardSplitPath
  dsimp only
  rw [splitOnP_joinPath hlegal, hmap, if_neg (by omega), if_pos hall, if_neg (by omega)]

/-- What a listing of everything answered, and what it swept. -/
theorem swept_of_listed {file : File} {request : BlackboardListKeysRequest} {nowMs : Int} {answer : KeysAnswer}
    (hall : request.within = "") (h : listedKeys (step file ⟨.listKeys request, nowMs⟩).1 = some answer) :
    isLegalBoardName request.board = true ∧ Loads file ∧ ∃ swept,
      SweptTo file nowMs swept (step file ⟨.listKeys request, nowMs⟩).2 ∧ answer = listSwept request "" swept := by
  have hstep : step file ⟨.listKeys request, nowMs⟩ =
      (((blackboardListKeys request nowMs).run file).1.map .listKeys,
        ((blackboardListKeys request nowMs).run file).2) := run_perform _ _ _
  have hlegal : (blackboardListKeys request nowMs).wp (fun r _ =>
      (∃ e, r = .error e) ∨ isLegalBoardName request.board = true) file := by
    unfold blackboardListKeys withBoardLock
    refine wp_require_bind (fun _ => ?_) fun _ => .inl ⟨_, rfl⟩
    refine wp_liftResult_bind (fun parts hparts => ?_) fun e _ => .inl ⟨_, rfl⟩
    refine wp_require_bind (fun hboard => ?_) fun _ => .inl ⟨_, rfl⟩
    exact .inr hboard
  have hspec := blackboardListKeys_spec request nowMs file
  unfold wp at hspec hlegal
  rw [hstep] at h ⊢
  generalize (blackboardListKeys request nowMs).run file = outcome at hspec hlegal h ⊢
  obtain ⟨r, file'⟩ := outcome
  rcases hspec with ⟨⟨e, rfl⟩, -⟩ | ⟨parts, swept, hparts, hloads, hswept, rfl⟩
  · cases h
  · rcases hlegal with ⟨e, he⟩ | hboard
    · cases he
    · rw [hall] at hparts
      cases hparts
      cases h
      exact ⟨hboard, hloads, swept, hswept, rfl⟩

/-- The paths and the kinds that a listing of everything shows. -/
theorem listSwept_all (request : BlackboardListKeysRequest) (swept : Board) :
    (listSwept request "" swept).keys.map (fun item => (item.path, item.kind)) =
        ((memberPaths swept.state).map fun e => (joinPath e.1, keyKind e.2)).take request.maxKeys ∧
      ((listSwept request "" swept).truncated = false → (memberPaths swept.state).length ≤ request.maxKeys) := by
  have hpaths : (collectPaths "" (.object swept.state)).filter (fun record => atOrUnder "" record.1) =
      (memberPaths swept.state).map fun e => (joinPath e.1, keyKind e.2) := by
    have hcollect := collectPaths_eq [] (.object swept.state)
    rw [valuePaths] at hcollect
    rw [List.filter_eq_self.mpr fun record _ => by simp [atOrUnder]]
    exact hcollect
  unfold listSwept
  dsimp only
  rw [hpaths]
  constructor
  · rw [List.map_map]
    exact List.map_id _
  · intro h
    simp only [List.length_map, List.length_take, decide_eq_false_iff_not] at h
    omega

/-- Every member that is held on a swept board was held before the sweep. -/
theorem holds_of_sweep {board swept : Board} {nowMs : Int} {dropped : Bool} {q : List String} {w : Json}
    (hsweep : sweepExpired board nowMs = .ok (dropped, swept)) (hholds : (Json.object swept.state).Holds q w) :
    ∃ w, (Json.object board.state).Holds q w := by
  have hback : ∀ w, (Json.object swept.state).Holds q w → ∃ w, (Json.object board.state).Holds q w :=
    sweep_induct (P := fun state => ∀ w, (Json.object state).Holds q w → ∃ w, (Json.object board.state).Holds q w)
      hsweep (fun w hw => ⟨w, hw⟩) fun _ _ _ _ _ _ hs herase w hw => by
        obtain ⟨u, hu⟩ := hw.of_eraseMember herase
        exact hs u hu
  exact hback w hholds

/-- What a listing showed is what can be read: each path it lists is read, with a value of the kind it says,
none is listed twice, and every member is listed unless there are more than were asked for. -/
structure Readable (file : File) (request : BlackboardListKeysRequest) (nowMs : Int) (answer : KeysAnswer) : Prop where
  reads : ∀ item ∈ answer.keys, ∃ value, keyKind value = item.kind ∧
    readValue (step file ⟨.read { board := request.board, path := item.path }, nowMs⟩).1 = some (some value)
  distinct : (answer.keys.map KeyItem.path).Nodup
  complete : answer.truncated = false → ∀ q w, q ≠ [] → (Json.object (boardOf file).state).Holds q w →
    ∃ item ∈ answer.keys, item.path = joinPath q ∧ item.kind = keyKind w

/-- **In a run of calls that bring in plain names only, a listing shows what can be read**, as long as no path
on the board is longer than a path that a read takes. -/
theorem lists_readable (calls : List Call) (request : BlackboardListKeysRequest) (nowMs : Int) (answer : KeysAnswer)
    (hplain : ∀ call ∈ calls, BringsPlain call.operation) (hall : request.within = "")
    (hshort : ∀ q w, (Json.object (boardOf (Run.exec step none calls)).state).Holds q w →
      (joinPath q).length ≤ kBlackboardMaxPathCharacters ∧ q.length ≤ kBlackboardMaxPathSegments)
    (hlisted : listedKeys (step (Run.exec step none calls) ⟨.listKeys request, nowMs⟩).1 = some answer) :
    Readable (step (Run.exec step none calls) ⟨.listKeys request, nowMs⟩).2 request nowMs answer := by
  obtain ⟨file, hfile⟩ : ∃ file, (step (Run.exec step none calls) ⟨.listKeys request, nowMs⟩).2 = file := ⟨_, rfl⟩
  obtain ⟨hboard, hloads, swept, hswept, rfl⟩ := swept_of_listed hall hlisted
  obtain ⟨hkeys, hcomplete⟩ := listSwept_all request swept
  obtain ⟨dropped, hsweep⟩ : ∃ dropped, sweepExpired (boardOf (Run.exec step none calls)) nowMs = .ok (dropped, swept) := by
    rcases hswept with ⟨hsweep, -⟩ | ⟨hsweep, -, -⟩
    · exact ⟨_, hsweep⟩
    · exact ⟨_, hsweep⟩
  have hnamed : PlainBoard swept := plain_of_sweep (plain_of_run hplain) hsweep
  have hkept : Loads file := hfile ▸ step_loads hloads
  rw [hfile] at hswept ⊢
  have hleft : boardOf file = swept := hswept.boardOf
  have hlegal : ∀ e ∈ memberPaths swept.state, LegalPath e.1 := by
    intro e he
    obtain ⟨hne, hholds⟩ := (mem_memberPaths_iff hnamed).mp he
    exact legalPath_of_plain hne (plain_of_holds hnamed hholds)
  refine ⟨fun item hitem => ?_, ?_, fun htruncated q w hq hholds => ?_⟩
  · obtain ⟨e, he, hpath⟩ : ∃ e ∈ memberPaths swept.state, (joinPath e.1, keyKind e.2) = (item.path, item.kind) := by
      have hmem := List.mem_map_of_mem (f := fun item : KeyItem => (item.path, item.kind)) hitem
      rw [hkeys] at hmem
      obtain ⟨e, he, heq⟩ := List.mem_map.mp (List.mem_of_mem_take hmem)
      exact ⟨e, he, heq⟩
    obtain ⟨hjoin, hkind⟩ := Prod.mk.inj hpath
    obtain ⟨-, hholds⟩ := (mem_memberPaths_iff hnamed).mp he
    obtain ⟨w, hw⟩ := holds_of_sweep hsweep hholds
    obtain ⟨hlength, hsegments⟩ := hshort e.1 w hw
    have hsplit := splitOptionalPath_of_split (splitPath_of_legal (hlegal e he) hlength hsegments)
    have hagain : SweptTo file nowMs swept file := by
      refine .inl ⟨?_, rfl⟩
      rw [hleft]
      exact sweepExpired_of_fresh fun k entry hget => fresh_of_sweep hsweep hget
    refine ⟨e.2, hkind, ?_⟩
    rw [← hjoin]
    exact (@readValue_swept { board := request.board, path := joinPath e.1 } _ _ _ _ _ hboard hsplit hkept hagain
      e.2).mpr ⟨e.2, hholds.resolve, rfl⟩
  · have hpaths : (listSwept request "" swept).keys.map KeyItem.path =
        (((memberPaths swept.state).map Prod.fst).map joinPath).take request.maxKeys := by
      have hfst := congrArg (List.map Prod.fst) hkeys
      rw [List.map_map, ← List.map_take, List.map_map] at hfst
      rw [List.map_map, ← List.map_take]
      exact hfst
    rw [hpaths]
    refine List.Nodup.sublist (List.take_sublist _ _) (List.Nodup.map_on ?_ (nodup_memberPaths _ hnamed))
    intro p hp p' hp' he
    obtain ⟨e, hmem, rfl⟩ := List.mem_map.mp hp
    obtain ⟨e', hmem', rfl⟩ := List.mem_map.mp hp'
    exact joinPath_injective (hlegal e hmem) (hlegal e' hmem') he
  · rw [hleft] at hholds
    have hmem := (mem_memberPaths_iff hnamed).mpr ⟨hq, hholds⟩
    have hall : (joinPath q, keyKind w) ∈
        ((memberPaths swept.state).map fun e => (joinPath e.1, keyKind e.2)).take request.maxKeys := by
      rw [List.take_of_length_le (by rw [List.length_map]; exact hcomplete htruncated)]
      exact List.mem_map_of_mem hmem
    rw [← hkeys] at hall
    obtain ⟨item, hitem, he⟩ := List.mem_map.mp hall
    exact ⟨item, hitem, (Prod.mk.inj he).1, (Prod.mk.inj he).2⟩

/-! A member whose name holds a dot is listed at a path that leads elsewhere. -/

def dottedWrite : Call := ⟨.write { path := "x", value := .object [("a.b", .integer 1)] }, 0⟩

theorem not_lists_readable : ¬ ∀ (calls : List Call) (request : BlackboardListKeysRequest) (nowMs : Int)
    (answer : KeysAnswer), request.within = "" →
      listedKeys (step (Run.exec step none calls) ⟨.listKeys request, nowMs⟩).1 = some answer →
        Readable (step (Run.exec step none calls) ⟨.listKeys request, nowMs⟩).2 request nowMs answer := by
  intro h
  have hkeys : (listedKeys (step (Run.exec step none [dottedWrite]) ⟨.listKeys {}, 1⟩).1).map
      (fun answer => answer.keys.map KeyItem.path) = some ["x", "x.a.b"] := by
    decide +kernel
  obtain ⟨answer, hanswer, hpaths⟩ := Option.map_eq_some_iff.mp hkeys
  obtain ⟨item, hitem, hpath⟩ := List.mem_map.mp (show "x.a.b" ∈ answer.keys.map KeyItem.path by simp [hpaths])
  obtain ⟨value, -, hread⟩ := (h [dottedWrite] {} 1 answer rfl hanswer).reads item hitem
  have hnothing : findsValue (step (step (Run.exec step none [dottedWrite]) ⟨.listKeys {}, 1⟩).2
      ⟨.read { path := "x.a.b" }, 1⟩).1 = false := by
    decide +kernel
  rw [hpath] at hread
  have hfound : findsValue (step (step (Run.exec step none [dottedWrite]) ⟨.listKeys {}, 1⟩).2
      ⟨.read { path := "x.a.b" }, 1⟩).1 = true := findsValue_of_readValue hread
  exact absurd (hfound.symm.trans hnothing) (by decide)

theorem lists_readable_nested : ∃ answer,
    listedKeys (step (Run.exec step none [memberWrite]) ⟨.listKeys {}, 1⟩).1 = some answer ∧
      Readable (step (Run.exec step none [memberWrite]) ⟨.listKeys {}, 1⟩).2 {} 1 answer := by
  have hkeys : (listedKeys (step (Run.exec step none [memberWrite]) ⟨.listKeys {}, 1⟩).1).isSome = true := by
    decide +kernel
  obtain ⟨answer, hanswer⟩ := Option.isSome_iff_exists.mp hkeys
  have hplain : ∀ call ∈ [memberWrite], BringsPlain call.operation := by
    intro call hcall
    cases List.mem_singleton.mp hcall
    exact Json.named_object.mpr ⟨List.pairwise_singleton _ _,
      List.forall_mem_singleton.mpr ⟨⟨by decide, List.all_iff_forall_prop.mp (by decide)⟩, trivial⟩⟩
  refine ⟨answer, hanswer, lists_readable [memberWrite] {} 1 answer hplain rfl (fun q w hholds => ?_) hanswer⟩
  by_cases hq : q = []
  · rw [hq]
    decide
  · have hmem := (mem_memberPaths_iff (plain_of_run hplain)).mpr ⟨hq, hholds⟩
    have hpaths : (memberPaths (boardOf (Run.exec step none [memberWrite])).state).map Prod.fst = [["a"], ["a", "b"]] := by
      decide +kernel
    have hq' := List.mem_map_of_mem (f := Prod.fst) hmem
    have hbound : ∀ p ∈ [["a"], ["a", "b"]],
        (joinPath p).length ≤ kBlackboardMaxPathCharacters ∧ p.length ≤ kBlackboardMaxPathSegments := by
      decide
    exact hbound q (hpaths ▸ hq')

end Didi.Blackboard
