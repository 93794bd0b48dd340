import Didi.Lib.OrderedMap
import Didi.Mcp.Results
import Mathlib.Data.List.Induction
import Didi.Lib.Retained

/-!
# The same call failing the same way again

* `errorEnvelopeOf` : the error of a result, if it is a refusal;
* `callKey` : what tells calls apart, their arguments by a hash;
* `RepeatedFailures.observe` : a refusal counted and a success that ends the count, with the call that began first
  forgotten when there are too many;
* `marked` : the count put on a refusal;
* `oldestFirst` : the remembered calls in the order in which their runs of refusals began, read off the queue
  (`runs_eq`);
* `Forgotten`, `forgotten_front` : what is forgotten is the front of the queue;
* `FrontOldest` : the queue has no place of an earlier run at its front;
* `size_observe` : the bound, when a refusal that needs room finds it at the front.

The parser of JSON texts and the hash are parameters. A count is a natural number where the source has an `int`, which it
fits in every run of fewer than 2^31 calls.
-/

namespace Didi.Repeats

/-- A call and the answer to it. -/
structure Call where
  conversation : String
  tool : String
  arguments : Json
  result : CallToolResult

structure Failure where
  code : String := ""
  count : Nat := 0
deriving DecidableEq

structure RepeatedFailures where
  failures : OrderedMap String Failure := ∅
  order : List String := []

def kMaxRemembered : Nat := 256

def kRemedyFields : List String :=
  ["next_call", "retry_with", "field", "argument", "parameter", "missing", "did_you_mean", "restart_with",
    "retry_after_ms", "no_remedy"]

/-! ## Refusals -/

section Parse
variable (parse : String → Option Json)

/-- The members of an item's payload and those of its error. -/
def envelopeIn (item : ContentItem) : Option (JsonObject × JsonObject) :=
  if item.type = "text" then
    match parse item.text with
    | some (.object payload) =>
      match payload.lookup "error" with
      | some (.object error) => if (error.lookup "code").any Json.isNumberInteger then some (payload, error) else none
      | _ => none
    | _ => none
  else none

def errorEnvelopeOf (result : CallToolResult) : Option JsonObject :=
  result.content.findSome? fun item => (envelopeIn parse item).map (·.2)

/-- The members of the data of an error. -/
def dataOf (error : JsonObject) : JsonObject :=
  match error.lookup "data" with
  | some (.object data) => data
  | _ => []

/-- The code of an error, a number of 32 bits. -/
def codeOf (error : JsonObject) : String :=
  match (dataOf error).lookup "code" with
  | some (.string code) => code
  | _ =>
    match error.lookup "code" with
    | some (.integer code) => toString (code.bmod (2 ^ 32))
    | _ => "0"

/-- The field that says what fixes a refusal. -/
def followOf (error : JsonObject) : Option String :=
  kRemedyFields.find? fun field => ((dataOf error).lookup field).isSome

def repeatedNote (count : Nat) (follow : Option String) : Json :=
  let note := "This call has failed the same way " ++ toString count ++
    " times in a row. Sent unchanged it will fail again" ++
    match follow with
    | none => "."
    | some follow => "; do what " ++ follow ++ " says first."
  .object ([("count", .integer count)] ++ (follow.toList.map fun follow => ("follow", .string follow)) ++
    [("note", .string note)])

/-- The items with the count on the first refusal. -/
def markItems (repeated : Json) : List ContentItem → List ContentItem
  | [] => []
  | item :: items =>
    match envelopeIn parse item with
    | some (payload, error) =>
      let data := Json.object ((dataOf error).insertKey "repeated" repeated)
      { item with text := (Json.object (payload.insertKey "error" (.object (error.insertKey "data" data)))).dump } :: items
    | none => item :: markItems repeated items

/-- A refusal that is the `count`th in a row. -/
def marked (error : JsonObject) (count : Nat) (result : CallToolResult) : CallToolResult :=
  if count < 2 then result
  else { result with content := markItems parse (repeatedNote count (followOf error)) result.content }

end Parse

/-! ## Calls -/

/-- The arguments of a call, less the token that is new on every attempt. -/
def sentArguments (call : Call) : Json :=
  match call.arguments with
  | .object members => .object (members.eraseKey "confirmation_token")
  | _ => .object []

def callKey (hash : String → Nat) (call : Call) : String :=
  call.conversation ++ "\n" ++ call.tool ++ "\n" ++ toString (hash (sentArguments call).dump)

namespace RepeatedFailures

/-- The call at the front of the order is forgotten when there are too many. -/
def makeRoom (memory : RepeatedFailures) : RepeatedFailures :=
  match memory.order with
  | front :: rest =>
    if kMaxRemembered ≤ memory.failures.size then ⟨memory.failures.erase front, rest⟩ else memory
  | [] => memory

/-- The order without the calls that are not remembered, once it is long. -/
def compact (memory : RepeatedFailures) : RepeatedFailures :=
  if 4 * kMaxRemembered ≤ memory.order.length then
    { memory with order := memory.order.filter memory.failures.contains }
  else memory

/-- A refusal of a call that is not remembered enters it. -/
def enter (memory : RepeatedFailures) (key : String) : RepeatedFailures :=
  if memory.failures.contains key then memory
  else
    let memory := memory.makeRoom.compact
    ⟨memory.failures.insert key {}, memory.order ++ [key]⟩

def nextFailure (failure : Failure) (code : String) : Failure :=
  ⟨code, if failure.code = code then failure.count + 1 else 1⟩

def observe (hash : String → Nat) (parse : String → Option Json) (memory : RepeatedFailures) (call : Call) :
    RepeatedFailures × CallToolResult :=
  let key := callKey hash call
  match errorEnvelopeOf parse call.result with
  | none => ({ memory with failures := memory.failures.erase key }, call.result)
  | some envelope =>
    let memory := memory.enter key
    let failure := nextFailure ((memory.failures.get key).getD {}) (codeOf envelope)
    ({ memory with failures := memory.failures.insert key failure }, marked parse envelope failure.count call.result)

/-- The memory after calls were answered. -/
def run (hash : String → Nat) (parse : String → Option Json) (calls : List Call) : RepeatedFailures :=
  calls.foldl (fun memory call => (observe hash parse memory call).1) {}

end RepeatedFailures

/-! ## Which refusals are remembered -/

open RepeatedFailures

variable {hash : String → Nat} {parse : String → Option Json} {memory : RepeatedFailures} {key k : String} {call : Call}

/-- The remembered calls by the last place that each has in the queue. -/
def oldestFirst (memory : RepeatedFailures) : List String := memory.order.dedup.filter memory.failures.contains

/-- Every remembered call is in the queue. -/
def Queued (memory : RepeatedFailures) : Prop := ∀ key, memory.failures.contains key = true → key ∈ memory.order

/-- The remembered calls in the order in which their runs began: those that still are, and the one whose run begins. -/
def runsAfter (before after : RepeatedFailures) (key : String) (runs : List String) : List String :=
  runs.filter after.failures.contains ++
    if before.failures.contains key = false ∧ after.failures.contains key = true then [key] else []

def runsFrom (hash : String → Nat) (parse : String → Option Json) :
    RepeatedFailures → List String → List Call → List String
  | _, runs, [] => runs
  | memory, runs, call :: calls =>
    runsFrom hash parse (observe hash parse memory call).1
      (runsAfter memory (observe hash parse memory call).1 (callKey hash call) runs) calls

/-- The remembered calls after a sequence of calls, the one whose run began first at the front. -/
def runs (hash : String → Nat) (parse : String → Option Json) (calls : List Call) : List String :=
  runsFrom hash parse {} [] calls

/-- A call other than the one that is answered is forgotten. -/
def Forgotten (hash : String → Nat) (parse : String → Option Json) (memory : RepeatedFailures) (call : Call)
    (key : String) : Prop :=
  memory.failures.contains key = true ∧ (observe hash parse memory call).1.failures.contains key = false ∧
    key ≠ callKey hash call

/-- The front of the queue is remembered, and every other remembered call is behind its last place. -/
def FrontOldest (memory : RepeatedFailures) : Prop :=
  ∃ front before behind, memory.order.head? = some front ∧ memory.order = before ++ front :: behind ∧ front ∉ behind ∧
    memory.failures.contains front = true ∧ ∀ key, memory.failures.contains key = true → key ≠ front → key ∈ behind

/-- A refusal that needs room finds it at the front of the queue. -/
def HasRoom (hash : String → Nat) (parse : String → Option Json) (memory : RepeatedFailures) (call : Call) : Prop :=
  (errorEnvelopeOf parse call.result).isSome → memory.failures.contains (callKey hash call) = false →
    kMaxRemembered ≤ memory.failures.size → FrontOldest memory

/-! ## The queue -/

theorem size_eq (h : Queued memory) : memory.failures.size = (oldestFirst memory).length := by
  have hkeys : memory.failures.keys.Nodup := by
    have hsorted := memory.failures.sorted
    exact List.pairwise_map.mpr (hsorted.imp fun hlt => hlt.ne)
  have hperm : memory.failures.keys.Perm (oldestFirst memory) := by
    unfold oldestFirst
    refine (List.perm_ext_iff_of_nodup hkeys (List.Nodup.filter _ (List.nodup_dedup _))).mpr fun key => ?_
    rw [OrderedMap.mem_keys, ← OrderedMap.contains_iff, List.mem_filter, List.mem_dedup]
    exact ⟨fun hkey => ⟨h key hkey, hkey⟩, fun hkey => hkey.2⟩
  rw [← hperm.length_eq, OrderedMap.keys, List.length_map]
  rfl

/-- Calls that are dropped from the memory alone are dropped from the order of runs. -/
theorem oldestFirst_of_order {after : RepeatedFailures} (horder : after.order = memory.order)
    (h : ∀ k, after.failures.contains k = true → memory.failures.contains k = true) :
    oldestFirst after = (oldestFirst memory).filter after.failures.contains := by
  rw [oldestFirst, oldestFirst, horder, List.filter_filter]
  refine List.filter_congr fun k _ => ?_
  cases hk : after.failures.contains k with
  | true => rw [h k hk, Bool.and_self]
  | false => rw [Bool.false_and]

theorem contains_erase (failures : OrderedMap String Failure) (key k : String) :
    (failures.erase key).contains k = (decide (k ≠ key) && failures.contains k) := by
  unfold OrderedMap.contains
  rw [OrderedMap.get_erase]
  by_cases hk : k = key
  · rw [if_pos hk]
    simp [hk]
  · rw [if_neg hk]
    simp [hk]

theorem contains_insert (failures : OrderedMap String Failure) (key k : String) (failure : Failure) :
    (failures.insert key failure).contains k = (decide (k = key) || failures.contains k) := by
  unfold OrderedMap.contains
  rw [OrderedMap.get_insert]
  by_cases hk : k = key
  · rw [if_pos hk]
    simp [hk]
  · rw [if_neg hk]
    simp [hk]

/-! ### Room -/

theorem makeRoom_cases (memory : RepeatedFailures) :
    (memory.makeRoom = memory ∧ (memory.failures.size < kMaxRemembered ∨ memory.order = [])) ∨
      ∃ front rest, memory.order = front :: rest ∧ kMaxRemembered ≤ memory.failures.size ∧
        memory.makeRoom = ⟨memory.failures.erase front, rest⟩ := by
  unfold makeRoom
  cases horder : memory.order with
  | nil => exact .inl ⟨rfl, .inr rfl⟩
  | cons front rest =>
    dsimp only
    split_ifs with hsize
    · exact .inr ⟨front, rest, rfl, hsize, rfl⟩
    · exact .inl ⟨rfl, .inl (Nat.lt_of_not_le hsize)⟩

theorem get_makeRoom (memory : RepeatedFailures) (k : String) :
    memory.makeRoom.failures.get k = memory.failures.get k ∨ memory.makeRoom.failures.get k = none := by
  rcases makeRoom_cases memory with ⟨hsame, -⟩ | ⟨front, rest, -, -, hroom⟩
  · rw [hsame]
    exact .inl rfl
  · rw [hroom]
    dsimp only
    rw [OrderedMap.get_erase]
    split_ifs
    · exact .inr rfl
    · exact .inl rfl

theorem contains_of_makeRoom (h : memory.makeRoom.failures.contains k = true) : memory.failures.contains k = true := by
  unfold OrderedMap.contains at h ⊢
  rcases get_makeRoom memory k with hsame | hnone
  · rwa [hsame] at h
  · rw [hnone] at h
    cases h

theorem oldestFirst_makeRoom (memory : RepeatedFailures) :
    oldestFirst memory.makeRoom = (oldestFirst memory).filter memory.makeRoom.failures.contains := by
  rcases makeRoom_cases memory with ⟨hsame, -⟩ | ⟨front, rest, horder, -, hroom⟩
  · rw [hsame]
    exact oldestFirst_of_order rfl fun k hk => hk
  · have hsub : ∀ k, (memory.failures.erase front).contains k = true → memory.failures.contains k = true := by
      intro k hk
      rw [contains_erase, Bool.and_eq_true] at hk
      exact hk.2
    have hfilter := @oldestFirst_of_order memory ⟨memory.failures.erase front, memory.order⟩ rfl hsub
    rw [hroom]
    dsimp only
    rw [← hfilter, oldestFirst, oldestFirst]
    dsimp only
    rw [horder]
    -- the front is not remembered any more, wherever else it stands
    refine (@List.filter_dedup_append _ _ _ [front] rest fun a ha hp => ?_).symm
    cases List.mem_singleton.mp ha
    rw [contains_erase] at hp
    simp at hp

theorem queued_makeRoom (h : Queued memory) : Queued memory.makeRoom := by
  intro k hk
  have hmem := h k (contains_of_makeRoom hk)
  rcases makeRoom_cases memory with ⟨hsame, -⟩ | ⟨front, rest, horder, -, hroom⟩
  · rwa [hsame]
  · rw [hroom] at hk ⊢
    dsimp only at hk ⊢
    rw [contains_erase, Bool.and_eq_true, decide_eq_true_eq] at hk
    rw [horder] at hmem
    exact (List.mem_cons.mp hmem).resolve_left hk.1

theorem compact_failures (memory : RepeatedFailures) : memory.compact.failures = memory.failures := by
  unfold compact
  split_ifs <;> rfl

theorem oldestFirst_compact (memory : RepeatedFailures) : oldestFirst memory.compact = oldestFirst memory := by
  unfold compact
  split_ifs
  · unfold oldestFirst
    dsimp only
    rw [List.dedup_filter, List.filter_filter]
    simp only [Bool.and_self]
  · rfl

theorem queued_compact (h : Queued memory) : Queued memory.compact := by
  unfold compact
  split_ifs
  · exact fun k hk => List.mem_filter.mpr ⟨h k hk, hk⟩
  · exact h

/-! ### A run that begins -/

section Enter
variable (hnew : memory.failures.contains key = false)
include hnew

theorem enter_eq : memory.enter key =
    ⟨memory.makeRoom.failures.insert key {}, memory.makeRoom.compact.order ++ [key]⟩ := by
  unfold enter
  rw [if_neg (by rw [hnew]; exact Bool.false_ne_true)]
  dsimp only
  rw [compact_failures]

theorem oldestFirst_enter : oldestFirst (memory.enter key) =
    (oldestFirst memory).filter memory.makeRoom.failures.contains ++ [key] := by
  have hnot : memory.makeRoom.failures.contains key = false := by
    rw [← Bool.not_eq_true]
    intro hcontains
    rw [contains_of_makeRoom hcontains] at hnew
    cases hnew
  have hroom : oldestFirst memory.makeRoom =
      memory.makeRoom.compact.order.dedup.filter memory.makeRoom.failures.contains := by
    rw [← oldestFirst_compact, oldestFirst, compact_failures]
  rw [← oldestFirst_makeRoom, hroom, enter_eq hnew, oldestFirst]
  dsimp only
  rw [List.dedup_concat, List.filter_append, List.filter_filter]
  congr 1
  · refine List.filter_congr fun k _ => ?_
    rw [contains_insert]
    by_cases hk : k = key
    · subst hk
      simp [hnot]
    · simp [hk]
  · rw [List.filter_cons_of_pos (by rw [contains_insert]; simp), List.filter_nil]

theorem queued_enter (h : Queued memory) : Queued (memory.enter key) := by
  intro k hk
  rw [enter_eq hnew] at hk ⊢
  dsimp only at hk ⊢
  rw [contains_insert, Bool.or_eq_true, decide_eq_true_eq] at hk
  rcases hk with rfl | hk
  · exact List.mem_append_right _ List.mem_cons_self
  · refine List.mem_append_left _ (queued_compact (queued_makeRoom h) k ?_)
    rwa [compact_failures]

end Enter

/-! ### One answer -/

theorem observe_success (h : errorEnvelopeOf parse call.result = none) :
    observe hash parse memory call = ({ memory with failures := memory.failures.erase (callKey hash call) },
      call.result) := by
  unfold observe
  dsimp only
  rw [h]

theorem observe_refusal {error : JsonObject} (h : errorEnvelopeOf parse call.result = some error) :
    observe hash parse memory call =
      ({ memory.enter (callKey hash call) with
          failures := (memory.enter (callKey hash call)).failures.insert (callKey hash call)
            (nextFailure (((memory.enter (callKey hash call)).failures.get (callKey hash call)).getD {}) (codeOf error)) },
        marked parse error
          (nextFailure (((memory.enter (callKey hash call)).failures.get (callKey hash call)).getD {}) (codeOf error)).count
          call.result) := by
  unfold observe
  dsimp only
  rw [h]

theorem contains_enter_self (memory : RepeatedFailures) (key : String) :
    (memory.enter key).failures.contains key = true := by
  cases hkey : memory.failures.contains key with
  | true =>
    unfold enter
    rw [if_pos hkey]
    exact hkey
  | false =>
    rw [enter_eq hkey]
    dsimp only
    rw [contains_insert]
    simp

/-- A refusal remembers the calls that it enters with, and itself. -/
theorem contains_refusal {error : JsonObject} (h : errorEnvelopeOf parse call.result = some error) (k : String) :
    (observe hash parse memory call).1.failures.contains k = (memory.enter (callKey hash call)).failures.contains k := by
  rw [observe_refusal h]
  dsimp only
  rw [contains_insert]
  by_cases hk : k = callKey hash call
  · subst hk
    rw [contains_enter_self]
    simp
  · simp [hk]

theorem oldestFirst_refusal {error : JsonObject} (h : errorEnvelopeOf parse call.result = some error) :
    oldestFirst (observe hash parse memory call).1 = oldestFirst (memory.enter (callKey hash call)) := by
  have hcontains := fun k => @contains_refusal hash parse memory call error h k
  have horder : (observe hash parse memory call).1.order = (memory.enter (callKey hash call)).order := by
    rw [observe_refusal h]
  unfold oldestFirst
  rw [horder]
  exact List.filter_congr fun k _ => hcontains k

/-- What the queue says of the order of the runs follows what becomes of them. -/
theorem oldestFirst_observe (memory : RepeatedFailures) (call : Call) :
    oldestFirst (observe hash parse memory call).1 =
      runsAfter memory (observe hash parse memory call).1 (callKey hash call) (oldestFirst memory) := by
  unfold runsAfter
  cases herror : errorEnvelopeOf parse call.result with
  | none =>
    have hsub : ∀ k, (memory.failures.erase (callKey hash call)).contains k = true → memory.failures.contains k = true := by
      intro k hk
      rw [contains_erase, Bool.and_eq_true] at hk
      exact hk.2
    rw [observe_success herror, if_neg, List.append_nil]
    · exact oldestFirst_of_order rfl hsub
    · rintro ⟨-, hkey⟩
      rw [contains_erase] at hkey
      simp at hkey
  | some error =>
    rw [oldestFirst_refusal herror, contains_refusal herror, contains_enter_self]
    have hcongr : (oldestFirst memory).filter (observe hash parse memory call).1.failures.contains =
        (oldestFirst memory).filter (memory.enter (callKey hash call)).failures.contains :=
      List.filter_congr fun k _ => contains_refusal herror k
    rw [hcongr]
    cases hkey : memory.failures.contains (callKey hash call) with
    | true =>
      rw [if_neg (by simp), List.append_nil]
      unfold enter
      rw [if_pos hkey]
      exact oldestFirst_of_order rfl fun k hk => hk
    | false =>
      rw [if_pos ⟨rfl, rfl⟩, oldestFirst_enter hkey]
      congr 1
      refine List.filter_congr fun k hk => ?_
      have hlive : memory.failures.contains k = true := (List.mem_filter.mp hk).2
      have hne : k ≠ callKey hash call := by
        rintro rfl
        rw [hlive] at hkey
        cases hkey
      rw [enter_eq hkey]
      dsimp only
      rw [contains_insert, decide_eq_false hne, Bool.false_or]

theorem queued_observe (h : Queued memory) (call : Call) : Queued (observe hash parse memory call).1 := by
  cases herror : errorEnvelopeOf parse call.result with
  | none =>
    intro k hk
    rw [observe_success herror] at hk ⊢
    dsimp only at hk ⊢
    rw [contains_erase, Bool.and_eq_true] at hk
    exact h k hk.2
  | some error =>
    intro k hk
    rw [contains_refusal herror] at hk
    have horder : (observe hash parse memory call).1.order = (memory.enter (callKey hash call)).order := by
      rw [observe_refusal herror]
    rw [horder]
    cases hkey : memory.failures.contains (callKey hash call) with
    | true =>
      unfold enter at hk ⊢
      rw [if_pos hkey] at hk ⊢
      exact h k hk
    | false => exact queued_enter hkey h k hk

theorem queued_run (calls : List Call) : Queued (run hash parse calls) := by
  induction calls using List.reverseRecOn with
  | nil =>
    intro k hk
    cases hk
  | append_singleton calls call ih =>
    unfold run at ih ⊢
    rw [List.foldl_append, List.foldl_cons, List.foldl_nil]
    exact queued_observe ih call

theorem runsFrom_eq (memory : RepeatedFailures) (calls : List Call) :
    runsFrom hash parse memory (oldestFirst memory) calls =
      oldestFirst (calls.foldl (fun memory call => (observe hash parse memory call).1) memory) := by
  induction calls generalizing memory with
  | nil => rfl
  | cons call calls ih => rw [runsFrom, ← oldestFirst_observe, ih, List.foldl_cons]

/-- The queue says in which order the runs began. -/
theorem runs_eq (calls : List Call) : runs hash parse calls = oldestFirst (run hash parse calls) :=
  runsFrom_eq {} calls

/-! ## Room at the front -/

theorem head?_of_frontOldest (h : FrontOldest memory) : (oldestFirst memory).head? = memory.order.head? ∧
    ∃ front rest, memory.order = front :: rest ∧ memory.failures.contains front = true := by
  obtain ⟨front, before, behind, hhead, horder, hnot, hlive, hbehind⟩ := h
  have hfilter : oldestFirst memory = (front :: behind).dedup.filter memory.failures.contains := by
    rw [oldestFirst, horder]
    refine List.filter_dedup_append fun key _ hkey => ?_
    by_cases heq : key = front
    · exact heq ▸ List.mem_cons_self
    · exact List.mem_cons_of_mem _ (hbehind key hkey heq)
  constructor
  · rw [hfilter, List.dedup_cons_of_notMem hnot, List.filter_cons_of_pos hlive, hhead]
    rfl
  · cases hlist : memory.order with
    | nil =>
      rw [hlist] at hhead
      cases hhead
    | cons first rest =>
      rw [hlist] at hhead
      cases hhead
      exact ⟨_, rest, rfl, hlive⟩

/-- What is forgotten is the front of the queue, to make room for a refusal. -/
theorem forgotten_front (h : Forgotten hash parse memory call k) :
    (errorEnvelopeOf parse call.result).isSome ∧ memory.failures.contains (callKey hash call) = false ∧
      kMaxRemembered ≤ memory.failures.size ∧ memory.order.head? = some k := by
  obtain ⟨hbefore, hafter, hne⟩ := h
  cases herror : errorEnvelopeOf parse call.result with
  | none =>
    rw [observe_success herror] at hafter
    dsimp only at hafter
    rw [contains_erase, hbefore] at hafter
    simp [hne] at hafter
  | some error =>
    rw [contains_refusal herror] at hafter
    cases hkey : memory.failures.contains (callKey hash call) with
    | true =>
      unfold enter at hafter
      rw [if_pos hkey, hbefore] at hafter
      cases hafter
    | false =>
      rw [enter_eq hkey] at hafter
      dsimp only at hafter
      rw [contains_insert, decide_eq_false hne, Bool.false_or] at hafter
      rcases makeRoom_cases memory with ⟨hsame, -⟩ | ⟨front, rest, horder, hsize, hroom⟩
      · rw [hsame, hbefore] at hafter
        cases hafter
      · rw [hroom] at hafter
        dsimp only at hafter
        rw [contains_erase, hbefore, Bool.and_true, decide_eq_false_iff_not, not_not] at hafter
        refine ⟨rfl, rfl, hsize, ?_⟩
        rw [horder, hafter]
        rfl

theorem size_observe (hqueued : Queued memory) (hsize : memory.failures.size ≤ kMaxRemembered)
    (hroom : HasRoom hash parse memory call) :
    (observe hash parse memory call).1.failures.size ≤ kMaxRemembered := by
  rw [size_eq (queued_observe hqueued call), oldestFirst_observe]
  rw [size_eq hqueued] at hsize
  unfold runsAfter
  split_ifs with hbegins
  · obtain ⟨hnew, hkey⟩ := hbegins
    rw [List.length_append, List.length_singleton]
    by_cases hfull : kMaxRemembered ≤ memory.failures.size
    · -- the front is dropped
      have herror : (errorEnvelopeOf parse call.result).isSome := by
        cases herror : errorEnvelopeOf parse call.result with
        | none =>
          rw [observe_success herror, contains_erase] at hkey
          simp at hkey
        | some error => rfl
      have hfront := hroom herror hnew hfull
      obtain ⟨hhead, front, rest, horder, hlive⟩ := head?_of_frontOldest hfront
      have hgone : (observe hash parse memory call).1.failures.contains front = false := by
        obtain ⟨error, herror⟩ := Option.isSome_iff_exists.mp herror
        have hne : front ≠ callKey hash call := by
          rintro rfl
          rw [hlive] at hnew
          cases hnew
        rw [contains_refusal herror, enter_eq hnew]
        dsimp only
        rw [contains_insert, decide_eq_false hne, Bool.false_or, makeRoom, horder]
        dsimp only
        rw [if_pos hfull, contains_erase]
        simp
      have hmem : front ∈ oldestFirst memory := by
        refine List.mem_of_head? ?_
        rw [hhead, horder]
        rfl
      have hless : ((oldestFirst memory).filter (observe hash parse memory call).1.failures.contains).length <
          (oldestFirst memory).length :=
        List.length_filter_lt_length_iff_exists.mpr ⟨front, hmem, by simp [hgone]⟩
      omega
    · have hless : ((oldestFirst memory).filter (observe hash parse memory call).1.failures.contains).length ≤
          (oldestFirst memory).length := List.length_filter_le _ _
      rw [size_eq hqueued] at hfull
      omega
  · rw [List.append_nil]
    exact (List.length_filter_le _ _).trans hsize

end Didi.Repeats
