import Didi.Mcp.Repeats

/-!
# How often a call was refused in a row

* `streak` : the refusals with one code at the end of the answers to a call;
* `count_le` : the counts, which the source keeps in an `int`, in fewer than 2^31 calls;
* `get_run` : what is remembered of a call as long as nothing is forgotten;
* `remembers_of_room` : the bound, what is forgotten and the counts in every sequence of calls.
-/

namespace Didi.Repeats
open RepeatedFailures

variable {hash : String → Nat} {parse : String → Option Json} {call other : Call}

/-- The calls are of one conversation and tool, with the same arguments. -/
def sameCall (a b : Call) : Bool :=
  a.conversation = b.conversation && a.tool = b.tool && (sentArguments a).dump = (sentArguments b).dump

def refusalCode (parse : String → Option Json) (call : Call) : Option String :=
  (errorEnvelopeOf parse call.result).map codeOf

/-- How many of the last answers to a call are refusals with a code. -/
def streak (parse : String → Option Json) (calls : List Call) (call : Call) (code : String) : Nat :=
  ((calls.filter (sameCall call)).reverse.takeWhile fun c => refusalCode parse c = some code).length

/-- No two calls that differ have one key. -/
def NoCollision (hash : String → Nat) (calls : List Call) : Prop :=
  ∀ a ∈ calls, ∀ b ∈ calls, callKey hash a = callKey hash b → sameCall a b = true

/-- No call was forgotten to make room for another. -/
def NothingForgotten (hash : String → Nat) (parse : String → Option Json) (calls : List Call) : Prop :=
  ∀ before call after key, calls = before ++ call :: after → ¬ Forgotten hash parse (run hash parse before) call key

/-- What holds of the answer to a call after others. -/
structure Remembers (hash : String → Nat) (parse : String → Option Json) (before : List Call) (call : Call) : Prop where
  bounded : (run hash parse (before ++ [call])).failures.size ≤ kMaxRemembered
  oldest : ∀ key, Forgotten hash parse (run hash parse before) call key → (runs hash parse before).head? = some key
  counted : NoCollision hash (before ++ [call]) → NothingForgotten hash parse before →
    ∀ error, errorEnvelopeOf parse call.result = some error →
      (observe hash parse (run hash parse before) call).2 =
        marked parse error (streak parse (before ++ [call]) call (codeOf error)) call.result

/-! ## Counts -/

theorem callKey_of_sameCall (h : sameCall call other = true) : callKey hash call = callKey hash other := by
  unfold sameCall at h
  rw [Bool.and_eq_true, Bool.and_eq_true, decide_eq_true_eq, decide_eq_true_eq, decide_eq_true_eq] at h
  obtain ⟨⟨hconversation, htool⟩, harguments⟩ := h
  unfold callKey
  rw [hconversation, htool, harguments]

theorem sameCall_self (call : Call) : sameCall call call = true := by
  simp [sameCall]

theorem streak_concat (calls : List Call) (h : sameCall call other = true) (code : String) :
    streak parse (calls ++ [other]) call code =
      if refusalCode parse other = some code then streak parse calls call code + 1 else 0 := by
  unfold streak
  rw [List.filter_append, List.filter_cons_of_pos h, List.filter_nil, List.reverse_append, List.reverse_singleton,
    List.singleton_append]
  split_ifs with hcode
  · rw [List.takeWhile_cons_of_pos (by simpa using hcode), List.length_cons]
  · rw [List.takeWhile_cons_of_neg (by simpa using hcode), List.length_nil]

theorem streak_concat_of_ne (calls : List Call) (h : sameCall call other = false) (code : String) :
    streak parse (calls ++ [other]) call code = streak parse calls call code := by
  unfold streak
  rw [List.filter_append, List.filter_cons_of_neg (by simp [h]), List.filter_nil, List.append_nil]

/-- What is remembered of a call whose last answer is known. -/
def expected (parse : String → Option Json) (calls : List Call) (call : Call) : Option Failure :=
  ((calls.filter (sameCall call)).getLast?.bind (refusalCode parse)).map fun code =>
    ⟨code, streak parse calls call code⟩

theorem expected_concat (calls : List Call) (h : sameCall call other = true) :
    expected parse (calls ++ [other]) call =
      (refusalCode parse other).map fun code => ⟨code, streak parse calls call code + 1⟩ := by
  unfold expected
  rw [List.filter_append, List.filter_cons_of_pos h, List.filter_nil, List.getLast?_concat, Option.bind_some]
  cases hcode : refusalCode parse other with
  | none => rfl
  | some code => rw [Option.map_some, Option.map_some, streak_concat calls h, if_pos hcode]

theorem expected_concat_of_ne (calls : List Call) (h : sameCall call other = false) :
    expected parse (calls ++ [other]) call = expected parse calls call := by
  unfold expected
  rw [List.filter_append, List.filter_cons_of_neg (by simp [h]), List.filter_nil, List.append_nil]
  cases (calls.filter (sameCall call)).getLast?.bind (refusalCode parse) with
  | none => rfl
  | some code => rw [Option.map_some, Option.map_some, streak_concat_of_ne calls h]

/-- A refusal counts on from what is remembered. -/
theorem nextFailure_expected (calls : List Call) (call : Call) (code : String) :
    nextFailure ((expected parse calls call).getD {}) code = ⟨code, streak parse calls call code + 1⟩ := by
  have hstreak : ∀ last, (calls.filter (sameCall call)).getLast? = some last → refusalCode parse last ≠ some code →
      streak parse calls call code = 0 := by
    intro last hlast hne
    unfold streak
    obtain ⟨before, hbefore⟩ := List.getLast?_eq_some_iff.mp hlast
    rw [hbefore, List.reverse_append, List.reverse_singleton, List.singleton_append,
      List.takeWhile_cons_of_neg (by simpa using hne), List.length_nil]
  unfold expected nextFailure
  cases hlast : (calls.filter (sameCall call)).getLast? with
  | none =>
    have hzero : streak parse calls call code = 0 := by
      unfold streak
      rw [List.getLast?_eq_none_iff.mp hlast]
      rfl
    rw [hzero]
    simp
  | some last =>
    rw [Option.bind_some]
    cases hcode : refusalCode parse last with
    | none =>
      rw [hstreak last hlast (by simp [hcode])]
      simp
    | some found =>
      rw [Option.map_some, Option.getD_some]
      dsimp only
      by_cases heq : found = code
      · rw [if_pos heq, heq]
      · rw [if_neg heq, hstreak last hlast (by simp [hcode, heq])]

/-! ## What is remembered -/

theorem run_concat (calls : List Call) (call : Call) :
    run hash parse (calls ++ [call]) = (observe hash parse (run hash parse calls) call).1 := by
  unfold run
  rw [List.foldl_append, List.foldl_cons, List.foldl_nil]

variable {memory : RepeatedFailures}

theorem get_enter_self (memory : RepeatedFailures) (key : String) :
    ((memory.enter key).failures.get key).getD {} = (memory.failures.get key).getD {} := by
  unfold enter
  split_ifs with hkey
  · rfl
  · rw [Bool.not_eq_true, OrderedMap.contains_eq_false] at hkey
    dsimp only
    rw [OrderedMap.get_insert_self, hkey]
    rfl

/-- What is remembered under another key stays, or is dropped. -/
theorem get_observe (memory : RepeatedFailures) {key : String} (hne : key ≠ callKey hash call) :
    (observe hash parse memory call).1.failures.get key = memory.failures.get key ∨
      (observe hash parse memory call).1.failures.get key = none := by
  cases herror : errorEnvelopeOf parse call.result with
  | none =>
    rw [observe_success herror]
    dsimp only
    rw [OrderedMap.get_erase, if_neg hne]
    exact .inl rfl
  | some error =>
    rw [observe_refusal herror]
    dsimp only
    rw [OrderedMap.get_insert_of_ne _ _ hne]
    unfold enter
    split_ifs
    · exact .inl rfl
    · dsimp only
      rw [OrderedMap.get_insert_of_ne _ _ hne, compact_failures]
      exact get_makeRoom memory _

/-- Another call is remembered as before, or forgotten. -/
theorem get_observe_of_ne (hne : callKey hash other ≠ callKey hash call)
    (h : ¬ Forgotten hash parse memory call (callKey hash other)) :
    (observe hash parse memory call).1.failures.get (callKey hash other) = memory.failures.get (callKey hash other) := by
  rcases @get_observe hash parse call memory _ hne with hsame | hnone
  · exact hsame
  · cases hold : memory.failures.get (callKey hash other) with
    | none => exact hnone
    | some failure =>
      refine absurd ⟨?_, ?_, hne⟩ h
      · exact OrderedMap.contains_iff.mpr ⟨failure, hold⟩
      · exact OrderedMap.contains_eq_false.mpr hnone

/-- A count is at most the number of calls, so the `int` that holds it does not overflow in fewer than 2^31 of them. -/
theorem count_le (calls : List Call) {key : String} {failure : Failure}
    (h : (run hash parse calls).failures.get key = some failure) : failure.count ≤ calls.length := by
  induction calls using List.reverseRecOn generalizing key failure with
  | nil => cases h
  | append_singleton calls call ih =>
    rw [List.length_append, List.length_singleton]
    rw [run_concat] at h
    by_cases hkey : key = callKey hash call
    · have hbefore : (((run hash parse calls).failures.get key).getD {}).count ≤ calls.length := by
        cases hget : (run hash parse calls).failures.get key with
        | none => exact Nat.zero_le _
        | some before => exact ih hget
      rw [hkey] at h hbefore
      cases herror : errorEnvelopeOf parse call.result with
      | none =>
        rw [observe_success herror] at h
        dsimp only at h
        rw [OrderedMap.get_erase, if_pos rfl] at h
        cases h
      | some error =>
        rw [observe_refusal herror] at h
        dsimp only at h
        rw [OrderedMap.get_insert_self, get_enter_self] at h
        rw [← Option.some.inj h, nextFailure]
        dsimp only
        split_ifs <;> omega
    · rcases @get_observe hash parse call (run hash parse calls) key hkey with hsame | hnone
      · exact (ih (hsame ▸ h)).trans (Nat.le_succ _)
      · rw [hnone] at h
        cases h

/-- As long as nothing is forgotten, every call is remembered with its last refusals. -/
theorem get_run (all : List Call) (hcollision : NoCollision hash all) (calls : List Call) (hcalls : ∀ c ∈ calls, c ∈ all)
    (hforgotten : NothingForgotten hash parse calls) :
    ∀ c ∈ all, (run hash parse calls).failures.get (callKey hash c) = expected parse calls c := by
  induction calls using List.reverseRecOn with
  | nil => exact fun c _ => rfl
  | append_singleton calls call ih =>
    intro c hc
    have hcall : call ∈ all := hcalls call (List.mem_append_right _ List.mem_cons_self)
    have hbefore := ih (fun d hd => hcalls d (List.mem_append_left _ hd)) fun before d after key heq =>
      hforgotten before d (after ++ [call]) key (by rw [heq, List.append_assoc, List.cons_append])
    have hkept : ∀ key, ¬ Forgotten hash parse (run hash parse calls) call key := fun key =>
      hforgotten calls call [] key rfl
    rw [run_concat]
    cases hsame : sameCall c call with
    | false =>
      have hne : callKey hash c ≠ callKey hash call := by
        intro heq
        rw [hcollision c hc call hcall heq] at hsame
        cases hsame
      rw [get_observe_of_ne hne (hkept _), expected_concat_of_ne calls hsame, hbefore c hc]
    | true =>
      rw [expected_concat calls hsame, callKey_of_sameCall hsame]
      cases herror : errorEnvelopeOf parse call.result with
      | none =>
        rw [observe_success herror, refusalCode, herror]
        dsimp only
        rw [OrderedMap.get_erase, if_pos rfl]
        rfl
      | some error =>
        rw [observe_refusal herror, refusalCode, herror]
        dsimp only
        rw [OrderedMap.get_insert_self, get_enter_self, ← callKey_of_sameCall hsame, hbefore c hc, nextFailure_expected]
        rfl

/-- **As long as a refusal that needs room finds the call whose run is the oldest at the front of the queue, the memory
is bounded and forgets that call; and refusals are counted until a call is forgotten.** -/
theorem remembers_of_room (calls : List Call) (h : ∀ before call after, calls = before ++ call :: after →
    HasRoom hash parse (run hash parse before) call) :
    ∀ before call after, calls = before ++ call :: after → Remembers hash parse before call := by
  have hsize : ∀ before after, calls = before ++ after → (run hash parse before).failures.size ≤ kMaxRemembered := by
    intro before
    induction before using List.reverseRecOn with
    | nil => exact fun _ _ => Nat.zero_le _
    | append_singleton before call ih =>
      intro after heq
      rw [List.append_assoc, List.singleton_append] at heq
      rw [run_concat]
      exact size_observe (queued_run before) (ih _ heq) (h before call after heq)
  intro before call after heq
  refine ⟨?_, ?_, ?_⟩
  · exact hsize (before ++ [call]) after (by rw [heq, List.append_assoc, List.singleton_append])
  · intro key hforgotten
    obtain ⟨herror, hnew, hfull, hfront⟩ := forgotten_front hforgotten
    rw [runs_eq, (head?_of_frontOldest (h before call after heq herror hnew hfull)).1, hfront]
  · intro hcollision hforgotten error herror
    have hlast : call ∈ before ++ [call] := List.mem_append_right _ List.mem_cons_self
    have hget := get_run (before ++ [call]) hcollision before (fun c hc => List.mem_append_left _ hc) hforgotten call hlast
    rw [observe_refusal herror]
    dsimp only
    rw [get_enter_self, hget, nextFailure_expected, streak_concat before (sameCall_self call), refusalCode, herror,
      Option.map_some, if_pos rfl]

/-! ## One place too many -/

def sampleRefusal : String := "\x7b\"error\":\x7b\"code\":404\x7d\x7d"

def sampleParse (text : String) : Option Json :=
  if text = sampleRefusal then some (.object [("error", .object [("code", .integer 404)])]) else none

def sampleCall (text : String) (n : Nat) : Call :=
  ⟨String.ofList (List.replicate n 'a'), "scene_open", .object [], { content := [{ type := "text", text }] }⟩

def sampleKey (n : Nat) : String := callKey (fun _ => 0) (sampleCall "" n)

theorem sampleKey_inj {m n : Nat} (h : sampleKey m = sampleKey n) : m = n := by
  have hlength := congrArg String.length h
  simp only [sampleKey, callKey, sampleCall, String.length_append, String.length_ofList, List.length_replicate] at hlength
  omega

theorem nodup_sampleKeys (s n : Nat) : ((List.range' s n).map sampleKey).Nodup :=
  List.Nodup.map (fun _ _ h => sampleKey_inj h) List.nodup_range'

/-- The places of the queue and the calls that are remembered. -/
structure Holds (memory : RepeatedFailures) (places calls : List String) : Prop where
  order : memory.order = places
  live : ∀ k, memory.failures.contains k = true ↔ k ∈ calls
  nodup : calls.Nodup

variable {places calls rest : List String}

theorem Holds.size (h : Holds memory places calls) : memory.failures.size = calls.length := by
  have hkeys : memory.failures.keys.Nodup :=
    List.pairwise_map.mpr (memory.failures.sorted.imp fun hlt => hlt.ne)
  have hperm : memory.failures.keys.Perm calls :=
    (List.perm_ext_iff_of_nodup hkeys h.nodup).mpr fun key => by
      rw [OrderedMap.mem_keys, ← OrderedMap.contains_iff, h.live]
  rw [← hperm.length_eq, OrderedMap.keys, List.length_map]
  rfl

theorem sample_error (n : Nat) :
    errorEnvelopeOf sampleParse (sampleCall sampleRefusal n).result = some [("code", .integer 404)] := by
  rfl

theorem sample_success (n : Nat) : errorEnvelopeOf sampleParse (sampleCall "" n).result = none := by
  rfl

/-- A refusal of a call that is not remembered, with the room that it makes. -/
theorem Holds.refuse (h : Holds memory places calls) (n : Nat) (hnew : sampleKey n ∉ calls)
    (hroom : (∀ k, memory.makeRoom.failures.contains k = memory.failures.contains k) ∧
      memory.makeRoom.compact.order = rest) :
    Holds (observe (fun _ => 0) sampleParse memory (sampleCall sampleRefusal n)).1 (rest ++ [sampleKey n])
      (calls ++ [sampleKey n]) := by
  have hcontains : memory.failures.contains (sampleKey n) = false := by
    rw [← Bool.not_eq_true, h.live]
    exact hnew
  have hkey : callKey (fun _ => 0) (sampleCall sampleRefusal n) = sampleKey n := rfl
  refine ⟨?_, fun k => ?_, ?_⟩
  · rw [observe_refusal (sample_error n), hkey, enter_eq hcontains, hroom.2]
  · rw [contains_refusal (sample_error n), hkey, enter_eq hcontains]
    dsimp only
    rw [contains_insert, hroom.1, Bool.or_eq_true, decide_eq_true_eq, h.live, List.mem_append, List.mem_singleton, or_comm]
  · refine List.nodup_append.mpr ⟨h.nodup, List.nodup_singleton _, fun a ha b hb heq => ?_⟩
    cases List.mem_singleton.mp hb
    exact hnew (heq ▸ ha)

theorem compact_short {memory : RepeatedFailures} (h : memory.order.length < 4 * kMaxRemembered) :
    memory.compact = memory := by
  unfold compact
  rw [if_neg (Nat.not_le_of_lt h)]

theorem Holds.room (h : Holds memory places calls) (hsize : calls.length < kMaxRemembered)
    (hplaces : places.length < 4 * kMaxRemembered) :
    (∀ k, memory.makeRoom.failures.contains k = memory.failures.contains k) ∧ memory.makeRoom.compact.order = places := by
  have hsame : memory.makeRoom = memory := by
    rcases makeRoom_cases memory with ⟨hsame, -⟩ | ⟨front, rest, -, hfull, -⟩
    · exact hsame
    · rw [h.size] at hfull
      omega
  rw [hsame, compact_short (by rwa [h.order])]
  exact ⟨fun k => rfl, h.order⟩

/-- Room is made at a place that no call has. -/
theorem Holds.noRoom {front : String} (h : Holds memory (front :: rest) calls) (hsize : kMaxRemembered ≤ calls.length)
    (hfront : front ∉ calls) (hplaces : rest.length < 4 * kMaxRemembered) :
    (∀ k, memory.makeRoom.failures.contains k = memory.failures.contains k) ∧ memory.makeRoom.compact.order = rest := by
  have hroom : memory.makeRoom = ⟨memory.failures.erase front, rest⟩ := by
    unfold makeRoom
    rw [h.order]
    dsimp only
    rw [if_pos (by rwa [h.size])]
  rw [hroom, compact_short hplaces]
  refine ⟨fun k => ?_, rfl⟩
  dsimp only
  rw [contains_erase]
  by_cases hk : k = front
  · have hnone : memory.failures.contains k = false := by
      rw [← Bool.not_eq_true, h.live, hk]
      exact hfront
    rw [hnone, Bool.and_false]
  · simp [hk]

theorem sampleKey_notMem {s m n : Nat} (h : n < s ∨ s + m ≤ n) : sampleKey n ∉ (List.range' s m).map sampleKey := by
  intro hmem
  obtain ⟨i, hi, heq⟩ := List.mem_map.mp hmem
  have hin := List.mem_range'_1.mp hi
  rw [sampleKey_inj heq] at hin
  omega

theorem map_range'_concat {β : Type} (f : Nat → β) (s n : Nat) :
    (List.range' s n).map f ++ [f (s + n)] = (List.range' s (n + 1)).map f := by
  rw [List.range'_concat, List.map_append, Nat.one_mul]
  rfl

theorem length_map_range' {β : Type} (f : Nat → β) (s n : Nat) : ((List.range' s n).map f).length = n := by
  rw [List.length_map, List.length_range']

theorem holds_refusals (n : Nat) (hn : n ≤ kMaxRemembered) :
    Holds (run (fun _ => 0) sampleParse ((List.range' 0 n).map (sampleCall sampleRefusal)))
      ((List.range' 0 n).map sampleKey) ((List.range' 0 n).map sampleKey) := by
  induction n with
  | zero =>
    refine ⟨rfl, fun k => ?_, List.nodup_nil⟩
    simp [run, OrderedMap.contains]
  | succ n ih =>
    have hbefore := ih (by omega)
    have hlength := length_map_range' sampleKey 0 n
    have hstep := hbefore.refuse n (sampleKey_notMem (by omega)) (hbefore.room (by omega) (by omega))
    rw [← run_concat] at hstep
    have hkeys := map_range'_concat sampleKey 0 n
    have hcalls := map_range'_concat (sampleCall sampleRefusal) 0 n
    rw [Nat.zero_add] at hkeys hcalls
    rwa [hkeys, hcalls] at hstep

theorem Holds.frontOldest {front : String} (h : Holds memory (front :: rest) (front :: rest)) : FrontOldest memory := by
  refine ⟨front, [], rest, ?_, h.order, (List.nodup_cons.mp h.nodup).1, (h.live front).mpr List.mem_cons_self, ?_⟩
  · rw [h.order]
    rfl
  · exact fun k hk hne => (List.mem_cons.mp ((h.live k).mp hk)).resolve_left hne

/-- The front is forgotten for a call that needs its room. -/
theorem Holds.forgotten {front : String} (h : Holds memory (front :: rest) (front :: rest)) {n : Nat}
    (hnew : sampleKey n ∉ front :: rest) (hfull : kMaxRemembered ≤ (front :: rest).length) :
    Forgotten (fun _ => 0) sampleParse memory (sampleCall sampleRefusal n) front := by
  have hne : front ≠ sampleKey n := fun heq => hnew (heq ▸ List.mem_cons_self)
  have hcontains : memory.failures.contains (sampleKey n) = false := by
    rw [← Bool.not_eq_true, h.live]
    exact hnew
  have hroom : memory.makeRoom = ⟨memory.failures.erase front, rest⟩ := by
    unfold makeRoom
    rw [h.order]
    dsimp only
    rw [if_pos (by rwa [h.size])]
  have hkey : callKey (fun _ => 0) (sampleCall sampleRefusal n) = sampleKey n := rfl
  refine ⟨(h.live front).mpr List.mem_cons_self, ?_, hne⟩
  rw [contains_refusal (sample_error n), hkey, enter_eq hcontains, hroom]
  dsimp only
  rw [contains_insert, contains_erase, decide_eq_false hne]
  simp

/-- The memory is filled, and the last refusal makes room at the call that was refused first. -/
theorem remembers_of_room_full :
    Remembers (fun _ => 0) sampleParse ((List.range' 0 kMaxRemembered).map (sampleCall sampleRefusal))
        (sampleCall sampleRefusal kMaxRemembered) ∧
      Forgotten (fun _ => 0) sampleParse (run (fun _ => 0) sampleParse
        ((List.range' 0 kMaxRemembered).map (sampleCall sampleRefusal))) (sampleCall sampleRefusal kMaxRemembered)
          (sampleKey 0) := by
  have hkeys : (List.range' 0 kMaxRemembered).map sampleKey = sampleKey 0 :: (List.range' 1 255).map sampleKey := rfl
  have hfull := holds_refusals kMaxRemembered le_rfl
  rw [hkeys] at hfull
  have hcalls := map_range'_concat (sampleCall sampleRefusal) 0 kMaxRemembered
  rw [Nat.zero_add] at hcalls
  refine ⟨remembers_of_room ((List.range' 0 (kMaxRemembered + 1)).map (sampleCall sampleRefusal)) ?_ _ _ [] hcalls.symm, ?_⟩
  · intro before call after heq _ _ hsize
    have hlength := congrArg List.length heq
    rw [length_map_range', List.length_append, List.length_cons] at hlength
    have hbefore : before = (List.range' 0 before.length).map (sampleCall sampleRefusal) := by
      have htake := congrArg (List.take before.length) heq
      rw [List.take_left, ← List.map_take, List.take_range'_of_length_ge (by omega)] at htake
      exact htake.symm
    have hholds := holds_refusals before.length (by omega)
    rw [← hbefore] at hholds
    have hmany : before.length = kMaxRemembered := by
      rw [hholds.size, length_map_range'] at hsize
      omega
    rw [hmany, hkeys] at hholds
    exact hholds.frontOldest
  · refine hfull.forgotten ?_ (by rw [← hkeys, length_map_range'])
    rw [← hkeys]
    exact sampleKey_notMem (.inr (Nat.zero_add _).le)

/-- A success leaves its place in the queue. -/
theorem holds_success (n : Nat) (hn : n + 1 = kMaxRemembered) :
    Holds (run (fun _ => 0) sampleParse ((List.range' 0 (n + 1)).map (sampleCall sampleRefusal) ++ [sampleCall "" 0]))
      ((List.range' 0 (n + 1)).map sampleKey) ((List.range' 1 n).map sampleKey) := by
  obtain ⟨horder, hlive, -⟩ := holds_refusals (n + 1) (Nat.le_of_eq hn)
  rw [run_concat, observe_success (sample_success 0)]
  refine ⟨?_, fun k => ?_, nodup_sampleKeys 1 n⟩
  · dsimp only
    exact horder
  · dsimp only
    rw [contains_erase, Bool.and_eq_true, hlive, List.range'_succ, List.map_cons, List.mem_cons, decide_eq_true_eq]
    constructor
    · rintro ⟨hne, rfl | hmem⟩
      · exact absurd rfl hne
      · exact hmem
    · intro hmem
      refine ⟨?_, .inr hmem⟩
      rintro rfl
      exact sampleKey_notMem (.inl Nat.zero_lt_one) hmem

/-- The refusal that makes room at that place makes none. -/
theorem not_bounded (n : Nat) (hn : n + 1 = kMaxRemembered) :
    (run (fun _ => 0) sampleParse ((List.range' 0 (n + 1)).map (sampleCall sampleRefusal) ++ [sampleCall "" 0] ++
      [sampleCall sampleRefusal (n + 1)] ++ [sampleCall sampleRefusal (n + 2)])).failures.size = n + 2 := by
  have hsuccess := holds_success n hn
  have hnext := hsuccess.refuse (n + 1) (sampleKey_notMem (by omega))
    (hsuccess.room (by rw [length_map_range']; omega) (by rw [length_map_range']; omega))
  rw [← run_concat] at hnext
  have hlive := map_range'_concat sampleKey 1 n
  rw [Nat.add_comm 1 n] at hlive
  have hplaces := map_range'_concat sampleKey 0 (n + 1)
  rw [Nat.zero_add, List.range'_succ (s := 0) (n := n + 1), List.map_cons] at hplaces
  rw [hlive, hplaces] at hnext
  have hnone := hnext.noRoom (by rw [length_map_range']; omega) (sampleKey_notMem (by omega))
    (by rw [length_map_range']; omega)
  have hlast := hnext.refuse (n + 2) (sampleKey_notMem (by omega)) hnone
  rw [← run_concat] at hlast
  rw [hlast.size, List.length_append, length_map_range', List.length_singleton]

theorem not_remembers : ¬ ∀ (hash : String → Nat) (parse : String → Option Json) (before : List Call) (call : Call),
    Remembers hash parse before call := by
  intro h
  obtain ⟨n, hn⟩ : ∃ n, n + 1 = kMaxRemembered := ⟨255, rfl⟩
  have hbound := (h (fun _ => 0) sampleParse ((List.range' 0 (n + 1)).map (sampleCall sampleRefusal) ++
    [sampleCall "" 0] ++ [sampleCall sampleRefusal (n + 1)]) (sampleCall sampleRefusal (n + 2))).bounded
  rw [not_bounded n hn] at hbound
  omega

end Didi.Repeats
