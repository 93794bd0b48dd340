import Didi.Lib.Run
import Didi.Log.Ring

/-!
# A client that pages through the log

* `walkPage_spec` : a page inspects the records from its start on, one after another;
* `RuntimeLogRing.Numbered` : the records of a ring have the numbers before the next one;
* `paging_spec` : along a run of appends and reads, every record that a cursor passes is delivered once and in
  order, or it was gone and the read that passed it said so.
-/

namespace Didi.Log
variable {record : LogRecord}

/-! ## A page -/

section Walk
variable {start limit : Nat} {minimum : LogLevel}

theorem walkPage_filter (records : List LogRecord) (w : PageWalk) :
    walkPage start limit minimum records w =
      walkPage start limit minimum (records.filter fun r => start ≤ r.sequence) w := by
  induction records generalizing w with
  | nil => rfl
  | cons record records ih =>
    by_cases hstart : record.sequence < start
    · rw [List.filter_cons_of_neg (by simpa using hstart), walkPage, if_pos hstart]
      exact ih w
    · rw [List.filter_cons_of_pos (by simpa using hstart), walkPage, walkPage, if_neg hstart, if_neg hstart]
      dsimp only
      split_ifs
      · exact ih _
      · rfl
      · exact ih _

/-- From `w` to `w'`, a walk has inspected these records. -/
structure Walked (minimum : LogLevel) (w w' : PageWalk) (inspected : List LogRecord) : Prop where
  records : w'.records = w.records ++ inspected.filter fun r => minimum.rank ≤ r.level.rank
  lastInspected : w'.lastInspected = (inspected.getLast?.map LogRecord.sequence).or w.lastInspected
  stays : inspected = [] → w'.nextCursor = w.nextCursor
  nextCursor : ∀ r, inspected.getLast? = some r → r.sequence ≠ kMaxSequence → w'.nextCursor = r.sequence + 1

theorem Walked.cons {w w' w'' : PageWalk} {inspected : List LogRecord} (h : Walked minimum w w' [record])
    (h' : Walked minimum w' w'' inspected) :
    Walked minimum w w'' (record :: inspected) := by
  refine ⟨?_, ?_, by simp, ?_⟩
  · rw [h'.records, h.records, List.append_assoc, ← List.filter_append]
    rfl
  · rw [h'.lastInspected, h.lastInspected]
    cases inspected with
    | nil => rfl
    | cons r inspected => simp [List.getLast?_cons]
  · intro r hr hmax
    cases inspected with
    | nil =>
      rw [h'.stays rfl]
      exact h.nextCursor r hr hmax
    | cons r' inspected => exact h'.nextCursor r (by simpa [List.getLast?_cons] using hr) hmax

theorem walked_inspect {w : PageWalk} (h : record.level.rank < minimum.rank) :
    Walked minimum w (w.inspect record) [record] := by
  refine ⟨?_, rfl, by simp, ?_⟩
  · rw [List.filter_cons_of_neg (by simpa using h)]
    exact (List.append_nil _).symm
  · intro r hr hmax
    have : record = r := by simpa using hr
    subst this
    exact if_neg hmax

theorem walked_push {w : PageWalk} (h : ¬ record.level.rank < minimum.rank) :
    Walked minimum w ((w.inspect record).push record) [record] := by
  refine ⟨?_, rfl, by simp, ?_⟩
  · rw [List.filter_cons_of_pos (by simpa using h)]
    rfl
  · intro r hr hmax
    have : record = r := by simpa using hr
    subst this
    exact if_neg hmax

/-- **A page inspects records one after another.** -/
theorem walkPage_spec {records : List LogRecord} (h : ∀ r ∈ records, start ≤ r.sequence) (w : PageWalk) :
    ∃ inspected rest, records = inspected ++ rest ∧
      Walked minimum w (walkPage start limit minimum records w) inspected := by
  induction records generalizing w with
  | nil => exact ⟨[], [], rfl, by simp [walkPage], rfl, fun _ => rfl, by simp⟩
  | cons record records ih =>
    have hstart : ¬ record.sequence < start := not_lt.mpr (h record List.mem_cons_self)
    have hrest : ∀ r ∈ records, start ≤ r.sequence := fun r hr => h r (List.mem_cons_of_mem record hr)
    rw [walkPage, if_neg hstart]
    dsimp only
    split_ifs with hlevel hlimit
    · obtain ⟨inspected, rest, hsplit, hwalked⟩ := ih hrest (w.inspect record)
      exact ⟨record :: inspected, rest, by rw [hsplit]; rfl, (walked_inspect hlevel).cons hwalked⟩
    · exact ⟨[record], records, rfl, walked_push hlevel⟩
    · obtain ⟨inspected, rest, hsplit, hwalked⟩ := ih hrest ((w.inspect record).push record)
      exact ⟨record :: inspected, rest, by rw [hsplit]; rfl, (walked_push hlevel).cons hwalked⟩

end Walk

/-! ## The numbers of a ring -/

/-- The records of a ring have the numbers before the next one, and there is room for one more. -/
structure RuntimeLogRing.Numbered (ring : RuntimeLogRing) : Prop where
  numbers : ring.records.map LogRecord.sequence = List.range' ring.oldest ring.records.length
  next : ring.oldest + ring.records.length = ring.nextSequence
  room : ring.nextSequence ≤ kMaxSequence

namespace RuntimeLogRing
variable {ring : RuntimeLogRing}

theorem Numbered.mem (h : ring.Numbered) {r : LogRecord} (hr : r ∈ ring.records) :
    ring.oldest ≤ r.sequence ∧ r.sequence < ring.nextSequence := by
  have hmem : r.sequence ∈ List.range' ring.oldest ring.records.length := by
    rw [← h.numbers]
    exact List.mem_map_of_mem hr
  rw [List.mem_range'_1] at hmem
  have := h.next
  omega

/-- What is at a number or after it, one number after another. -/
theorem Numbered.filter (h : ring.Numbered) {start : Nat} (hlow : ring.oldest ≤ start)
    (hhigh : start ≤ ring.nextSequence) : (ring.records.filter fun r => start ≤ r.sequence).map LogRecord.sequence =
      List.range' start (ring.nextSequence - start) := by
  have hmap : (ring.records.filter fun r => start ≤ r.sequence).map LogRecord.sequence =
      (ring.records.map LogRecord.sequence).filter fun n => start ≤ n := by
    rw [List.filter_map]
    rfl
  have hsplit : List.range' ring.oldest ring.records.length =
      List.range' ring.oldest (start - ring.oldest) ++ List.range' start (ring.nextSequence - start) := by
    have hstart : start = ring.oldest + (start - ring.oldest) := by omega
    have hlength : ring.records.length = (start - ring.oldest) + (ring.nextSequence - start) := by
      have := h.next
      omega
    conv_lhs => rw [hlength, List.range'_append_1.symm, ← hstart]
  rw [hmap, h.numbers, hsplit, List.filter_append, List.filter_eq_nil_iff.mpr, List.filter_eq_self.mpr,
    List.nil_append]
  · intro n hn
    rw [List.mem_range'_1] at hn
    simp
    omega
  · intro n hn
    rw [List.mem_range'_1] at hn
    simp
    omega

theorem Numbered.reaches (h : ring.Numbered) {n : Nat} :
    ring.reaches n = true ↔ ∃ r ∈ ring.records, n ≤ r.sequence := by
  unfold RuntimeLogRing.reaches
  rw [Option.any_eq_true]
  constructor
  · rintro ⟨r, hlast, hr⟩
    exact ⟨r, List.mem_of_getLast? hlast, by simpa using hr⟩
  · rintro ⟨r, hr, hn⟩
    have hne := List.ne_nil_of_mem hr
    refine ⟨_, List.getLast?_eq_some_getLast hne, ?_⟩
    have hlast : (ring.records.getLast hne).sequence + 1 = ring.nextSequence := by
      have hget := congrArg List.getLast? h.numbers
      rw [List.getLast?_map, List.getLast?_eq_some_getLast hne, List.getLast?_range'] at hget
      have hpos : ring.records.length ≠ 0 := by simpa using hne
      rw [if_neg hpos] at hget
      have hget := Option.some.inj hget
      have := h.next
      omega
    have := (h.mem hr).2
    simp
    omega

theorem oldest_of_ne_nil {records : List LogRecord} (h : ring.records = record :: records) :
    ring.oldest = record.sequence := by
  unfold oldest
  rw [h]
  rfl

theorem oldest_of_nil (h : ring.records = []) : ring.oldest = ring.nextSequence := by
  unfold oldest
  rw [h]
  rfl

/-- A ring without its oldest records. -/
theorem Numbered.drop (h : ring.Numbered) {k : Nat} (hk : k ≤ ring.records.length) :
    ({ ring with records := ring.records.drop k } : RuntimeLogRing).Numbered ∧
      ({ ring with records := ring.records.drop k } : RuntimeLogRing).oldest = ring.oldest + k := by
  have hnumbers : (ring.records.drop k).map LogRecord.sequence =
      List.range' (ring.oldest + k) (ring.records.length - k) := by
    rw [List.map_drop, h.numbers, List.drop_range', Nat.mul_one]
  have holdest : ({ ring with records := ring.records.drop k } : RuntimeLogRing).oldest = ring.oldest + k := by
    have hnext := h.next
    cases hdrop : ring.records.drop k with
    | nil =>
      rw [oldest_of_nil (by exact rfl)]
      have := List.drop_eq_nil_iff.mp hdrop
      show ring.nextSequence = _
      omega
    | cons r records =>
      rw [oldest_of_ne_nil (by exact rfl)]
      rw [hdrop] at hnumbers
      have hlength : ring.records.length - k = (ring.records.length - k - 1) + 1 := by
        have := congrArg List.length hdrop
        simp at this
        omega
      rw [hlength, List.range'_succ, List.map_cons, List.cons.injEq] at hnumbers
      exact hnumbers.1
  refine ⟨⟨?_, ?_, h.room⟩, holdest⟩
  · rw [holdest, List.length_drop]
    exact hnumbers
  · rw [holdest, List.length_drop]
    have := h.next
    show ring.oldest + k + (ring.records.length - k) = ring.nextSequence
    omega

/-- A ring with one more record, before the oldest ones go. -/
def pushed (ring : RuntimeLogRing) (record : LogRecord) : RuntimeLogRing :=
  { ring with nextSequence := ring.nextSequence + 1, records := ring.records ++ [record] }

theorem Numbered.push (h : ring.Numbered) (hmax : ring.nextSequence ≠ kMaxSequence)
    (hrecord : record.sequence = ring.nextSequence) :
    (ring.pushed record).Numbered ∧ (ring.pushed record).oldest = ring.oldest := by
  have hrecords : (ring.pushed record).records = ring.records ++ [record] := rfl
  have holdest : (ring.pushed record).oldest = ring.oldest := by
    cases hcases : ring.records with
    | nil =>
      rw [hcases] at hrecords
      rw [oldest_of_nil hcases, oldest_of_ne_nil hrecords, hrecord]
    | cons r records =>
      rw [hcases] at hrecords
      rw [oldest_of_ne_nil hcases, oldest_of_ne_nil hrecords]
  refine ⟨⟨?_, ?_, ?_⟩, holdest⟩
  · rw [holdest, hrecords, List.length_append, List.length_singleton, List.range'_1_concat, List.map_append,
      h.numbers, h.next,
      List.map_singleton, hrecord]
  · rw [holdest, hrecords, List.length_append, List.length_singleton]
    show ring.oldest + (ring.records.length + 1) = ring.nextSequence + 1
    have := h.next
    omega
  · show ring.nextSequence + 1 ≤ kMaxSequence
    have := h.room
    omega

/-- What an append does to a ring that its sequence has not exhausted afterwards. -/
theorem append_cases {nowMs : Int} {level : String} {source message : Bytes} {details : Json}
    {answer : Except Error Nat} {ring' : RuntimeLogRing}
    (h : ring.append nowMs level source message details = (answer, ring')) (hleft : ring'.exhausted = false) :
    (ring' = ring ∧ ∃ e, answer = .error e) ∨
      ∃ record, ring.nextSequence ≠ kMaxSequence ∧ record.sequence = ring.nextSequence ∧
        answer = .ok record.sequence ∧ ring' = (ring.pushed record).evict := by
  unfold append at h
  split at h
  · cases h
    exact .inl ⟨rfl, _, rfl⟩
  · rename_i level _
    dsimp only at h
    split_ifs at h with hexhausted hmax
    · cases h
      exact .inl ⟨rfl, _, rfl⟩
    · cases h
      cases hleft
    · cases h
      exact .inr ⟨_, hmax, rfl, rfl, rfl⟩

/-- What a read that answers finds in the ring: from `start` on it inspects these records. -/
structure PageOf (ring : RuntimeLogRing) (cursor : Nat) (minimum : LogLevel) (page : LogPage)
    (inspected : List LogRecord) : Prop where
  inspects : ∃ rest,
    (ring.records.filter fun r => max (ring.requested cursor) ring.oldest ≤ r.sequence) = inspected ++ rest ∧
      ∀ r ∈ rest, page.nextCursor ≤ r.sequence
  records : page.records = inspected.filter fun r => minimum.rank ≤ r.level.rank
  numbers : inspected.map LogRecord.sequence =
    List.range' (max (ring.requested cursor) ring.oldest) inspected.length
  nextCursor : page.nextCursor = max (ring.requested cursor) ring.oldest + inspected.length
  inside : page.nextCursor ≤ ring.nextSequence
  dropped : page.droppedBeforeCursor = (!ring.records.isEmpty && ring.requested cursor < ring.oldest)
  hasMore : page.hasMore = true ↔ ∃ r ∈ ring.records, page.nextCursor ≤ r.sequence

theorem read_spec (h : ring.Numbered) {cursor limit : Nat} {minimumLevel : String} {page : LogPage}
    (hread : ring.read cursor limit minimumLevel = .ok page) (hcursor : ring.requested cursor ≤ ring.nextSequence) :
    ∃ minimum inspected, LogLevel.ofString minimumLevel = some minimum ∧
      PageOf ring cursor minimum page inspected := by
  unfold read at hread
  split_ifs at hread
  split at hread
  · cases hread
  · rename_i minimum hlevel
    obtain ⟨start, hstart⟩ : ∃ n, max (ring.requested cursor) ring.oldest = n := ⟨_, rfl⟩
    have hnext := h.next
    have hinside : start ≤ ring.nextSequence := by omega
    have hnumbers := h.filter (show ring.oldest ≤ start by omega) hinside
    obtain ⟨inspected, rest, hsplit, hwalked⟩ :=
      @walkPage_spec start limit minimum (ring.records.filter fun r => start ≤ r.sequence)
        (fun r hr => by simpa using (List.mem_filter.mp hr).2) { nextCursor := start }
    rw [← walkPage_filter] at hwalked
    have hinspected : inspected.map LogRecord.sequence = List.range' start inspected.length ∧
        rest.map LogRecord.sequence = List.range' (start + inspected.length) rest.length ∧
        start + inspected.length ≤ ring.nextSequence := by
      have hlength := congrArg List.length hnumbers
      rw [hsplit, List.length_map, List.length_append, List.length_range'] at hlength
      have hrange : ring.nextSequence - start = inspected.length + rest.length := by omega
      rw [hsplit, List.map_append, hrange, ← List.range'_append_1] at hnumbers
      obtain ⟨hfirst, hlast⟩ := List.append_inj hnumbers (by simp)
      exact ⟨hfirst, hlast, by omega⟩
    have hcursor' : (walkPage start limit minimum ring.records { nextCursor := start }).nextCursor =
        start + inspected.length ∧
        ring.holdsMore start (walkPage start limit minimum ring.records { nextCursor := start }) =
          ring.reaches (start + inspected.length) := by
      unfold holdsMore
      rw [hwalked.lastInspected]
      cases hlast : inspected.getLast? with
      | none =>
        have hnone : inspected = [] := List.getLast?_eq_none_iff.mp hlast
        subst hnone
        exact ⟨hwalked.stays rfl, rfl⟩
      | some r =>
        have hpos : inspected.length ≠ 0 := by
          intro hzero
          rw [List.length_eq_zero_iff.mp hzero] at hlast
          cases hlast
        have hr : r.sequence + 1 = start + inspected.length := by
          have hget := congrArg List.getLast? hinspected.1
          rw [List.getLast?_map, hlast, List.getLast?_range', if_neg hpos] at hget
          have hget : r.sequence = _ := Option.some.inj hget
          omega
        have hroom := h.room
        refine ⟨?_, ?_⟩
        · rw [hwalked.nextCursor r hlast (by omega), hr]
        · show ring.reaches (r.sequence + 1) = _
          rw [hr]
    dsimp only at hread
    rw [hstart, hcursor'.2] at hread
    cases hread
    refine ⟨minimum, inspected, hlevel, ?_⟩
    refine ⟨⟨rest, by rw [hstart]; exact hsplit, ?_⟩, ?_, ?_, ?_, ?_, rfl, ?_⟩
    · intro r hr
      have hmem : r.sequence ∈ List.range' (start + inspected.length) rest.length := by
        rw [← hinspected.2.1]
        exact List.mem_map_of_mem hr
      rw [List.mem_range'_1] at hmem
      exact hcursor'.1.trans_le hmem.1
    · rw [hwalked.records]
      rfl
    · rw [hstart]
      exact hinspected.1
    · rw [hstart]
      exact hcursor'.1
    · exact hcursor'.1.trans_le hinspected.2.2
    · dsimp only
      rw [hcursor'.1]
      exact h.reaches

/-- The first number of a new ring is a number of a record. -/
theorem create_first (capacity : Nat) (firstSequence : UInt64) :
    1 ≤ (create capacity firstSequence).firstSequence ∧ (create capacity firstSequence).firstSequence ≤ kMaxSequence := by
  have hlt := firstSequence.toNat_lt
  unfold create
  dsimp only
  split_ifs with hzero
  · exact ⟨le_rfl, by decide⟩
  · have : firstSequence.toNat ≠ 0 := fun h => hzero (UInt64.toNat_inj.mp h)
    unfold kMaxSequence
    omega

end RuntimeLogRing

/-! ## Runs -/

/-- A read that answered: the ring, what had been appended by then, and the cursor it was given. -/
structure PageRead where
  ring : RuntimeLogRing
  appended : List LogRecord
  cursor : Nat
  page : LogPage

/-- The cursor of the client passes the record with this read. -/
def PageRead.passes (read : PageRead) (r : LogRecord) : Prop :=
  read.ring.requested read.cursor ≤ r.sequence ∧ r.sequence < read.page.nextCursor

def PageRead.evicted (read : PageRead) (r : LogRecord) : Prop := r ∈ read.appended ∧ r ∉ read.ring.records

/-- A ring, and one client that always passes the cursor that it was last given. -/
structure Paging where
  ring : RuntimeLogRing
  appended : List LogRecord := []
  cursor : Nat := 0
  reads : List PageRead := []

inductive PagingCall
  | append (nowMs : Int) (level : String) (source message : Bytes) (details : Json)
  | read (limit : Nat)

namespace Paging

def start (capacity : Nat) (firstSequence : UInt64) : Paging :=
  { ring := RuntimeLogRing.create capacity firstSequence }

def step (minimumLevel : String) (s : Paging) : PagingCall → Option LogPage × Paging
  | .append nowMs level source message details =>
    match s.ring.append nowMs level source message details with
    | (.error _, ring) => (none, { s with ring })
    | (.ok _, ring) => (none, { s with ring, appended := s.appended ++ ring.records.getLast?.toList })
  | .read limit =>
    match s.ring.read s.cursor limit minimumLevel with
    | .error _ => (none, s)
    | .ok page => (some page,
        { s with cursor := page.nextCursor, reads := s.reads ++ [⟨s.ring, s.appended, s.cursor, page⟩] })

/-- What the client has received. -/
def delivered (s : Paging) : List LogRecord := s.reads.flatMap fun read => read.page.records

/-- What holds of a ring and its client while there are numbers left. -/
structure Followed (minimumLevel : String) (s : Paging) : Prop where
  numbered : s.ring.Numbered
  first : 1 ≤ s.ring.firstSequence ∧ s.ring.firstSequence ≤ s.ring.oldest
  capacity : 1 ≤ s.ring.capacity
  appended : ∃ gone, s.appended = gone ++ s.ring.records ∧ (∀ r ∈ gone, r.sequence < s.ring.oldest) ∧
    (s.ring.records = [] → gone = [])
  fromFirst : ∀ r ∈ s.appended, s.ring.firstSequence ≤ r.sequence
  cursor : s.ring.requested s.cursor ≤ s.ring.nextSequence ∧ s.ring.firstSequence ≤ s.ring.requested s.cursor
  unread : s.cursor = 0 → s.reads = []
  ordered : s.delivered.Pairwise fun r r' => r.sequence < r'.sequence
  wanted : ∀ r ∈ s.delivered, r ∈ s.appended ∧ r.sequence < s.ring.requested s.cursor ∧
    ∃ minimum, LogLevel.ofString minimumLevel = some minimum ∧ minimum.rank ≤ r.level.rank
  passed : ∀ minimum, LogLevel.ofString minimumLevel = some minimum → ∀ r ∈ s.appended,
    minimum.rank ≤ r.level.rank → r.sequence < s.cursor → ∃ read ∈ s.reads, read.passes r ∧
      (r ∈ read.page.records ∨ read.evicted r ∧ read.page.droppedBeforeCursor = true)
  hasMore : ∀ read ∈ s.reads, read.page.hasMore = true ↔
    ∃ r ∈ read.ring.records, read.page.nextCursor ≤ r.sequence

theorem followed_start (capacity : Nat) (firstSequence : UInt64) (minimumLevel : String) :
    Followed minimumLevel (start capacity firstSequence) := by
  have hfirst := RuntimeLogRing.create_first capacity firstSequence
  refine ⟨⟨rfl, rfl, hfirst.2⟩, ⟨hfirst.1, le_rfl⟩, le_max_left _ _, ⟨[], rfl, by simp, fun _ => rfl⟩, ?_,
    ⟨le_rfl, le_rfl⟩, fun _ => rfl, List.Pairwise.nil, ?_, ?_, ?_⟩
  · intro r hr
    cases hr
  · intro r hr
    cases hr
  · intro _ _ r hr
    cases hr
  · intro r hr
    cases hr

/-- The client sees nothing of an append. -/
theorem Followed.append {minimumLevel : String} {s : Paging} (h : Followed minimumLevel s)
    (hmax : s.ring.nextSequence ≠ kMaxSequence) (hrecord : record.sequence = s.ring.nextSequence) :
    Followed minimumLevel
      { s with ring := (s.ring.pushed record).evict, appended := s.appended ++ [record] } := by
  obtain ⟨hpush, holdest⟩ := h.numbered.push hmax hrecord
  have hcapacity : (s.ring.pushed record).capacity = s.ring.capacity := rfl
  have hrecords : (s.ring.pushed record).records = s.ring.records ++ [record] := rfl
  have hnext : (s.ring.pushed record).nextSequence = s.ring.nextSequence + 1 := rfl
  have hfirst : (s.ring.pushed record).firstSequence = s.ring.firstSequence := rfl
  obtain ⟨pushed, hpushed⟩ : ∃ pushed, s.ring.pushed record = pushed := ⟨_, rfl⟩
  rw [hpushed] at hpush holdest hcapacity hrecords hnext hfirst ⊢
  have hlength : pushed.records.length = s.ring.records.length + 1 := by rw [hrecords, List.length_append]; rfl
  obtain ⟨k, hk⟩ : ∃ k, k = pushed.records.length - pushed.capacity := ⟨_, rfl⟩
  have hbound := h.capacity
  obtain ⟨hdrop, hdropped⟩ := hpush.drop (k := k) (by omega)
  have hevict : pushed.evict = { pushed with records := pushed.records.drop k } := by rw [hk]; rfl
  rw [hevict]
  obtain ⟨gone, hgone, hbefore, hempty⟩ := h.appended
  have hrequested : ({ pushed with records := pushed.records.drop k } : RuntimeLogRing).requested s.cursor =
      s.ring.requested s.cursor := by
    unfold RuntimeLogRing.requested
    rw [show ({ pushed with records := pushed.records.drop k } : RuntimeLogRing).firstSequence =
      s.ring.firstSequence from hfirst]
  have hrange := h.first
  refine ⟨hdrop, ⟨?_, ?_⟩, ?_, ?_, ?_, ⟨?_, ?_⟩, h.unread, h.ordered, ?_, ?_, h.hasMore⟩
  · exact hrange.1.trans_eq hfirst.symm
  · rw [hdropped, holdest]
    show pushed.firstSequence ≤ _
    omega
  · exact hbound.trans_eq hcapacity.symm
  · refine ⟨gone ++ pushed.records.take k, ?_, ?_, ?_⟩
    · show s.appended ++ [record] = gone ++ pushed.records.take k ++ pushed.records.drop k
      rw [List.append_assoc, List.take_append_drop, hrecords, hgone, List.append_assoc]
    · intro r hr
      rw [hdropped, holdest]
      rcases List.mem_append.mp hr with hr | hr
      · have := hbefore r hr
        omega
      · have hmem : r.sequence ∈ (List.range' pushed.oldest pushed.records.length).take k := by
          rw [← hpush.numbers, ← List.map_take]
          exact List.mem_map_of_mem hr
        have hsplit : List.range' pushed.oldest pushed.records.length =
            List.range' pushed.oldest k ++ List.range' (pushed.oldest + k) (pushed.records.length - k) := by
          rw [List.range'_append_1]
          congr 1
          omega
        rw [hsplit, List.take_left' (by simp), List.mem_range'_1] at hmem
        omega
    · intro hnone
      have hnone : pushed.records.drop k = [] := hnone
      have := List.drop_eq_nil_iff.mp hnone
      omega
  · intro r hr
    show pushed.firstSequence ≤ _
    rw [hfirst]
    rcases List.mem_append.mp hr with hr | hr
    · exact h.fromFirst r hr
    · rw [List.mem_singleton.mp hr, hrecord]
      have := h.numbered.next
      omega
  · rw [hrequested]
    have := h.cursor.1
    show _ ≤ pushed.nextSequence
    omega
  · rw [hrequested]
    exact hfirst.trans_le h.cursor.2
  · intro r hr
    obtain ⟨hmem, hpassed, hlevel⟩ := h.wanted r hr
    exact ⟨List.mem_append_left _ hmem, hpassed.trans_eq hrequested.symm, hlevel⟩
  · intro minimum hminimum r hr hrank hcursor
    have hcursor : r.sequence < s.cursor := hcursor
    rcases List.mem_append.mp hr with hr | hr
    · exact h.passed minimum hminimum r hr hrank hcursor
    · rw [List.mem_singleton.mp hr, hrecord] at hcursor
      have hinside := h.cursor.1
      unfold RuntimeLogRing.requested at hinside
      rw [if_neg (by omega)] at hinside
      omega

/-- A read that answers moves the cursor over what it inspected, and over what was gone. -/
theorem Followed.read {minimumLevel : String} {s : Paging} (h : Followed minimumLevel s) {limit : Nat}
    {page : LogPage} (hread : s.ring.read s.cursor limit minimumLevel = .ok page) :
    Followed minimumLevel { s with
      cursor := page.nextCursor, reads := s.reads ++ [⟨s.ring, s.appended, s.cursor, page⟩] } := by
  obtain ⟨minimum, inspected, hminimum, hpage⟩ := RuntimeLogRing.read_spec h.numbered hread h.cursor.1
  obtain ⟨rest, hsplit, hrest⟩ := hpage.inspects
  obtain ⟨gone, hgone, hbefore, hempty⟩ := h.appended
  have hnext := hpage.nextCursor
  have hfirst := h.first
  have hcursor := h.cursor
  have hrequested : s.ring.requested page.nextCursor = page.nextCursor := if_neg (by omega)
  have hinspected : ∀ r ∈ inspected, r ∈ s.ring.records ∧
      max (s.ring.requested s.cursor) s.ring.oldest ≤ r.sequence ∧ r.sequence < page.nextCursor := by
    intro r hr
    have hmem : r ∈ s.ring.records.filter
        fun r => max (s.ring.requested s.cursor) s.ring.oldest ≤ r.sequence := by
      rw [hsplit]
      exact List.mem_append_left _ hr
    have hnumber : r.sequence ∈ List.range' (max (s.ring.requested s.cursor) s.ring.oldest) inspected.length := by
      rw [← hpage.numbers]
      exact List.mem_map_of_mem hr
    rw [List.mem_range'_1] at hnumber
    exact ⟨(List.mem_filter.mp hmem).1, hnumber.1, by omega⟩
  have hrecords : ∀ r ∈ page.records, r ∈ inspected ∧ minimum.rank ≤ r.level.rank := by
    intro r hr
    rw [hpage.records] at hr
    simpa using List.mem_filter.mp hr
  have hdelivered : delivered { s with
      cursor := page.nextCursor, reads := s.reads ++ [⟨s.ring, s.appended, s.cursor, page⟩] } =
      s.delivered ++ page.records := by
    simp [delivered]
  refine ⟨h.numbered, h.first, h.capacity, h.appended, h.fromFirst, ⟨?_, ?_⟩, ?_, ?_, ?_, ?_, ?_⟩
  · exact hrequested.trans_le hpage.inside
  · show s.ring.firstSequence ≤ s.ring.requested page.nextCursor
    omega
  · intro hzero
    have hzero : page.nextCursor = 0 := hzero
    omega
  · rw [hdelivered, List.pairwise_append]
    refine ⟨h.ordered, ?_, ?_⟩
    · rw [hpage.records]
      apply List.Pairwise.filter
      rw [← List.pairwise_map (R := (· < ·)) (f := LogRecord.sequence), hpage.numbers]
      exact List.pairwise_lt_range'
    · intro r hr r' hr'
      have hold := (h.wanted r hr).2.1
      have hnew := (hinspected r' (hrecords r' hr').1).2.1
      omega
  · intro r hr
    rw [hdelivered] at hr
    show r ∈ s.appended ∧ r.sequence < s.ring.requested page.nextCursor ∧ _
    rw [hrequested]
    rcases List.mem_append.mp hr with hr | hr
    · obtain ⟨hmem, hpassed, hlevel⟩ := h.wanted r hr
      exact ⟨hmem, by omega, hlevel⟩
    · obtain ⟨hmem, hrank⟩ := hrecords r hr
      obtain ⟨hheld, -, hpassed⟩ := hinspected r hmem
      refine ⟨?_, hpassed, minimum, hminimum, hrank⟩
      rw [hgone]
      exact List.mem_append_right _ hheld
  · intro minimum' hminimum' r hr hrank hpassed
    have hpassed : r.sequence < page.nextCursor := hpassed
    cases hminimum.symm.trans hminimum'
    by_cases hold : r.sequence < s.cursor
    · obtain ⟨read, hmem, hread⟩ := h.passed minimum hminimum r hr hrank hold
      exact ⟨read, List.mem_append_left _ hmem, hread⟩
    · have hfrom : s.ring.requested s.cursor ≤ r.sequence := by
        have := h.fromFirst r hr
        unfold RuntimeLogRing.requested
        split_ifs <;> omega
      refine ⟨_, List.mem_append_right _ (List.mem_singleton_self _), ⟨hfrom, hpassed⟩, ?_⟩
      have hnotGone : ∀ r' ∈ s.ring.records, s.ring.oldest ≤ r'.sequence := fun r' hr' => (h.numbered.mem hr').1
      rw [hgone] at hr
      rcases List.mem_append.mp hr with hr | hr
      · -- the record was gone, and the read skipped it
        have hgap := hbefore r hr
        refine .inr ⟨⟨?_, fun hheld => ?_⟩, ?_⟩
        · show r ∈ s.appended
          rw [hgone]
          exact List.mem_append_left _ hr
        · have := hnotGone r hheld
          omega
        · show page.droppedBeforeCursor = true
          have hheld : s.ring.records ≠ [] := fun hnone => absurd (hempty hnone) (List.ne_nil_of_mem hr)
          rw [hpage.dropped]
          simp [hheld]
          omega
      · have := hnotGone r hr
        have hmem : r ∈ inspected ++ rest := by
          rw [← hsplit, List.mem_filter]
          simp [hr]
          omega
        rcases List.mem_append.mp hmem with hmem | hmem
        · refine .inl ?_
          show r ∈ page.records
          rw [hpage.records, List.mem_filter]
          simp [hmem, hrank]
        · have := hrest r hmem
          omega
  · intro read hmem
    rcases List.mem_append.mp hmem with hmem | hmem
    · exact h.hasMore read hmem
    · rw [List.mem_singleton.mp hmem]
      exact hpage.hasMore

theorem followed_step {minimumLevel : String} {s : Paging} (call : PagingCall)
    (h : s.ring.exhausted = false → Followed minimumLevel s)
    (hleft : (step minimumLevel s call).2.ring.exhausted = false) :
    Followed minimumLevel (step minimumLevel s call).2 := by
  cases call with
  | read limit =>
    cases hread : s.ring.read s.cursor limit minimumLevel with
    | error e =>
      have hstep : step minimumLevel s (.read limit) = (none, s) := by
        simp only [step, hread]
      rw [hstep] at hleft ⊢
      exact h hleft
    | ok page =>
      have hstep : (step minimumLevel s (.read limit)).2 = { s with
          cursor := page.nextCursor, reads := s.reads ++ [⟨s.ring, s.appended, s.cursor, page⟩] } := by
        simp only [step, hread]
      rw [hstep] at hleft ⊢
      exact (h hleft).read hread
  | append nowMs level source message details =>
    obtain ⟨answer, ring, happend⟩ : ∃ answer ring,
        s.ring.append nowMs level source message details = (answer, ring) := ⟨_, _, rfl⟩
    have hring : (step minimumLevel s (.append nowMs level source message details)).2.ring = ring := by
      cases answer <;> simp only [step, happend]
    rw [hring] at hleft
    rcases RuntimeLogRing.append_cases happend hleft with ⟨rfl, e, rfl⟩ | ⟨record, hmax, hrecord, rfl, rfl⟩
    · have hstep : (step minimumLevel s (.append nowMs level source message details)).2 = s := by
        simp only [step, happend]
      rw [hstep]
      exact h hleft
    · have hfollowed := h hleft
      have hcapacity := hfollowed.capacity
      have hlast : (s.ring.pushed record).evict.records.getLast? = some record := by
        show ((s.ring.records ++ [record]).drop ((s.ring.records ++ [record]).length - s.ring.capacity)).getLast? = _
        rw [List.getLast?_drop, if_neg]
        · simp
        · simp
          omega
      have hstep : (step minimumLevel s (.append nowMs level source message details)).2 =
          { s with ring := (s.ring.pushed record).evict, appended := s.appended ++ [record] } := by
        simp only [step, happend, hlast, Option.toList_some]
      rw [hstep]
      exact hfollowed.append hmax hrecord

/-- **Paging loses and repeats nothing.** -/
theorem paging_spec (capacity : Nat) (firstSequence : UInt64) (minimumLevel : String) (calls : List PagingCall)
    {s : Paging} (hs : s = Run.exec (step minimumLevel) (start capacity firstSequence) calls)
    (hleft : s.ring.exhausted = false) :
    (s.delivered.Pairwise fun r r' => r.sequence < r'.sequence) ∧
      (∀ r ∈ s.delivered, r ∈ s.appended ∧
        ∃ minimum, LogLevel.ofString minimumLevel = some minimum ∧ minimum.rank ≤ r.level.rank) ∧
      (∀ minimum, LogLevel.ofString minimumLevel = some minimum → ∀ r ∈ s.appended, minimum.rank ≤ r.level.rank →
        r.sequence < s.cursor → ∃ read ∈ s.reads, read.passes r ∧
          (r ∈ read.page.records ∨ read.evicted r ∧ read.page.droppedBeforeCursor = true)) ∧
      ∀ read ∈ s.reads, read.page.hasMore = true ↔ ∃ r ∈ read.ring.records, read.page.nextCursor ≤ r.sequence := by
  have hfollowed : s.ring.exhausted = false → Followed minimumLevel s := by
    rw [hs]
    exact Run.exec_of_step (P := fun s => s.ring.exhausted = false → Followed minimumLevel s)
      (fun s call h => followed_step call h) calls fun _ => followed_start capacity firstSequence minimumLevel
  have h := hfollowed hleft
  refine ⟨h.ordered, fun r hr => ?_, h.passed, h.hasMore⟩
  obtain ⟨hmem, -, hlevel⟩ := h.wanted r hr
  exact ⟨hmem, hlevel⟩

/-- Three records in a ring of two: the first is gone, and the second of the others is left for another page. -/
theorem paging_spec_evicted :
    ∃ s, s = Run.exec (step "info") (start 2 1) [.append 10 "info" [] [65] .null, .append 11 "error" [] [66] .null,
      .append 12 "info" [] [67] .null, .read 1] ∧ s.delivered.map LogRecord.sequence = [2] ∧
      (∀ r ∈ s.appended, LogLevel.info.rank ≤ r.level.rank → r.sequence < s.cursor → ∃ read ∈ s.reads, read.passes r ∧
        (r ∈ read.page.records ∨ read.evicted r ∧ read.page.droppedBeforeCursor = true)) :=
  ⟨_, rfl, rfl, (paging_spec 2 1 "info" _ rfl rfl).2.2.1 .info rfl⟩

end Paging

end Didi.Log
