import Didi.Log.Paging

/-!
# What a page says of everything that was appended

* `Output` : a ring with all that was ever appended to it;
* `Output.Kept` : the records of the ring are the last of them, in the order of their numbers;
* `Kept.page_covers` : of the records from its cursor on, a page has each one below its next cursor, and all of them
  when it is the last, or the record is gone and the page says that some are.
-/

namespace Didi.Log

/-- The arguments of an append. -/
structure Line where
  nowMs : Int
  level : String
  source : Bytes
  message : Bytes
  details : Json := .null

/-- A ring, and the records that were appended to it. -/
structure Output where
  ring : RuntimeLogRing
  appended : List LogRecord := []

namespace Output

def append (o : Output) (line : Line) : Output :=
  match o.ring.append line.nowMs line.level line.source line.message line.details with
  | (.error _, ring) => { o with ring }
  | (.ok _, ring) => { ring, appended := o.appended ++ ring.records.getLast?.toList }

/-- What holds of a ring at all times, also when its numbers have run out. -/
structure Kept (o : Output) : Prop where
  capacity : 1 ≤ o.ring.capacity
  first : 1 ≤ o.ring.firstSequence
  fromFirst : ∀ r ∈ o.appended, o.ring.firstSequence ≤ r.sequence
  sorted : o.appended.Pairwise fun r r' => r.sequence < r'.sequence
  split : ∃ gone, o.appended = gone ++ o.ring.records ∧ (o.ring.records = [] → gone = [])
  below : ∀ r ∈ o.appended, r.sequence ≤ kMaxSequence
  next : o.ring.exhausted = false → o.ring.nextSequence ≤ kMaxSequence ∧
    o.ring.firstSequence ≤ o.ring.nextSequence ∧ ∀ r ∈ o.appended, r.sequence < o.ring.nextSequence

variable {o : Output} {r : LogRecord}

theorem kept_create (capacity : Nat) (firstSequence : UInt64) :
    Kept { ring := RuntimeLogRing.create capacity firstSequence } := by
  have hfirst := RuntimeLogRing.create_first capacity firstSequence
  exact ⟨le_max_left _ _, hfirst.1, by simp, List.Pairwise.nil, ⟨[], rfl, fun _ => rfl⟩, by simp,
    fun _ => ⟨hfirst.2, le_rfl, by simp⟩⟩

/-- A record with the next number goes to the end, and older ones may go. -/
theorem Kept.push (h : o.Kept) (hleft : o.ring.exhausted = false) {record : LogRecord}
    (hrecord : record.sequence = o.ring.nextSequence) (next : Nat) (exhausted : Bool)
    (hnext : exhausted = false → next = o.ring.nextSequence + 1 ∧ next ≤ kMaxSequence) :
    Kept { ring := { o.ring with nextSequence := next, exhausted, records := o.ring.records ++ [record] }.evict
           appended := o.appended ++ [record] } := by
  obtain ⟨hroom, hstart, hbelow⟩ := h.next hleft
  obtain ⟨gone, hgone, hempty⟩ := h.split
  have hcapacity := h.capacity
  refine ⟨h.capacity, h.first, ?_, ?_, ?_, ?_, fun hleft' => ⟨(hnext hleft').2, ?_, ?_⟩⟩
  · intro r hr
    rcases List.mem_append.mp hr with hr | hr
    · exact h.fromFirst r hr
    · rw [List.mem_singleton.mp hr, hrecord]
      exact hstart
  · refine List.pairwise_append.mpr ⟨h.sorted, List.pairwise_singleton _ _, fun r hr r' hr' => ?_⟩
    rw [List.mem_singleton.mp hr', hrecord]
    exact hbelow r hr
  · obtain ⟨k, hk⟩ : ∃ k, k = (o.ring.records ++ [record]).length - o.ring.capacity := ⟨_, rfl⟩
    refine ⟨gone ++ (o.ring.records ++ [record]).take k, ?_, ?_⟩
    · show o.appended ++ [record] = _ ++ (o.ring.records ++ [record]).drop _
      rw [← hk, List.append_assoc, List.take_append_drop, hgone, List.append_assoc]
    · intro hnone
      -- there is room for one record at least
      have hnone : (o.ring.records ++ [record]).drop ((o.ring.records ++ [record]).length - o.ring.capacity) = [] := hnone
      rw [List.drop_eq_nil_iff, List.length_append, List.length_singleton] at hnone
      omega
  · intro r hr
    rcases List.mem_append.mp hr with hr | hr
    · exact h.below r hr
    · rw [List.mem_singleton.mp hr, hrecord]
      exact hroom
  · show o.ring.firstSequence ≤ next
    have := (hnext hleft').1
    omega
  · intro r hr
    show r.sequence < next
    have hsucc := (hnext hleft').1
    rcases List.mem_append.mp hr with hr | hr
    · have := hbelow r hr
      omega
    · rw [List.mem_singleton.mp hr, hrecord]
      omega

/-- An append adds nothing, or one record. -/
theorem Kept.append (h : o.Kept) (line : Line) :
    (o.append line).Kept ∧ ∃ more, (o.append line).appended = o.appended ++ more := by
  unfold Output.append RuntimeLogRing.append
  cases hlevel : LogLevel.ofString line.level with
  | none => exact ⟨h, [], (List.append_nil _).symm⟩
  | some level =>
    by_cases hleft : o.ring.exhausted = true
    · dsimp only
      rw [if_pos hleft]
      exact ⟨h, [], (List.append_nil _).symm⟩
    · have hleft : o.ring.exhausted = false := by simpa using hleft
      have hroom := (h.next hleft).1
      have hcapacity := h.capacity
      dsimp only
      rw [if_neg (by rw [hleft]; exact Bool.false_ne_true)]
      obtain ⟨record, hrecord⟩ : ∃ record, record = o.ring.recordOf line.nowMs level line.source line.message
        line.details := ⟨_, rfl⟩
      have hsequence : record.sequence = o.ring.nextSequence := by rw [hrecord]; rfl
      have hlast : ((o.ring.records ++ [record]).drop ((o.ring.records ++ [record]).length -
          o.ring.capacity)).getLast? = some record := by
        rw [List.getLast?_drop, if_neg]
        · simp
        · simp
          omega
      rw [← hrecord]
      by_cases hmax : o.ring.nextSequence = kMaxSequence
      · rw [if_pos hmax]
        have hkept := h.push hleft hsequence o.ring.nextSequence true (fun h => by cases h)
        refine ⟨?_, [record], ?_⟩
        · simpa only [RuntimeLogRing.evict, hlast, Option.toList_some] using hkept
        · simp only [RuntimeLogRing.evict, hlast, Option.toList_some]
      · rw [if_neg hmax]
        have hkept := h.push hleft hsequence (o.ring.nextSequence + 1) o.ring.exhausted
          fun _ => ⟨rfl, by omega⟩
        refine ⟨?_, [record], ?_⟩
        · simpa only [RuntimeLogRing.evict, hlast, Option.toList_some] using hkept
        · simp only [RuntimeLogRing.evict, hlast, Option.toList_some]

/-! ## Many lines -/

/-- The record of a line, with a number. -/
def record (line : Line) (sequence : Nat) : LogRecord :=
  ({ capacity := 0, firstSequence := 0, nextSequence := sequence } : RuntimeLogRing).recordOf line.nowMs
    ((LogLevel.ofString line.level).getD .debug) line.source line.message line.details

def recordsFrom : Nat → List Line → List LogRecord
  | _, [] => []
  | sequence, line :: lines => record line sequence :: recordsFrom (sequence + 1) lines

/-- The last ones that a ring has room for. -/
def lastOf (capacity : Nat) (records : List LogRecord) : List LogRecord := records.drop (records.length - capacity)

theorem lastOf_append {capacity : Nat} (h : 1 ≤ capacity) (records : List LogRecord) (r : LogRecord) :
    lastOf capacity (lastOf capacity records ++ [r]) = lastOf capacity (records ++ [r]) := by
  unfold lastOf
  have hlength : (records.drop (records.length - capacity) ++ [r]).length - capacity ≤
      (records.drop (records.length - capacity)).length := by
    rw [List.length_append, List.length_drop, List.length_singleton]
    omega
  rw [List.drop_append_of_le_length hlength, List.drop_drop, List.drop_append_of_le_length (by simp; omega),
    List.length_append, List.length_append, List.length_drop, List.length_singleton]
  congr 2
  omega

/-- An output after more lines: the ring holds the last of all that were appended. -/
def after (o : Output) (lines : List Line) : Output where
  ring := { o.ring with
    nextSequence := o.ring.nextSequence + lines.length
    records := lastOf o.ring.capacity (o.appended ++ recordsFrom o.ring.nextSequence lines) }
  appended := o.appended ++ recordsFrom o.ring.nextSequence lines

theorem after_records (o : Output) (lines : List Line) :
    (o.after lines).ring.records = lastOf (o.after lines).ring.capacity (o.after lines).appended := rfl

@[simp] theorem length_recordsFrom (sequence : Nat) (lines : List Line) :
    (recordsFrom sequence lines).length = lines.length := by
  induction lines generalizing sequence with
  | nil => rfl
  | cons line lines ih => exact congrArg (· + 1) (ih _)

theorem record_mem_recordsFrom (sequence : Nat) {lines : List Line} {line : Line} (h : line ∈ lines) :
    ∃ n, record line n ∈ recordsFrom sequence lines := by
  induction lines generalizing sequence with
  | nil => cases h
  | cons first lines ih =>
    rcases List.mem_cons.mp h with rfl | h
    · exact ⟨sequence, List.mem_cons_self⟩
    · obtain ⟨n, hn⟩ := ih (sequence + 1) h
      exact ⟨n, List.mem_cons_of_mem _ hn⟩

theorem mem_recordsFrom {sequence : Nat} {lines : List Line} (h : r ∈ recordsFrom sequence lines) :
    ∃ line ∈ lines, ∃ n, r = record line n := by
  induction lines generalizing sequence with
  | nil => cases h
  | cons line lines ih =>
    rcases List.mem_cons.mp h with rfl | h
    · exact ⟨line, List.mem_cons_self, sequence, rfl⟩
    · obtain ⟨line', hmem, hline⟩ := ih h
      exact ⟨line', List.mem_cons_of_mem _ hmem, hline⟩

/-- As many lines as the ring has room for leave nothing of what it held. -/
theorem after_full {lines : List Line} (h : lines.length = o.ring.capacity) :
    (o.after lines).ring.records = recordsFrom o.ring.nextSequence lines := by
  show lastOf o.ring.capacity (o.appended ++ recordsFrom o.ring.nextSequence lines) = _
  rw [lastOf, List.length_append, length_recordsFrom, h, Nat.add_sub_cancel, List.drop_left]

theorem append_eq {line : Line} (hlevel : LogLevel.ofString line.level ≠ none) (hleft : o.ring.exhausted = false)
    (hcapacity : 1 ≤ o.ring.capacity) (hroom : o.ring.nextSequence < kMaxSequence)
    (hring : o.ring.records = lastOf o.ring.capacity o.appended) : o.append line = o.after [line] := by
  obtain ⟨level, hlevel⟩ := Option.ne_none_iff_exists'.mp hlevel
  have hrecord : o.ring.recordOf line.nowMs level line.source line.message line.details =
      record line o.ring.nextSequence := by
    unfold record
    rw [hlevel]
    rfl
  have hlast : ((o.ring.records ++ [record line o.ring.nextSequence]).drop
      ((o.ring.records ++ [record line o.ring.nextSequence]).length - o.ring.capacity)).getLast? =
        some (record line o.ring.nextSequence) := by
    rw [List.getLast?_drop, if_neg]
    · simp
    · simp
      omega
  unfold Output.append RuntimeLogRing.append
  rw [hlevel]
  dsimp only
  rw [hleft, if_neg Bool.false_ne_true, if_neg (by omega), hrecord]
  simp only [RuntimeLogRing.evict, hlast, Option.toList_some]
  rw [hring, ← lastOf, lastOf_append hcapacity]
  unfold after
  simp only [hleft]
  rfl

theorem foldl_append_eq {lines : List Line} (hlevels : ∀ line ∈ lines, LogLevel.ofString line.level ≠ none)
    (hleft : o.ring.exhausted = false) (hcapacity : 1 ≤ o.ring.capacity)
    (hroom : o.ring.nextSequence + lines.length ≤ kMaxSequence)
    (hring : o.ring.records = lastOf o.ring.capacity o.appended) : lines.foldl Output.append o = o.after lines := by
  induction lines generalizing o with
  | nil =>
    unfold after
    rw [recordsFrom, List.append_nil, ← hring]
    rfl
  | cons line lines ih =>
    obtain ⟨hlevel, hlevels⟩ := List.forall_mem_cons.mp hlevels
    rw [List.length_cons] at hroom
    rw [List.foldl_cons, append_eq hlevel hleft hcapacity (by omega) hring, ih (o := o.after [line]) hlevels
      hleft hcapacity (by show o.ring.nextSequence + 1 + lines.length ≤ _; omega) rfl]
    unfold after
    simp only [recordsFrom, List.append_assoc, List.singleton_append, List.length_cons, List.length_nil]
    rw [show o.ring.nextSequence + (0 + 1) + lines.length = o.ring.nextSequence + (lines.length + 1) by omega]

/-! ## A page -/

/-- A walk along records that all count inspects the first of them. -/
theorem walkPage_inspects {start limit : Nat} {minimum : LogLevel} {record : LogRecord} {records : List LogRecord}
    (h : ∀ r ∈ record :: records, start ≤ r.sequence) (w : PageWalk) :
    (walkPage start limit minimum (record :: records) w).lastInspected ≠ none := by
  have hrest : ∀ r ∈ records, start ≤ r.sequence := fun r hr => h r (List.mem_cons_of_mem _ hr)
  have hkeeps : ∀ w : PageWalk, w.lastInspected ≠ none →
      (walkPage start limit minimum records w).lastInspected ≠ none := by
    intro w hw
    obtain ⟨inspected, -, -, hwalked⟩ := @walkPage_spec start limit minimum records hrest w
    rw [hwalked.lastInspected]
    simp [hw]
  rw [walkPage, if_neg (Nat.not_lt.mpr (h record List.mem_cons_self))]
  dsimp only
  split_ifs
  · exact hkeeps _ (fun h => by cases h)
  · exact fun h => by cases h
  · exact hkeeps _ (fun h => by cases h)

theorem reaches_of_mem {ring : RuntimeLogRing} (hsorted : ring.records.Pairwise fun r r' => r.sequence < r'.sequence)
    (hr : r ∈ ring.records) {n : Nat} (hn : n ≤ r.sequence) : ring.reaches n = true := by
  obtain ⟨last, hlast⟩ : ∃ last, ring.records.getLast? = some last :=
    ⟨_, List.getLast?_eq_some_getLast (List.ne_nil_of_mem hr)⟩
  obtain ⟨before, hbefore⟩ := List.getLast?_eq_some_iff.mp hlast
  rw [hbefore] at hsorted hr
  have hle : r.sequence ≤ last.sequence := by
    rcases List.mem_append.mp hr with hr | hr
    · exact ((List.pairwise_append.mp hsorted).2.2 r hr last (List.mem_singleton_self _)).le
    · rw [List.mem_singleton.mp hr]
  simp only [RuntimeLogRing.reaches, hlast, Option.any_some, decide_eq_true_eq]
  omega

theorem exists_of_reaches {ring : RuntimeLogRing} {n : Nat} (h : ring.reaches n = true) :
    ∃ r ∈ ring.records, n ≤ r.sequence := by
  obtain ⟨r, hlast, hr⟩ := (Option.any_eq_true _ _).mp h
  exact ⟨r, List.mem_of_getLast? hlast, by simpa using hr⟩

/-- What one page says of the records from its cursor on. -/
structure Covers (o : Output) (cursor : Nat) (minimum : LogLevel) (page : LogPage) : Prop where
  wanted : ∀ r ∈ page.records, r ∈ o.appended ∧ minimum.rank ≤ r.level.rank
  covers : ∀ r ∈ o.appended, minimum.rank ≤ r.level.rank → o.ring.requested cursor ≤ r.sequence →
    (r.sequence < page.nextCursor ∨ page.hasMore = false) →
    r ∈ page.records ∨ r ∉ o.ring.records ∧ page.droppedBeforeCursor = true
  more : page.hasMore = true → ∃ last ∈ o.appended, o.ring.requested cursor ≤ last.sequence ∧
    page.nextCursor = last.sequence + 1 ∧ last.sequence < kMaxSequence

theorem Kept.oldest_le (h : o.Kept) (hr : r ∈ o.ring.records) : o.ring.oldest ≤ r.sequence := by
  obtain ⟨gone, hgone, -⟩ := h.split
  have hsorted := h.sorted
  rw [hgone] at hsorted
  have hsorted := (List.pairwise_append.mp hsorted).2.1
  cases hrecords : o.ring.records with
  | nil =>
    rw [hrecords] at hr
    cases hr
  | cons first records =>
    rw [RuntimeLogRing.oldest_of_ne_nil hrecords]
    rw [hrecords] at hr hsorted
    rcases List.mem_cons.mp hr with rfl | hr
    · exact le_rfl
    · exact ((List.pairwise_cons.mp hsorted).1 r hr).le

/-- What is gone is older than what the ring holds. -/
theorem Kept.gone (h : o.Kept) (hr : r ∈ o.appended) (hgone : r ∉ o.ring.records) :
    o.ring.records ≠ [] ∧ r.sequence < o.ring.oldest := by
  obtain ⟨gone, hsplit, hempty⟩ := h.split
  rw [hsplit] at hr
  have hmem := (List.mem_append.mp hr).resolve_right hgone
  have hne : o.ring.records ≠ [] := fun hnone => by
    rw [hempty hnone] at hmem
    cases hmem
  obtain ⟨first, records, hrecords⟩ := List.exists_cons_of_ne_nil hne
  refine ⟨hne, ?_⟩
  have hsorted := h.sorted
  rw [hsplit] at hsorted
  rw [RuntimeLogRing.oldest_of_ne_nil hrecords]
  exact (List.pairwise_append.mp hsorted).2.2 r hmem first (hrecords ▸ List.mem_cons_self)

/-- **A page covers the records from its cursor on, or says that some are gone.** -/
theorem Kept.page_covers (h : o.Kept) {cursor limit : Nat} {minimumLevel : String} {page : LogPage}
    (hread : o.ring.read cursor limit minimumLevel = .ok page) :
    ∃ minimum, LogLevel.ofString minimumLevel = some minimum ∧ o.Covers cursor minimum page := by
  unfold RuntimeLogRing.read at hread
  split_ifs at hread
  split at hread
  · cases hread
  · rename_i minimum hlevel
    refine ⟨minimum, hlevel, ?_⟩
    obtain ⟨start, hstart⟩ : ∃ n, max (o.ring.requested cursor) o.ring.oldest = n := ⟨_, rfl⟩
    obtain ⟨gone, hgone, -⟩ := h.split
    have hheld : ∀ r ∈ o.ring.records, r ∈ o.appended := fun r hr => by
      rw [hgone]
      exact List.mem_append_right _ hr
    have hsorted := h.sorted
    rw [hgone] at hsorted
    have hsorted := (List.pairwise_append.mp hsorted).2.1
    have hcounts : ∀ r ∈ o.ring.records.filter fun r => start ≤ r.sequence, start ≤ r.sequence := fun r hr => by
      simpa using (List.mem_filter.mp hr).2
    obtain ⟨inspected, rest, hsplit, hwalked⟩ :=
      @walkPage_spec start limit minimum _ hcounts { nextCursor := start }
    have hinspects : inspected = [] → rest = [] := by
      rintro rfl
      cases rest with
      | nil => rfl
      | cons record rest =>
        rw [List.nil_append] at hsplit
        rw [hsplit] at hwalked hcounts
        exact absurd hwalked.lastInspected (walkPage_inspects hcounts _)
    rw [← walkPage_filter] at hwalked
    have hordered : (inspected ++ rest).Pairwise fun r r' => r.sequence < r'.sequence := by
      rw [← hsplit]
      exact hsorted.filter _
    have hmem : ∀ r, r ∈ inspected ++ rest ↔ r ∈ o.ring.records ∧ start ≤ r.sequence := by
      intro r
      rw [← hsplit, List.mem_filter, decide_eq_true_eq]
    dsimp only at hread
    rw [hstart] at hread
    obtain ⟨w, hw⟩ : ∃ w, walkPage start limit minimum o.ring.records { nextCursor := start } = w := ⟨_, rfl⟩
    rw [hw] at hread hwalked
    cases hread
    refine ⟨?_, ?_, ?_⟩
    · intro r hr
      have hr : r ∈ w.records := hr
      rw [hwalked.records, List.nil_append, List.mem_filter, decide_eq_true_eq] at hr
      exact ⟨hheld r ((hmem r).mp (List.mem_append_left _ hr.1)).1, hr.2⟩
    · intro r hr hrank hcursor hbelow
      have hbelow : r.sequence < w.nextCursor ∨ o.ring.holdsMore start w = false := hbelow
      by_cases hring : r ∈ o.ring.records
      · refine .inl ?_
        have hold := h.oldest_le hring
        have hfrom : start ≤ r.sequence := by omega
        show r ∈ w.records
        rw [hwalked.records, List.nil_append, List.mem_filter, decide_eq_true_eq]
        refine ⟨?_, hrank⟩
        rcases List.mem_append.mp ((hmem r).mpr ⟨hring, hfrom⟩) with hr | hr
        · exact hr
        · -- a record after the last one inspected is left for another page
          exfalso
          have hne : inspected ≠ [] := fun hnone => by
            rw [hinspects hnone] at hr
            cases hr
          obtain ⟨last, hlast⟩ : ∃ last, inspected.getLast? = some last := ⟨_, List.getLast?_eq_some_getLast hne⟩
          have hafter : last.sequence < r.sequence :=
            (List.pairwise_append.mp hordered).2.2 last (List.mem_of_getLast? hlast) r hr
          have hmax := h.below r (hheld r hring)
          have hnext := hwalked.nextCursor last hlast (by omega)
          have hmore : o.ring.holdsMore start w = true := by
            unfold RuntimeLogRing.holdsMore
            rw [hwalked.lastInspected, hlast]
            exact reaches_of_mem hsorted hring hafter
          rcases hbelow with hbelow | hbelow
          · omega
          · rw [hmore] at hbelow
            cases hbelow
      · obtain ⟨hne, holdest⟩ := h.gone hr hring
        refine .inr ⟨hring, ?_⟩
        show (!o.ring.records.isEmpty && decide (o.ring.requested cursor < o.ring.oldest)) = true
        simp [hne]
        omega
    · intro hmore
      have hmore : o.ring.holdsMore start w = true := hmore
      show ∃ last ∈ o.appended, _ ∧ w.nextCursor = last.sequence + 1 ∧ _
      unfold RuntimeLogRing.holdsMore at hmore
      rw [hwalked.lastInspected] at hmore
      cases hlast : inspected.getLast? with
      | none =>
        have hnone := List.getLast?_eq_none_iff.mp hlast
        rw [hlast] at hmore
        obtain ⟨r, hr, hfrom⟩ := exists_of_reaches hmore
        have hin := (hmem r).mpr ⟨hr, hfrom⟩
        rw [hnone, hinspects hnone] at hin
        cases hin
      | some last =>
        rw [hlast] at hmore
        obtain ⟨r, hr, hafter⟩ := exists_of_reaches hmore
        have hmax := h.below r (hheld r hr)
        obtain ⟨hring, hfrom⟩ := (hmem last).mp (List.mem_append_left _ (List.mem_of_getLast? hlast))
        exact ⟨last, hheld last hring, by omega, hwalked.nextCursor last hlast (by omega), by omega⟩

/-! ## A page of a ring whose records all count -/

theorem walkPage_full {start limit : Nat} {minimum : LogLevel} {records : List LogRecord}
    (hstart : ∀ r ∈ records, start ≤ r.sequence) (hlevel : ∀ r ∈ records, minimum.rank ≤ r.level.rank) (w : PageWalk)
    (hroom : w.records.length < limit) :
    Walked minimum w (walkPage start limit minimum records w) (records.take (limit - w.records.length)) := by
  induction records generalizing w with
  | nil =>
    rw [List.take_nil]
    exact ⟨by simp [walkPage], rfl, fun _ => rfl, nofun⟩
  | cons record records ih =>
    obtain ⟨hfrom, hstart⟩ := List.forall_mem_cons.mp hstart
    obtain ⟨hrank, hlevel⟩ := List.forall_mem_cons.mp hlevel
    have hlength : ((w.inspect record).push record).records.length = w.records.length + 1 := by
      show (w.records ++ [record]).length = _
      simp
    rw [walkPage, if_neg (Nat.not_lt.mpr hfrom)]
    dsimp only
    rw [if_neg (Nat.not_lt.mpr hrank)]
    split_ifs with hfull
    · rw [show limit - w.records.length = 1 by omega]
      exact walked_push (Nat.not_lt.mpr hrank)
    · have hrest := ih hstart hlevel ((w.inspect record).push record) (by omega)
      rw [hlength] at hrest
      rw [show limit - w.records.length = (limit - (w.records.length + 1)) + 1 by omega, List.take_succ_cons]
      exact (walked_push (Nat.not_lt.mpr hrank)).cons hrest

theorem read_full {ring : RuntimeLogRing} {cursor limit : Nat} {minimumLevel : String} {minimum : LogLevel}
    {last : LogRecord} (hminimum : LogLevel.ofString minimumLevel = some minimum)
    (hlevel : ∀ r ∈ ring.records, minimum.rank ≤ r.level.rank) (hlimit : 1 ≤ limit ∧ limit ≤ 500)
    (hlast : ((ring.records.filter fun r => max (ring.requested cursor) ring.oldest ≤ r.sequence).take
      limit).getLast? = some last) (hmax : last.sequence ≠ kMaxSequence) :
    ∃ page, ring.read cursor limit minimumLevel = .ok page ∧ (∀ r ∈ page.records, r ∈ (ring.records.filter fun r =>
      max (ring.requested cursor) ring.oldest ≤ r.sequence).take limit) ∧ page.nextCursor = last.sequence + 1 ∧
      page.hasMore = ring.reaches (last.sequence + 1) ∧
      page.droppedBeforeCursor = (!ring.records.isEmpty && ring.requested cursor < ring.oldest) := by
  obtain ⟨start, hstart⟩ : ∃ n, max (ring.requested cursor) ring.oldest = n := ⟨_, rfl⟩
  rw [hstart] at hlast ⊢
  have hwalked := @walkPage_full start limit minimum (ring.records.filter fun r => start ≤ r.sequence)
    (fun r hr => by simpa using (List.mem_filter.mp hr).2) (fun r hr => hlevel r (List.mem_filter.mp hr).1)
    { nextCursor := start } hlimit.1
  rw [← walkPage_filter] at hwalked
  unfold RuntimeLogRing.read
  rw [if_neg (by simp; omega), hminimum]
  dsimp only
  rw [hstart]
  refine ⟨_, rfl, ?_, hwalked.nextCursor last hlast hmax, ?_, rfl⟩
  · intro r hr
    have hr : r ∈ (walkPage start limit minimum ring.records { nextCursor := start }).records := hr
    rw [hwalked.records, List.nil_append] at hr
    exact (List.mem_filter.mp hr).1
  · show ring.holdsMore start _ = _
    unfold RuntimeLogRing.holdsMore
    have hinspected := hwalked.lastInspected
    rw [show limit - ({ nextCursor := start } : PageWalk).records.length = limit from rfl, hlast] at hinspected
    rw [hinspected]
    rfl

end Output

end Didi.Log
