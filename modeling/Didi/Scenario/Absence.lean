import Didi.Log.Output
import Didi.Scenario.Run
import Didi.Scenario.Steps

/-!
# An absence in the output

* `Log.LogPage.json` : the page of a ring as a JSON document;
* `Game` : a game that prints lines into its ring while the output is read page by page;
* `Game.driver` : the driver of a scenario on that game;
* `readPage_json` : what a step reads from the page of a ring;
* `Skipped` : a page after the first passed over a record that was gone;
* `readPages_skipped` : when the pages end without a match, every record that matches was skipped;
* `held_absent_iff` : an absence that is held was one exactly when no page after the first skipped such a record.
-/

namespace Didi.Log

/-! ## The document of a page -/

/-- The characters of a text, after the `skip` bytes that belong to the last one. -/
def charsFrom : Bytes → Nat → List Char
  | [], _ => []
  | _ :: rest, skip + 1 => charsFrom rest skip
  | byte :: rest, 0 =>
    match utf8Lead byte with
    | none => '?' :: charsFrom rest 0
    | some (width, lead) =>
      let codepoint := (rest.take (width - 1)).foldl
        (fun codepoint next => codepoint * 64 + (next &&& 0x3F).toNat) lead
      Char.ofNat codepoint :: charsFrom rest (width - 1)

def textOf (bytes : Bytes) : String := String.ofList (charsFrom bytes 0)

def LogLevel.name : LogLevel → String
  | .debug => "debug"
  | .info => "info"
  | .warning => "warning"
  | .error => "error"

/-- The text of the message of a record. -/
def LogRecord.text (record : LogRecord) : String := textOf record.message

def LogRecord.json (record : LogRecord) : Json :=
  .object ([("details", record.details), ("level", .string record.level.name), ("message", .string record.text)] ++
    (if record.clipped then [("message_truncated", .boolean true)] else []) ++
    [("sequence", .integer record.sequence), ("source", .string (textOf record.source)),
      ("timestamp_ms", .integer record.timestampMs)])

/-- A page of the engine's output. -/
def LogPage.json (page : LogPage) : Json :=
  .object [("dropped_before_cursor", .boolean page.droppedBeforeCursor), ("execution_mode", .string "live"),
    ("has_more", .boolean page.hasMore), ("next_cursor", .integer page.nextCursor),
    ("oldest_cursor", .integer page.oldestCursor), ("records", .array (page.records.map LogRecord.json)),
    ("sequence_overflowed", .boolean page.sequenceOverflowed), ("stream", .string "engine"),
    ("truncated", .boolean page.truncated)]

end Didi.Log

namespace Didi.Scenario
open Locked RunM Log Log.Output

/-! ## The game -/

/-- A game that prints the lines `lines k` before the read `k` of its output and after the one before. -/
structure Game where
  capacity : Nat
  firstSequence : UInt64 := 1
  lines : Nat → List Line
  -- the game in everything but its output
  other : Driver

/-- The output of the game when it is read for the time `k`. -/
def Game.output (game : Game) : Nat → Output
  | 0 => (game.lines 0).foldl Output.append { ring := RuntimeLogRing.create game.capacity game.firstSequence }
  | k + 1 => (game.lines (k + 1)).foldl Output.append (game.output k)

def Event.isRead : Event → Bool
  | .called _ (.readOutput _ _) _ => true
  | _ => false

/-- How often the output has been read. -/
def readsOf (events : List Event) : Nat := events.countP Event.isRead

def kOutputLimit : Nat := 500

/-- `runtime.getOutput`. -/
def getOutput (ring : RuntimeLogRing) (cursor : Nat) (minimumLevel : String) : Reply :=
  if 2 ^ 63 ≤ cursor then
    .refused { code := 400, message := "Invalid runtime output request: cursor must be a non-negative integer" }
  else
    match LogLevel.ofString minimumLevel with
    | none => .refused { code := 400, message :=
      "Invalid runtime output request: minimum_level must be debug, info, " ++
        "warning, or error" }
    | some _ =>
      match ring.read cursor kOutputLimit minimumLevel with
      | .error e => .refused e
      | .ok page => .answer page.json

def Game.driver (game : Game) : Driver where
  reply events
    | .readOutput cursor minimumLevel => getOutput (game.output (readsOf events)).ring cursor minimumLevel
    | c => game.other.reply events c
  cancelled := game.other.cancelled
  elapsedMs := game.other.elapsedMs

/-! ## What a step looks for -/

/-- The level from which on a step looks at records. -/
def ScenarioStep.minimumLevel (step : ScenarioStep) : String := if step.level = "" then "debug" else step.level

/-- A record at the step's level or above that holds its text. -/
def Matches (step : ScenarioStep) (record : LogRecord) : Prop :=
  (∃ minimum, LogLevel.ofString step.minimumLevel = some minimum ∧ minimum.rank ≤ record.level.rank) ∧
    (step.text = "" ∨ contains record.text step.text)

/-- The read `k` of the output asked for it from `cursor` on. -/
def ReadFrom (events : List Event) (k cursor : Nat) : Prop :=
  ∃ before after step level reply,
    events = before ++ .called step (.readOutput cursor level) reply :: after ∧ readsOf before = k

/-! ## One page -/

theorem findMatch_json (step : ScenarioStep) (records : List LogRecord) :
    ∃ matched, findMatch step (records.map LogRecord.json) = .ok matched ∧
      (matched = none ↔ ∀ r ∈ records, ¬ (step.text = "" ∨ contains r.text step.text)) := by
  induction records with
  | nil => exact ⟨none, rfl, by simp⟩
  | cons record records ih =>
    have hmessage : record.json.valueString "message" "" = .ok record.text := rfl
    have hlevel : record.json.valueString "level" "" = .ok record.level.name := rfl
    have hsequence : Json.value "sequence" .null record.json = .ok (.integer record.sequence) := by
      unfold LogRecord.json
      split_ifs <;> rfl
    rw [List.map_cons, findMatch, hmessage]
    by_cases hmatch : step.text = "" ∨ contains record.text step.text = true
    · refine ⟨some (.object [("level", .string record.level.name), ("message", .string (shorten 240 237 record.text)),
        ("sequence", .integer record.sequence)]), Except.bind_eq_ok.mpr ⟨_, rfl, ?_⟩, nofun,
        fun h => absurd hmatch (h record List.mem_cons_self)⟩
      rw [if_pos hmatch, hlevel, hsequence]
      rfl
    · obtain ⟨matched, hfound, hnone⟩ := ih
      refine ⟨matched, Except.bind_eq_ok.mpr ⟨_, rfl, ?_⟩, by rw [List.forall_mem_cons, hnone, and_iff_right hmatch]⟩
      rw [if_neg hmatch]
      exact hfound

theorem readPage_json (step : ScenarioStep) (first : Bool) (cursor : Nat) (page : LogPage) :
    ∃ reading, readPage step first cursor page.json = .ok reading ∧
      reading.dropped = (first && page.droppedBeforeCursor) ∧
      (reading.matched = none ↔ ∀ r ∈ page.records, ¬ (step.text = "" ∨ contains r.text step.text)) ∧
      (reading.matched = none → reading.next = page.nextCursor % 2 ^ 64 ∧
        reading.complete = (!page.hasMore || decide (reading.next ≤ cursor))) := by
  have hdropped : (if first then page.json.valueBoolean "dropped_before_cursor" false else pure false) =
      .ok (first && page.droppedBeforeCursor) := by
    cases first <;> rfl
  have hrecords : Json.value "records" (.array []) page.json = .ok (.array (page.records.map LogRecord.json)) := rfl
  have hnext : page.json.valueBy getUnsigned "next_cursor" cursor = .ok (page.nextCursor % 2 ^ 64) := by
    show Except.ok (((page.nextCursor : Int) % 2 ^ 64).toNat) = _
    congr 1
  have hmore : page.json.valueBoolean "has_more" false = .ok page.hasMore := rfl
  obtain ⟨matched, hfound, hnone⟩ := findMatch_json step page.records
  unfold readPage
  rw [hdropped, hrecords]
  cases matched with
  | some matched =>
    refine ⟨{ dropped := first && page.droppedBeforeCursor, matched := some matched, next := cursor }, ?_, rfl, ?_,
      nofun⟩
    · exact Except.bind_eq_ok.mpr ⟨_, rfl, Except.bind_eq_ok.mpr ⟨_, rfl, Except.bind_eq_ok.mpr ⟨_, hfound, rfl⟩⟩⟩
    · rw [← hnone]
  | none =>
    refine ⟨{ dropped := first && page.droppedBeforeCursor, matched := none, next := page.nextCursor % 2 ^ 64
              complete := !page.hasMore || decide (page.nextCursor % 2 ^ 64 ≤ cursor) }, ?_, rfl,
      hnone, fun _ => ⟨rfl, rfl⟩⟩
    refine Except.bind_eq_ok.mpr ⟨_, rfl, Except.bind_eq_ok.mpr ⟨_, rfl, Except.bind_eq_ok.mpr ⟨_, hfound, ?_⟩⟩⟩
    dsimp only
    rw [hnext, hmore]
    rfl

/-! ## The output between two reads -/

theorem kept_foldl {o : Output} (h : o.Kept) (lines : List Line) :
    (lines.foldl Output.append o).Kept ∧ ∃ more, (lines.foldl Output.append o).appended = o.appended ++ more := by
  induction lines generalizing o with
  | nil => exact ⟨h, [], (List.append_nil _).symm⟩
  | cons line lines ih =>
    obtain ⟨hkept, more, hmore⟩ := h.append line
    obtain ⟨hkept', more', hmore'⟩ := ih hkept
    exact ⟨hkept', more ++ more', by rw [List.foldl_cons, hmore', hmore, List.append_assoc]⟩

variable {game : Game}

theorem kept_output (game : Game) (k : Nat) : (game.output k).Kept := by
  induction k with
  | zero => exact (kept_foldl (Output.kept_create _ _) _).1
  | succ k ih => exact (kept_foldl ih _).1

theorem appended_succ (game : Game) (k : Nat) :
    ∃ more, (game.output (k + 1)).appended = (game.output k).appended ++ more :=
  (kept_foldl (kept_output game k) _).2

theorem appended_mono (game : Game) {k k' : Nat} (h : k ≤ k') {r : LogRecord} (hr : r ∈ (game.output k).appended) :
    r ∈ (game.output k').appended := by
  induction h with
  | refl => exact hr
  | step _ ih =>
    obtain ⟨more, hmore⟩ := appended_succ game _
    rw [hmore]
    exact List.mem_append_left _ ih

/-! ## The pages of a step -/

/-- A read after the first, counted from `base` on, asked for a record that was gone. -/
def Skipped (game : Game) (base : Nat) (events : List Event) (r : LogRecord) : Prop :=
  ∃ k cursor, base < k ∧ ReadFrom events k cursor ∧ r ∈ (game.output k).appended ∧ cursor ≤ r.sequence ∧
    r ∉ (game.output k).ring.records

variable {step : ScenarioStep} {index base : Nat} {s : RunState}

theorem Skipped.push {r : LogRecord} (h : Skipped game base s.events r) (e : Event) :
    Skipped game base (push s e).events r := by
  obtain ⟨k, cursor, hk, ⟨before, after, step, level, reply, hevents, hreads⟩, hr⟩ := h
  refine ⟨k, cursor, hk, ⟨before, after ++ [e], step, level, reply, ?_, hreads⟩, hr⟩
  show s.events ++ [e] = _
  rw [hevents, List.append_assoc, List.cons_append]

theorem readsOf_push (events : List Event) (step : Option Nat) (cursor : Nat) (level : String) (reply : Reply) :
    readsOf (events ++ [.called step (.readOutput cursor level) reply]) = readsOf events + 1 := by
  unfold readsOf
  rw [List.countP_append]
  rfl

theorem requested_of_ne_zero (ring : RuntimeLogRing) {cursor : Nat} (h : cursor ≠ 0) :
    ring.requested cursor = cursor :=
  if_neg h

/-- Of the records before the cursor of the next read, those that match were skipped. -/
def Behind (game : Game) (base : Nat) (step : ScenarioStep) (events : List Event) (cursor : Nat) : Prop :=
  ∀ r ∈ (game.output (readsOf events)).appended, Matches step r →
    r.sequence < (game.output (readsOf events)).ring.requested cursor → Skipped game base events r

/-- A page without a match, read at the state `s` from `cursor` on: what it covers was skipped, or is no match. -/
theorem behind_page {cursor : Nat} {page : LogPage} {reply : Reply} {dropped : Bool}
    (hread : (game.output (readsOf s.events)).ring.read cursor kOutputLimit step.minimumLevel = .ok page)
    (hcursor : cursor = 0 ∨ base < readsOf s.events)
    (hnone : ∀ r ∈ page.records, ¬ (step.text = "" ∨ contains r.text step.text = true))
    (hdropped : dropped = (decide (cursor = 0) && page.droppedBeforeCursor)) (hkept : dropped = false)
    (hbehind : Behind game base step s.events cursor) {r : LogRecord}
    (hr : r ∈ (game.output (readsOf s.events)).appended) (hmatch : Matches step r)
    (hcovered : r.sequence < page.nextCursor ∨ page.hasMore = false) :
    Skipped game base (push s (.called (some index) (.readOutput cursor step.minimumLevel) reply)).events r := by
  obtain ⟨minimum, hminimum, hcovers⟩ := (kept_output game (readsOf s.events)).page_covers hread
  obtain ⟨⟨minimum', hminimum', hrank⟩, htext⟩ := hmatch
  cases hminimum.symm.trans hminimum'
  by_cases hbefore : r.sequence < (game.output (readsOf s.events)).ring.requested cursor
  · exact (hbehind r hr ⟨⟨minimum, hminimum, hrank⟩, htext⟩ hbefore).push _
  · rcases hcovers.covers r hr hrank (Nat.le_of_not_lt hbefore) hcovered with hpage | ⟨hgone, hflag⟩
    · exact absurd htext (hnone r hpage)
    · -- on the first page the gap is seen
      have hlater : cursor ≠ 0 := by
        intro hzero
        rw [hkept, hflag, decide_eq_true hzero] at hdropped
        cases hdropped
      rw [requested_of_ne_zero _ hlater] at hbefore
      exact ⟨readsOf s.events, cursor, hcursor.resolve_left hlater, ⟨s.events, [], _, _, _, rfl, rfl⟩, hr,
        Nat.le_of_not_lt hbefore, hgone⟩

/-- The cursor of a page that is not the last is behind everything that is appended later. -/
theorem behind_next {cursor : Nat} {page : LogPage} {reply : Reply}
    (hread : (game.output (readsOf s.events)).ring.read cursor kOutputLimit step.minimumLevel = .ok page)
    (hmore : page.hasMore = true)
    (hcovers : ∀ r ∈ (game.output (readsOf s.events)).appended, Matches step r → r.sequence < page.nextCursor →
      Skipped game base (push s (.called (some index) (.readOutput cursor step.minimumLevel) reply)).events r) :
    Behind game base step (push s (.called (some index) (.readOutput cursor step.minimumLevel) reply)).events
      page.nextCursor := by
  obtain ⟨minimum, -, hpage⟩ := (kept_output game (readsOf s.events)).page_covers hread
  obtain ⟨last, hlast, -, hnext, -⟩ := hpage.more hmore
  have hreads : readsOf (push s (.called (some index) (.readOutput cursor step.minimumLevel) reply)).events =
      readsOf s.events + 1 := readsOf_push _ _ _ _ _
  intro r hr hmatch hbefore
  rw [hreads] at hr hbefore
  rw [requested_of_ne_zero _ (by omega)] at hbefore
  obtain ⟨more, happended⟩ := appended_succ game (readsOf s.events)
  have hsorted := (kept_output game (readsOf s.events + 1)).sorted
  rw [happended] at hr hsorted
  rcases List.mem_append.mp hr with hr | hr
  · exact hcovers r hr hmatch hbefore
  · have := (List.pairwise_append.mp hsorted).2.2 last hlast r hr
    omega

theorem getOutput_cases (ring : RuntimeLogRing) (cursor : Nat) (level : String) :
    (∃ error, getOutput ring cursor level = .refused error) ∨
      ∃ page, ring.read cursor kOutputLimit level = .ok page ∧ getOutput ring cursor level = .answer page.json := by
  unfold getOutput
  split_ifs
  · exact .inl ⟨_, rfl⟩
  · split
    · exact .inl ⟨_, rfl⟩
    · cases ring.read cursor kOutputLimit level with
      | error e => exact .inl ⟨e, rfl⟩
      | ok page => exact .inr ⟨page, rfl, rfl⟩

/-- A failure is recorded or it is not, and the run goes on. -/
theorem fail_answers (stage : Stage) (step : Option Nat) (reason message : String) (cause : Option Error)
    (s : RunState) : ∃ s', (RunM.fail stage step reason message cause).run s = (.ok (), s') := by
  unfold RunM.fail Locked.run
  dsimp only
  split_ifs
  · exact ⟨_, rfl⟩
  · exact ⟨_, rfl⟩

/-- What the pages of a step leave: an end without a match or a gap that was seen leaves only what was skipped. -/
def Reads (game : Game) (base : Nat) (step : ScenarioStep) (result : Except Thrown (Option OutputReading))
    (s' : RunState) : Prop :=
  ∀ output, result = .ok (some output) → output.matched = none → output.dropped = false → output.complete = true →
    base < readsOf s'.events ∧ ∀ r ∈ (game.output (readsOf s'.events - 1)).appended, Matches step r →
      Skipped game base s'.events r

theorem readPages_skipped (pages cursor : Nat) (dropped : Bool) (hcursor : cursor = 0 ∨ base < readsOf s.events)
    (hbase : base ≤ readsOf s.events) (hbehind : dropped = false → Behind game base step s.events cursor) :
    (readPages game.driver index step step.minimumLevel pages (cursor = 0) cursor dropped).wp
      (Reads game base step) s := by
  induction pages generalizing cursor dropped s with
  | zero =>
    refine wp_pure fun output houtput _ _ hcomplete => ?_
    cases houtput
    cases hcomplete
  | succ pages ih =>
    unfold readPages
    obtain ⟨reply, hreply⟩ :
        ∃ reply, getOutput (game.output (readsOf s.events)).ring cursor step.minimumLevel = reply :=
      ⟨_, rfl⟩
    obtain ⟨s₁, hs₁⟩ : ∃ s₁, push s (.called (some index) (.readOutput cursor step.minimumLevel) reply) = s₁ :=
      ⟨_, rfl⟩
    have hreads : readsOf s₁.events = readsOf s.events + 1 := by
      rw [← hs₁]
      exact readsOf_push _ _ _ _ _
    refine wp_run_bind (show _ = (Except.ok (guarded reply), s₁) by rw [← hs₁, ← hreply]; rfl) ?_
    rcases getOutput_cases (game.output (readsOf s.events)).ring cursor step.minimumLevel with
      ⟨error, herror⟩ | ⟨page, hread, hpage⟩
    · rw [← hreply, herror]
      obtain ⟨s₂, hrun⟩ := fail_answers .step (some index) "engine_refused" (stepTitle index step ++ " " ++
        "could not read the game's output" ++ ": " ++ error.message) (some error) s₁
      exact wp_run_bind hrun (wp_pure fun _ h => by cases h)
    · rw [← hreply, hpage]
      obtain ⟨reading', hreading, hdropped, hnone, hrest⟩ := readPage_json step (cursor = 0) cursor page
      refine wp_run_bind (reading_ok hreading) ?_
      by_cases hmatched : reading'.matched.isSome
      · rw [if_pos hmatched]
        refine wp_pure fun output houtput hnone => ?_
        cases houtput
        rw [show reading'.matched = none from hnone] at hmatched
        cases hmatched
      · rw [if_neg hmatched]
        have hmatched : reading'.matched = none := by simpa using hmatched
        obtain ⟨hnext, hcomplete⟩ := hrest hmatched
        have hunmatched := hnone.mp hmatched
        have hcovered : (dropped || reading'.dropped) = false → ∀ r ∈ (game.output (readsOf s.events)).appended,
            Matches step r → (r.sequence < page.nextCursor ∨ page.hasMore = false) →
              Skipped game base s₁.events r := by
          intro hkept r hr hmatch hin
          obtain ⟨hbefore, hhere⟩ := Bool.or_eq_false_iff.mp hkept
          rw [← hs₁]
          exact behind_page hread hcursor hunmatched hdropped hhere (hbehind hbefore) hr hmatch hin
        by_cases hmore : page.hasMore = true
        · -- there is more, so the next page begins behind what was inspected
          obtain ⟨minimum, -, hcovers⟩ := (kept_output game (readsOf s.events)).page_covers hread
          obtain ⟨last, hlast, hfrom, hafter, hroom⟩ := hcovers.more hmore
          have hnext : reading'.next = page.nextCursor := by
            rw [hnext]
            unfold kMaxSequence at hroom
            omega
          have hlow : cursor ≤ (game.output (readsOf s.events)).ring.requested cursor := by
            unfold RuntimeLogRing.requested
            split_ifs <;> omega
          have hgoes : reading'.complete = false := by
            rw [hcomplete, hmore, hnext]
            simp
            omega
          rw [if_neg (by rw [hgoes]; exact Bool.false_ne_true), hnext]
          have hrest := ih (s := s₁) page.nextCursor (dropped || reading'.dropped) (.inr (by omega)) (by omega)
            fun hkept => by
              rw [← hs₁]
              refine behind_next hread hmore fun r hr hmatch hin => ?_
              rw [hs₁]
              exact hcovered hkept r hr hmatch (.inl hin)
          rwa [decide_eq_false (by omega)] at hrest
        · have hmore : page.hasMore = false := by simpa using hmore
          rw [if_pos (by rw [hcomplete, hmore]; rfl)]
          refine wp_pure fun output houtput _ hkept _ => ?_
          cases houtput
          rw [hreads]
          exact ⟨by omega, fun r hr hmatch => hcovered hkept r hr hmatch (.inr hmore)⟩

/-! ## Pages without a match -/

section Pages
variable {page : LogPage} {pages cursor : Nat} {dropped : Bool}

theorem getOutput_read {ring : RuntimeLogRing} {level : String} (hcursor : cursor < 2 ^ 63)
    (hread : ring.read cursor kOutputLimit level = .ok page) : getOutput ring cursor level = .answer page.json := by
  have hlevel : LogLevel.ofString level ≠ none := by
    intro hnone
    unfold RuntimeLogRing.read at hread
    rw [hnone, if_neg (by decide)] at hread
    cases hread
  unfold getOutput
  rw [if_neg (by omega)]
  split
  · contradiction
  · rw [hread]

theorem call_readOutput (game : Game) (index cursor : Nat) (level : String) (s : RunState) :
    (call game.driver (some index) (.readOutput cursor level)).run s =
      (.ok (guarded (getOutput (game.output (readsOf s.events)).ring cursor level)),
        push s (.called (some index) (.readOutput cursor level)
          (getOutput (game.output (readsOf s.events)).ring cursor level))) := rfl

/-- A page without a match that is not the last. -/
theorem readPages_goes (hcursor : cursor < 2 ^ 63)
    (hread : (game.output (readsOf s.events)).ring.read cursor kOutputLimit step.minimumLevel = .ok page)
    (hnone : ∀ r ∈ page.records, ¬ (step.text = "" ∨ contains r.text step.text = true)) (hmore : page.hasMore = true)
    (hnext : cursor < page.nextCursor ∧ page.nextCursor < 2 ^ 64) :
    (readPages game.driver index step step.minimumLevel (pages + 1) (cursor = 0) cursor dropped).run s =
      (readPages game.driver index step step.minimumLevel pages (page.nextCursor = 0) page.nextCursor
        (dropped || (decide (cursor = 0) && page.droppedBeforeCursor))).run
          (push s (.called (some index) (.readOutput cursor step.minimumLevel) (.answer page.json))) := by
  obtain ⟨reading', hreading, hdropped, hmatched, hrest⟩ := readPage_json step (cursor = 0) cursor page
  have hmatched := hmatched.mpr hnone
  obtain ⟨hfollows, hcomplete⟩ := hrest hmatched
  rw [Nat.mod_eq_of_lt hnext.2] at hfollows
  rw [hmore, hfollows, decide_eq_false (by omega)] at hcomplete
  rw [readPages, run_bind, call_readOutput, getOutput_read hcursor hread,
    show guarded (.answer page.json) = .ok page.json from rfl]
  dsimp only
  rw [run_bind, reading_ok hreading]
  dsimp only
  rw [hmatched, hcomplete, hfollows, hdropped, decide_eq_false (by omega : ¬ page.nextCursor = 0)]
  rfl

/-- The last page, without a match. -/
theorem readPages_ends (hcursor : cursor < 2 ^ 63)
    (hread : (game.output (readsOf s.events)).ring.read cursor kOutputLimit step.minimumLevel = .ok page)
    (hnone : ∀ r ∈ page.records, ¬ (step.text = "" ∨ contains r.text step.text = true))
    (hmore : page.hasMore = false) :
    (readPages game.driver index step step.minimumLevel (pages + 1) (cursor = 0) cursor dropped).run s =
      (.ok (some { dropped := dropped || (decide (cursor = 0) && page.droppedBeforeCursor), matched := none
                   complete := true }),
        push s (.called (some index) (.readOutput cursor step.minimumLevel) (.answer page.json))) := by
  obtain ⟨reading', hreading, hdropped, hmatched, hrest⟩ := readPage_json step (cursor = 0) cursor page
  have hmatched := hmatched.mpr hnone
  obtain ⟨-, hcomplete⟩ := hrest hmatched
  rw [hmore] at hcomplete
  rw [readPages, run_bind, call_readOutput, getOutput_read hcursor hread,
    show guarded (.answer page.json) = .ok page.json from rfl]
  dsimp only
  rw [run_bind, reading_ok hreading]
  dsimp only
  rw [hmatched, show reading'.complete = true from hcomplete, hdropped]
  rfl

end Pages

/-! ## The step -/

theorem outputFails_answers (index : Nat) (reason message : String) (s : RunState) {P : RunState → Prop} :
    (outputFails index reason message).wp (fun result s' => result = .ok true → P s') s := by
  unfold outputFails
  obtain ⟨s₁, hrun₁⟩ := fail_answers .assertion (some index) reason message none s
  refine wp_run_bind hrun₁ ?_
  obtain ⟨s₂, hrun₂, -⟩ := quiet_setAtFrame index s₁
  exact wp_run_bind hrun₂ (wp_pure nofun)

/-- A step that holds an absence has read all its pages without a match and without a gap that it saw. -/
theorem checkOutput_skipped (game : Game) (index : Nat) (habsent : step.absent = true) (s : RunState) :
    (checkOutput game.driver index step).wp (fun result s' => result = .ok true →
      readsOf s.events < readsOf s'.events ∧ ∀ r ∈ (game.output (readsOf s'.events - 1)).appended, Matches step r →
        Skipped game (readsOf s.events) s'.events r) s := by
  have hbehind : Behind game (readsOf s.events) step s.events 0 := fun r hr _ hbefore =>
    absurd hbefore (Nat.not_lt.mpr ((kept_output game _).fromFirst r hr))
  have hpages := @readPages_skipped game step index (readsOf s.events) s kMaxPages 0 false (.inl rfl) le_rfl
    fun _ => hbehind
  unfold checkOutput
  refine wp_bind (wp_mono hpages fun result s' hreads => ?_)
  cases result with
  | error thrown => exact nofun
  | ok found =>
    cases found with
    | none => exact wp_pure nofun
    | some output =>
      have hreads := hreads output rfl
      dsimp only
      obtain ⟨s₁, hrun₁, hsilent₁⟩ := quiet_forM
          (fun matched => quiet_setMember index "matched" matched) output.matched s'
      refine wp_run_bind hrun₁ ?_
      obtain ⟨s₂, hrun₂, hsilent₂⟩ := quiet_setMember index "output_dropped" (.boolean output.dropped) s₁
      refine wp_run_bind hrun₂ ?_
      rw [← hsilent₁.events, ← hsilent₂.events] at hreads
      rw [habsent]
      cases hmatched : output.matched with
      | some matched => exact outputFails_answers _ _ _ _
      | none =>
        refine wp_ite (fun _ => outputFails_answers _ _ _ _) fun hunread => ?_
        simp only [Bool.true_and, Bool.not_eq_true, Bool.or_eq_false_iff, Bool.not_eq_false'] at hunread
        exact fun _ => hreads hmatched hunread.1 hunread.2

theorem ReadFrom.lt {events : List Event} {k cursor : Nat} (h : ReadFrom events k cursor) : k < readsOf events := by
  obtain ⟨before, after, step, level, reply, rfl, rfl⟩ := h
  unfold readsOf
  rw [List.countP_append, List.countP_cons_of_pos rfl]
  omega

/-- **An absence that a step holds was one exactly when no page after the first passed over a record that matches and
was gone from the ring.** -/
theorem held_absent_iff (game : Game) (step : ScenarioStep) (index : Nat) (s s' : RunState)
    (habsent : step.absent = true) (hheld : (checkOutput game.driver index step).run s = (.ok true, s')) :
    (∀ r ∈ (game.output (readsOf s'.events - 1)).appended, ¬ Matches step r) ↔
      ∀ k cursor, readsOf s.events < k → ReadFrom s'.events k cursor → ∀ r ∈ (game.output k).appended,
        Matches step r → cursor ≤ r.sequence → r ∈ (game.output k).ring.records := by
  constructor
  · intro hnone k cursor hk hread r hr hmatch hcursor
    exact absurd hmatch (hnone r (appended_mono game (Nat.le_sub_one_of_lt hread.lt) hr))
  · intro hkept r hr hmatch
    have hskipped := checkOutput_skipped game index habsent s
    unfold wp at hskipped
    rw [hheld] at hskipped
    obtain ⟨k, cursor, hk, hread, hin, hcursor, hgone⟩ := (hskipped rfl).2 r hr hmatch
    exact hgone (hkept k cursor hk hread r hin hmatch hcursor)

/-! ## Two runs -/

/-- Pages that end without a match and with nothing dropped hold an absence. -/
theorem held_of_pages {s₁ : RunState} (habsent : step.absent = true)
    (hpages : (readPages game.driver index step step.minimumLevel kMaxPages true 0 false).run s =
      (.ok (some { dropped := false, matched := none, complete := true }), s₁)) :
    ∃ s', (checkOutput game.driver index step).run s = (.ok true, s') ∧ s'.events = s₁.events := by
  unfold checkOutput
  rw [run_bind, show (if step.level = "" then "debug" else step.level) = step.minimumLevel from rfl, hpages, habsent]
  exact ⟨_, rfl, rfl⟩

def quietLine : Line := { nowMs := 0, level := "info", source := [], message := [] }

def printedLine : Line := { nowMs := 0, level := "info", source := [], message := [98] }

def absenceStep : ScenarioStep := { kind := .assertOutput, text := "b", absent := true }

def silent : Driver where
  reply _ _ := .threw none
  cancelled _ := .ok false
  elapsedMs _ := .ok 0

def absenceStart : RunState := { steps := [entryOf 0 absenceStep] }

/-- A page of a ring, from `cursor` on. -/
theorem full_page {o : Output} {cursor last : Nat} (hlast : last < kMaxSequence)
    (hfull : ((o.ring.records.filter fun r =>
    max (o.ring.requested cursor) o.ring.oldest ≤ r.sequence).take kOutputLimit).getLast?.map LogRecord.sequence =
      some last) :
    ∃ page, o.ring.read cursor kOutputLimit absenceStep.minimumLevel = .ok page ∧ (∀ r ∈ page.records,
      r ∈ (o.ring.records.filter fun r => max (o.ring.requested cursor) o.ring.oldest ≤
        r.sequence).take kOutputLimit) ∧
      page.nextCursor = last + 1 ∧ page.hasMore = o.ring.reaches (last + 1) ∧
      page.droppedBeforeCursor = (!o.ring.records.isEmpty && o.ring.requested cursor < o.ring.oldest) := by
  obtain ⟨record, hrecord, rfl⟩ := Option.map_eq_some_iff.mp hfull
  exact @read_full _ _ _ _ .debug _ rfl (fun _ _ => Nat.zero_le _) (by decide) hrecord hlast.ne

theorem not_matches_blank {r : LogRecord} (hr : r.message = []) :
    ¬ (absenceStep.text = "" ∨ contains r.text absenceStep.text = true) := by
  rw [show r.text = textOf r.message from rfl, hr]
  decide

/-- A game that prints 501 lines without the text. -/
def quietGame : Game where
  capacity := 501
  lines k := if k = 0 then List.replicate 501 quietLine else []
  other := silent

def quietOutput : Output := Output.after { ring := RuntimeLogRing.create 501 1 } (List.replicate 501 quietLine)

theorem quietGame_output : quietGame.output 0 = quietOutput ∧ quietGame.output 1 = quietOutput := by
  have hzero : quietGame.output 0 = quietOutput :=
    Output.foldl_append_eq (by decide +kernel) rfl (by decide) (by decide +kernel) rfl
  refine ⟨hzero, ?_⟩
  show List.foldl Output.append (quietGame.output 0) _ = _
  rw [hzero]
  rfl

theorem message_quietOutput : ∀ r ∈ quietOutput.appended, r.message = [] := by
  intro r hr
  rcases List.mem_append.mp hr with hr | hr
  · cases hr
  · obtain ⟨line, hline, n, rfl⟩ := mem_recordsFrom hr
    rw [(List.mem_replicate.mp hline).2]
    rfl

/-- Two pages show all of the output. -/
theorem held_absent_pages : ∃ s', (checkOutput quietGame.driver 0 absenceStep).run absenceStart = (.ok true, s') ∧
    readsOf s'.events = 2 ∧ ∀ r ∈ (quietGame.output (readsOf s'.events - 1)).appended, ¬ Matches absenceStep r := by
  obtain ⟨hzero, hone⟩ := quietGame_output
  have hquiet : ∀ r ∈ quietOutput.ring.records, r.message = [] := by decide +kernel
  obtain ⟨page₀, hread₀, hin₀, hnext₀, hmore₀, hdropped₀⟩ :=
    @full_page quietOutput 0 500 (by decide) (by decide +kernel)
  obtain ⟨page₁, hread₁, hin₁, -, hmore₁, -⟩ := @full_page quietOutput 501 501 (by decide) (by decide +kernel)
  have hmore₀ : page₀.hasMore = true := hmore₀.trans (by decide +kernel)
  have hmore₁ : page₁.hasMore = false := hmore₁.trans (by decide +kernel)
  have hdropped₀ : page₀.droppedBeforeCursor = false := hdropped₀.trans (by decide +kernel)
  obtain ⟨s₁, hs₁⟩ : ∃ s₁, push absenceStart
    (.called (some 0) (.readOutput 0 absenceStep.minimumLevel) (.answer page₀.json)) = s₁ := ⟨_, rfl⟩
  have hreads₁ : readsOf s₁.events = 1 := by
    rw [← hs₁]
    exact readsOf_push _ _ _ _ _
  have hrun₁ := @readPages_goes quietGame absenceStep 0 absenceStart page₀ 39 0 false (by decide)
    (by rw [show readsOf absenceStart.events = 0 from rfl, hzero]; exact hread₀)
    (fun r hr => not_matches_blank (hquiet r (List.mem_filter.mp (List.mem_of_mem_take (hin₀ r hr))).1)) hmore₀
      (by omega)
  rw [hs₁, hnext₀, hdropped₀] at hrun₁
  have hrun₂ := @readPages_ends quietGame absenceStep 0 s₁ page₁ 38 501 false (by decide)
    (by rw [hreads₁, hone]; exact hread₁)
    (fun r hr => not_matches_blank (hquiet r (List.mem_filter.mp (List.mem_of_mem_take (hin₁ r hr))).1)) hmore₁
  obtain ⟨s', hheld, hevents⟩ := @held_of_pages quietGame absenceStep 0 absenceStart _ rfl (hrun₁.trans hrun₂)
  have hreads : readsOf s'.events = 2 := by
    rw [hevents]
    exact (readsOf_push _ _ _ _ _).trans (congrArg (· + 1) hreads₁)
  refine ⟨s', hheld, hreads, (held_absent_iff quietGame absenceStep 0 absenceStart s' rfl hheld).mpr ?_⟩
  intro k cursor hk hread r hr hmatch
  have hlt := hread.lt
  obtain rfl : k = 1 := by
    rw [hreads] at hlt
    change 0 < k at hk
    omega
  rw [hone] at hr
  exact absurd hmatch.2 (not_matches_blank (message_quietOutput r hr))

/-- A game whose ring is full, with the text in its last line. It prints as many lines again before the second
read. -/
def gapGame : Game where
  capacity := 501
  lines k :=
    if k = 0 then List.replicate 500 quietLine ++ [printedLine]
    else if k = 1 then List.replicate 501 quietLine
    else []
  other := silent

def gapFirst : Output :=
  Output.after { ring := RuntimeLogRing.create 501 1 } (List.replicate 500 quietLine ++ [printedLine])

def gapSecond : Output := gapFirst.after (List.replicate 501 quietLine)

theorem gapGame_output : gapGame.output 0 = gapFirst ∧ gapGame.output 1 = gapSecond ∧
    gapGame.output 2 = gapSecond := by
  have hfirst : gapGame.output 0 = gapFirst :=
    Output.foldl_append_eq (by decide +kernel) rfl (by decide) (by decide +kernel) rfl
  have hsecond : gapGame.output 1 = gapSecond := by
    show List.foldl Output.append (gapGame.output 0) _ = _
    rw [hfirst]
    exact Output.foldl_append_eq (by decide +kernel) rfl (by decide) (by decide +kernel) (Output.after_records _ _)
  refine ⟨hfirst, hsecond, ?_⟩
  show List.foldl Output.append (gapGame.output 1) _ = _
  rw [hsecond]
  rfl

/-- The step holds an absence, and the line was printed before its last read. -/
theorem not_held_absent_gap : ¬ ∀ (game : Game) (step : ScenarioStep) (index : Nat) (s s' : RunState),
    step.absent = true → (checkOutput game.driver index step).run s = (.ok true, s') →
      ∀ r ∈ (game.output (readsOf s'.events - 1)).appended, ¬ Matches step r := by
  intro h
  obtain ⟨hzero, hone, htwo⟩ := gapGame_output
  have hquiet : ∀ r ∈ gapSecond.ring.records, r.message = [] := by
    intro r hr
    have hheld := @after_full gapFirst (List.replicate 501 quietLine) List.length_replicate
    rw [gapSecond, hheld] at hr
    obtain ⟨line, hline, n, rfl⟩ := mem_recordsFrom hr
    rw [(List.mem_replicate.mp hline).2]
    rfl
  have hfirst : ∀ r ∈ (gapFirst.ring.records.filter fun r => max (gapFirst.ring.requested 0) gapFirst.ring.oldest ≤
      r.sequence).take kOutputLimit, r.message = [] := by
    decide +kernel
  -- three pages of 500 lines, 500 lines and one line
  obtain ⟨page₀, hread₀, hin₀, hnext₀, hmore₀, hdropped₀⟩ := @full_page gapFirst 0 500 (by decide) (by decide +kernel)
  obtain ⟨page₁, hread₁, hin₁, hnext₁, hmore₁, -⟩ := @full_page gapSecond 501 1001 (by decide) (by decide +kernel)
  obtain ⟨page₂, hread₂, hin₂, hnext₂, hmore₂, -⟩ := @full_page gapSecond 1002 1002 (by decide) (by decide +kernel)
  have hmore₀ : page₀.hasMore = true := hmore₀.trans (by decide +kernel)
  have hmore₁ : page₁.hasMore = true := hmore₁.trans (by decide +kernel)
  have hmore₂ : page₂.hasMore = false := hmore₂.trans (by decide +kernel)
  have hdropped₀ : page₀.droppedBeforeCursor = false := hdropped₀.trans (by decide +kernel)
  obtain ⟨s₁, hs₁⟩ : ∃ s₁, push absenceStart
    (.called (some 0) (.readOutput 0 absenceStep.minimumLevel) (.answer page₀.json)) = s₁ := ⟨_, rfl⟩
  obtain ⟨s₂, hs₂⟩ : ∃ s₂, push s₁
    (.called (some 0) (.readOutput 501 absenceStep.minimumLevel) (.answer page₁.json)) = s₂ := ⟨_, rfl⟩
  have hreads₁ : readsOf s₁.events = 1 := by
    rw [← hs₁]
    exact readsOf_push _ _ _ _ _
  have hreads₂ : readsOf s₂.events = 2 := by
    rw [← hs₂]
    exact (readsOf_push _ _ _ _ _).trans (congrArg (· + 1) hreads₁)
  have hrun₁ := @readPages_goes gapGame absenceStep 0 absenceStart page₀ 39 0 false (by decide)
    (by rw [show readsOf absenceStart.events = 0 from rfl, hzero]; exact hread₀)
      (fun r hr => not_matches_blank (hfirst r (hin₀ r hr)))
    hmore₀ (by omega)
  rw [hs₁, hnext₀, hdropped₀] at hrun₁
  have hrun₂ := @readPages_goes gapGame absenceStep 0 s₁ page₁ 38 501 false (by decide)
    (by rw [hreads₁, hone]; exact hread₁)
    (fun r hr => not_matches_blank (hquiet r (List.mem_filter.mp (List.mem_of_mem_take (hin₁ r hr))).1)) hmore₁
      (by omega)
  rw [hs₂, hnext₁] at hrun₂
  have hrun₃ := @readPages_ends gapGame absenceStep 0 s₂ page₂ 37 1002 false (by decide)
    (by rw [hreads₂, htwo]; exact hread₂)
    (fun r hr => not_matches_blank (hquiet r (List.mem_filter.mp (List.mem_of_mem_take (hin₂ r hr))).1)) hmore₂
  obtain ⟨s', hheld, hevents⟩ := @held_of_pages gapGame absenceStep 0 absenceStart _ rfl
    (hrun₁.trans (hrun₂.trans hrun₃))
  have hlast : readsOf s'.events - 1 = 2 := by
    rw [hevents]
    exact congrArg (· - 1) ((readsOf_push _ _ _ _ _).trans (congrArg (· + 1) hreads₂))
  have hnone := h gapGame absenceStep 0 absenceStart s' rfl hheld
  rw [hlast, htwo] at hnone
  -- the line printed before the first read
  obtain ⟨n, hn⟩ := record_mem_recordsFrom 1 (show printedLine ∈ List.replicate 500 quietLine ++ [printedLine] from
    List.mem_append_right _ (List.mem_singleton_self _))
  have htext : contains (textOf [98]) "b" = true := by decide
  refine hnone (record printedLine n) ?_ ⟨⟨.debug, rfl, Nat.zero_le _⟩, .inr htext⟩
  exact List.mem_append_left _ hn

end Didi.Scenario
