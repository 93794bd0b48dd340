import Didi.Bridge.Dump
import Didi.Lib.Run
import Mathlib.Data.List.ReduceOption
import Mathlib.Tactic.IntervalCases
import Mathlib.Tactic.Positivity

/-!
# Messages with a Content-Length header, and their reader

* `frame` : one message with its header;
* `FrameReader.next` : the next whole message, or nothing until more bytes arrive;
* `FrameReader.step` : the reader is pushed bytes and asked for messages;
* `readLine_contentLength` : the header that a message is framed with gives the length of its body;
* `next_short`, `next_framed` : a call that comes before the last byte of a frame leaves the reader as it is, and a
  later one takes the message and the bytes of its frame;
* `yields_frames` : a run of pushes and calls over framed messages yields these messages in order, and a run over
  a stream that has failed yields nothing.

`parse` is `json::parse`, without a value where the body is not JSON.
-/

namespace Didi.LanguageServer
open Bridge

/-! ## Framing -/

/-- The length that a `std::string` stays below. -/
def kMaxStringBytes : Nat := 2 ^ 63

def contentLength (size : Nat) : Bytes := ascii "Content-Length: " ++ ascii (toString size)

/-- The blank line that ends a header. -/
def blankLine : Bytes := ascii "\r\n\r\n"

def framed (body : Bytes) : Bytes := contentLength body.length ++ blankLine ++ body

/-- `none` is the exception of `dump()`, whose text is a `std::string`. -/
def frame (message : ByteJson) : Option Bytes := do
  let body ← message.dump
  if body.length < kMaxStringBytes then some (framed body) else none

/-! ## Reading a header -/

/-- `std::string::find`. -/
def find (needle : Bytes) : Bytes → Option Nat
  | [] => if needle = [] then some 0 else none
  | b :: text => if needle.isPrefixOf (b :: text) then some 0 else (find needle text).map (· + 1)

/-- The lines of a header, which CRLF ends. -/
def headerLines : Bytes → List Bytes
  | [] => []
  | [b] => [[b]]
  | b :: c :: rest =>
    if b = 0x0D ∧ c = 0x0A then [] :: headerLines rest
    else
      match headerLines (c :: rest) with
      | [] => [[b]]
      | line :: lines => (b :: line) :: lines

def toLower (b : UInt8) : UInt8 := if 0x41 ≤ b ∧ b ≤ 0x5A then b + 0x20 else b

def isDigit (b : UInt8) : Bool := 0x30 ≤ b && b ≤ 0x39

def kSizeMax : Nat := 2 ^ 64 - 1

/-- The number that stands in a field, and whether there is one. -/
def readNumber : Bytes → (value : Nat) → (digits : Bool) → Except String (Nat × Bool)
  | [], value, digits => .ok (value, digits)
  | c :: text, value, digits =>
    if c = 0x20 ∨ c = 0x09 then
      if digits then .ok (value, digits) else readNumber text value digits
    else if !isDigit c then .ok (value, false)
    else if (kSizeMax - 9) / 10 < value then .error "a Content-Length overflowed"
    else readNumber text (value * 10 + (c.toNat - 0x30)) true

/-- The length after one more line of the header. -/
def readLine (length : Option Nat) (line : Bytes) : Except String (Option Nat) :=
  match line.dropWhile (· ≠ 0x3A) with
  | [] => .ok length
  | _ :: text =>
    if (line.takeWhile (· ≠ 0x3A)).map toLower ≠ ascii "content-length" then .ok length
    else do
      let (value, digits) ← readNumber text 0 false
      if digits then .ok (some value) else .error "a Content-Length was not a number"

/-! ## The reader -/

structure FrameReader where
  max : Nat
  buffer : Bytes := []
  error : String := ""

namespace FrameReader

def failed (r : FrameReader) : Bool := r.error ≠ ""

def fail (r : FrameReader) (error : String) : FrameReader := { r with error }

def push (r : FrameReader) (data : Bytes) : FrameReader := { r with buffer := r.buffer ++ data }

variable (parse : Bytes → Option ByteJson)

/-- The message of `length` bytes from `bodyStart` on. -/
def body (r : FrameReader) (bodyStart length : Nat) : Option ByteJson × FrameReader :=
  if r.max < length then
    (none, r.fail ("a message of " ++ toString length ++ " bytes is larger than the " ++ toString r.max ++
      " this client reads"))
  else if r.buffer.length - bodyStart < length then (none, r)
  else
    let rest := { r with buffer := r.buffer.drop (bodyStart + length) }
    match parse ((r.buffer.drop bodyStart).take length) with
    | none => (none, rest.fail "a message body was not JSON")
    | some message => (some message, rest)

def next (r : FrameReader) : Option ByteJson × FrameReader :=
  if r.failed then (none, r)
  else
    match find blankLine r.buffer with
    | none =>
      if 64 * 1024 < r.buffer.length then (none, r.fail "a header ran past 64 KiB without ending") else (none, r)
    | some headerEnd =>
      match (headerLines (r.buffer.take headerEnd)).foldlM readLine none with
      | .error e => (none, r.fail e)
      | .ok none => (none, r.fail "a message arrived with no Content-Length")
      | .ok (some length) => r.body parse (headerEnd + 4) length

/-- What happens to a reader. -/
inductive Event
  | push (data : Bytes)
  | next

def step (r : FrameReader) : Event → Option ByteJson × FrameReader
  | .push data => (none, r.push data)
  | .next => r.next parse

def Event.pushed : Event → Bytes
  | .push data => data
  | .next => []

/-- The messages that a run of pushes and calls yields. -/
def yields (r : FrameReader) (events : List Event) : List ByteJson := (Run.answers (step parse) r events).reduceOption

end FrameReader

/-! ## The header of a frame -/

def digit (c : Char) : UInt8 := UInt8.ofNat c.toNat

theorem contentLength_eq (size : Nat) :
    contentLength size = ascii "Content-Length" ++ 0x3A :: 0x20 :: (Nat.toDigits 10 size).map digit := by
  have hname : ascii "Content-Length: " = ascii "Content-Length" ++ [0x3A, 0x20] := by decide
  have hsize : (toString size).toList = Nat.toDigits 10 size := by
    rw [Nat.toString_eq_ofList_toDigits, String.toList_ofList]
  rw [contentLength, hname, List.append_assoc, show ascii (toString size) = (toString size).toList.map digit from rfl,
    hsize]
  rfl

section Digits
variable {c : Char}

theorem toNat_digit (h : c.isDigit = true) : 48 ≤ c.toNat ∧ c.toNat ≤ 57 ∧ (digit c).toNat = c.toNat := by
  have hrange : 48 ≤ c.toNat ∧ c.toNat ≤ 57 := by
    simpa [Char.isDigit, UInt32.le_iff_toNat_le] using h
  refine ⟨hrange.1, hrange.2, ?_⟩
  rw [digit, UInt8.toNat_ofNat']
  omega

theorem isDigit_digit (h : c.isDigit = true) : isDigit (digit c) = true := by
  obtain ⟨hlow, hhigh, hn⟩ := toNat_digit h
  simp only [isDigit, Bool.and_eq_true, decide_eq_true_eq, UInt8.le_iff_toNat_le, hn]
  exact ⟨hlow, hhigh⟩

theorem digit_ne (h : c.isDigit = true) {b : UInt8} (hb : b.toNat < 48) : digit c ≠ b := by
  rintro rfl
  obtain ⟨hlow, -, hn⟩ := toNat_digit h
  omega

end Digits

theorem le_ofDigitChars (cs : List Char) (value : Nat) : value ≤ Nat.ofDigitChars 10 cs value := by
  rw [Nat.ofDigitChars_eq_ofDigitChars_zero]
  have hpos : 0 < 10 ^ cs.length := by positivity
  have := Nat.le_mul_of_pos_left value hpos
  omega

/-- Digits are read to their end as long as the number is below what a `size_t` holds. -/
theorem readNumber_digits {cs : List Char} (hcs : ∀ c ∈ cs, c.isDigit = true) {value : Nat} (digits : Bool)
    (hbound : Nat.ofDigitChars 10 cs value < kMaxStringBytes) :
    readNumber (cs.map digit) value digits = .ok (Nat.ofDigitChars 10 cs value, digits || !cs.isEmpty) := by
  induction cs generalizing value digits with
  | nil => simp [readNumber]
  | cons c cs ih =>
    have hc := hcs c List.mem_cons_self
    obtain ⟨hlow, hhigh, hn⟩ := toNat_digit hc
    rw [Nat.ofDigitChars_cons] at hbound ⊢
    have hle := (le_ofDigitChars cs (10 * value + (c.toNat - '0'.toNat))).trans_lt hbound
    have hvalue : ¬ (kSizeMax - 9) / 10 < value := by
      unfold kMaxStringBytes at hle
      unfold kSizeMax
      omega
    have hnext : value * 10 + ((digit c).toNat - 0x30) = 10 * value + (c.toNat - '0'.toNat) := by
      rw [hn, show '0'.toNat = 48 from rfl]
      omega
    rw [List.map_cons, readNumber, if_neg (not_or.mpr ⟨digit_ne hc (by decide), digit_ne hc (by decide)⟩),
      isDigit_digit hc, if_neg (by decide), if_neg hvalue, hnext,
      ih (fun c hmem => hcs c (List.mem_cons_of_mem _ hmem)) true hbound]
    simp

theorem readLine_contentLength {size : Nat} (hsize : size < kMaxStringBytes) :
    readLine none (contentLength size) = .ok (some size) := by
  have hname : ∀ b ∈ ascii "Content-Length", decide (b ≠ 0x3A) = true := List.all_eq_true.mp (by decide)
  have hnumber : readNumber ((Nat.toDigits 10 size).map digit) 0 false = .ok (size, true) := by
    rw [readNumber_digits (fun c hc => Nat.isDigit_of_mem_toDigits (by decide) (by decide) hc) false
      (by rwa [Nat.ofDigitChars_ten_toDigits]), Nat.ofDigitChars_ten_toDigits]
    simp
  have hlower : (ascii "Content-Length").map toLower = ascii "content-length" := by decide
  rw [contentLength_eq]
  unfold readLine
  rw [List.dropWhile_append_of_pos hname, List.takeWhile_append_of_pos hname]
  simp only [List.dropWhile_cons, List.takeWhile_cons]
  simp only [ne_eq, not_true_eq_false, decide_false, Bool.false_eq_true, if_false, List.append_nil]
  rw [hlower, if_neg (by simp), readNumber, if_pos (.inl rfl), if_neg (by decide), hnumber]
  rfl

theorem notMem_contentLength (size : Nat) : 0x0D ∉ contentLength size := by
  rw [contentLength_eq]
  intro hmem
  rcases List.mem_append.mp hmem with hmem | hmem
  · revert hmem
    decide
  · rcases List.mem_cons.mp hmem with heq | hmem
    · cases heq
    · rcases List.mem_cons.mp hmem with heq | hmem
      · cases heq
      · obtain ⟨c, hc, heq⟩ := List.mem_map.mp hmem
        exact digit_ne (Nat.isDigit_of_mem_toDigits (by decide) (by decide) hc) (by decide) heq

theorem headerLines_plain {line : Bytes} (h : 0x0D ∉ line) (hne : line ≠ []) : headerLines line = [line] := by
  induction line with
  | nil => exact absurd rfl hne
  | cons b line ih =>
    cases line with
    | nil => rfl
    | cons c line =>
      have hb : ¬ (b = 0x0D ∧ c = 0x0A) := fun hb => h (hb.1 ▸ List.mem_cons_self)
      rw [headerLines, if_neg hb, ih (fun hmem => h (List.mem_cons_of_mem _ hmem)) (List.cons_ne_nil _ _)]

theorem length_contentLength {size : Nat} (hsize : size < kMaxStringBytes) : (contentLength size).length ≤ 35 := by
  have hdigits : (Nat.toDigits 10 size).length ≤ 19 := by
    rw [Nat.length_toDigits_le_iff (by decide) (by decide)]
    unfold kMaxStringBytes at hsize
    omega
  rw [contentLength_eq, List.length_append, List.length_cons, List.length_cons, List.length_map,
    show (ascii "Content-Length").length = 14 by decide]
  omega

/-! ## The blank line -/

theorem blankLine_eq : blankLine = [0x0D, 0x0A, 0x0D, 0x0A] := by decide

theorem find_plain {head : Bytes} (h : 0x0D ∉ head) (rest : Bytes) :
    find blankLine (head ++ rest) = (find blankLine rest).map (· + head.length) := by
  induction head with
  | nil => simp
  | cons b head ih =>
    have hb : (0x0D == b) = false := by
      rw [beq_eq_false_iff_ne]
      exact fun hb => h (hb ▸ List.mem_cons_self)
    rw [List.cons_append, find, ih fun hmem => h (List.mem_cons_of_mem _ hmem)]
    rw [if_neg (by simp [blankLine_eq, List.isPrefixOf, hb])]
    cases find blankLine rest with
    | none => rfl
    | some i => exact congrArg some (Nat.add_assoc i _ 1)

theorem find_blankLine (rest : Bytes) : find blankLine (blankLine ++ rest) = some 0 := by
  rw [blankLine_eq]
  rfl

/-- Nothing of the blank line is taken for it before it is whole. -/
theorem find_cut {rest tail : Bytes} (h : rest <+: blankLine ++ tail) (hshort : rest.length < 4) :
    find blankLine rest = none := by
  have hrest : rest = blankLine.take rest.length := by
    have htake := List.prefix_iff_eq_take.mp h
    rwa [List.take_append_of_le_length (by rw [blankLine_eq]; exact hshort.le)] at htake
  rw [hrest]
  interval_cases rest.length <;> decide

theorem find_framed (body rest : Bytes) :
    find blankLine (contentLength body.length ++ blankLine ++ rest) = some (contentLength body.length).length := by
  rw [List.append_assoc, find_plain (notMem_contentLength _), find_blankLine]
  simp

/-! ## One frame -/

namespace FrameReader
variable {parse : Bytes → Option ByteJson} {r : FrameReader} {body rest : Bytes} {message : ByteJson}

theorem length_framed (body : Bytes) : (framed body).length = (contentLength body.length).length + 4 + body.length := by
  rw [framed, List.length_append, List.length_append, show blankLine.length = 4 by decide]

theorem next_nil (hok : r.error = "") (hbuffer : r.buffer = []) : r.next parse = (none, r) := by
  unfold next
  rw [show r.failed = false by simp [failed, hok], hbuffer]
  simp [find, show blankLine ≠ [] by decide]

/-- A header that has come whole gives the length of the body. -/
theorem next_header (hok : r.error = "") (hsize : body.length < kMaxStringBytes)
    (hbuffer : r.buffer = contentLength body.length ++ blankLine ++ rest) :
    r.next parse = r.body parse ((contentLength body.length).length + 4) body.length := by
  have hlines : headerLines (contentLength body.length) = [contentLength body.length] :=
    headerLines_plain (notMem_contentLength _) (by rw [contentLength_eq]; simp)
  unfold next
  rw [show r.failed = false by simp [failed, hok], hbuffer, find_framed]
  dsimp only
  rw [List.append_assoc, List.take_left' rfl, hlines]
  simp only [Bool.false_eq_true, if_false, List.foldlM_cons, List.foldlM_nil, readLine_contentLength hsize]
  rfl

theorem next_short (hok : r.error = "") (hsize : body.length < kMaxStringBytes) (hmax : body.length ≤ r.max)
    (hcome : r.buffer <+: framed body ++ rest) (hshort : r.buffer.length < (framed body).length) :
    r.next parse = (none, r) := by
  have hlength := length_framed body
  have hbuffer : r.buffer <+: framed body := List.prefix_of_prefix_length_le hcome (List.prefix_append _ _) hshort.le
  by_cases hheader : (contentLength body.length ++ blankLine).length ≤ r.buffer.length
  · -- the header is whole, the body is not
    obtain ⟨more, hmore⟩ := List.prefix_of_prefix_length_le (List.prefix_append _ body) hbuffer hheader
    have hleft := congrArg List.length hmore
    rw [List.length_append, List.length_append, show blankLine.length = 4 by decide] at hleft
    rw [next_header hok hsize hmore.symm, FrameReader.body, if_neg (by omega), if_pos (by omega)]
  · rw [List.length_append, show blankLine.length = 4 by decide] at hheader
    have hfind : find blankLine r.buffer = none := by
      by_cases hhead : r.buffer.length ≤ (contentLength body.length).length
      · rw [framed, List.append_assoc] at hbuffer
        have hplain := List.prefix_of_prefix_length_le hbuffer (List.prefix_append _ _) hhead
        have h := find_plain (fun hmem => notMem_contentLength body.length (hplain.subset hmem)) []
        rw [List.append_nil] at h
        rw [h]
        simp [find, show blankLine ≠ [] by decide]
      · rw [framed, List.append_assoc] at hbuffer
        obtain ⟨more, hmore⟩ := List.prefix_of_prefix_length_le (List.prefix_append _ _) hbuffer (by omega)
        have hcut : more <+: blankLine ++ body := by
          rw [← hmore] at hbuffer
          exact (List.prefix_append_right_inj _).mp hbuffer
        have hleft := congrArg List.length hmore
        rw [List.length_append] at hleft
        rw [← hmore, find_plain (notMem_contentLength _), find_cut hcut (by omega)]
        rfl
    have hle := length_contentLength hsize
    have hbounded : ¬ 64 * 1024 < r.buffer.length := by omega
    unfold next
    rw [show r.failed = false by simp [failed, hok], hfind, if_neg Bool.false_ne_true]
    dsimp only
    rw [if_neg hbounded]

theorem next_framed (hok : r.error = "") (hsize : body.length < kMaxStringBytes) (hmax : body.length ≤ r.max)
    (hparse : parse body = some message) (hbuffer : r.buffer = framed body ++ rest) :
    r.next parse = (some message, { r with buffer := rest }) := by
  have hheader : (contentLength body.length ++ blankLine).length = (contentLength body.length).length + 4 := by
    rw [List.length_append, show blankLine.length = 4 by decide]
  rw [framed, List.append_assoc] at hbuffer
  have hbody : r.buffer.drop ((contentLength body.length).length + 4) = body ++ rest := by
    rw [hbuffer, ← hheader, List.drop_left]
  have hrest : r.buffer.drop ((contentLength body.length).length + 4 + body.length) = rest := by
    rw [← List.drop_drop, hbody, List.drop_left]
  have hlength := congrArg List.length hbuffer
  rw [List.length_append, hheader, List.length_append] at hlength
  rw [next_header hok hsize hbuffer, FrameReader.body, if_neg (by omega), if_neg (by omega), hbody, hrest,
    List.take_left, hparse]

/-! ## A stream of frames -/

theorem yields_append (r : FrameReader) (events later : List Event) :
    yields parse r (events ++ later) = yields parse r events ++ yields parse (Run.exec (step parse) r events) later := by
  unfold yields
  rw [Run.answers_append, List.reduceOption_append]

/-- A message with the body of its frame, as a reader of at most `max` bytes takes it. -/
structure Sent (parse : Bytes → Option ByteJson) (max : Nat) (message : ByteJson × Bytes) : Prop where
  size : message.2.length < kMaxStringBytes
  limit : message.2.length ≤ max
  parses : parse message.2 = some message.1

def streamOf (sent : List (ByteJson × Bytes)) : Bytes := sent.flatMap fun message => framed message.2

/-- A run over what has come of a stream takes its first messages, and with them the bytes of their frames. -/
theorem exec_stream {sent : List (ByteJson × Bytes)} (hsent : ∀ message ∈ sent, Sent parse r.max message)
    (hok : r.error = "") {events : List Event} (hstream : r.buffer ++ events.flatMap Event.pushed <+: streamOf sent) :
    ∃ taken left buffer, sent = taken ++ left ∧ yields parse r events = taken.map Prod.fst ∧
      Run.exec (step parse) r events = { r with buffer } ∧
      streamOf taken ++ buffer = r.buffer ++ events.flatMap Event.pushed := by
  induction events generalizing r sent with
  | nil => exact ⟨[], sent, r.buffer, rfl, rfl, rfl, by simp [streamOf]⟩
  | cons event events ih =>
    cases event with
    | push data =>
      rw [List.flatMap_cons, ← List.append_assoc] at hstream
      obtain ⟨taken, left, buffer, hsplit, hyields, hexec, hbytes⟩ := ih (r := r.push data) hsent hok hstream
      refine ⟨taken, left, buffer, hsplit, hyields, hexec, ?_⟩
      rw [hbytes, List.flatMap_cons, ← List.append_assoc]
      rfl
    | next =>
      rw [List.flatMap_cons, show Event.pushed .next = [] from rfl, List.nil_append] at hstream ⊢
      -- a call that yields nothing leaves the reader as it is
      have hwait : r.next parse = (none, r) → ∃ taken left buffer, sent = taken ++ left ∧
          yields parse r (.next :: events) = taken.map Prod.fst ∧
          Run.exec (step parse) r (.next :: events) = { r with buffer } ∧
          streamOf taken ++ buffer = r.buffer ++ events.flatMap Event.pushed := by
        intro hnext
        obtain ⟨taken, left, buffer, hsplit, hyields, hexec, hbytes⟩ := ih hsent hok hstream
        refine ⟨taken, left, buffer, hsplit, ?_, ?_, hbytes⟩
        · unfold yields Run.answers
          rw [show step parse r .next = (none, r) from hnext]
          exact hyields
        · rw [Run.exec_cons, show step parse r .next = (none, r) from hnext]
          exact hexec
      cases sent with
      | nil => exact hwait (next_nil hok (List.append_eq_nil_iff.mp (List.prefix_nil.mp hstream)).1)
      | cons message sent =>
        have hfirst := hsent message List.mem_cons_self
        have hbuffer : r.buffer <+: framed message.2 ++ streamOf sent := (List.prefix_append _ _).trans hstream
        by_cases hshort : r.buffer.length < (framed message.2).length
        · exact hwait (next_short hok hfirst.size hfirst.limit hbuffer hshort)
        · obtain ⟨rest, hrest⟩ :=
            List.prefix_of_prefix_length_le (List.prefix_append _ _) hbuffer (Nat.le_of_not_lt hshort)
          have hnext := next_framed hok hfirst.size hfirst.limit hfirst.parses hrest.symm
          rw [← hrest, List.append_assoc] at hstream
          obtain ⟨taken, left, buffer, hsplit, hyields, hexec, hbytes⟩ := ih (r := { r with buffer := rest })
            (fun message hmem => hsent message (List.mem_cons_of_mem _ hmem)) hok
            ((List.prefix_append_right_inj _).mp hstream)
          refine ⟨message :: taken, left, buffer, congrArg (message :: ·) hsplit, ?_, ?_, ?_⟩
          · unfold yields Run.answers
            rw [show step parse r .next = _ from hnext]
            exact congrArg (message.1 :: ·) hyields
          · rw [Run.exec_cons, show step parse r .next = _ from hnext]
            exact hexec
          · rw [streamOf, List.flatMap_cons, List.append_assoc, ← hrest, List.append_assoc]
            exact congrArg (framed message.2 ++ ·) hbytes

/-- Calls over a whole stream take its messages one after another. -/
theorem yields_replicate {sent : List (ByteJson × Bytes)} (hsent : ∀ message ∈ sent, Sent parse r.max message)
    (hok : r.error = "") (hbuffer : r.buffer = streamOf sent) {n : Nat} (hn : sent.length ≤ n) :
    yields parse r (List.replicate n .next) = sent.map Prod.fst := by
  induction n generalizing r sent with
  | zero =>
    rw [List.eq_nil_of_length_eq_zero (Nat.le_zero.mp hn)]
    rfl
  | succ n ih =>
    unfold yields
    rw [List.replicate_succ, Run.answers]
    cases sent with
    | nil =>
      rw [show step parse r .next = (none, r) from next_nil hok hbuffer]
      exact ih hsent hok hbuffer (Nat.zero_le n)
    | cons message sent =>
      have hfirst := hsent message List.mem_cons_self
      have hframes : r.buffer = framed message.2 ++ streamOf sent := hbuffer
      have hnext := next_framed hok hfirst.size hfirst.limit hfirst.parses hframes
      rw [show step parse r .next = _ from hnext]
      exact congrArg (message.1 :: ·) (ih (r := { r with buffer := streamOf sent })
        (fun message hmem => hsent message (List.mem_cons_of_mem _ hmem)) hok rfl (Nat.le_of_succ_le_succ hn))

/-- The bodies of framed messages. -/
theorem exists_bodies {messages : List ByteJson} {frames : List Bytes} (h : messages.mapM frame = some frames) :
    ∃ sent : List (ByteJson × Bytes), sent.map Prod.fst = messages ∧ frames.flatten = streamOf sent ∧
      ∀ message ∈ sent, message.1.dump = some message.2 ∧ message.2.length < kMaxStringBytes := by
  induction messages generalizing frames with
  | nil =>
    cases h
    exact ⟨[], rfl, rfl, by simp⟩
  | cons message messages ih =>
    rw [List.mapM_cons] at h
    obtain ⟨bytes, hbytes, h⟩ := Option.bind_eq_some_iff.mp h
    obtain ⟨frames', hframes, h⟩ := Option.bind_eq_some_iff.mp h
    cases h
    obtain ⟨body, hdump, hbytes⟩ := Option.bind_eq_some_iff.mp hbytes
    split_ifs at hbytes with hsize
    cases hbytes
    obtain ⟨sent, hmessages, hstream, hsent⟩ := ih hframes
    refine ⟨(message, body) :: sent, by rw [List.map_cons, hmessages], ?_, ?_⟩
    · rw [List.flatten_cons, hstream]
      rfl
    · exact List.forall_mem_cons.mpr ⟨⟨hdump, hsize⟩, hsent⟩

/-- A stream that has failed stays failed. -/
theorem yields_of_failed (hfailed : r.failed = true) (events : List Event) : yields parse r events = [] := by
  induction events generalizing r with
  | nil => rfl
  | cons event events ih =>
    cases event with
    | push data => exact ih (r := r.push data) hfailed
    | next =>
      have hnext : step parse r .next = (none, r) := by
        unfold step next
        rw [hfailed]
        rfl
      unfold yields Run.answers
      rw [hnext]
      exact ih hfailed

/-- **Messages survive any cut of their frames: the reader does not fail on the way, it yields no other messages and
these in order, and all of them once it is asked often enough. After a failure it yields nothing.** -/
theorem yields_frames (parse : Bytes → Option ByteJson) (max : Nat) :
    (∀ (messages : List ByteJson) (frames : List Bytes) (events : List Event),
      messages.mapM frame = some frames →
      (∀ message ∈ messages, ∀ body, message.dump = some body → body.length ≤ max ∧ parse body = some message) →
      events.flatMap Event.pushed = frames.flatten →
      (∀ earlier, earlier <+: events → (Run.exec (step parse) { max } earlier).failed = false) ∧
        yields parse { max } events <+: messages ∧
        ∀ n, messages.length ≤ n → yields parse { max } (events ++ List.replicate n .next) = messages) ∧
    ∀ events later : List Event, (Run.exec (step parse) { max } events).failed = true →
      yields parse (Run.exec (step parse) { max } events) later = [] := by
  refine ⟨?_, fun events later hfailed => yields_of_failed hfailed later⟩
  intro messages frames events hframes hmessages hpushed
  obtain ⟨sent, rfl, hstream, hsent⟩ := exists_bodies hframes
  rw [hstream] at hpushed
  have hread : ∀ message ∈ sent, Sent parse max message := by
    intro message hmem
    obtain ⟨hdump, hsize⟩ := hsent message hmem
    obtain ⟨hlimit, hparse⟩ := hmessages message.1 (List.mem_map_of_mem hmem) message.2 hdump
    exact ⟨hsize, hlimit, hparse⟩
  have hall : events.flatMap Event.pushed <+: streamOf sent := by
    rw [hpushed]
  obtain ⟨taken, left, buffer, hsplit, hyields, hexec, hbytes⟩ := exec_stream (r := { max }) hread rfl hall
  refine ⟨?_, ?_, ?_⟩
  · rintro earlier ⟨later, rfl⟩
    have hcut : earlier.flatMap Event.pushed <+: streamOf sent := by
      rw [← hpushed, List.flatMap_append]
      exact List.prefix_append _ _
    obtain ⟨-, -, buffer, -, -, hexec, -⟩ := exec_stream (r := { max }) hread rfl hcut
    rw [hexec]
    rfl
  · rw [hyields, hsplit, List.map_append]
    exact List.prefix_append _ _
  · intro n hn
    -- what is left in the buffer is the frames of the messages that are left
    have hbuffer : buffer = streamOf left := by
      rw [hpushed, hsplit, streamOf, streamOf, List.flatMap_append] at hbytes
      exact List.append_cancel_left hbytes
    rw [List.length_map, hsplit, List.length_append] at hn
    rw [yields_append, hexec, hyields, yields_replicate (r := { max, buffer })
      (fun message hmem => hread message (hsplit ▸ List.mem_append_right _ hmem)) rfl hbuffer (by omega), hsplit,
      List.map_append]

/-- `json::parse` on the literal names. -/
def parseLiteral (body : Bytes) : Option ByteJson :=
  if body = ascii "true" then some (.boolean true)
  else if body = ascii "false" then some (.boolean false)
  else if body = ascii "null" then some .null
  else none

/-- Two messages, cut within the blank line of the first header. -/
theorem yields_literals : yields parseLiteral { max := 16 }
    ([.push ((framed (ascii "true")).take 19), .next, .push ((framed (ascii "true")).drop 19), .next,
      .push (framed (ascii "null"))] ++ List.replicate 2 .next) = [.boolean true, .null] := by
  obtain ⟨hreads, -⟩ := yields_frames parseLiteral 16
  refine (hreads [.boolean true, .null] [framed (ascii "true"), framed (ascii "null")] _ ?_ ?_ ?_).2.2 2 le_rfl
  · decide
  · rw [List.forall_mem_cons, List.forall_mem_singleton]
    refine ⟨fun body hbody => ?_, fun body hbody => ?_⟩
    · cases (show some (ascii "true") = some body from hbody)
      exact ⟨by decide, if_pos rfl⟩
    · cases (show some (ascii "null") = some body from hbody)
      exact ⟨by decide, by rw [parseLiteral, if_neg (by decide), if_neg (by decide), if_pos rfl]⟩
  · decide

end FrameReader

end Didi.LanguageServer
