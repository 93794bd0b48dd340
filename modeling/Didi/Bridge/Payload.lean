import Didi.Bridge.Frame

/-!
# Reading frames

* `growFrameBuffer` : room for the next chunk of a frame that is still arriving;
* `readFramePayload` : the payload that a length prefix claims, with a record of every read that it asks for;
* `readFrames` : frames one after another from a stream;
* `readFrom_bounded` : what the buffer costs at each read, for every reader;
* `frames_read` : the frames of messages are read back, and no claim costs more than it has brought.
-/

namespace Didi.Bridge

def kFrameReadChunkBytes : Nat := 64 * 1024

/-- A vector of bytes and its capacity. Memory is got exactly as it is asked for. -/
structure FrameBuffer where
  capacity : Nat := 0
  bytes : Bytes := []

namespace FrameBuffer

def reserve (b : FrameBuffer) (n : Nat) : FrameBuffer := { b with capacity := max b.capacity n }

def resize (b : FrameBuffer) (n : Nat) : FrameBuffer where
  capacity := max b.capacity n
  bytes := b.bytes.take n ++ List.replicate (n - b.bytes.length) 0

/-- What a read leaves in the buffer. -/
def put (b : FrameBuffer) (filled : Nat) (chunk : Bytes) : FrameBuffer :=
  { b with bytes := b.bytes.take filled ++ chunk ++ b.bytes.drop (filled + chunk.length) }

end FrameBuffer

def growFrameBuffer (buffer : FrameBuffer) (filled want frameBytes : Nat) : FrameBuffer :=
  let needed := filled + want
  let reserved :=
    if buffer.capacity < needed then
      let next := if buffer.capacity < needed / 2 then needed else buffer.capacity * 2
      buffer.reserve (if frameBytes < next then frameBytes else next)
    else buffer
  reserved.resize needed

inductive FrameReadOutcome
  | completed
  | rejected
  | readFailed
  deriving DecidableEq

/-- A call of the reader: what had arrived, what it asks for, and the capacity behind it. -/
structure FrameRead where
  received : Nat
  want : Nat
  capacity : Nat

structure PayloadRead (σ : Type) where
  outcome : FrameReadOutcome
  payload : FrameBuffer
  source : σ
  reads : List FrameRead := []

/-- A reader fills exactly as many bytes as it is asked for, or says no. -/
abbrev ReadChunk (σ : Type) := σ → (want : Nat) → Option ({ chunk : Bytes // chunk.length = want } × σ)

section Read
variable {σ : Type} (readChunk : ReadChunk σ) (frameBytes : Nat)

def wantAt (filled : Nat) : Nat :=
  if frameBytes - filled < kFrameReadChunkBytes then frameBytes - filled else kFrameReadChunkBytes

def readFrom (filled : Nat) (payload : FrameBuffer) (source : σ) : PayloadRead σ :=
  if filled < frameBytes then
    let want := wantAt frameBytes filled
    let grown := growFrameBuffer payload filled want frameBytes
    match readChunk source want with
    | none => ⟨.readFailed, grown, source, [⟨filled, want, grown.capacity⟩]⟩
    | some (chunk, source) =>
      let rest := readFrom (filled + want) (grown.put filled chunk) source
      { rest with reads := ⟨filled, want, grown.capacity⟩ :: rest.reads }
  else ⟨.completed, payload, source, []⟩
termination_by frameBytes - filled
decreasing_by
  unfold wantAt kFrameReadChunkBytes
  split_ifs <;> omega

def readFramePayload (maximumBytes : Nat) (payload : FrameBuffer) (source : σ) : PayloadRead σ :=
  if frameBytes = 0 ∨ maximumBytes < frameBytes then ⟨.rejected, payload, source, []⟩
  else readFrom readChunk frameBytes 0 payload source

end Read

/-! ## A stream of frames -/

/-- The reader of a stream whose bytes are all there. -/
def streamChunk : ReadChunk Bytes := fun stream want =>
  if h : want ≤ stream.length then some (⟨stream.take want, List.length_take_of_le h⟩, stream.drop want) else none

def readFrame (maximumBytes : Nat) : Bytes → Option (Bytes × Bytes)
  | b₀ :: b₁ :: b₂ :: b₃ :: stream =>
    let r := readFramePayload streamChunk (decodeFrameLength b₀ b₁ b₂ b₃) maximumBytes {} stream
    if r.outcome = .completed then some (r.payload.bytes, r.source) else none
  | _ => none

def readFrames (maximumBytes : Nat) : Nat → Bytes → Option (List Bytes × Bytes)
  | 0, stream => some ([], stream)
  | count + 1, stream => do
    let (payload, stream) ← readFrame maximumBytes stream
    let (payloads, stream) ← readFrames maximumBytes count stream
    some (payload :: payloads, stream)

/-! ## What the buffer costs -/

theorem wantAt_pos {frameBytes filled : Nat} (h : filled < frameBytes) :
    0 < wantAt frameBytes filled ∧ wantAt frameBytes filled ≤ kFrameReadChunkBytes ∧
      filled + wantAt frameBytes filled ≤ frameBytes := by
  unfold wantAt kFrameReadChunkBytes
  split_ifs <;> omega

/-- The capacity is paid for by what has arrived: less than twice as much, and nothing before the first byte. -/
def Paid (frameBytes filled : Nat) (buffer : FrameBuffer) : Prop :=
  buffer.capacity ≤ frameBytes ∧ (buffer.capacity = 0 ∨ buffer.capacity < 2 * filled)

/-- What growth makes of a capacity that is paid for. -/
theorem Paid.grow {frameBytes filled want : Nat} {buffer : FrameBuffer} (h : Paid frameBytes filled buffer)
    (hwant : 0 < want) (hle : filled + want ≤ frameBytes) :
    Paid frameBytes (filled + want) (growFrameBuffer buffer filled want frameBytes) ∧
      (filled = 0 → (growFrameBuffer buffer filled want frameBytes).capacity = want) := by
  obtain ⟨hcapacity, hpaid⟩ := h
  simp only [Paid, growFrameBuffer, FrameBuffer.reserve, FrameBuffer.resize]
  split_ifs <;> simp only [Nat.max_def] <;> split_ifs <;> omega

theorem Paid.put {frameBytes filled n : Nat} {buffer : FrameBuffer} (h : Paid frameBytes n buffer) (chunk : Bytes) :
    Paid frameBytes n (buffer.put filled chunk) := h

/-- What is promised of a read. -/
def FrameRead.Bounded (frameBytes : Nat) (r : FrameRead) : Prop :=
  r.capacity ≤ frameBytes ∧ (r.received = 0 → r.capacity ≤ kFrameReadChunkBytes) ∧
    (0 < r.received → r.capacity < 2 * r.received + 2 * kFrameReadChunkBytes)

theorem Paid.bounded {frameBytes filled want : Nat} {buffer : FrameBuffer}
    (h : Paid frameBytes (filled + want) buffer) (hchunk : want ≤ kFrameReadChunkBytes)
    (hfirst : filled = 0 → buffer.capacity = want) :
    FrameRead.Bounded frameBytes ⟨filled, want, buffer.capacity⟩ := by
  refine ⟨h.1, fun hzero => (hfirst hzero).trans_le hchunk, fun hpos => ?_⟩
  change 0 < filled at hpos
  change buffer.capacity < 2 * filled + 2 * kFrameReadChunkBytes
  rcases h.2 with hnone | hless <;> omega

section Read
variable {σ : Type} {readChunk : ReadChunk σ} {frameBytes filled : Nat} {payload : FrameBuffer} {source : σ}

theorem readFrom_done (h : frameBytes ≤ filled) :
    readFrom readChunk frameBytes filled payload source = ⟨.completed, payload, source, []⟩ := by
  rw [readFrom, if_neg (Nat.not_lt.mpr h)]

theorem readFrom_none (hfilled : filled < frameBytes) (h : readChunk source (wantAt frameBytes filled) = none) :
    readFrom readChunk frameBytes filled payload source =
      ⟨.readFailed, growFrameBuffer payload filled (wantAt frameBytes filled) frameBytes, source,
        [⟨filled, wantAt frameBytes filled,
          (growFrameBuffer payload filled (wantAt frameBytes filled) frameBytes).capacity⟩]⟩ := by
  rw [readFrom, if_pos hfilled]
  simp only [h]

theorem readFrom_some (hfilled : filled < frameBytes) {chunk : { chunk : Bytes // chunk.length = wantAt frameBytes filled }}
    {source' : σ} (h : readChunk source (wantAt frameBytes filled) = some (chunk, source')) :
    readFrom readChunk frameBytes filled payload source =
      let grown := growFrameBuffer payload filled (wantAt frameBytes filled) frameBytes
      let rest := readFrom readChunk frameBytes (filled + wantAt frameBytes filled) (grown.put filled chunk) source'
      { rest with reads := ⟨filled, wantAt frameBytes filled, grown.capacity⟩ :: rest.reads } := by
  rw [readFrom, if_pos hfilled]
  simp only [h]

theorem readFrom_bounded (h : Paid frameBytes filled payload) :
    ∀ r ∈ (readFrom readChunk frameBytes filled payload source).reads, r.Bounded frameBytes := by
  induction hleft : frameBytes - filled using Nat.strong_induction_on generalizing filled payload source with
  | _ left ih =>
    rcases Nat.lt_or_ge filled frameBytes with hfilled | hfilled
    · obtain ⟨hpos, hchunk, hle⟩ := wantAt_pos hfilled
      obtain ⟨hpaid, hfirst⟩ := h.grow hpos hle
      cases hnext : readChunk source (wantAt frameBytes filled) with
      | none =>
        rw [readFrom_none hfilled hnext]
        intro r hr
        rw [List.mem_singleton.mp hr]
        exact hpaid.bounded hchunk hfirst
      | some next =>
        rw [readFrom_some hfilled hnext]
        intro r hr
        rcases List.mem_cons.mp hr with rfl | hr
        · exact hpaid.bounded hchunk hfirst
        · exact ih _ (by omega) (hpaid.put next.1.1) rfl r hr
    · rw [readFrom_done hfilled]
      intro r hr
      cases hr

end Read

/-! ## What a stream gives -/

theorem put_grow (frameBytes : Nat) {filled : Nat} {payload : FrameBuffer} (hfilled : payload.bytes.length = filled)
    (chunk : Bytes) : ((growFrameBuffer payload filled chunk.length frameBytes).put filled chunk).bytes =
      payload.bytes ++ chunk := by
  have hbytes : (growFrameBuffer payload filled chunk.length frameBytes).bytes =
      payload.bytes ++ List.replicate chunk.length 0 := by
    have htake : payload.bytes.take (filled + chunk.length) = payload.bytes := List.take_of_length_le (by omega)
    simp only [growFrameBuffer, FrameBuffer.reserve, FrameBuffer.resize]
    split_ifs <;> simp only [htake, hfilled, Nat.add_sub_cancel_left]
  have hdrop : (payload.bytes ++ List.replicate chunk.length (0 : UInt8)).drop (filled + chunk.length) = [] :=
    List.drop_eq_nil_of_le (by rw [List.length_append, List.length_replicate, hfilled])
  rw [FrameBuffer.put, hbytes, List.take_left' hfilled, hdrop, List.append_nil]

theorem readFrom_stream {frameBytes filled : Nat} {payload : FrameBuffer} {body : Bytes} (rest : Bytes)
    (hfilled : payload.bytes.length = filled) (hbody : filled + body.length = frameBytes) :
    (readFrom streamChunk frameBytes filled payload (body ++ rest)).outcome = .completed ∧
      (readFrom streamChunk frameBytes filled payload (body ++ rest)).payload.bytes = payload.bytes ++ body ∧
      (readFrom streamChunk frameBytes filled payload (body ++ rest)).source = rest := by
  induction hleft : body.length using Nat.strong_induction_on generalizing filled payload body with
  | _ left ih =>
    rcases Nat.lt_or_ge filled frameBytes with hlt | hge
    · obtain ⟨hpos, -, hle⟩ := wantAt_pos hlt
      have hwant : wantAt frameBytes filled ≤ body.length := by omega
      have hstream : wantAt frameBytes filled ≤ (body ++ rest).length := by
        rw [List.length_append]
        omega
      have hlength : (body.take (wantAt frameBytes filled)).length = wantAt frameBytes filled :=
        List.length_take_of_le hwant
      have hput := put_grow frameBytes hfilled (body.take (wantAt frameBytes filled))
      rw [hlength] at hput
      have hfilled' := congrArg List.length hput
      rw [List.length_append, hfilled, hlength] at hfilled'
      obtain ⟨houtcome, hpayload, hsource⟩ := ih (body.drop (wantAt frameBytes filled)).length
        (by rw [List.length_drop]; omega) hfilled' (by rw [List.length_drop]; omega) rfl
      rw [readFrom_some hlt (dif_pos hstream)]
      simp only [List.take_append_of_le_length hwant, List.drop_append_of_le_length hwant]
      refine ⟨houtcome, ?_, hsource⟩
      rw [hpayload, hput, List.append_assoc, List.take_append_drop]
    · have hnil : body = [] := List.length_eq_zero_iff.mp (by omega)
      rw [readFrom_done hge, hnil]
      exact ⟨rfl, (List.append_nil _).symm, rfl⟩

/-- A frame at the front of a stream is read, and no more than it. -/
theorem readFrame_append {maximumBytes : Nat} (hmaximum : maximumBytes < 2 ^ 32) {body : Bytes} (hpos : 1 ≤ body.length)
    (hle : body.length ≤ maximumBytes) (stream : Bytes) :
    readFrame maximumBytes (lengthBytes body.length ++ body ++ stream) = some (body, stream) := by
  have hdecode := decode_lengthBytes (hle.trans_lt hmaximum)
  obtain ⟨houtcome, hbytes, hsource⟩ : (readFrom streamChunk body.length 0 {} (body ++ stream)).outcome = .completed ∧
      (readFrom streamChunk body.length 0 {} (body ++ stream)).payload.bytes = [] ++ body ∧ _ :=
    readFrom_stream stream rfl (Nat.zero_add body.length)
  have hpayload : readFramePayload streamChunk body.length maximumBytes {} (body ++ stream) =
      readFrom streamChunk body.length 0 {} (body ++ stream) :=
    if_neg (by omega)
  change (let r := readFramePayload streamChunk (decodeFrameLength _ _ _ _) maximumBytes {} (body ++ stream)
    if r.outcome = .completed then some (r.payload.bytes, r.source) else none) = _
  rw [hdecode, hpayload]
  simp only [houtcome, hbytes, hsource, ↓reduceIte, List.nil_append]

theorem frameMessage_eq {message : ByteJson} {text : Bytes} (h : message.dump = some text)
    (hlength : text.length < 2 ^ 32) :
    frameMessage message = some (lengthBytes text.length ++ text) := by
  rw [frameMessage, h]
  change some (lengthBytes (text.length % 2 ^ 32) ++ text.take (text.length % 2 ^ 32)) = _
  rw [Nat.mod_eq_of_lt hlength, List.take_length]

/-- Messages come back in their order, from the bytes of their frames one after another. -/
theorem readFrames_messages {maximumBytes : Nat} (hmaximum : maximumBytes < 2 ^ 32) {messages : List ByteJson}
    {texts : List Bytes} (htexts : messages.map ByteJson.dump = texts.map some)
    (hlength : ∀ text ∈ texts, 1 ≤ text.length ∧ text.length ≤ maximumBytes) :
    ∃ frames : List Bytes, messages.map frameMessage = frames.map some ∧
      readFrames maximumBytes messages.length frames.flatten = some (texts, []) := by
  induction messages generalizing texts with
  | nil =>
    rw [List.map_eq_nil_iff.mp htexts.symm]
    exact ⟨[], rfl, rfl⟩
  | cons message messages ih =>
    cases texts with
    | nil => cases htexts
    | cons text texts =>
      obtain ⟨hdump, hdumps⟩ := List.cons.inj htexts
      obtain ⟨hpos, hle⟩ := hlength text List.mem_cons_self
      obtain ⟨frames, hframes, hread⟩ := ih hdumps fun text htext => hlength text (List.mem_cons_of_mem _ htext)
      refine ⟨(lengthBytes text.length ++ text) :: frames, ?_, ?_⟩
      · rw [List.map_cons, List.map_cons, hframes, frameMessage_eq hdump (hle.trans_lt hmaximum)]
      · rw [List.flatten_cons, List.length_cons, readFrames, readFrame_append hmaximum hpos hle]
        simp only [Option.bind_eq_bind, Option.bind_some, hread]

theorem frames_read {maximumBytes : Nat} (hmaximum : maximumBytes ≤ kMaximumFrameBytes) :
    (∀ (messages : List ByteJson) (texts : List Bytes), messages.map ByteJson.dump = texts.map some →
      (∀ text ∈ texts, 1 ≤ text.length ∧ text.length ≤ maximumBytes) →
      ∃ frames : List Bytes, messages.map frameMessage = frames.map some ∧
        readFrames maximumBytes messages.length frames.flatten = some (texts, [])) ∧
    ∀ (σ : Type) (readChunk : ReadChunk σ) (source : σ) (n : Nat),
      (n = 0 ∨ maximumBytes < n →
        readFramePayload readChunk n maximumBytes {} source = ⟨.rejected, {}, source, []⟩) ∧
      ∀ r ∈ (readFramePayload readChunk n maximumBytes {} source).reads, r.Bounded n := by
  have hlt : maximumBytes < 2 ^ 32 := hmaximum.trans_lt (by decide)
  refine ⟨fun messages texts htexts hlength => readFrames_messages hlt htexts hlength, ?_⟩
  intro σ readChunk source n
  refine ⟨fun hrejected => if_pos hrejected, ?_⟩
  rw [readFramePayload]
  split_ifs with hrejected
  · intro r hr
    cases hr
  · exact readFrom_bounded ⟨Nat.zero_le _, .inl rfl⟩

/-- A claim of the most that a frame may hold, before a reader that gives one chunk. -/
theorem frames_read_maximum :
    (∀ (messages : List ByteJson) (texts : List Bytes), messages.map ByteJson.dump = texts.map some →
      (∀ text ∈ texts, 1 ≤ text.length ∧ text.length ≤ kMaximumFrameBytes) →
      ∃ frames : List Bytes, messages.map frameMessage = frames.map some ∧
        readFrames kMaximumFrameBytes messages.length frames.flatten = some (texts, [])) ∧
    ∀ (σ : Type) (readChunk : ReadChunk σ) (source : σ) (n : Nat),
      (n = 0 ∨ kMaximumFrameBytes < n →
        readFramePayload readChunk n kMaximumFrameBytes {} source = ⟨.rejected, {}, source, []⟩) ∧
      ∀ r ∈ (readFramePayload readChunk n kMaximumFrameBytes {} source).reads, r.Bounded n :=
  frames_read le_rfl

end Didi.Bridge
