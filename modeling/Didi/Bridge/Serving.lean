import Didi.Bridge.Frame

/-!
# One pass of the bridge's server loop

* `serverPass` : what `serverLoop` does with the payload of a frame, for a parser and a handler;
* `Parser.Documented` : what the loop relies on the JSON library for;
* `Served` : exactly one response frame, and in it the answer that is due;
* `served_iff` : a payload is served unless a string of the response is not well-formed UTF-8 or its text reaches
  `2 ^ 32` bytes. The text of a parse error quotes the peer's bytes, so a malformed payload can do the first alone.
-/

namespace Didi.Bridge

/-! ## The parser -/

def upperHexDigit (n : UInt8) : UInt8 := if n < 10 then 48 + n else 55 + n

/-- A byte of a token as an error's text quotes it. -/
def quoteByte (b : UInt8) : Bytes :=
  if b ≤ 0x1F then ascii "<U+00" ++ [upperHexDigit (b / 16), upperHexDigit (b % 16)] ++ ascii ">" else [b]

/-- A parse error: the token last read, and the text around it. -/
structure ParseFailure where
  before : Bytes
  token : Bytes
  after : Bytes

def ParseFailure.what (failure : ParseFailure) : Bytes :=
  failure.before ++ failure.token.flatMap quoteByte ++ failure.after

abbrev Parser := Bytes → Except ParseFailure ByteJson

/-- What the JSON library does: the strings it reads are well-formed, and an error's text is a short ASCII text around
bytes of the payload. -/
structure Parser.Documented (parse : Parser) : Prop where
  strings : ∀ payload j, parse payload = .ok j → j.WellFormed
  around : ∀ payload failure, parse payload = .error failure →
    Utf8.Ascii failure.before ∧ Utf8.Ascii failure.after ∧ failure.before.length + failure.after.length ≤ 1024
  token : ∀ payload failure, parse payload = .error failure → failure.token.length ≤ payload.length

/-! ## The loop -/

/-- How a call of the handler ends. -/
inductive Outcome
  | returned (res : ByteJson)
  -- a `std::exception`, and anything else
  | threw (what : Bytes)
  | threwUnknown

def errorValue (code : NumberText) (message : Bytes) : ByteJson :=
  .object [(ascii "code", .number code), (ascii "message", .string message)]

def code400 : NumberText := ⟨ascii "400", by decide +kernel⟩
def code500 : NumberText := ⟨ascii "500", by decide +kernel⟩
def code501 : NumberText := ⟨ascii "501", by decide +kernel⟩

/-- Members in the order of their keys. -/
def refused (id error : ByteJson) : ByteJson := .object [(ascii "error", error), (ascii "id", id)]

def answered (id result : ByteJson) : ByteJson := .object [(ascii "id", id), (ascii "result", result)]

def malformed (failure : ParseFailure) : ByteJson :=
  refused .null (errorValue code400 (ascii "Malformed JSON: " ++ failure.what))

def reply (handler : Option (ByteJson → Outcome)) (request : ByteJson) : ByteJson :=
  let id := (request.find (ascii "id")).getD .null
  match handler with
  | none => refused id (errorValue code501 (ascii "No handler registered"))
  | some h =>
    match h request with
    | .returned res =>
      match res.find (ascii "error") with
      | some error => if error.isNull then answered id res else refused id error
      | none => answered id res
    | .threw _ => refused id (errorValue code500 (ascii "IPC handler failed"))
    | .threwUnknown => refused id (errorValue code500 (ascii "IPC handler failed"))

def response (parse : Parser) (handler : Option (ByteJson → Outcome)) (payload : Bytes) : ByteJson :=
  match parse payload with
  | .error failure => malformed failure
  | .ok request => reply handler request

/-- What is handed to `writeExact`. `frameMessage` stands outside every `try`, so `none` leaves the thread. -/
def serverPass (parse : Parser) (handler : Option (ByteJson → Outcome)) (payload : Bytes) : Option Bytes :=
  frameMessage (response parse handler payload)

/-! ## The answer that is due -/

/-- The request's own id, where the payload is an object that has one. -/
def requestId (parse : Parser) (payload : Bytes) : ByteJson :=
  match parse payload with
  | .error _ => .null
  | .ok request => (request.find (ascii "id")).getD .null

def answersError (res : ByteJson) : Bool := (res.find (ascii "error")).any (!·.isNull)

/-- The part of the handler's answer that is sent. -/
def sentPart (res : ByteJson) : ByteJson :=
  match res.find (ascii "error") with
  | some e => if e.isNull then res else e
  | none => res

/-- The handler's result, where it neither throws nor answers an error. -/
def handlerResult (handler : Option (ByteJson → Outcome)) (request : ByteJson) : Option ByteJson :=
  match handler with
  | none => none
  | some h =>
    match h request with
    | .returned res => if answersError res then none else some res
    | .threw _ => none
    | .threwUnknown => none

/-- What the response must hold as its result; otherwise it holds an error. -/
def dueResult (parse : Parser) (handler : Option (ByteJson → Outcome)) (payload : Bytes) : Option ByteJson :=
  match parse payload with
  | .error _ => none
  | .ok request => handlerResult handler request

variable (parse : Parser) (handler : Option (ByteJson → Outcome)) (payload : Bytes)

structure Answers (obj : ByteJson) : Prop where
  isObject : obj.isObject = true
  id : obj.find (ascii "id") = some (requestId parse payload)
  error : dueResult parse handler payload = none → ∃ e, obj.find (ascii "error") = some e ∧ e.isNull = false
  result : ∀ r, dueResult parse handler payload = some r → obj.find (ascii "result") = some r

/-- No exception leaves the thread, and one response frame is written, with the text of the answer that is due. -/
def Served : Prop :=
  ∃ frame body obj, serverPass parse handler payload = some frame ∧ OneFrame frame body ∧ obj.dump = some body ∧
    Answers parse handler payload obj

theorem find_refused (id error : ByteJson) :
    (refused id error).find (ascii "id") = some id ∧ (refused id error).find (ascii "error") = some error := by
  constructor <;> rfl

theorem find_answered (id result : ByteJson) :
    (answered id result).find (ascii "id") = some id ∧ (answered id result).find (ascii "result") = some result := by
  constructor <;> rfl

theorem reply_returned {run : ByteJson → Outcome} {request res : ByteJson} (h : run request = .returned res) :
    reply (some run) request =
      if answersError res then refused ((request.find (ascii "id")).getD .null) (sentPart res)
      else answered ((request.find (ascii "id")).getD .null) (sentPart res) := by
  simp only [reply, h]
  cases hfind : res.find (ascii "error") with
  | none => simp [answersError, sentPart, hfind]
  | some e => cases hnull : e.isNull <;> simp [answersError, sentPart, hfind, hnull]

theorem isNull_sentPart {res : ByteJson} (h : answersError res = true) : (sentPart res).isNull = false := by
  rw [answersError, Option.any_eq_true] at h
  obtain ⟨e, hfind, hnull⟩ := h
  have hnull : e.isNull = false := by simpa using hnull
  simp [sentPart, hfind, hnull]

theorem sentPart_eq_self {res : ByteJson} (h : answersError res = false) : sentPart res = res := by
  rw [sentPart]
  cases hfind : res.find (ascii "error") with
  | none => rfl
  | some e =>
    have hnull : e.isNull = true := by simpa [answersError, hfind] using h
    exact if_pos hnull

/-- A request is answered by its handler's result, or by an error. -/
theorem reply_cases (request : ByteJson) :
    (∃ e, handlerResult handler request = none ∧ e.isNull = false ∧
      reply handler request = refused ((request.find (ascii "id")).getD .null) e) ∨
    (∃ r, handlerResult handler request = some r ∧
      reply handler request = answered ((request.find (ascii "id")).getD .null) r) := by
  cases handler with
  | none => exact Or.inl ⟨_, rfl, rfl, rfl⟩
  | some h =>
    cases hrun : h request with
    | threw what =>
      refine Or.inl ⟨errorValue code500 (ascii "IPC handler failed"), ?_, rfl, ?_⟩
      · simp [handlerResult, hrun]
      · simp [reply, hrun]
    | threwUnknown =>
      refine Or.inl ⟨errorValue code500 (ascii "IPC handler failed"), ?_, rfl, ?_⟩
      · simp [handlerResult, hrun]
      · simp [reply, hrun]
    | returned res =>
      rw [reply_returned hrun]
      cases herror : answersError res with
      | true => exact Or.inl ⟨_, by simp [handlerResult, hrun, herror], isNull_sentPart herror, rfl⟩
      | false =>
        refine Or.inr ⟨res, by simp [handlerResult, hrun, herror], ?_⟩
        rw [sentPart_eq_self herror]
        rfl

theorem answers_response : Answers parse handler payload (response parse handler payload) := by
  unfold response
  cases hparse : parse payload with
  | error failure =>
    have hid : requestId parse payload = .null := by simp [requestId, hparse]
    have hdue : dueResult parse handler payload = none := by simp [dueResult, hparse]
    exact ⟨rfl, hid ▸ rfl, fun _ => ⟨_, rfl, rfl⟩, fun r hr => by rw [hdue] at hr; cases hr⟩
  | ok request =>
    have hid : requestId parse payload = (request.find (ascii "id")).getD .null := by simp [requestId, hparse]
    have hdue : dueResult parse handler payload = handlerResult handler request := by simp [dueResult, hparse]
    rcases reply_cases handler request with ⟨e, hnone, hnull, hreply⟩ | ⟨r, hsome, hreply⟩
    · show Answers parse handler payload (reply handler request)
      rw [hreply, ← hid]
      exact ⟨rfl, (find_refused _ e).1, fun _ => ⟨e, (find_refused _ e).2, hnull⟩,
        fun r hr => by rw [hdue, hnone] at hr; cases hr⟩
    · show Answers parse handler payload (reply handler request)
      rw [hreply, ← hid]
      refine ⟨rfl, (find_answered _ r).1, fun h => ?_, fun r' hr => ?_⟩
      · rw [hdue, hsome] at h
        cases h
      · rw [hdue, hsome] at hr
        cases hr
        exact (find_answered _ r).2

/-- The response is served exactly where it can be serialized and its length can be written. -/
theorem served_iff_response : Served parse handler payload ↔
    (response parse handler payload).WellFormed ∧ (response parse handler payload).text.length < 2 ^ 32 := by
  have hanswers := answers_response parse handler payload
  constructor
  · rintro ⟨frame, body, obj, hpass, hframe, hdump, hobj⟩
    refine ⟨(frameMessage_eq_some hpass).1, ?_⟩
    by_contra hlen
    exact not_object_of_long hanswers.isObject (not_lt.mp hlen) hpass hframe hobj.isObject hdump
  · rintro ⟨hwf, hlen⟩
    obtain ⟨frame, hpass, hframe⟩ := frameMessage_served hwf hlen
    exact ⟨frame, _, _, hpass, hframe, if_pos hwf, hanswers⟩

/-! ## What the response holds -/

variable {id error result : ByteJson}

theorem wellFormed_refused : (refused id error).WellFormed ↔ id.WellFormed ∧ error.WellFormed := by
  have herror : Utf8.WellFormed (ascii "error") := by decide
  have hid : Utf8.WellFormed (ascii "id") := by decide
  simp [refused, ByteJson.WellFormed, ByteJson.MembersWellFormed, herror, hid, and_comm]

theorem wellFormed_answered : (answered id result).WellFormed ↔ id.WellFormed ∧ result.WellFormed := by
  have hid : Utf8.WellFormed (ascii "id") := by decide
  have hresult : Utf8.WellFormed (ascii "result") := by decide
  simp [answered, ByteJson.WellFormed, ByteJson.MembersWellFormed, hid, hresult]

theorem wellFormed_errorValue {code : NumberText} {message : Bytes} :
    (errorValue code message).WellFormed ↔ Utf8.WellFormed message := by
  have hcode : Utf8.WellFormed (ascii "code") := by decide
  have hmessage : Utf8.WellFormed (ascii "message") := by decide
  simp [errorValue, ByteJson.WellFormed, ByteJson.MembersWellFormed, hcode, hmessage]

theorem length_text_refused : (refused id error).text.length = id.text.length + error.text.length + 16 := by
  have herror : (ByteJson.stringText (ascii "error")).length = 7 := by decide
  have hid : (ByteJson.stringText (ascii "id")).length = 4 := by decide
  simp [refused, ByteJson.text, ByteJson.memberTexts, ByteJson.joined, herror, hid]
  omega

theorem length_text_answered : (answered id result).text.length = id.text.length + result.text.length + 17 := by
  have hid : (ByteJson.stringText (ascii "id")).length = 4 := by decide
  have hresult : (ByteJson.stringText (ascii "result")).length = 8 := by decide
  simp [answered, ByteJson.text, ByteJson.memberTexts, ByteJson.joined, hid, hresult]
  omega

theorem length_text_errorValue {code : NumberText} {message : Bytes} :
    (errorValue code message).text.length = code.bytes.length + (message.flatMap ByteJson.escapeByte).length + 22 := by
  have hcode : (ByteJson.stringText (ascii "code")).length = 6 := by decide
  have hmessage : (ByteJson.stringText (ascii "message")).length = 9 := by decide
  have htext : (ByteJson.stringText message).length = (message.flatMap ByteJson.escapeByte).length + 2 := by
    rw [ByteJson.stringText, List.length_cons, List.length_append]
    rfl
  simp only [errorValue, ByteJson.text, ByteJson.memberTexts, ByteJson.joined, List.length_cons, List.length_append,
    List.length_nil, hcode, hmessage, htext]
  omega

/-! ## The text of a parse error -/

theorem length_flatMap_le {f : UInt8 → Bytes} {k : Nat} (hf : ∀ b, (f b).length ≤ k) (s : Bytes) :
    (s.flatMap f).length ≤ k * s.length := by
  induction s with
  | nil => simp
  | cons b s ih =>
    have hb := hf b
    rw [List.flatMap_cons, List.length_append, List.length_cons, Nat.mul_succ]
    omega

theorem length_escapeByte (b : UInt8) : (ByteJson.escapeByte b).length ≤ 6 := by
  rw [ByteJson.escapeByte]
  split_ifs <;> simp [ascii]

/-- What is quoted of a control byte is seven characters of which none is escaped. -/
theorem quoteByte_control {b : UInt8} (hb : b ≤ 0x1F) :
    b < 0x80 ∧ Utf8.Ascii (quoteByte b) ∧ quoteByte b ≠ [] ∧
    ((quoteByte b).flatMap ByteJson.escapeByte).length ≤ 8 := by
  have h : ∀ k : Fin 32, UInt8.ofNat k < 0x80 ∧ Utf8.Ascii (quoteByte (UInt8.ofNat k)) ∧
      quoteByte (UInt8.ofNat k) ≠ [] ∧ ((quoteByte (UInt8.ofNat k)).flatMap ByteJson.escapeByte).length ≤ 8 := by
    decide
  have hlt : b.toNat < 32 := Nat.lt_succ_of_le (UInt8.le_iff_toNat_le.mp hb)
  simpa using h ⟨b.toNat, hlt⟩

theorem quoteByte_plain {b : UInt8} (hb : ¬ b ≤ 0x1F) : quoteByte b = [b] := if_neg hb

theorem length_quoted (token : Bytes) :
    ((token.flatMap quoteByte).flatMap ByteJson.escapeByte).length ≤ 8 * token.length := by
  rw [List.flatMap_assoc]
  apply length_flatMap_le
  intro b
  by_cases hb : b ≤ 0x1F
  · exact (quoteByte_control hb).2.2.2
  · rw [quoteByte_plain hb, List.flatMap_singleton]
    exact (length_escapeByte b).trans (by decide)

theorem wellFormed_quoted (token : Bytes) : Utf8.WellFormed (token.flatMap quoteByte) ↔ Utf8.WellFormed token := by
  apply Utf8.wellFormed_flatMap
  intro b
  by_cases hb : b ≤ 0x1F
  · exact Or.inr ⟨(quoteByte_control hb).1, (quoteByte_control hb).2.1, (quoteByte_control hb).2.2.1⟩
  · exact Or.inl (quoteByte_plain hb)

section
variable {parse} {payload} (hlib : parse.Documented)
include hlib

/-- The answer to a malformed payload can be serialized exactly where the quoted token is well-formed. -/
theorem wellFormed_malformed {failure : ParseFailure} (h : parse payload = .error failure) :
    (malformed failure).WellFormed ↔ Utf8.WellFormed failure.token := by
  obtain ⟨hbefore, hafter, -⟩ := hlib.around payload failure h
  have hlead : Utf8.Ascii (ascii "Malformed JSON: ") := by decide
  rw [malformed, wellFormed_refused, wellFormed_errorValue, ParseFailure.what, Utf8.wellFormed_ascii_append hlead,
    Utf8.wellFormed_append_ascii hafter, Utf8.wellFormed_ascii_append hbefore, wellFormed_quoted]
  simp [ByteJson.WellFormed]

theorem length_malformed {failure : ParseFailure} (h : parse payload = .error failure)
    (hpayload : payload.length ≤ kMaximumFrameBytes) : (malformed failure).text.length < 2 ^ 32 := by
  obtain ⟨-, -, haround⟩ := hlib.around payload failure h
  have htoken := hlib.token payload failure h
  have hlead : (ascii "Malformed JSON: ").length = 16 := by decide
  have hcode : code400.bytes.length = 3 := by decide
  have hnull : ByteJson.null.text.length = 4 := by decide
  have hmessage : ((ascii "Malformed JSON: " ++ failure.what).flatMap ByteJson.escapeByte).length ≤
      6 * 16 + 6 * 1024 + 8 * kMaximumFrameBytes := by
    have hquoted := length_quoted failure.token
    have hbefore := length_flatMap_le length_escapeByte failure.before
    have hafter := length_flatMap_le length_escapeByte failure.after
    have hfirst := length_flatMap_le length_escapeByte (ascii "Malformed JSON: ")
    rw [ParseFailure.what]
    simp only [List.flatMap_append, List.length_append]
    rw [hlead] at hfirst
    omega
  rw [malformed, length_text_refused, length_text_errorValue, hcode, hnull]
  rw [kMaximumFrameBytes] at hmessage
  omega

end

/-! ## When a payload is served -/

/-- The offending token of a malformed payload is well-formed UTF-8; of a request, what is sent of the handler's answer
holds well-formed strings, and with the id and the members' names it takes less than `2 ^ 32` bytes. -/
def Deliverable (parse : Parser) (handler : Option (ByteJson → Outcome)) (payload : Bytes) : Prop :=
  match parse payload with
  | .error failure => Utf8.WellFormed failure.token
  | .ok request =>
    let id := (request.find (ascii "id")).getD .null
    match handler with
    | none => id.text.length + 62 < 2 ^ 32
    | some h =>
      match h request with
      | .threw _ => id.text.length + 59 < 2 ^ 32
      | .threwUnknown => id.text.length + 59 < 2 ^ 32
      | .returned res => (sentPart res).WellFormed ∧
          id.text.length + (sentPart res).text.length + (if answersError res then 16 else 17) < 2 ^ 32

theorem served_iff_request (hlib : parse.Documented) {request : ByteJson} (h : parse payload = .ok request) :
    Served parse handler payload ↔ Deliverable parse handler payload := by
  have hid : ((request.find (ascii "id")).getD .null).WellFormed := by
    cases hfind : request.find (ascii "id") with
    | none => exact trivial
    | some id => exact (hlib.strings payload request h).find hfind
  rw [served_iff_response]
  simp only [response, Deliverable, h]
  cases handler with
  | none =>
    have herror : (errorValue code501 (ascii "No handler registered")).WellFormed := by decide
    have hlen : (errorValue code501 (ascii "No handler registered")).text.length = 46 := by decide
    simp only [reply]
    rw [wellFormed_refused, length_text_refused, hlen]
    exact ⟨fun h => h.2, fun h => ⟨⟨hid, herror⟩, h⟩⟩
  | some run =>
    have herror : (errorValue code500 (ascii "IPC handler failed")).WellFormed := by decide
    have hlen : (errorValue code500 (ascii "IPC handler failed")).text.length = 43 := by decide
    cases hrun : run request with
    | threw what =>
      simp only [reply, hrun]
      rw [wellFormed_refused, length_text_refused, hlen]
      exact ⟨fun h => h.2, fun h => ⟨⟨hid, herror⟩, h⟩⟩
    | threwUnknown =>
      simp only [reply, hrun]
      rw [wellFormed_refused, length_text_refused, hlen]
      exact ⟨fun h => h.2, fun h => ⟨⟨hid, herror⟩, h⟩⟩
    | returned res =>
      rw [reply_returned hrun]
      simp only [hrun]
      cases answersError res with
      | true =>
        rw [if_pos rfl, if_pos rfl, wellFormed_refused, length_text_refused]
        exact ⟨fun h => ⟨h.1.2, h.2⟩, fun h => ⟨⟨hid, h.1⟩, h.2⟩⟩
      | false =>
        rw [if_neg (by decide), if_neg (by decide), wellFormed_answered, length_text_answered]
        exact ⟨fun h => ⟨h.1.2, h.2⟩, fun h => ⟨⟨hid, h.1⟩, h.2⟩⟩

/-- A payload is served exactly where the answer to it is deliverable. -/
theorem served_iff (hlib : parse.Documented) (hpayload : payload.length ≤ kMaximumFrameBytes) :
    Served parse handler payload ↔ Deliverable parse handler payload := by
  cases hparse : parse payload with
  | ok request => exact served_iff_request parse handler payload hlib hparse
  | error failure =>
    have hlen := length_malformed hlib hparse hpayload
    rw [served_iff_response]
    simp only [response, Deliverable, hparse]
    rw [wellFormed_malformed hlib hparse]
    exact ⟨fun h => h.1, fun h => ⟨h, hlen⟩⟩

def invalidLiteral : Bytes := ascii ("[json.exception.parse_error.101] parse error at line 1, column 1: " ++
  "syntax error while parsing value - invalid literal; last read: '")

/-- The library on the payload of one number, and on a payload that begins no value. -/
def parseNumbered : Parser := fun payload =>
  if payload = ascii "\x7b\"id\":7\x7d" then .ok (.object [(ascii "id", .number ⟨ascii "7", by decide +kernel⟩)])
  else .error { before := invalidLiteral, token := payload.take 1, after := ascii "'" }

theorem parseNumbered_documented : parseNumbered.Documented where
  strings payload j h := by
    rw [parseNumbered] at h
    split_ifs at h
    cases h
    decide
  around payload failure h := by
    rw [parseNumbered] at h
    split_ifs at h
    rw [← Except.error.inj h]
    have h : Utf8.Ascii invalidLiteral ∧ Utf8.Ascii (ascii "'") ∧
        invalidLiteral.length + (ascii "'").length ≤ 1024 := by decide +kernel
    dsimp only
    exact h
  token payload failure h := by
    rw [parseNumbered] at h
    split_ifs at h
    rw [← Except.error.inj h]
    exact List.length_take_le' _ _

theorem served_numbered :
    Served parseNumbered (some fun _ => .returned .null) (ascii "\x7b\"id\":7\x7d") := by
  refine (served_iff _ _ _ parseNumbered_documented (by decide)).mpr ?_
  simp only [Deliverable, parseNumbered, if_pos]
  decide

/-- One byte that begins no character is quoted in the answer, and its serialization leaves the thread. -/
theorem not_served_byte : ∃ parse : Parser, parse.Documented ∧ ∃ handler payload,
    1 ≤ payload.length ∧ payload.length ≤ kMaximumFrameBytes ∧ ¬ Served parse handler payload := by
  refine ⟨parseNumbered, parseNumbered_documented, some fun _ => .returned .null, [0xE9], by decide, by decide, ?_⟩
  intro h
  have hparse : ∃ failure, parseNumbered [0xE9] = .error failure ∧ failure.token = [0xE9] :=
    ⟨_, if_neg (by decide), rfl⟩
  obtain ⟨failure, hparse, htoken⟩ := hparse
  have hwf := ((served_iff_response _ _ _).mp h).1
  simp only [response, hparse] at hwf
  rw [wellFormed_malformed parseNumbered_documented hparse, htoken] at hwf
  exact absurd hwf (by decide)

end Didi.Bridge
