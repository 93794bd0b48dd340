import Didi.Json.Pointer
import Didi.Lib.Locked
import Didi.Mcp.Results
import Mathlib.Data.List.Induction

/-!
# What a client that asks for less is sent

* `ResponseEconomy` : the text copy left out, and the session of a live answer as a reference;
* `SessionDescriptorLedger.alreadySent` : the descriptor that one conversation was last sent, recorded when it is asked;
* `referenceHeldSession` : a live payload with a reference in the place of a descriptor that the client holds;
* `economizeToolResult` : an encoded tool result as it is sent;
* `Whole`, `Shortened` : an answer that carries a descriptor, and one that carries something in its place;
* `Unaltered` : an answer that is otherwise as it was;
* `Informed` : the descriptor of the ledger was sent, and no other since;
* `run_losesNothing` : what is shortened was sent before, when nothing is sent beside the ledger.

The parser of JSON texts is a parameter.
-/

namespace Didi.Economy
open Json

structure ResponseEconomy where
  omitTextCopy : Bool := false
  referenceSession : Bool := false

def ResponseEconomy.any (economy : ResponseEconomy) : Bool := economy.omitTextCopy || economy.referenceSession

structure SessionDescriptorLedger where
  lastSent : Option Json := none

/-- Whether the descriptor is the last one sent, which it is from now on. -/
def SessionDescriptorLedger.alreadySent (ledger : SessionDescriptorLedger) (descriptor : Json) :
    Bool × SessionDescriptorLedger :=
  if ledger.lastSent.any fun last => last.equals descriptor then (true, ledger) else (false, ⟨some descriptor⟩)

/-- Whether the client holds a descriptor already, which may record it as sent. -/
abbrev DescriptorHeld := SessionDescriptorLedger → Json → Bool × SessionDescriptorLedger

def isDescriptor : Json → Bool
  | .object members => (members.lookup "session_id").any isString
  | _ => false

def sessionReference : Json → Json
  | .object members =>
    .object (((members.lookup "kind").toList.map fun kind => ("kind", kind)) ++
      (members.lookup "session_id").toList.map fun id => ("session_id", id))
  | v => v

/-- The descriptor that a payload states its session with. -/
def descriptorOf : Json → Option Json
  | .object members => (members.lookup "session").filter isDescriptor
  | _ => none

/-- A payload with another session. -/
def withSession (session : Json) : Json → Json
  | .object members => .object (members.alterKey "session" fun _ => session)
  | v => v

/-- The payload with a reference to its session, when the client holds it and the answer is a live one. -/
def referenceHeldSession (payload : Json) (clientHolds : DescriptorHeld) (ledger : SessionDescriptorLedger) :
    Except JsonException (Option Json × SessionDescriptorLedger) :=
  match descriptorOf payload with
  | none => .ok (none, ledger)
  | some session =>
    let (held, ledger) := clientHolds ledger session
    if held then do
      let mode ← payload.valueString "execution_mode" ""
      .ok (if mode = "live" then some (withSession (sessionReference session) payload) else none, ledger)
    else .ok (none, ledger)

/-! ## A tool result -/

/-- Whether an item is the text of the structured payload. -/
def isCopy (original : String) : Json → Except JsonException Bool
  | .object members => do
    let type ← (Json.object members).valueString "type" ""
    .ok (type = "text" && (members.lookup "text").any fun text =>
      match text with
      | .string s => s = original
      | _ => false)
  | _ => .ok false

/-- The structured payload of a result that may be economised, and its items, each with whether it is a copy. -/
def economizable (encoded : Json) (economy : ResponseEconomy) :
    Except JsonException (Option (Json × List (Json × Bool))) :=
  match encoded with
  | .object members =>
    if economy.any then do
      let isError ← encoded.valueBoolean "isError" false
      if isError then .ok none
      else
        match members.lookup "structuredContent", members.lookup "content" with
        | some structured, some (.array content) => do
          let copies ← content.mapM (isCopy structured.dump)
          .ok (some (structured, content.zip copies))
        | _, _ => .ok none
    else .ok none
  | _ => .ok none

/-- An item with another text. -/
def withText (text : String) : Json → Json
  | .object members => .object (members.alterKey "text" fun _ => .string text)
  | v => v

/-- The items as they are sent: a copy is left out, or says what the payload says now. -/
def sentItems (economy : ResponseEconomy) (restructured : Option Json) (items : List (Json × Bool)) : List Json :=
  if economy.omitTextCopy then (items.filter fun item => !item.2).map (·.1)
  else
    match restructured with
    | some structured => items.map fun item => if item.2 then withText structured.dump item.1 else item.1
    | none => items.map (·.1)

/-- A result with another payload and other items. -/
def withParts (structured : Json) (content : List Json) : Json → Json
  | .object members =>
    .object ((members.alterKey "structuredContent" fun _ => structured).alterKey "content" fun _ => .array content)
  | v => v

def economizeToolResult (encoded : Json) (economy : ResponseEconomy) (clientHolds : DescriptorHeld)
    (ledger : SessionDescriptorLedger) : Except JsonException (Json × SessionDescriptorLedger) := do
  match ← economizable encoded economy with
  | none => .ok (encoded, ledger)
  | some (structured, items) =>
    if economy.referenceSession then do
      let (restructured, ledger) ← referenceHeldSession structured clientHolds ledger
      .ok (withParts (restructured.getD structured) (sentItems economy restructured items) encoded, ledger)
    else .ok (withParts structured (sentItems economy none items) encoded, ledger)

/-! ## A conversation -/

/-- What a legacy client is answered with: a tool result or the result of a job, the result of a task, or a resource,
which is a payload alone. -/
inductive Answer
  | tool (result : CallToolResult) (economy : ResponseEconomy)
  | task (result : CallToolResult) (economy : ResponseEconomy)
  | resource (payload : Json) (economy : ResponseEconomy)

namespace Answer

/-- The answer before it is economised. -/
def encoded : Answer → Json
  | tool result _ => result.toJson
  | task result _ => result.toJson
  | resource payload _ => payload

/-- An answer as it is sent, and the ledger after it. The result of a task is sent as to a client that holds nothing. -/
def send (ledger : SessionDescriptorLedger) : Answer → Except JsonException (Json × SessionDescriptorLedger)
  | tool result economy => economizeToolResult result.toJson economy SessionDescriptorLedger.alreadySent ledger
  | task result economy => economizeToolResult result.toJson economy (fun ledger _ => (false, ledger)) ledger
  | resource payload economy =>
    if economy.referenceSession then do
      let (restructured, ledger) ← referenceHeldSession payload SessionDescriptorLedger.alreadySent ledger
      .ok (restructured.getD payload, ledger)
    else .ok (payload, ledger)

end Answer

/-- The ledger of a conversation, and its answers, each with what was sent. -/
structure Conversation where
  ledger : SessionDescriptorLedger := {}
  log : List (Answer × Json) := []

/-- An exception is answered with an error and leaves the ledger: nothing throws once a descriptor is recorded. -/
def Conversation.answer (conversation : Conversation) (answer : Answer) : Conversation :=
  match answer.send conversation.ledger with
  | .ok (sent, ledger) => ⟨ledger, conversation.log ++ [(answer, sent)]⟩
  | .error _ => conversation

def Conversation.run (answers : List Answer) : Conversation := answers.foldl Conversation.answer {}

/-! ## What a conversation is told of its session -/

/-- The structured payload of a result. -/
def structuredOf : Json → Option Json
  | .object members => members.lookup "structuredContent"
  | _ => none

/-- The items of a result. -/
def contentOf : Json → List Json
  | .object members =>
    match members.lookup "content" with
    | some (.array items) => items
    | _ => []
  | _ => []

namespace Answer

/-- The payload of an answer in what is sent. -/
def payloadOf : Answer → Json → Option Json
  | tool _ _, sent => structuredOf sent
  | task _ _, sent => structuredOf sent
  | resource _ _, sent => some sent

/-- The items of an answer in what is sent. -/
def itemsOf : Answer → Json → List Json
  | tool _ _, sent => contentOf sent
  | task _ _, sent => contentOf sent
  | resource _ _, _ => []

def descriptorIn (answer : Answer) (sent : Json) : Option Json := (answer.payloadOf sent).bind descriptorOf

/-- The descriptor of the session that answers. -/
def descriptor (answer : Answer) : Option Json := answer.descriptorIn answer.encoded

/-- Whether the ledger is asked about the session of an answer. -/
def asks : Answer → Except JsonException Bool
  | tool result economy =>
    (economizable result.toJson economy).map fun parts => parts.isSome && economy.referenceSession
  | task result economy => (economizable result.toJson economy).map fun _ => false
  | resource _ economy => .ok economy.referenceSession

end Answer

section Parse
variable (parse : String → Option Json)

/-- The descriptor that the payload in a text states its session with. -/
def textDescriptor : Json → Option Json
  | .object members =>
    match members.lookup "text" with
    | some (.string text) => (parse text).bind descriptorOf
    | _ => none
  | _ => none

/-- The descriptors of sessions in what is sent, in the payload of an answer and in its items. -/
def Answer.descriptorsIn (answer : Answer) (sent : Json) : List Json :=
  (answer.descriptorIn sent).toList ++ (answer.itemsOf sent).filterMap (textDescriptor parse)

/-- The answer has a descriptor and carries it. -/
def Whole (answer : Answer) (sent descriptor : Json) : Prop :=
  descriptor ∈ answer.descriptorsIn parse answer.encoded ∧ descriptor ∈ answer.descriptorsIn parse sent

end Parse

/-- The answer has a descriptor and carries something in its place. -/
def Shortened (answer : Answer) (sent descriptor : Json) : Prop :=
  answer.descriptor = some descriptor ∧ answer.descriptorIn sent ≠ some descriptor

/-- A payload without its session. -/
def besideSession : Json → Json
  | .object members => .object (members.eraseKey "session")
  | v => v

/-- The rest of the payload is as it was, and an item that is still there is too, or has the payload for a text. -/
structure Unaltered (answer : Answer) (sent : Json) : Prop where
  payload : (answer.payloadOf sent).map besideSession = (answer.payloadOf answer.encoded).map besideSession
  items : ∃ kept, kept.Sublist (answer.itemsOf answer.encoded) ∧
    List.Forall₂ (fun old new => new = old ∨ ∃ payload, answer.payloadOf sent = some payload ∧
      new = withText payload.dump old) kept (answer.itemsOf sent)

/-- What is shortened was sent before, with no other descriptor after it, and the rest is sent as it was. -/
def LosesNothing (parse : String → Option Json) (log : List (Answer × Json)) : Prop :=
  (∀ before answer sent after descriptor, log = before ++ (answer, sent) :: after →
    Shortened answer sent descriptor → ∃ earlier first whole between held, before = earlier ++ (first, whole) :: between ∧
      Whole parse first whole held ∧ held.equals descriptor = true ∧
        ∀ later ∈ between, ∀ other, Whole parse later.1 later.2 other → held.equals other = true) ∧
  ∀ entry ∈ log, Unaltered entry.1 entry.2

/-- An answer has no descriptor but the one of the ledger, unless the ledger is asked about another one, which it has
then. -/
def Recorded (parse : String → Option Json) (ledger : SessionDescriptorLedger) (answer : Answer) : Prop :=
  ∀ asked last, answer.asks = .ok asked → ledger.lastSent = some last →
    (asked = true → ∀ descriptor ∈ answer.descriptor, last.equals descriptor = true) →
      ∀ descriptor ∈ answer.descriptorsIn parse answer.encoded, last.equals descriptor = true

/-! ## One answer -/

theorem lookup_withSession (session : Json) (payload : Json) :
    besideSession (withSession session payload) = besideSession payload := by
  cases payload with
  | object members =>
    show Json.object _ = Json.object _
    rw [List.eraseKey_alterKey, List.alterKey_eq_self]
    rw [List.lookup_eraseKey, if_pos rfl]
  | _ => rfl

variable {ledger ledger' : SessionDescriptorLedger} {payload sent : Json} {restructured : Option Json}
  {economy : ResponseEconomy} {answer : Answer}

/-- What asking about a payload comes to. -/
inductive Asked (ledger : SessionDescriptorLedger) (payload : Json) : Option Json → SessionDescriptorLedger → Prop
  | silent (h : descriptorOf payload = none) : Asked ledger payload none ledger
  | held (restructured : Option Json) (descriptor last : Json) (h : descriptorOf payload = some descriptor)
      (hlast : ledger.lastSent = some last) (hequals : last.equals descriptor = true) :
      Asked ledger payload restructured ledger
  | recorded (descriptor : Json) (h : descriptorOf payload = some descriptor) : Asked ledger payload none ⟨some descriptor⟩

theorem referenceHeldSession_asked
    (h : referenceHeldSession payload SessionDescriptorLedger.alreadySent ledger = .ok (restructured, ledger')) :
    Asked ledger payload restructured ledger' := by
  unfold referenceHeldSession at h
  cases hdescriptor : descriptorOf payload with
  | none =>
    rw [hdescriptor] at h
    cases h
    exact .silent hdescriptor
  | some descriptor =>
    rw [hdescriptor] at h
    dsimp only at h
    unfold SessionDescriptorLedger.alreadySent at h
    by_cases hheld : (ledger.lastSent.any fun last => last.equals descriptor) = true
    · rw [if_pos hheld] at h
      dsimp only at h
      rw [if_pos rfl] at h
      obtain ⟨mode, -, h⟩ := Except.bind_eq_ok.mp h
      cases h
      cases hlast : ledger.lastSent with
      | none =>
        rw [hlast] at hheld
        cases hheld
      | some last =>
        rw [hlast] at hheld
        exact .held _ descriptor last hdescriptor hlast hheld
    · rw [if_neg hheld] at h
      cases h
      exact .recorded descriptor hdescriptor

/-- A payload is left, or has another session. -/
theorem besideSession_restructured {clientHolds : DescriptorHeld}
    (h : referenceHeldSession payload clientHolds ledger = .ok (restructured, ledger')) :
    besideSession (restructured.getD payload) = besideSession payload := by
  unfold referenceHeldSession at h
  cases hdescriptor : descriptorOf payload with
  | none =>
    rw [hdescriptor] at h
    cases h
    rfl
  | some descriptor =>
    rw [hdescriptor] at h
    dsimp only at h
    split_ifs at h
    · obtain ⟨mode, -, h⟩ := Except.bind_eq_ok.mp h
      cases h
      split_ifs
      · exact lookup_withSession _ _
      · rfl
    · cases h
      rfl

theorem referenceHeldSession_never
    (h : referenceHeldSession payload (fun ledger _ => (false, ledger)) ledger = .ok (restructured, ledger')) :
    restructured = none ∧ ledger' = ledger := by
  unfold referenceHeldSession at h
  cases hdescriptor : descriptorOf payload with
  | none =>
    rw [hdescriptor] at h
    cases h
    exact ⟨rfl, rfl⟩
  | some descriptor =>
    rw [hdescriptor] at h
    cases h
    exact ⟨rfl, rfl⟩

/-- The parts of a result that may be economised. -/
theorem economizable_some {encoded structured : Json} {items : List (Json × Bool)}
    (h : economizable encoded economy = .ok (some (structured, items))) :
    ∃ members content copies, encoded = .object members ∧ members.lookup "structuredContent" = some structured ∧
      members.lookup "content" = some (.array content) ∧ items = content.zip copies := by
  unfold economizable at h
  cases encoded with
  | object members =>
    dsimp only at h
    split_ifs at h
    · obtain ⟨isError, -, h⟩ := Except.bind_eq_ok.mp h
      split_ifs at h
      · cases h
      · split at h
        · rename_i structured' content hstructured hcontent
          obtain ⟨copies, -, h⟩ := Except.bind_eq_ok.mp h
          cases h
          exact ⟨members, content, copies, rfl, hstructured, hcontent, rfl⟩
        · cases h
    · cases h
  | _ => cases h

/-! ## A result -/

theorem structuredOf_withParts {members : JsonObject} {structured : Json} (content : List Json)
    (h : members.lookup "structuredContent" = some structured) (new : Json) :
    structuredOf (withParts new content (.object members)) = some new := by
  show List.lookup "structuredContent" _ = _
  rw [List.lookup_alterKey, if_neg (by decide), List.lookup_alterKey, if_pos rfl, h]
  rfl

theorem contentOf_withParts {members : JsonObject} {items : List Json} (content : List Json)
    (h : members.lookup "content" = some (.array items)) (new : Json) :
    contentOf (withParts new content (.object members)) = content := by
  have hlookup : ((members.alterKey "structuredContent" fun _ => new).alterKey "content"
      fun _ => .array content).lookup "content" = some (.array content) := by
    rw [List.lookup_alterKey, if_pos rfl, List.lookup_alterKey, if_neg (by decide), h]
    rfl
  unfold withParts contentOf
  dsimp only
  rw [hlookup]

theorem map_fst_zip_sublist {α β : Type} (l : List α) (l' : List β) : ((l.zip l').map (·.1)).Sublist l := by
  induction l generalizing l' with
  | nil => exact List.Sublist.refl _
  | cons a l ih =>
    cases l' with
    | nil => exact List.nil_sublist _
    | cons b l' => exact (ih l').cons_cons a

/-- An item that is sent is one of the result, with the text of the payload at most. -/
theorem sentItems_kept (economy : ResponseEconomy) (restructured : Option Json) (items : List (Json × Bool)) :
    ∃ kept, kept.Sublist (items.map (·.1)) ∧ List.Forall₂ (fun old new => new = old ∨ ∃ payload,
      restructured = some payload ∧ new = withText payload.dump old) kept (sentItems economy restructured items) := by
  unfold sentItems
  split_ifs
  · refine ⟨_, List.filter_sublist.map _, List.forall₂_same.mpr fun item _ => .inl rfl⟩
  · refine ⟨items.map (·.1), List.Sublist.refl _, ?_⟩
    cases restructured with
    | none => exact List.forall₂_same.mpr fun item _ => .inl rfl
    | some structured =>
      rw [List.forall₂_map_left_iff, List.forall₂_map_right_iff, List.forall₂_same]
      intro item _
      split_ifs
      · exact .inr ⟨structured, rfl, rfl⟩
      · exact .inl rfl

/-- The parts of a result stay, save for a session and the texts of copies. -/
theorem economizeToolResult_unaltered {encoded : Json} {clientHolds : DescriptorHeld}
    (h : economizeToolResult encoded economy clientHolds ledger = .ok (sent, ledger')) :
    (structuredOf sent).map besideSession = (structuredOf encoded).map besideSession ∧
      ∃ kept, kept.Sublist (contentOf encoded) ∧ List.Forall₂ (fun old new => new = old ∨ ∃ payload,
        structuredOf sent = some payload ∧ new = withText payload.dump old) kept (contentOf sent) := by
  unfold economizeToolResult at h
  obtain ⟨parts, hparts, h⟩ := Except.bind_eq_ok.mp h
  cases parts with
  | none =>
    cases h
    exact ⟨rfl, _, List.Sublist.refl _, List.forall₂_same.mpr fun item _ => .inl rfl⟩
  | some parts =>
    obtain ⟨structured, items⟩ := parts
    obtain ⟨members, content, copies, rfl, hstructured, hcontent, rfl⟩ := economizable_some hparts
    have hold : structuredOf (.object members) = some structured := hstructured
    have holdItems : contentOf (.object members) = content := by
      unfold contentOf
      dsimp only
      rw [hcontent]
    have hzip := map_fst_zip_sublist content copies
    have hsent : ∀ (new : Option Json), besideSession (new.getD structured) = besideSession structured →
        (structuredOf (withParts (new.getD structured) (sentItems economy new (content.zip copies)) (.object members))).map
            besideSession = (structuredOf (.object members)).map besideSession ∧
          ∃ kept, kept.Sublist (contentOf (.object members)) ∧ List.Forall₂ (fun old item => item = old ∨ ∃ payload,
            structuredOf (withParts (new.getD structured) (sentItems economy new (content.zip copies)) (.object members)) =
              some payload ∧ item = withText payload.dump old) kept
            (contentOf (withParts (new.getD structured) (sentItems economy new (content.zip copies))
              (.object members))) := by
      intro new hbeside
      rw [structuredOf_withParts _ hstructured, contentOf_withParts _ hcontent, hold, holdItems, Option.map_some,
        Option.map_some, hbeside]
      obtain ⟨kept, hkept, hitems⟩ := sentItems_kept economy new (content.zip copies)
      refine ⟨rfl, kept, hkept.trans hzip, hitems.imp fun old item hitem => ?_⟩
      rcases hitem with hsame | ⟨payload, rfl, htext⟩
      · exact .inl hsame
      · exact .inr ⟨payload, rfl, htext⟩
    dsimp only at h
    split_ifs at h
    · obtain ⟨⟨restructured, ledger₁⟩, hheld, h⟩ := Except.bind_eq_ok.mp h
      cases h
      exact hsent restructured (besideSession_restructured hheld)
    · cases h
      exact hsent none rfl

theorem send_unaltered (h : answer.send ledger = .ok (sent, ledger')) : Unaltered answer sent := by
  cases answer with
  | tool encoded economy =>
    obtain ⟨hpayload, hitems⟩ := economizeToolResult_unaltered h
    exact ⟨hpayload, hitems⟩
  | task encoded economy =>
    obtain ⟨hpayload, hitems⟩ := economizeToolResult_unaltered h
    exact ⟨hpayload, hitems⟩
  | resource payload economy =>
    refine ⟨?_, [], List.Sublist.refl _, .nil⟩
    unfold Answer.send at h
    dsimp only at h
    split_ifs at h
    · obtain ⟨⟨restructured, ledger₁⟩, hheld, h⟩ := Except.bind_eq_ok.mp h
      cases h
      exact congrArg some (besideSession_restructured hheld)
    · cases h
      rfl

/-! ## One answer and the ledger -/

/-- What an answer does to the ledger: it is not asked, or not about another descriptor, or it has the descriptor of the
answer from then on. -/
inductive Told (ledger : SessionDescriptorLedger) (answer : Answer) (sent : Json) : SessionDescriptorLedger → Prop
  | left (asked : Bool) (h : answer.asks = .ok asked)
      (hsame : asked = true → ∀ last, ledger.lastSent = some last → ∀ descriptor ∈ answer.descriptor,
        last.equals descriptor = true) : Told ledger answer sent ledger
  | recorded (descriptor : Json) (h : answer.descriptor = some descriptor)
      (hsent : answer.descriptorIn sent = some descriptor) : Told ledger answer sent ⟨some descriptor⟩

/-- Whether an answer is asked about or not, one without a change of its payload is not shortened. -/
theorem not_shortened {descriptor : Json} (hshort : Shortened answer sent descriptor)
    (h : answer.payloadOf sent = answer.payloadOf answer.encoded) : False := by
  obtain ⟨hwhole, hne⟩ := hshort
  unfold Answer.descriptorIn at hne
  rw [h] at hne
  exact hne hwhole

theorem economizeToolResult_never {encoded : Json}
    (h : economizeToolResult encoded economy (fun ledger _ => (false, ledger)) ledger = .ok (sent, ledger')) :
    ledger' = ledger ∧ structuredOf sent = structuredOf encoded := by
  unfold economizeToolResult at h
  obtain ⟨parts, hparts, h⟩ := Except.bind_eq_ok.mp h
  cases parts with
  | none =>
    cases h
    exact ⟨rfl, rfl⟩
  | some parts =>
    obtain ⟨structured, items⟩ := parts
    obtain ⟨members, content, copies, rfl, hstructured, hcontent, rfl⟩ := economizable_some hparts
    have hsame : ∀ content, structuredOf (withParts structured content (.object members)) =
        structuredOf (.object members) := fun content =>
      (structuredOf_withParts content hstructured structured).trans hstructured.symm
    dsimp only at h
    split_ifs at h
    · obtain ⟨⟨restructured, ledger₁⟩, hheld, h⟩ := Except.bind_eq_ok.mp h
      obtain ⟨hnone, hledger⟩ := referenceHeldSession_never hheld
      cases h
      rw [hnone]
      exact ⟨hledger, hsame _⟩
    · cases h
      exact ⟨rfl, hsame _⟩

/-- What an answer does to the ledger, and that it is shortened only when the ledger has its descriptor. -/
theorem send_told (h : answer.send ledger = .ok (sent, ledger')) :
    Told ledger answer sent ledger' ∧
      ∀ descriptor, Shortened answer sent descriptor →
        ∃ last, ledger.lastSent = some last ∧ last.equals descriptor = true := by
  have hunasked : answer.asks = .ok false → Told ledger answer sent ledger :=
    fun hasks => .left false hasks Bool.noConfusion
  cases answer with
  | task result economy =>
    obtain ⟨rfl, hsame⟩ := economizeToolResult_never h
    refine ⟨hunasked ?_, fun descriptor hshort => (not_shortened hshort hsame).elim⟩
    unfold Answer.send economizeToolResult at h
    obtain ⟨parts, hparts, -⟩ := Except.bind_eq_ok.mp h
    unfold Answer.asks
    dsimp only
    rw [hparts]
    rfl
  | tool result economy =>
    unfold Answer.send economizeToolResult at h
    dsimp only at h
    obtain ⟨parts, hparts, h⟩ := Except.bind_eq_ok.mp h
    have hasks : (Answer.tool result economy).asks = .ok (parts.isSome && economy.referenceSession) := by
      unfold Answer.asks
      dsimp only
      rw [hparts]
      rfl
    cases parts with
    | none =>
      cases h
      exact ⟨hunasked hasks, fun descriptor hshort => (not_shortened hshort rfl).elim⟩
    | some parts =>
      obtain ⟨structured, items⟩ := parts
      obtain ⟨members, content, copies, hencoded, hstructured, hcontent, rfl⟩ := economizable_some hparts
      have hold : structuredOf result.toJson = some structured := by
        rw [hencoded]
        exact hstructured
      have hdescriptor : (Answer.tool result economy).descriptor = descriptorOf structured := by
        show (structuredOf result.toJson).bind descriptorOf = _
        rw [hold]
        rfl
      have hsame : ∀ content, structuredOf (withParts structured content result.toJson) = structuredOf result.toJson := by
        intro content
        rw [hold, hencoded]
        exact structuredOf_withParts content hstructured structured
      have hkept : ∀ content descriptor, Shortened (Answer.tool result economy) (withParts structured content result.toJson)
          descriptor → ∃ last, ledger.lastSent = some last ∧ last.equals descriptor = true :=
        fun content descriptor hshort => (not_shortened hshort (hsame content)).elim
      dsimp only at h
      by_cases hreference : economy.referenceSession = true
      · rw [if_pos hreference] at h
        rw [hreference] at hasks
        obtain ⟨⟨restructured, ledger₁⟩, hheld, h⟩ := Except.bind_eq_ok.mp h
        cases h
        cases referenceHeldSession_asked hheld with
        | silent hnone =>
          refine ⟨.left true hasks fun _ last _ descriptor hmem => ?_, hkept _⟩
          rw [hdescriptor, hnone] at hmem
          cases hmem
        | held _ descriptor last hsome hlast hequals =>
          have hall : ∀ other, (Answer.tool result economy).descriptor = some other → last.equals other = true := by
            intro other hother
            rw [hdescriptor, hsome] at hother
            exact (Option.some.inj hother) ▸ hequals
          refine ⟨.left true hasks fun _ last' hlast' other hother => ?_, fun other hshort =>
            ⟨last, hlast, hall other hshort.1⟩⟩
          rw [hlast] at hlast'
          cases hlast'
          exact hall other hother
        | recorded descriptor hsome =>
          have hwhole : (Answer.tool result economy).descriptor = some descriptor := hdescriptor.trans hsome
          have hsent : ∀ content, (Answer.tool result economy).descriptorIn (withParts structured content result.toJson) =
              some descriptor := fun content => (congrArg (·.bind descriptorOf) (hsame content)).trans hwhole
          exact ⟨.recorded descriptor hwhole (hsent _), hkept _⟩
      · rw [if_neg hreference] at h
        cases h
        rw [Bool.not_eq_true] at hreference
        rw [hreference, Bool.and_false] at hasks
        exact ⟨hunasked hasks, hkept _⟩
  | resource payload economy =>
    unfold Answer.send at h
    dsimp only at h
    by_cases hreference : economy.referenceSession = true
    · have hasks : (Answer.resource payload economy).asks = .ok true := congrArg Except.ok hreference
      rw [if_pos hreference] at h
      obtain ⟨⟨restructured, ledger₁⟩, hheld, h⟩ := Except.bind_eq_ok.mp h
      cases h
      cases referenceHeldSession_asked hheld with
      | silent hnone =>
        refine ⟨.left true hasks fun _ last _ descriptor hmem => ?_, fun descriptor hshort =>
          (not_shortened hshort rfl).elim⟩
        cases hnone.symm.trans hmem
      | held _ descriptor last hsome hlast hequals =>
        have hall : ∀ other, (Answer.resource payload economy).descriptor = some other → last.equals other = true :=
          fun other hother => Option.some.inj (hsome.symm.trans hother) ▸ hequals
        refine ⟨.left true hasks fun _ last' hlast' other hother => ?_, fun other hshort =>
          ⟨last, hlast, hall other hshort.1⟩⟩
        rw [hlast] at hlast'
        cases hlast'
        exact hall other hother
      | recorded descriptor hsome =>
        exact ⟨.recorded descriptor hsome hsome, fun other hshort => (not_shortened hshort rfl).elim⟩
    · rw [if_neg hreference] at h
      cases h
      rw [Bool.not_eq_true] at hreference
      exact ⟨hunasked (congrArg Except.ok hreference), fun descriptor hshort => (not_shortened hshort rfl).elim⟩

/-! ## A whole conversation -/

section Parse
variable {parse : String → Option Json}

/-- The descriptor of the ledger was sent, and no other since. -/
def Informed (parse : String → Option Json) (conversation : Conversation) : Prop :=
  ∀ last, conversation.ledger.lastSent = some last → ∃ earlier first whole between,
    conversation.log = earlier ++ (first, whole) :: between ∧ Whole parse first whole last ∧
      ∀ later ∈ between, ∀ other, Whole parse later.1 later.2 other → last.equals other = true

theorem informed_answer {conversation : Conversation} (h : Informed parse conversation)
    (hrecorded : Recorded parse conversation.ledger answer) : Informed parse (conversation.answer answer) := by
  unfold Conversation.answer
  cases hsend : answer.send conversation.ledger with
  | error e => exact h
  | ok result =>
    obtain ⟨sent, ledger'⟩ := result
    obtain ⟨htold, -⟩ := send_told hsend
    cases htold with
    | left asked hasks hsame =>
      intro last hlast
      obtain ⟨earlier, first, whole, between, hlog, hwhole, hbetween⟩ := h last hlast
      refine ⟨earlier, first, whole, between ++ [(answer, sent)], ?_, hwhole, ?_⟩
      · dsimp only
        rw [hlog, List.append_assoc, List.cons_append]
      · intro later hlater
        rcases List.mem_append.mp hlater with hlater | hlater
        · exact hbetween later hlater
        · -- the answer that leaves the ledger carries nothing else
          cases List.mem_singleton.mp hlater
          exact fun other hother => hrecorded asked last hasks hlast (fun hasked => hsame hasked last hlast) other hother.1
    | recorded descriptor hdescriptor hsent =>
      intro last hlast
      cases hlast
      refine ⟨conversation.log, answer, sent, [], rfl, ⟨?_, ?_⟩, fun later hlater => by cases hlater⟩
      · exact List.mem_append_left _ (Option.mem_toList.mpr hdescriptor)
      · exact List.mem_append_left _ (Option.mem_toList.mpr hsent)

theorem losesNothing_answer {conversation : Conversation} (hlog : LosesNothing parse conversation.log)
    (h : Informed parse conversation) : LosesNothing parse (conversation.answer answer).log := by
  unfold Conversation.answer
  cases hsend : answer.send conversation.ledger with
  | error e => exact hlog
  | ok result =>
    obtain ⟨sent, ledger'⟩ := result
    obtain ⟨hshortened, hunaltered⟩ := hlog
    refine ⟨?_, ?_⟩
    · intro before found foundSent after descriptor heq hshort
      rcases List.eq_nil_or_concat after with rfl | ⟨after, final, rfl⟩
      · -- the answer that is added
        obtain ⟨rfl, hlast⟩ := List.append_inj' heq rfl
        cases hlast
        obtain ⟨last, hlast, hequals⟩ := (send_told hsend).2 descriptor hshort
        obtain ⟨earlier, first, whole, between, hbefore, hwhole, hbetween⟩ := h last hlast
        exact ⟨earlier, first, whole, between, last, hbefore, hwhole, hequals, hbetween⟩
      · rw [List.concat_eq_append, ← List.cons_append, ← List.append_assoc] at heq
        obtain ⟨heq, -⟩ := List.append_inj' heq rfl
        exact hshortened before found foundSent after descriptor heq hshort
    · intro entry hentry
      rcases List.mem_append.mp hentry with hentry | hentry
      · exact hunaltered entry hentry
      · cases List.mem_singleton.mp hentry
        exact send_unaltered hsend

/-- **In a conversation that sends no other descriptor beside the ledger, what is shortened was sent before with no other
after it, and everything else is sent as it was.** -/
theorem run_losesNothing (answers : List Answer) (h : ∀ before answer after, answers = before ++ answer :: after →
    Recorded parse (Conversation.run before).ledger answer) : LosesNothing parse (Conversation.run answers).log := by
  suffices hboth : Informed parse (Conversation.run answers) ∧
      LosesNothing parse (Conversation.run answers).log from hboth.2
  induction answers using List.reverseRecOn with
  | nil =>
    refine ⟨fun last hlast => ?_, fun before answer sent after descriptor heq => ?_, fun entry hentry => ?_⟩
    · cases hlast
    · exact absurd (congrArg List.length heq) (by simp [Conversation.run])
    · cases hentry
  | append_singleton answers answer ih =>
    obtain ⟨hinformed, hlog⟩ := ih fun before answer' after heq =>
      h before answer' (after ++ [answer]) (by rw [heq, List.append_assoc, List.cons_append])
    unfold Conversation.run at hinformed hlog ⊢
    rw [List.foldl_append, List.foldl_cons, List.foldl_nil]
    exact ⟨informed_answer hinformed (h answers answer [] rfl), losesNothing_answer hlog hinformed⟩

end Parse

/-! ## Two sessions -/

def sampleDescriptor (id : String) : Json :=
  .object [("kind", .string "editor"), ("project", .string "p"), ("session_id", .string id)]

def samplePayload (id : String) : Json :=
  .object [("execution_mode", .string "live"), ("session", sampleDescriptor id)]

/-- A parser that knows the payloads of these answers. -/
def sampleParse (text : String) : Option Json :=
  [samplePayload "a", samplePayload "b"].find? fun payload => payload.dump = text

def sampleResult (isError : Bool) (id : String) : CallToolResult where
  content := [{ type := "text", text := (samplePayload id).dump }]
  isError
  structuredContent := some (samplePayload id)

def economical : ResponseEconomy := { referenceSession := true }

/-- Two answers of the session, an error of it and its answer as a task. -/
def sampleAnswers : List Answer :=
  [.tool (sampleResult false "a") economical, .tool (sampleResult true "a") economical,
    .task (sampleResult false "a") economical, .tool (sampleResult false "a") economical]

theorem sampleAnswers_carry {answer : Answer} (h : answer ∈ sampleAnswers) :
    ∀ descriptor ∈ answer.descriptorsIn sampleParse answer.encoded, descriptor = sampleDescriptor "a" := by
  have hboth : ∀ answer : Answer,
      answer.descriptorsIn sampleParse answer.encoded = [sampleDescriptor "a", sampleDescriptor "a"] →
      ∀ descriptor ∈ answer.descriptorsIn sampleParse answer.encoded, descriptor = sampleDescriptor "a" := by
    intro answer hcarry descriptor hmem
    rw [hcarry] at hmem
    simpa using hmem
  unfold sampleAnswers at h
  simp only [List.mem_cons, List.not_mem_nil, or_false] at h
  rcases h with rfl | rfl | rfl | rfl
  · exact hboth _ rfl
  · exact fun descriptor hmem => List.mem_singleton.mp hmem
  · exact hboth _ rfl
  · exact hboth _ rfl

theorem run_losesNothing_sample : LosesNothing sampleParse (Conversation.run sampleAnswers).log := by
  have hledger : ∀ n < 4, ∀ last, (Conversation.run (sampleAnswers.take n)).ledger.lastSent = some last →
      last = sampleDescriptor "a" := by
    intro n hn last hlast
    match n with
    | 0 => cases hlast
    | 1 | 2 | 3 => exact (Option.some.inj hlast).symm
    | n + 4 => omega
  refine run_losesNothing _ fun before answer after heq asked last hasks hlast hsame descriptor hmem => ?_
  have hlength : before.length < 4 := by
    have hsum := congrArg List.length heq
    rw [List.length_append, List.length_cons] at hsum
    change 4 = _ at hsum
    omega
  have hbefore : before = sampleAnswers.take before.length := by rw [heq, List.take_left]
  rw [hbefore] at hlast
  have hanswer : answer ∈ sampleAnswers := heq ▸ List.mem_append_right _ List.mem_cons_self
  rw [hledger _ hlength last hlast, sampleAnswers_carry hanswer descriptor hmem]
  decide

/-- The answer of a task sends the descriptor of another session beside the ledger. -/
theorem not_losesNothing : ¬ ∀ answers : List Answer, LosesNothing sampleParse (Conversation.run answers).log := by
  intro h
  let first : Answer := .tool (sampleResult false "a") economical
  let task : Answer := .task (sampleResult false "b") economical
  let reference := withSession (sessionReference (sampleDescriptor "a")) (samplePayload "a")
  let shortened := withParts reference [.object [("text", .string reference.dump), ("type", .string "text")]] first.encoded
  have hlog : (Conversation.run [first, task, first]).log = [(first, first.encoded), (task, task.encoded)] ++
      (first, shortened) :: [] := rfl
  have hshort : Shortened first shortened (sampleDescriptor "a") := by
    refine ⟨rfl, fun hsame => ?_⟩
    exact absurd (congrArg (Option.map dumpSize) hsame) (by decide)
  obtain ⟨earlier, answer, whole, between, held, hbefore, hwhole, hequals, hbetween⟩ := (h _).1 _ _ _ _ _ hlog hshort
  have hlater : Whole sampleParse task task.encoded (sampleDescriptor "b") := ⟨List.mem_cons_self, List.mem_cons_self⟩
  cases earlier with
  | nil =>
    -- the first answer was in full, and the one of the task after it
    obtain ⟨hfirst, rfl⟩ := List.cons.inj hbefore
    cases hfirst
    obtain rfl := sampleAnswers_carry List.mem_cons_self held hwhole.1
    exact absurd (hbetween _ List.mem_cons_self _ hlater) (by decide)
  | cons entry earlier =>
    obtain ⟨-, hbefore⟩ := List.cons.inj hbefore
    cases earlier with
    | nil =>
      obtain ⟨hfirst, -⟩ := List.cons.inj hbefore
      cases hfirst
      obtain rfl : held = sampleDescriptor "b" := by
        have hcarry : held ∈ [sampleDescriptor "b", sampleDescriptor "b"] := hwhole.1
        simpa using hcarry
      exact absurd hequals (by decide)
    | cons entry earlier =>
      obtain ⟨-, hbefore⟩ := List.cons.inj hbefore
      exact absurd (congrArg List.length hbefore) (by simp)

end Didi.Economy
