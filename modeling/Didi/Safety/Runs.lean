import Didi.Lib.Run
import Didi.Safety.Gate

/-!
# Confirmed executions

* `begin_lookUp`, `begin_execute`, `minted_spec`, `finish_execute` : what a section says of its call;
* `Sound R past gate` : what holds of the gate after the events `past`: every confirmation was minted
  by a dry run, and every pending call found the one it carries, with arguments that `R` relates;
* `execution_previewed_once` : a token lets one call execute, the one that was previewed;
* `confirmed_content_previewed` : and what that call finds is what the preview read.
-/

namespace Didi.Safety
variable {event : Event} {R : JsonObject → JsonObject → Prop}

/-! ## What a call says -/

def Call.members (call : Call) : JsonObject :=
  match call.arguments with
  | .object members => members
  | _ => []

/-- The arguments without the two controls. -/
def Call.own (call : Call) : JsonObject := sanitized call.members

def Call.token (call : Call) : Option String :=
  match call.members.lookup "confirmation_token" with
  | some (.string token) => some token
  | _ => none

def Call.isDryRun (call : Call) : Bool :=
  match call.members.lookup "dry_run" with
  | some (.boolean dryRun) => dryRun
  | _ => false

/-- Whether the call's arguments require confirmation. -/
def Call.NeedsConfirmation (call : Call) : Prop :=
  requiresConfirmation call.occupied call.binding call.own = .ok true

/-- What the call's probe reads of its target; nothing where there is no probe or it fails. -/
def Call.reads (call : Call) : Json :=
  match call.probe with
  | some (.ok (before, _)) => before
  | _ => .null

/-- The token that the call mints, and what the table keeps of the call under it. -/
def Call.minted (call : Call) : Option (String × Confirmation) :=
  match call.begin with
  | .ok (.mint token confirmation _) => some (token, confirmation)
  | _ => none

def Event.minted : Event → Option String
  | .open _ call => call.minted.map Prod.fst
  | .close _ => none

/-! ## How a call begins -/

variable {call : Call} {token : String} {gate : Gate} {arguments : JsonObject} {confirmation : Confirmation}
  {confirmations : Confirmations}

theorem dryRun_cases {requires : Bool} {before subject : Json} {stage : Stage}
    (h : call.dryRun arguments requires before subject = .ok stage) :
    (∃ e, stage = .decided (.error e)) ∨
      (∃ preview, preview.confirmation = none ∧ stage = .decided (.preview preview)) ∨
      ∃ fingerprint preview, targetFingerprint before = .ok fingerprint ∧
        preview.confirmation = some (call.drawn, call.nowMs + kConfirmationTtlMs) ∧
        stage = .mint call.drawn
          { invokedName := call.binding.invokedName, arguments, context := call.context,
            expiresAtMs := call.nowMs + kConfirmationTtlMs, targetFingerprint := fingerprint } preview := by
  unfold Call.dryRun at h
  obtain ⟨fingerprint, hfingerprint, h⟩ := Except.bind_eq_ok.mp h
  obtain ⟨change, -, h⟩ := Except.bind_eq_ok.mp h
  dsimp only at h
  by_cases hrequires : requires = true
  · rw [if_pos hrequires] at h
    by_cases hsize : call.drawn.utf8ByteSize ≠ 64
    · rw [if_pos hsize] at h
      cases h
      exact .inl ⟨_, rfl⟩
    · rw [if_neg hsize] at h
      cases h
      exact .inr (.inr ⟨fingerprint, _, hfingerprint, rfl, rfl⟩)
  · rw [if_neg hrequires] at h
    cases h
    exact .inr (.inl ⟨_, rfl, rfl⟩)

theorem controlled_cases {dryRun : Bool} {token : Option String} {stage : Stage}
    (h : call.controlled arguments dryRun token = .ok stage) :
    ∃ requires, requiresConfirmation call.occupied call.binding arguments = .ok requires ∧
      ((dryRun = true ∧ ∃ subject, call.dryRun arguments requires call.reads subject = .ok stage) ∨
        (∃ e, stage = .decided (.error e)) ∨
        (dryRun = false ∧ token = none ∧ requires = false ∧ stage = .decided (.execute arguments)) ∨
        ∃ t, dryRun = false ∧ token = some t ∧ stage = .lookUp t arguments) := by
  unfold Call.controlled at h
  obtain ⟨requires, hrequires, h⟩ := Except.bind_eq_ok.mp h
  refine ⟨requires, hrequires, ?_⟩
  cases dryRun with
  | true =>
    simp only [if_true] at h
    cases token with
    | some t =>
      cases h
      exact .inr (.inl ⟨_, rfl⟩)
    | none =>
      unfold Call.reads
      cases hprobe : call.probe with
      | none => exact .inl ⟨rfl, .null, by simpa [hprobe] using h⟩
      | some answer =>
        cases answer with
        | error problem =>
          simp only [hprobe] at h
          cases h
          exact .inr (.inl ⟨problem, rfl⟩)
        | ok read => exact .inl ⟨rfl, read.2, by simpa [hprobe] using h⟩
  | false =>
    cases token with
    | none =>
      cases requires with
      | true =>
        cases h
        exact .inr (.inl ⟨_, rfl⟩)
      | false =>
        cases h
        exact .inr (.inr (.inl ⟨rfl, rfl, rfl, rfl⟩))
    | some t =>
      simp only [Bool.false_eq_true, if_false] at h
      split_ifs at h
      · cases h
        exact .inr (.inl ⟨_, rfl⟩)
      · cases h
        exact .inr (.inl ⟨_, rfl⟩)
      · cases h
        exact .inr (.inr (.inr ⟨t, rfl, rfl, rfl⟩))

/-- How a call on an object of arguments begins: with an answer, or as its controls say. -/
theorem begin_cases {stage : Stage} (h : call.begin = .ok stage) :
    (∃ e, stage = .decided (.error e)) ∨
      (isMutation call.binding = false ∧ call.token = none ∧ stage = .decided (.execute call.members)) ∨
      call.controlled call.own call.isDryRun call.token = .ok stage := by
  unfold Call.begin at h
  unfold Call.own Call.isDryRun Call.token Call.members
  cases harguments : call.arguments with
  | object members =>
    simp only [harguments] at h ⊢
    by_cases hmutation : isMutation call.binding = true
    · simp only [hmutation, Bool.not_true, Bool.false_eq_true, if_false] at h
      split at h
      iterate 4
        · rename_i hdry htoken
          exact .inr (.inr (by simpa only [hdry, htoken] using h))
      all_goals
        cases h
        exact .inl ⟨_, rfl⟩
    · rw [Bool.not_eq_true] at hmutation
      simp only [hmutation, Bool.not_false, if_true] at h
      split_ifs at h with hcontrols
      · cases h
        exact .inl ⟨_, rfl⟩
      · cases h
        rw [Bool.or_eq_true, not_or, Option.not_isSome_iff_eq_none, Option.not_isSome_iff_eq_none] at hcontrols
        refine .inr (.inl ⟨hmutation, ?_, rfl⟩)
        rw [hcontrols.2]
  | _ =>
    simp only [harguments] at h
    cases h
    exact .inl ⟨_, rfl⟩

/-- **How a call begins**: it is refused, it executes or is previewed at once, it mints its own token in a
dry run, with what its probe read, or it offers the token that it carries. -/
theorem begin_spec {stage : Stage} (h : call.begin = .ok stage) :
    (∃ e, stage = .decided (.error e)) ∨
      (∃ arguments, stage = .decided (.execute arguments) ∧ call.token = none ∧ ¬ call.NeedsConfirmation) ∨
      (∃ preview, stage = .decided (.preview preview) ∧ preview.confirmation = none) ∨
      (∃ fingerprint preview, stage = .mint call.drawn
          { invokedName := call.binding.invokedName, arguments := call.own, context := call.context,
            expiresAtMs := call.nowMs + kConfirmationTtlMs, targetFingerprint := fingerprint } preview ∧
        call.isDryRun = true ∧ targetFingerprint call.reads = .ok fingerprint ∧
        preview.confirmation = some (call.drawn, call.nowMs + kConfirmationTtlMs)) ∨
      ∃ token, stage = .lookUp token call.own ∧ call.token = some token := by
  rcases begin_cases h with ⟨e, rfl⟩ | ⟨hmutation, htoken, rfl⟩ | hcontrolled
  · exact .inl ⟨e, rfl⟩
  · refine .inr (.inl ⟨call.members, rfl, htoken, ?_⟩)
    intro hneeds
    rw [isMutation_of_canRequire (canRequire_of_requires hneeds)] at hmutation
    cases hmutation
  · obtain ⟨requires, hrequires, hcases⟩ := controlled_cases hcontrolled
    rcases hcases with ⟨hdry, subject, hstage⟩ | ⟨e, rfl⟩ | ⟨-, htoken, rfl, rfl⟩ | ⟨token, -, htoken, rfl⟩
    · rcases dryRun_cases hstage with ⟨e, rfl⟩ | ⟨preview, hnone, rfl⟩ | ⟨fingerprint, preview, hread, hshown, rfl⟩
      · exact .inl ⟨e, rfl⟩
      · exact .inr (.inr (.inl ⟨preview, rfl, hnone⟩))
      · exact .inr (.inr (.inr (.inl ⟨fingerprint, preview, rfl, hdry, hread, hshown⟩)))
    · exact .inl ⟨e, rfl⟩
    · refine .inr (.inl ⟨call.own, rfl, htoken, ?_⟩)
      intro hneeds
      cases hneeds.symm.trans hrequires
    · exact .inr (.inr (.inr (.inr ⟨token, rfl, htoken⟩)))

theorem minted_spec (h : call.minted = some (token, confirmation)) :
    call.isDryRun = true ∧ token = call.drawn ∧
      confirmation.invokedName = call.binding.invokedName ∧ confirmation.arguments = call.own ∧
      confirmation.context = call.context ∧
      confirmation.expiresAtMs = call.nowMs + kConfirmationTtlMs ∧
      targetFingerprint call.reads = .ok confirmation.targetFingerprint := by
  unfold Call.minted at h
  split at h
  · rename_i t c preview hbegin
    cases h
    rcases begin_spec hbegin with ⟨e, he⟩ | ⟨_, he, -⟩ | ⟨_, he, -⟩ | ⟨fingerprint, _, he, hdry, hread, -⟩ | ⟨_, he, -⟩
    · cases he
    · cases he
    · cases he
    · cases he
      exact ⟨hdry, rfl, rfl, rfl, rfl, rfl, hread⟩
    · cases he
  · cases h

theorem begin_lookUp (h : call.begin = .ok (.lookUp token arguments)) :
    call.token = some token ∧ arguments = call.own := by
  rcases begin_spec h with ⟨e, he⟩ | ⟨_, he, -⟩ | ⟨_, he, -⟩ | ⟨_, _, he, -⟩ | ⟨t, he, htoken⟩
  · cases he
  · cases he
  · cases he
  · cases he
  · cases he
    exact ⟨htoken, rfl⟩

/-- A call that executes at once carries no token and needs none. -/
theorem begin_execute (h : call.begin = .ok (.decided (.execute arguments))) :
    call.token = none ∧ ¬ call.NeedsConfirmation := by
  rcases begin_spec h with ⟨e, he⟩ | ⟨_, he, hexecute⟩ | ⟨_, he, -⟩ | ⟨_, _, he, -⟩ | ⟨_, he, -⟩
  · cases he
  · exact hexecute
  · cases he
  · cases he
  · cases he

/-! ## The sections -/

variable {oldest : Confirmations → Option String}

theorem get_dropOldest {rounds : Nat} (h : (dropOldest oldest confirmations rounds).get token = some confirmation) :
    confirmations.get token = some confirmation := by
  induction rounds generalizing confirmations with
  | zero => exact h
  | succ rounds ih =>
    unfold dropOldest at h
    split_ifs at h
    · split at h
      · exact h
      · have herased := ih h
        rw [OrderedMap.get_erase] at herased
        split_ifs at herased
        exact herased
    · exact h

/-- A pruned table holds nothing new. -/
theorem get_prune {nowMs : Int} (h : (prune oldest nowMs confirmations).get token = some confirmation) :
    confirmations.get token = some confirmation := by
  have hlive := get_dropOldest h
  rw [OrderedMap.get_filter] at hlive
  exact (Option.filter_eq_some_iff.mp hlive).1

theorem get_lookUp {offered : String}
    (h : (lookUp call offered arguments confirmations).2.2.get token = some confirmation) :
    confirmations.get token = some confirmation := by
  unfold lookUp at h
  cases hfound : confirmations.get offered with
  | none =>
    rw [hfound] at h
    exact h
  | some found =>
    simp only [hfound] at h
    split_ifs at h
    · rw [OrderedMap.get_erase] at h
      split_ifs at h
      exact h
    · exact h
    · exact h

theorem sameContext_iff {left right : MutationContext} : sameContext left right = true ↔ left = right := by
  obtain ⟨root, mode, session, generation⟩ := left
  obtain ⟨root', mode', session', generation'⟩ := right
  simp [sameContext, and_assoc]

/-- What a call finds under a token that it may spend. -/
theorem lookUp_spendable (h : (lookUp call token arguments confirmations).1 = .spendable) :
    ∃ found, confirmations.get token = some found ∧ call.nowMs ≤ found.expiresAtMs ∧
      found.invokedName = call.binding.invokedName ∧
      Json.equals (.object found.arguments) (.object arguments) = true ∧ found.context = call.context ∧
      lookUp call token arguments confirmations = (.spendable, found.targetFingerprint, confirmations) := by
  unfold lookUp at h ⊢
  cases hfound : confirmations.get token with
  | none =>
    rw [hfound] at h
    cases h
  | some found =>
    simp only [hfound] at h ⊢
    split_ifs at h ⊢ with hexpired hmismatch
    simp only [Bool.or_eq_true, Bool.not_eq_true', decide_eq_true_eq, not_or, not_not,
      Bool.not_eq_false] at hmismatch
    exact ⟨found, rfl, by omega, hmismatch.1.1, hmismatch.1.2, sameContext_iff.mp hmismatch.2, rfl⟩

theorem get_spend {offered : String} (h : (spend offered confirmations).2.get token = some confirmation) :
    confirmations.get token = some confirmation := by
  unfold spend at h
  split at h
  · exact h
  · rw [OrderedMap.get_erase] at h
    split_ifs at h
    exact h

theorem get_finish {p : Pending} (h : (finish p gate).2.confirmations.get token = some confirmation) :
    gate.confirmations.get token = some confirmation := by
  unfold finish at h
  split at h
  · exact h
  · exact h
  · split_ifs at h
    · exact get_spend h
    · exact h

/-- What an event does to the table: it mints, or it only takes away. -/
theorem get_step (h : (step oldest gate event).2.confirmations.get token = some confirmation) :
    gate.confirmations.get token = some confirmation ∨
      ∃ id call, event = .open id call ∧ call.minted = some (token, confirmation) := by
  cases event with
  | «open» id call =>
    cases hbegin : call.begin with
    | error e =>
      simp only [step, hbegin] at h
      exact .inl h
    | ok stage =>
      cases stage with
      | decided decision =>
        simp only [step, hbegin] at h
        exact .inl h
      | mint t c preview =>
        simp only [step, hbegin, mint, OrderedMap.get_insert] at h
        split_ifs at h with ht
        · refine .inr ⟨id, call, rfl, ?_⟩
          cases h
          rw [Call.minted, hbegin, ht]
        · exact .inl (get_prune h)
      | lookUp t arguments =>
        refine .inl ?_
        simp only [step, hbegin] at h
        split_ifs at h
        · exact get_lookUp h
        · exact get_lookUp h
  | close id =>
    refine .inl ?_
    simp only [step] at h
    split at h
    · exact h
    · have hget := get_finish h
      exact hget

theorem pending_finish (p : Pending) (gate : Gate) : (finish p gate).2.pending = gate.pending := by
  unfold finish
  split
  · rfl
  · rfl
  · split_ifs <;> rfl

/-- Which calls an event leaves between their look-up and their end. -/
theorem pending_step {p : Pending} (h : p ∈ (step oldest gate event).2.pending) :
    p ∈ gate.pending ∨ ∃ found, event = .open p.id p.call ∧ p.call.begin = .ok (.lookUp p.token p.arguments) ∧
      gate.confirmations.get p.token = some found ∧ p.call.nowMs ≤ found.expiresAtMs ∧
      found.invokedName = p.call.binding.invokedName ∧
      Json.equals (.object found.arguments) (.object p.arguments) = true ∧ found.context = p.call.context ∧
      p.previewed = found.targetFingerprint := by
  cases event with
  | «open» id call =>
    cases hbegin : call.begin with
    | error e =>
      simp only [step, hbegin] at h
      exact .inl h
    | ok stage =>
      cases stage with
      | decided decision =>
        simp only [step, hbegin] at h
        exact .inl h
      | mint t c preview =>
        simp only [step, hbegin] at h
        exact .inl h
      | lookUp t arguments =>
        simp only [step, hbegin] at h
        split_ifs at h with hspendable
        · obtain ⟨found, hfound, hlive, hname, hequal, hcontext, hlook⟩ := lookUp_spendable hspendable
          rcases List.mem_cons.mp h with rfl | h
          · exact .inr ⟨found, rfl, hbegin, hfound, hlive, hname, hequal, hcontext, by rw [hlook]⟩
          · exact .inl h
        · exact .inl h
  | close id =>
    refine .inl ?_
    simp only [step] at h
    split at h
    · exact h
    · rw [pending_finish] at h
      exact List.mem_of_mem_eraseP h

/-- The token that a preview shows was minted by the call that it previews. -/
theorem step_preview {id : Nat} {call c : Call} {preview : Preview}
    (h : (step oldest gate (.open id call)).1 = .decided c (.preview preview)) {expires : Int}
    (htoken : preview.confirmation = some (token, expires)) :
    ∃ confirmation, call.minted = some (token, confirmation) := by
  cases hbegin : call.begin with
  | error e =>
    simp only [step, hbegin] at h
    cases h
  | ok stage =>
    cases stage with
    | decided decision =>
      simp only [step, hbegin] at h
      cases h
      rcases begin_spec hbegin with ⟨e, he⟩ | ⟨_, he, -⟩ | ⟨_, he, hnone⟩ | ⟨_, _, he, -⟩ | ⟨_, he, -⟩
      · cases he
      · cases he
      · cases he
        rw [hnone] at htoken
        cases htoken
      · cases he
      · cases he
    | mint t confirmation p =>
      simp only [step, hbegin] at h
      cases h
      rcases begin_spec hbegin with ⟨e, he⟩ | ⟨_, he, -⟩ | ⟨_, he, -⟩ | ⟨_, _, he, -, -, hshown⟩ | ⟨_, he, -⟩
      · cases he
      · cases he
      · cases he
      · cases he
        rw [hshown] at htoken
        cases htoken
        exact ⟨_, by rw [Call.minted, hbegin]⟩
      · cases he
    | lookUp t arguments =>
      simp only [step, hbegin] at h
      split_ifs at h
      obtain ⟨-, hdecision⟩ := Outcome.decided.inj h
      unfold decisionOf at hdecision
      split at hdecision <;> cases hdecision

/-! ## What holds after every event -/

/-- The dry run behind a call that offers `token`: it minted the token before the call, for the same tool
and context and for arguments that `R` relates to the call's, and it has not expired. -/
def PreviewedIn (R : JsonObject → JsonObject → Prop) (earlier : List Event) (call : Call) (token : String)
    (confirmation : Confirmation) : Prop :=
  ∃ id preview, Event.open id preview ∈ earlier ∧ preview.isDryRun = true ∧
    preview.minted = some (token, confirmation) ∧
    preview.binding.invokedName = call.binding.invokedName ∧ R preview.own call.own ∧
    preview.context = call.context ∧ call.nowMs ≤ preview.nowMs + kConfirmationTtlMs

structure Sound (R : JsonObject → JsonObject → Prop) (past : List Event) (gate : Gate) : Prop where
  table : ∀ token confirmation, gate.confirmations.get token = some confirmation →
    ∃ id preview, Event.open id preview ∈ past ∧ preview.minted = some (token, confirmation)
  pending : ∀ p ∈ gate.pending, p.call.token = some p.token ∧ p.arguments = p.call.own ∧
    ∃ earlier later confirmation, past = earlier ++ .open p.id p.call :: later ∧
      PreviewedIn R earlier p.call p.token confirmation ∧ p.previewed = confirmation.targetFingerprint

/-- A call that offers a token whose arguments compare equal to its own has arguments that `R` relates. -/
def TellsApart (R : JsonObject → JsonObject → Prop) (gate : Gate) (event : Event) : Prop :=
  ∀ id call token confirmation, event = .open id call → call.token = some token →
    gate.confirmations.get token = some confirmation →
    Json.equals (.object confirmation.arguments) (.object call.own) = true →
    R confirmation.arguments call.own

theorem sound_init (R : JsonObject → JsonObject → Prop) : Sound R [] {} := by
  constructor
  · intro token confirmation h
    cases h
  · intro p h
    cases h

/-- **One event.** -/
theorem sound_step {past : List Event} (hs : Sound R past gate) (hR : TellsApart R gate event) :
    Sound R (past ++ [event]) (step oldest gate event).2 := by
  constructor
  · intro token confirmation hget
    rcases get_step hget with hold | ⟨id, call, rfl, hminted⟩
    · obtain ⟨id, preview, hmem, hminted⟩ := hs.table token confirmation hold
      exact ⟨id, preview, List.mem_append_left _ hmem, hminted⟩
    · exact ⟨id, call, List.mem_append_right _ List.mem_cons_self, hminted⟩
  · intro p hp
    rcases pending_step hp with hold | ⟨found, hevent, hbegin, hfound, hlive, hname, hequal, hcontext, hread⟩
    · obtain ⟨htoken, harguments, earlier, later, confirmation, hpast, hpreviewed⟩ := hs.pending p hold
      refine ⟨htoken, harguments, earlier, later ++ [event], confirmation, ?_, hpreviewed⟩
      rw [hpast, List.append_assoc, List.cons_append]
    · obtain ⟨htoken, harguments⟩ := begin_lookUp hbegin
      obtain ⟨id, preview, hmem, hminted⟩ := hs.table p.token found hfound
      obtain ⟨hdry, -, hpname, hparguments, hpcontext, hexpires, -⟩ := minted_spec hminted
      rw [harguments] at hequal
      refine ⟨htoken, harguments, past, [], found, by rw [hevent], ⟨id, preview, hmem, hdry, hminted,
        hpname.symm.trans hname, ?_, hpcontext.symm.trans hcontext, hexpires ▸ hlive⟩, hread⟩
      rw [← hparguments]
      exact hR p.id p.call p.token found hevent htoken hfound hequal

theorem sound_run {past : List Event} (hs : Sound R past gate) {events : List Event}
    (hR : Run.Along (step oldest) (TellsApart R) gate events) :
    Sound R (past ++ events) (Run.exec (step oldest) gate events) := by
  induction events generalizing past gate with
  | nil => simpa using hs
  | cons event events ih =>
    have hnext := ih (sound_step hs hR.1) hR.2
    rwa [List.append_assoc, List.singleton_append] at hnext

/-! ## What lets a call execute -/

theorem decisionOf_eq_execute {verdict : TokenVerdict} {arguments arguments' : JsonObject}
    (h : decisionOf verdict arguments = .execute arguments') : verdict = .spendable ∧ arguments = arguments' := by
  cases verdict with
  | spendable =>
    cases h
    exact ⟨rfl, rfl⟩
  | _ => cases h

theorem finish_execute {p : Pending} (h : (finish p gate).1 = .decided call (.execute arguments)) :
    p.call = call ∧ p.arguments = arguments ∧ checkTarget p.call p.previewed = .ok (.ok .spendable) ∧
      (∃ found, gate.confirmations.get p.token = some found) ∧
      (finish p gate).2.confirmations.get p.token = none := by
  unfold finish at h ⊢
  cases hcheck : checkTarget p.call p.previewed with
  | error e =>
    simp only [hcheck] at h
    cases h
  | ok answer =>
    cases answer with
    | error problem =>
      simp only [hcheck] at h
      cases h
    | ok verdict =>
      simp only [hcheck] at h ⊢
      by_cases hverdict : verdict = .spendable
      · rw [if_pos hverdict] at h ⊢
        subst hverdict
        dsimp only at h ⊢
        obtain ⟨hcall, hdecision⟩ := Outcome.decided.inj h
        obtain ⟨hspent, harguments⟩ := decisionOf_eq_execute hdecision
        unfold spend at hspent ⊢
        cases hget : gate.confirmations.get p.token with
        | none =>
          simp only [hget] at hspent
          cases hspent
        | some found =>
          refine ⟨hcall, harguments, rfl, ⟨found, rfl⟩, ?_⟩
          rw [OrderedMap.get_erase, if_pos rfl]
      · rw [if_neg hverdict] at h
        obtain ⟨-, hdecision⟩ := Outcome.decided.inj h
        exact absurd (decisionOf_eq_execute hdecision).1 hverdict

theorem finish_spendable {p : Pending} (hcheck : checkTarget p.call p.previewed = .ok (.ok .spendable))
    {found : Confirmation} (hfound : gate.confirmations.get p.token = some found) :
    (finish p gate).1 = .decided p.call (.execute p.arguments) := by
  simp only [finish, hcheck, if_true, spend, hfound, decisionOf]

theorem checkTarget_same {read : Json × Json} (hprobe : call.probe = some (.ok read)) {previewed : String}
    (h : targetFingerprint read.1 = .ok previewed) :
    checkTarget call previewed = .ok (.ok .spendable) := by
  unfold checkTarget
  split_ifs
  · rfl
  · simp only [hprobe]
    rw [h]
    simp [bind, Except.bind, pure, Except.pure]

/-- A call that executes carries no token and needs no confirmation, or it is a pending call whose
token is there and is used up. -/
theorem step_execute (h : (step oldest gate event).1 = .decided call (.execute arguments)) :
    (call.token = none ∧ ¬ call.NeedsConfirmation) ∨
      ∃ p ∈ gate.pending, event = .close p.id ∧ p.call = call ∧ p.arguments = arguments ∧
        checkTarget p.call p.previewed = .ok (.ok .spendable) ∧
        (∃ found, gate.confirmations.get p.token = some found) ∧
        (step oldest gate event).2.confirmations.get p.token = none := by
  cases event with
  | «open» id c =>
    refine .inl ?_
    cases hbegin : c.begin with
    | error e =>
      simp only [step, hbegin] at h
      cases h
    | ok stage =>
      cases stage with
      | decided decision =>
        simp only [step, hbegin] at h
        cases h
        exact begin_execute hbegin
      | mint t confirmation preview =>
        simp only [step, hbegin] at h
        cases h
      | lookUp t own =>
        simp only [step, hbegin] at h
        split_ifs at h with hspendable
        obtain ⟨-, hdecision⟩ := Outcome.decided.inj h
        exact absurd (decisionOf_eq_execute hdecision).1 hspendable
  | close id =>
    refine .inr ?_
    simp only [step] at h ⊢
    split at h
    · cases h
    · rename_i p hfind
      obtain ⟨hcall, harguments, hcheck, hfound, hgone⟩ := finish_execute h
      have hid : p.id = id := by simpa using List.find?_some hfind
      refine ⟨p, List.mem_of_find?_eq_some hfind, by rw [hid], hcall, harguments, hcheck, hfound, ?_⟩
      exact hgone

/-! ## A token lets one call execute -/

/-- A token that is not in the table and is not minted again stays out of it. -/
theorem absent_run {events : List Event} (hfresh : token ∉ events.filterMap Event.minted)
    (h : gate.confirmations.get token = none) :
    (Run.exec (step oldest) gate events).confirmations.get token = none := by
  induction events generalizing gate with
  | nil => exact h
  | cons event events ih =>
    have hevent : event.minted ≠ some token := by
      intro hminted
      exact hfresh (List.mem_filterMap.mpr ⟨event, List.mem_cons_self, hminted⟩)
    have hevents : token ∉ events.filterMap Event.minted := by
      intro hmem
      obtain ⟨e, he, hminted⟩ := List.mem_filterMap.mp hmem
      exact hfresh (List.mem_filterMap.mpr ⟨e, List.mem_cons_of_mem event he, hminted⟩)
    refine ih hevents ?_
    cases hget : (step oldest gate event).2.confirmations.get token with
    | none => rfl
    | some confirmation =>
      rcases get_step hget with hold | ⟨id, call, rfl, hminted⟩
      · rw [h] at hold
        cases hold
      · refine absurd ?_ hevent
        rw [Event.minted, hminted]
        rfl

/-- After the events `before`, the event `event` lets `call` execute. -/
def ExecutesAt (oldest : Confirmations → Option String) (before : List Event) (event : Event)
    (call : Call) : Prop :=
  ∃ arguments, (step oldest (Run.exec (step oldest) {} before) event).1 = .decided call (.execute arguments)

/-- What stands behind a call that executes with a token. -/
theorem executes_spec {before : List Event} (hR : Run.Along (step oldest) (TellsApart R) {} before)
    (hexec : ExecutesAt oldest before event call) (htoken : call.token.isSome ∨ call.NeedsConfirmation) :
    ∃ token confirmation, call.token = some token ∧
      (∃ earlier id later, before = earlier ++ .open id call :: later ∧ event = .close id ∧
        PreviewedIn R earlier call token confirmation) ∧
      checkTarget call confirmation.targetFingerprint = .ok (.ok .spendable) ∧
      (∃ found, (Run.exec (step oldest) {} before).confirmations.get token = some found) ∧
      (Run.exec (step oldest) {} (before ++ [event])).confirmations.get token = none := by
  obtain ⟨arguments, hexec⟩ := hexec
  have hsound := @sound_run R {} oldest _ (sound_init R) _ hR
  rw [List.nil_append] at hsound
  rcases step_execute hexec with ⟨hnone, hneedless⟩ | ⟨p, hp, hevent, hcall, -, hcheck, hfound, hgone⟩
  · rw [hnone] at htoken
    rcases htoken with h | h
    · cases h
    · exact absurd h hneedless
  · obtain ⟨hoffered, -, earlier, later, confirmation, hbefore, hpreviewed, hread⟩ := hsound.pending p hp
    rw [hcall] at hoffered hbefore hpreviewed hcheck
    rw [hread] at hcheck
    refine ⟨p.token, confirmation, hoffered, ⟨earlier, p.id, later, hbefore, hevent, hpreviewed⟩, hcheck,
      hfound, ?_⟩
    rw [Run.exec_append]
    exact hgone

/-- A token that let a call execute lets no later one. -/
theorem spent_once {before mid : List Event} {event event' : Event} {call call' : Call}
    (hfresh : ((before ++ event :: mid).filterMap Event.minted).Nodup) (hexec : ExecutesAt oldest before event call)
    (htoken : call.token = some token)
    (hexec' : ExecutesAt oldest (before ++ event :: mid) event' call') : call'.token ≠ some token := by
  intro htoken'
  have hany : ∀ events, Run.Along (step oldest) (TellsApart fun _ _ => True) {} events := fun events =>
    (Run.along_of_forall (C := fun _ => True) (fun _ _ => trivial)).mono_mem
      fun _ _ _ _ _ _ _ _ _ _ _ _ => trivial
  obtain ⟨t, confirmation, ht, ⟨earlier, id, later, hbefore, -, id', preview, hmem, -, hminted, -⟩, -, -, hgone⟩ :=
    executes_spec (hany before) hexec (.inl (by rw [htoken]; rfl))
  obtain ⟨t', -, ht', -, -, ⟨found, hfound⟩, -⟩ :=
    executes_spec (hany _) hexec' (.inl (by rw [htoken']; rfl))
  obtain rfl : token = t := Option.some.inj (htoken.symm.trans ht)
  obtain rfl : token = t' := Option.some.inj (htoken'.symm.trans ht')
  have hlater : token ∉ (event :: mid).filterMap Event.minted := by
    intro hlater
    rw [List.filterMap_append, List.nodup_append] at hfresh
    refine hfresh.2.2 token (List.mem_filterMap.mpr ⟨.open id' preview, ?_, ?_⟩) token hlater rfl
    · rw [hbefore]
      exact List.mem_append_left _ hmem
    · rw [Event.minted, hminted]
      rfl
  have hmid : token ∉ mid.filterMap Event.minted := by
    intro hmid
    obtain ⟨e, he, hminted⟩ := List.mem_filterMap.mp hmid
    exact hlater (List.mem_filterMap.mpr ⟨e, List.mem_cons_of_mem event he, hminted⟩)
  have habsent := @absent_run _ _ oldest _ hmid hgone
  rw [← Run.exec_append, List.append_assoc, List.singleton_append, hfound] at habsent
  cases habsent

/-! ## Previewed, once -/

def sampleContext : MutationContext where
  projectRoot := "/project"
  executionMode := "offline"
  sessionId := none
  routeGeneration := 0

def sampleToken : String := String.ofList (List.replicate 64 'a')

/-- A call on `signal_emit` with one argument and one control, at a target that reads as `before`. -/
def sampleCall (amount : Json) (control : String × Json) (before : Json := .null) : Call where
  binding := ⟨"signal_emit", "signal_emit", "signal_emit"⟩
  arguments := .object [("args", .array [amount]), control]
  context := sampleContext
  probe := some (.ok (before, .null))
  nowMs := 0
  drawn := sampleToken

def samplePreview (amount : Json) (before : Json := .null) : Call :=
  sampleCall amount ("dry_run", .boolean true) before

def sampleConfirm (amount : Json) (before : Json := .null) : Call :=
  sampleCall amount ("confirmation_token", .string sampleToken) before

def sampleOldest (confirmations : Confirmations) : Option String := confirmations.keys.head?

/-- The same arguments, as JSON values. -/
def SameArguments (left right : JsonObject) : Prop := Json.sameValue (.object left) (.object right) = true

/-- **A confirmed execution was previewed, and is the only one with its token**, where no call offers a
token whose arguments the library's comparison takes for its own and that are not. -/
theorem execution_previewed_once {events : List Event} (hfresh : (events.filterMap Event.minted).Nodup)
    (happart : Run.Along (step oldest) (TellsApart SameArguments) {} events) {before after : List Event}
    {event : Event} {call : Call} (hevents : events = before ++ event :: after)
    (hexec : ExecutesAt oldest before event call) (hneeds : call.NeedsConfirmation) :
    ∃ token confirmation, call.token = some token ∧
      (∃ earlier id later, before = earlier ++ .open id call :: later ∧ event = .close id ∧
        PreviewedIn SameArguments earlier call token confirmation) ∧
      ∀ before' event' after' call', events = before' ++ event' :: after' →
        ExecutesAt oldest before' event' call' → call'.token = some token → before' = before := by
  subst hevents
  obtain ⟨token, confirmation, htoken, hpreviewed, -⟩ :=
    executes_spec (Run.along_append.mp happart).1 hexec (.inr hneeds)
  refine ⟨token, confirmation, htoken, hpreviewed, ?_⟩
  intro before' event' after' call' hevents hexec' htoken'
  have hfresh' := hfresh
  rw [hevents] at hfresh'
  rcases List.append_eq_append_iff.mp hevents with ⟨mid, hbefore', hmid⟩ | ⟨mid, hbefore, hmid⟩
  · cases mid with
    | nil => simpa using hbefore'
    | cons e mid =>
      obtain ⟨rfl, -⟩ := List.cons.inj hmid
      subst hbefore'
      rw [List.filterMap_append] at hfresh'
      refine absurd htoken' (spent_once ?_ hexec htoken hexec')
      exact (List.nodup_append.mp hfresh').1
  · cases mid with
    | nil => simpa using hbefore.symm
    | cons e mid =>
      obtain ⟨rfl, -⟩ := List.cons.inj hmid
      subst hbefore
      rw [List.filterMap_append] at hfresh
      refine absurd htoken (spent_once ?_ hexec' htoken' hexec)
      exact (List.nodup_append.mp hfresh).1

theorem execution_previewed_once_sample :
    ∃ token confirmation, (sampleConfirm (.integer 1)).token = some token ∧
      (∃ earlier id later, [Event.open 0 (samplePreview (.integer 1)), .open 1 (sampleConfirm (.integer 1))] =
          earlier ++ .open id (sampleConfirm (.integer 1)) :: later ∧ Event.close 1 = .close id ∧
        PreviewedIn SameArguments earlier (sampleConfirm (.integer 1)) token confirmation) ∧
      ∀ before' event' after' call',
        [.open 0 (samplePreview (.integer 1)), .open 1 (sampleConfirm (.integer 1)), .close 1] =
          before' ++ event' :: after' →
        ExecutesAt sampleOldest before' event' call' → call'.token = some token →
        before' = [.open 0 (samplePreview (.integer 1)), .open 1 (sampleConfirm (.integer 1))] := by
  have hexec : ExecutesAt sampleOldest
      [.open 0 (samplePreview (.integer 1)), .open 1 (sampleConfirm (.integer 1))] (.close 1)
      (sampleConfirm (.integer 1)) := ⟨_, rfl⟩
  refine execution_previewed_once ?_ ?_ rfl hexec rfl
  · exact List.nodup_singleton sampleToken
  · refine Run.along_cons ?_ (Run.along_cons ?_ (Run.along_cons ?_ (Run.along_nil _ _)))
    · intro id call token confirmation hevent htoken
      cases hevent
      cases htoken
    · intro id call token confirmation hevent htoken hget
      cases hevent
      cases htoken
      cases hget
      intro
      rfl
    · intro id call token confirmation hevent
      cases hevent

/-- A dry run with the argument `-1`, and its token offered with the argument `18446744073709551615`. -/
theorem other_arguments_execute :
    ([Event.open 0 (samplePreview (.integer (-1))), .open 1 (sampleConfirm (.integer 18446744073709551615)),
        .close 1].filterMap Event.minted).Nodup ∧
      ExecutesAt sampleOldest
        [.open 0 (samplePreview (.integer (-1))), .open 1 (sampleConfirm (.integer 18446744073709551615))]
        (.close 1) (sampleConfirm (.integer 18446744073709551615)) ∧
      (sampleConfirm (.integer 18446744073709551615)).NeedsConfirmation ∧
      ¬ ∃ id preview, Event.open id preview ∈
          [Event.open 0 (samplePreview (.integer (-1))),
            .open 1 (sampleConfirm (.integer 18446744073709551615))] ∧
        preview.isDryRun = true ∧ SameArguments preview.own (sampleConfirm (.integer 18446744073709551615)).own := by
  refine ⟨List.nodup_singleton sampleToken, ⟨_, rfl⟩, rfl, ?_⟩
  rintro ⟨id, preview, hmem, hdry, hsame⟩
  rcases List.mem_pair.mp hmem with h | h
  · cases h
    cases hsame
  · cases h
    cases hdry

/-! ## What a confirmation lands on -/

/-- Nothing was read, or what was read says that the target is not there. -/
def NothingThere (before : Json) : Prop :=
  before = .null ∨ ∃ members, before = .object members ∧ members.lookup "exists" = some (.boolean false)

theorem fnv1a_ne_empty (text : String) : fnv1a text ≠ "" := by
  intro h
  have hlength := congrArg String.length h
  unfold fnv1a at hlength
  simp at hlength

theorem targetFingerprint_spec {before : Json} {fingerprint : String}
    (h : targetFingerprint before = .ok fingerprint) :
    NothingThere before ∧ fingerprint = "" ∨
      ¬ NothingThere before ∧ fingerprint = fnv1a before.dump := by
  unfold targetFingerprint at h
  cases before with
  | null =>
    cases h
    exact .inl ⟨.inl rfl, rfl⟩
  | object members =>
    obtain ⟨there, hthere, h⟩ := Except.bind_eq_ok.mp h
    have hread : NothingThere (.object members) ↔ there = false := by
      constructor
      · rintro (h | ⟨members', h, hlookup⟩)
        · cases h
        · cases h
          simp only [Json.valueBoolean, Json.valueBy, hlookup, Json.getBoolean] at hthere
          exact (Except.ok.inj hthere).symm
      · rintro rfl
        refine .inr ⟨members, rfl, ?_⟩
        unfold Json.valueBoolean Json.valueBy at hthere
        cases hlookup : members.lookup "exists" with
        | none =>
          simp only [hlookup] at hthere
          cases hthere
        | some v =>
          simp only [hlookup] at hthere
          cases v with
          | boolean b =>
            cases hthere
            rfl
          | _ => cases hthere
    rw [hread]
    cases there with
    | true =>
      cases h
      exact .inr ⟨by decide, rfl⟩
    | false =>
      cases h
      exact .inl ⟨rfl, rfl⟩
  | _ =>
    cases h
    refine .inr ⟨?_, rfl⟩
    rintro (h | ⟨members, h, -⟩) <;> cases h

/-- Two events of a run that draw one token are the same. -/
theorem minted_inj {events : List Event} (hfresh : (events.filterMap Event.minted).Nodup) {e e' : Event}
    (he : e ∈ events) (he' : e' ∈ events) (h : e.minted = some token) (h' : e'.minted = some token) : e = e' := by
  induction events with
  | nil => cases he
  | cons first events ih =>
    have habsent : ∀ {e}, first.minted = some token → e ∈ events → e.minted ≠ some token := by
      intro e hfirst hmem hminted
      rw [List.filterMap_cons_some hfirst] at hfresh
      exact (List.nodup_cons.mp hfresh).1 (List.mem_filterMap.mpr ⟨e, hmem, hminted⟩)
    have hrest : (events.filterMap Event.minted).Nodup := by
      rw [← List.singleton_append, List.filterMap_append] at hfresh
      exact (List.nodup_append.mp hfresh).2.1
    rcases List.mem_cons.mp he with rfl | hmem
    · rcases List.mem_cons.mp he' with rfl | hmem'
      · rfl
      · exact absurd h' (habsent h hmem')
    · rcases List.mem_cons.mp he' with rfl | hmem'
      · exact absurd h (habsent h' hmem)
      · exact ih hrest hmem hmem'

/-- **A confirmation lands on what its preview read**, or on nothing, where the preview read a target that
was there. -/
theorem confirmed_content_previewed {events : List Event} (hfresh : (events.filterMap Event.minted).Nodup)
    {before after : List Event} {event : Event} {call : Call} (hevents : events = before ++ event :: after)
    (hexec : ExecutesAt oldest before event call) {token : String} (htoken : call.token = some token)
    {id : Nat} {preview : Call} {confirmation : Confirmation} (hpreview : .open id preview ∈ events)
    (hminted : preview.minted = some (token, confirmation)) (hthere : ¬ NothingThere preview.reads)
    (hseparates : fnv1a call.reads.dump = fnv1a preview.reads.dump → call.reads = preview.reads) :
    NothingThere call.reads ∨ call.reads = preview.reads := by
  have hany : Run.Along (step oldest) (TellsApart fun _ _ => True) {} before :=
    (Run.along_of_forall (C := fun _ => True) (fun _ _ => trivial)).mono_mem
      fun _ _ _ _ _ _ _ _ _ _ _ _ => trivial
  obtain ⟨t, found, ht, ⟨earlier, _, later, hbefore, -, id', preview', hmem, -, hminted', -⟩, hcheck, -⟩ :=
    executes_spec hany hexec (.inl (by rw [htoken]; rfl))
  obtain rfl : token = t := Option.some.inj (htoken.symm.trans ht)
  have hsame : Event.open id preview = .open id' preview' := by
    refine @minted_inj token _ hfresh _ _ hpreview ?_ (by rw [Event.minted, hminted]; rfl)
      (by rw [Event.minted, hminted']; rfl)
    rw [hevents, hbefore]
    exact List.mem_append_left _ (List.mem_append_left _ hmem)
  cases hsame
  obtain rfl : confirmation = found := by
    rw [hminted] at hminted'
    cases hminted'
    rfl
  obtain ⟨-, -, -, -, -, -, hfingerprint⟩ := minted_spec hminted
  obtain ⟨hnothing, -⟩ | ⟨-, hfound⟩ := targetFingerprint_spec hfingerprint
  · exact absurd hnothing hthere
  unfold checkTarget at hcheck
  rw [if_neg (by rw [hfound]; exact fnv1a_ne_empty _)] at hcheck
  cases hprobe : call.probe with
  | none =>
    refine .inl (.inl ?_)
    rw [Call.reads, hprobe]
  | some answer =>
    cases answer with
    | error problem =>
      simp only [hprobe] at hcheck
      cases hcheck
    | ok read =>
      simp only [hprobe] at hcheck
      obtain ⟨current, hcurrent, hverdict⟩ := Except.bind_eq_ok.mp hcheck
      have hreads : call.reads = read.1 := by rw [Call.reads, hprobe]
      rw [← hreads] at hcurrent
      obtain ⟨hnothing, -⟩ | ⟨-, rfl⟩ := targetFingerprint_spec hcurrent
      · exact .inl hnothing
      · refine .inr (hseparates ?_)
        by_contra hdiffer
        rw [← hfound] at hdiffer
        simp [hdiffer, fnv1a_ne_empty] at hverdict
        cases hverdict

def sampleFile : Json := .object [("exists", .boolean true), ("size_bytes", .integer 103)]

theorem confirmed_content_previewed_sample :
    NothingThere (sampleConfirm (.integer 1) sampleFile).reads ∨
      (sampleConfirm (.integer 1) sampleFile).reads = (samplePreview (.integer 1) sampleFile).reads := by
  have hexec : ExecutesAt sampleOldest
      [.open 0 (samplePreview (.integer 1) sampleFile), .open 1 (sampleConfirm (.integer 1) sampleFile)]
      (.close 1) (sampleConfirm (.integer 1) sampleFile) := by
    refine ⟨[("args", .array [.integer 1])], @finish_spendable _ ⟨1, sampleConfirm (.integer 1) sampleFile,
      sampleToken, [("args", .array [.integer 1])], fnv1a sampleFile.dump⟩ ?_ _ rfl⟩
    exact checkTarget_same rfl rfl
  have hminted : (samplePreview (.integer 1) sampleFile).minted = some (sampleToken, _) := rfl
  have hfresh : ([Event.open 0 (samplePreview (.integer 1) sampleFile),
      .open 1 (sampleConfirm (.integer 1) sampleFile), .close 1].filterMap Event.minted).Nodup :=
    List.nodup_singleton sampleToken
  refine confirmed_content_previewed hfresh rfl hexec rfl List.mem_cons_self hminted ?_ fun _ => rfl
  rintro (h | ⟨members, h, hlookup⟩)
  · cases h
  · cases h
    cases hlookup

/-- The target is not there at the preview, and is when the call is confirmed. -/
theorem created_target_executes :
    let preview := samplePreview (.integer 1) (.object [("exists", .boolean false)])
    let confirm := sampleConfirm (.integer 1) sampleFile
    ExecutesAt sampleOldest [.open 0 preview, .open 1 confirm] (.close 1) confirm ∧
      (∃ confirmation, preview.minted = some (sampleToken, confirmation)) ∧
      confirm.token = some sampleToken ∧ preview.probe.isSome ∧ confirm.probe.isSome ∧
      ¬ NothingThere confirm.reads ∧ confirm.reads ≠ preview.reads := by
  refine ⟨⟨_, rfl⟩, ⟨_, rfl⟩, rfl, rfl, rfl, ?_, ?_⟩
  · rintro (h | ⟨members, h, hlookup⟩)
    · cases h
    · cases h
      cases hlookup
  · intro h
    cases h

end Didi.Safety
