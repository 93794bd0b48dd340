import Didi.Safety.Runs

/-!
# A refusal and the call that is sent again

* `evaluate` : a call on its own, from its first section to its last;
* `confirmations_of_refused` : an event that refuses a call which offers a live token leaves the table as it is;
* `held_run` : a run of events that preview nothing and spend no confirmation under the token keeps it;
* `failed_confirm_costs_nothing` : so the call that was previewed may be sent again, and executes.
-/

namespace Didi.Safety
variable {gate : Gate} {token : String} {found : Confirmation} {arguments : JsonObject} {confirmations : Confirmations}

variable {oldest : Confirmations → Option String}

/-! ## One call -/

/-- A call that no other comes between. -/
def evaluate (oldest : Confirmations → Option String) (call : Call) (confirmations : Confirmations) :
    Outcome × Confirmations :=
  let opened := step oldest { confirmations } (.open 0 call)
  match opened.1 with
  | .none =>
    let closed := step oldest opened.2 (.close 0)
    (closed.1, closed.2.confirmations)
  | outcome => (outcome, opened.2.confirmations)

/-- The call that an event goes on with. -/
def Event.call (gate : Gate) : Event → Option Call
  | .open _ call => some call
  | .close id => (gate.pending.find? fun p => p.id = id).map Pending.call

/-- An event that ends with no execution. -/
def Outcome.executes : Outcome → Bool
  | .decided _ (.execute _) => true
  | _ => false

/-- Where the call at `event` offers the token of a confirmation, it does so before this expires. -/
def InTime (token : String) (confirmation : Confirmation) (gate : Gate) (event : Event) : Prop :=
  ∀ call, event.call gate = some call → call.token = some token → call.nowMs ≤ confirmation.expiresAtMs

/-! ## What a refusal leaves -/

theorem lookUp_table {call : Call} (hheld : confirmations.get token = some found)
    (htime : call.nowMs ≤ found.expiresAtMs) :
    (lookUp call token arguments confirmations).2.2 = confirmations := by
  unfold lookUp
  simp only [hheld]
  rw [if_neg (by omega)]
  split_ifs <;> rfl

theorem finish_table {p : Pending} (h : (finish p gate).1.executes = false) :
    (finish p gate).2 = gate := by
  unfold finish at h ⊢
  split
  · rfl
  · rfl
  · rename_i verdict hcheck
    simp only [hcheck] at h
    split_ifs with hspendable
    · simp only [hspendable, if_true] at h ⊢
      unfold spend at h ⊢
      cases hget : gate.confirmations.get p.token with
      | none => rfl
      | some found =>
        simp only [hget, decisionOf] at h
        cases h
    · rfl

/-- **A refusal**: a call that offers a live token and does not execute leaves the table as it found it,
in its first section and in its last one. -/
theorem confirmations_of_refused {event : Event} {call : Call} (hcall : event.call gate = some call)
    (htoken : call.token = some token) (hheld : gate.confirmations.get token = some found)
    (htime : call.nowMs ≤ found.expiresAtMs) (hmints : event.minted = none)
    (hrefused : (step oldest gate event).1.executes = false) :
    (step oldest gate event).2.confirmations = gate.confirmations := by
  cases event with
  | «open» id call' =>
    obtain rfl : call' = call := Option.some.inj hcall
    cases hbegin : call'.begin with
    | error e => simp only [step, hbegin]
    | ok stage =>
      cases stage with
      | decided decision => simp only [step, hbegin]
      | mint t c preview =>
        simp only [Event.minted, Call.minted, hbegin] at hmints
        cases hmints
      | lookUp t arguments =>
        obtain ⟨htoken', -⟩ := begin_lookUp hbegin
        obtain rfl : token = t := Option.some.inj (htoken.symm.trans htoken')
        have htable : (lookUp call' token arguments gate.confirmations).2.2 = gate.confirmations :=
          lookUp_table hheld htime
        simp only [step, hbegin]
        split_ifs
        · exact htable
        · exact htable
  | close id =>
    simp only [step] at hrefused ⊢
    split
    · rfl
    · rename_i p hfind
      simp only [hfind] at hrefused
      rw [finish_table hrefused]

/-! ## What a run keeps -/

/-- An event that previews nothing, and that neither spends the confirmation under the token nor finds it
expired. -/
structure Spares (oldest : Confirmations → Option String) (token : String) (confirmation : Confirmation)
    (gate : Gate) (event : Event) : Prop where
  minted : event.minted = none
  inTime : InTime token confirmation gate event
  unspent : ∀ call, event.call gate = some call → call.token = some token →
    (step oldest gate event).1.executes = false

theorem get_lookUp_other {call : Call} {offered token : String} (hne : offered ≠ token) :
    (lookUp call offered arguments confirmations).2.2.get token = confirmations.get token := by
  unfold lookUp
  cases confirmations.get offered with
  | none => rfl
  | some found =>
    dsimp only
    split_ifs
    · rw [OrderedMap.get_erase, if_neg hne.symm]
    · rfl
    · rfl

theorem get_finish_other {p : Pending} (hne : p.token ≠ token) :
    (finish p gate).2.confirmations.get token = gate.confirmations.get token := by
  unfold finish
  split
  · rfl
  · rfl
  · split_ifs
    · unfold spend
      cases gate.confirmations.get p.token with
      | none => rfl
      | some found =>
        show (gate.confirmations.erase p.token).get token = _
        rw [OrderedMap.get_erase, if_neg hne.symm]
    · rfl

/-- Each pending call holds the token that it carries. -/
def Carried (gate : Gate) : Prop := ∀ p ∈ gate.pending, p.call.token = some p.token

theorem Carried.step (h : Carried gate) (event : Event) : Carried (step oldest gate event).2 := by
  intro p hp
  rcases pending_step hp with hold | ⟨found, -, hbegin, -⟩
  · exact h p hold
  · exact (begin_lookUp hbegin).1

theorem Carried.run (h : Carried gate) (events : List Event) :
    Carried (Run.exec (Safety.step oldest) gate events) := by
  induction events generalizing gate with
  | nil => exact h
  | cons event events ih => exact ih (h.step event)

/-- The step: an event that spares the confirmation leaves it in the table. -/
theorem held_step {event : Event} (hcarried : Carried gate) (hheld : gate.confirmations.get token = some found)
    (hspares : Spares oldest token found gate event) :
    (step oldest gate event).2.confirmations.get token = some found := by
  by_cases hoffers : ∃ call, event.call gate = some call ∧ call.token = some token
  · obtain ⟨call, hcall, htoken⟩ := hoffers
    rw [confirmations_of_refused hcall htoken hheld (hspares.inTime call hcall htoken) hspares.minted
      (hspares.unspent call hcall htoken)]
    exact hheld
  have hother : ∀ call, event.call gate = some call → call.token ≠ some token :=
    fun call hcall htoken => hoffers ⟨call, hcall, htoken⟩
  cases event with
  | «open» id call =>
    cases hbegin : call.begin with
    | error e =>
      simp only [step, hbegin]
      exact hheld
    | ok stage =>
      cases stage with
      | decided decision =>
        simp only [step, hbegin]
        exact hheld
      | mint t c preview =>
        have hmints := hspares.minted
        simp only [Event.minted, Call.minted, hbegin] at hmints
        cases hmints
      | lookUp t arguments =>
        have hne : t ≠ token := by
          rintro rfl
          exact hother call rfl (begin_lookUp hbegin).1
        have hget := @get_lookUp_other arguments gate.confirmations call t token hne
        simp only [step, hbegin]
        split_ifs
        · exact hget.trans hheld
        · exact hget.trans hheld
  | close id =>
    simp only [step]
    split
    · exact hheld
    · rename_i p hfind
      have hne : p.token ≠ token := by
        intro heq
        refine hother p.call ?_ ((hcarried p (List.mem_of_find?_eq_some hfind)).trans (congrArg some heq))
        rw [Event.call, hfind]
        rfl
      rw [get_finish_other hne]
      exact hheld

/-- The run: nothing that spares a confirmation takes it out of the table. -/
theorem held_run {events : List Event} (hcarried : Carried gate) (hheld : gate.confirmations.get token = some found)
    (hspares : Run.Along (step oldest) (Spares oldest token found) gate events) :
    (Run.exec (step oldest) gate events).confirmations.get token = some found := by
  induction events generalizing gate with
  | nil => exact hheld
  | cons event events ih => exact ih (hcarried.step event) (held_step hcarried hheld hspares.1) hspares.2

/-! ## The call that is sent again -/

/-- The previewed call with its token in place of the dry run, at another time; what its probe and its paths
answer may have changed. -/
def Call.confirm (preview : Call) (token : String) (nowMs : Int) (probe : Option (Except Error (Json × Json)))
    (occupied : String → Bool) : Call :=
  { preview with
    arguments := .object (preview.own.insertKey "confirmation_token" (.string token))
    probe := probe
    occupied := occupied
    nowMs := nowMs }

/-- The probe, where there is one, reads what it read at the preview. -/
def ReadsAsPreviewed (preview : Call) (probe : Option (Except Error (Json × Json))) : Prop :=
  ∀ answer, probe = some answer → ∃ subject, answer = .ok (preview.reads, subject)

section Confirm
variable {preview : Call} {token : String} {found : Confirmation}

theorem mint_requires {call : Call} {requires : Bool} {before subject : Json} {t : String} {c : Confirmation}
    {p : Preview} (h : call.dryRun arguments requires before subject = .ok (.mint t c p)) :
    requires = true ∧ t.utf8ByteSize = 64 := by
  unfold Call.dryRun at h
  obtain ⟨fingerprint, -, h⟩ := Except.bind_eq_ok.mp h
  obtain ⟨change, -, h⟩ := Except.bind_eq_ok.mp h
  dsimp only at h
  by_cases hrequires : requires = true
  · rw [if_pos hrequires] at h
    by_cases hsize : call.drawn.utf8ByteSize ≠ 64
    · rw [if_pos hsize] at h
      cases h
    · rw [if_neg hsize] at h
      cases h
      exact ⟨hrequires, not_not.mp hsize⟩
  · rw [if_neg hrequires] at h
    cases h

/-- A call that mints a token needs it. -/
theorem needs_of_minted (h : preview.minted = some (token, found)) :
    preview.NeedsConfirmation ∧ token ≠ "" := by
  unfold Call.minted at h
  split at h
  · rename_i t c p hbegin
    cases h
    rcases begin_cases hbegin with ⟨e, he⟩ | ⟨-, -, he⟩ | hcontrolled
    · cases he
    · cases he
    · obtain ⟨requires, hrequires, hcases⟩ := controlled_cases hcontrolled
      rcases hcases with ⟨-, subject, hdry⟩ | ⟨e, he⟩ | ⟨-, -, -, he⟩ | ⟨t, -, -, he⟩
      · obtain ⟨rfl, hsize⟩ := mint_requires hdry
        refine ⟨hrequires, ?_⟩
        rintro rfl
        exact absurd hsize (by decide)
      · cases he
      · cases he
      · cases he
  · cases h

theorem own_lookup (call : Call) :
    call.own.lookup "dry_run" = none ∧ call.own.lookup "confirmation_token" = none := by
  unfold Call.own sanitized
  rw [List.lookup_eraseKey, List.lookup_eraseKey, List.lookup_eraseKey]
  simp

theorem sanitized_confirm (preview : Call) (v : Json) :
    sanitized (preview.own.insertKey "confirmation_token" v) = preview.own := by
  obtain ⟨hdry, htoken⟩ := own_lookup preview
  unfold sanitized
  rw [List.eraseKey_comm, List.eraseKey_insertKey, List.eraseKey_eq_self htoken, List.eraseKey_eq_self hdry]

/-- Whether a confirmation is required is read from the arguments, whatever the paths answer. -/
theorem requires_total {occupied : String → Bool} {binding : ResolvedToolBinding} {b : Bool}
    (h : requiresConfirmation occupied binding arguments = .ok b) (occupied' : String → Bool) :
    ∃ b', requiresConfirmation occupied' binding arguments = .ok b' := by
  unfold requiresConfirmation at h ⊢
  split_ifs at h ⊢
  · exact ⟨_, rfl⟩
  · exact ⟨_, rfl⟩
  · obtain ⟨overwrite, hoverwrite, -⟩ := Except.bind_eq_ok.mp h
    rw [hoverwrite]
    cases overwrite
    · exact ⟨_, rfl⟩
    · exact ⟨_, rfl⟩

/-- The call that is sent again offers its token. -/
theorem confirm_begin (hminted : preview.minted = some (token, found)) (nowMs : Int)
    (probe : Option (Except Error (Json × Json))) (occupied : String → Bool) :
    (preview.confirm token nowMs probe occupied).begin = .ok (.lookUp token preview.own) := by
  obtain ⟨hneeds, hne⟩ := needs_of_minted hminted
  have hcan := canRequire_of_requires hneeds
  obtain ⟨requires, hrequires⟩ := requires_total hneeds occupied
  obtain ⟨hdry, -⟩ := own_lookup preview
  have hdry' : (preview.own.insertKey "confirmation_token" (.string token)).lookup "dry_run" = none := by
    rw [List.lookup_insertKey, if_neg (by decide)]
    exact hdry
  have htoken' : (preview.own.insertKey "confirmation_token" (.string token)).lookup "confirmation_token" =
      some (.string token) := by
    rw [List.lookup_insertKey, if_pos rfl]
  unfold Call.begin Call.confirm
  simp only [isMutation_of_canRequire hcan, Bool.not_true, Bool.false_eq_true, if_false, hdry', htoken',
    sanitized_confirm]
  unfold Call.controlled
  rw [hrequires]
  simp only [bind, Except.bind, Bool.false_eq_true, if_false, hcan, Bool.not_true, Bool.and_false, hne]
  rfl

/-- **The call that was previewed executes when it is sent again**, while its confirmation is held. -/
theorem evaluate_confirm (hminted : preview.minted = some (token, found)) (hheld : confirmations.get token = some found)
    {nowMs : Int} (htime : nowMs ≤ found.expiresAtMs) {probe : Option (Except Error (Json × Json))}
    (hreads : ReadsAsPreviewed preview probe) (occupied : String → Bool) :
    (evaluate oldest (preview.confirm token nowMs probe occupied) confirmations).1 =
      .decided (preview.confirm token nowMs probe occupied) (.execute preview.own) := by
  obtain ⟨-, -, hname, harguments, hcontext, -, hfingerprint⟩ := minted_spec hminted
  have hlook : lookUp (preview.confirm token nowMs probe occupied) token preview.own confirmations =
      (.spendable, found.targetFingerprint, confirmations) := by
    unfold lookUp
    simp only [hheld]
    rw [if_neg (by exact not_lt.mpr htime), if_neg]
    rw [harguments, Json.equals_self]
    simp [Call.confirm, hname, sameContext_iff, hcontext]
  have hcheck : checkTarget (preview.confirm token nowMs probe occupied) found.targetFingerprint =
      .ok (.ok .spendable) := by
    cases hprobe : probe with
    | none =>
      unfold checkTarget
      split_ifs <;> rfl
    | some answer =>
      obtain ⟨subject, rfl⟩ := hreads answer hprobe
      exact checkTarget_same rfl hfingerprint
  unfold evaluate
  simp only [step, confirm_begin hminted, hlook, if_true, List.find?_cons_of_pos, decide_true]
  exact finish_spendable hcheck hheld

end Confirm

/-- A call on its own that offers a live token and is refused. -/
theorem evaluate_refused {call : Call} {problem : Error} (htoken : call.token = some token)
    (hheld : confirmations.get token = some found) (hlive : call.nowMs ≤ found.expiresAtMs)
    (hrefused : (evaluate oldest call confirmations).1 = .decided call (.error problem)) :
    (evaluate oldest call confirmations).2 = confirmations := by
  cases hbegin : call.begin with
  | error e => simp only [evaluate, step, hbegin]
  | ok stage =>
    cases stage with
    | decided decision => simp only [evaluate, step, hbegin]
    | mint t c preview =>
      simp only [evaluate, step, hbegin] at hrefused
      cases hrefused
    | lookUp t arguments =>
      obtain rfl : token = t := Option.some.inj (htoken.symm.trans (begin_lookUp hbegin).1)
      have htable : (lookUp call token arguments confirmations).2.2 = confirmations := lookUp_table hheld hlive
      by_cases hverdict : (lookUp call token arguments confirmations).1 = .spendable
      · simp only [evaluate, step, hbegin, hverdict, if_true, htable] at hrefused ⊢
        rw [List.find?_cons_of_pos (by simp)] at hrefused ⊢
        dsimp only at hrefused ⊢
        rw [finish_table (by rw [hrefused]; rfl)]
      · simp only [evaluate, step, hbegin, hverdict, if_false, htable]

/-- **A failed confirm costs nothing**: it leaves the table as it is, and the call that was previewed executes
when it is sent again in time, after any events but previews, where no other call has spent its confirmation. -/
theorem failed_confirm_costs_nothing {refused : Call} {token : String} {found : Confirmation}
    {confirmations : Confirmations} {problem : Error} (htoken : refused.token = some token)
    (hheld : confirmations.get token = some found) (hlive : refused.nowMs ≤ found.expiresAtMs)
    (hrefused : (evaluate oldest refused confirmations).1 = .decided refused (.error problem)) :
    (evaluate oldest refused confirmations).2 = confirmations ∧
      ∀ {preview : Call}, preview.minted = some (token, found) →
        ∀ (table : Confirmations) (past events : List Event),
          (Run.exec (step oldest) { confirmations := table } past).confirmations =
            (evaluate oldest refused confirmations).2 →
          Run.Along (step oldest) (Spares oldest token found)
            (Run.exec (step oldest) { confirmations := table } past) events →
          ∀ (nowMs : Int) (probe : Option (Except Error (Json × Json))) (occupied : String → Bool),
            nowMs ≤ found.expiresAtMs → ReadsAsPreviewed preview probe →
            (evaluate oldest (preview.confirm token nowMs probe occupied)
              (Run.exec (step oldest) (Run.exec (step oldest) { confirmations := table } past) events).confirmations).1 =
              .decided (preview.confirm token nowMs probe occupied) (.execute preview.own) := by
  have htable := evaluate_refused htoken hheld hlive hrefused
  refine ⟨htable, ?_⟩
  intro preview hminted table past events hreached hspares nowMs probe occupied htime hreads
  have hcarried : Carried (Run.exec (step oldest) { confirmations := table } past) :=
    Carried.run (fun p hp => by cases hp) past
  refine evaluate_confirm hminted (held_run hcarried ?_ hspares) htime hreads occupied
  rw [hreached, htable]
  exact hheld

/-- A table that holds what one preview minted. -/
def sampleTable : Confirmations := (step sampleOldest {} (.open 0 (samplePreview (.integer 1)))).2.confirmations

theorem failed_confirm_costs_nothing_sample :
    (evaluate sampleOldest (sampleConfirm (.integer 2)) sampleTable).2 = sampleTable ∧
      ∃ call, (evaluate sampleOldest call sampleTable).1 =
        .decided call (.execute [("args", .array [.integer 1])]) := by
  have hminted : (samplePreview (.integer 1)).minted = some (sampleToken, _) := rfl
  have hrefused : (evaluate sampleOldest (sampleConfirm (.integer 2)) sampleTable).1 =
      .decided (sampleConfirm (.integer 2)) (.error _) := rfl
  have hlive : (sampleConfirm (.integer 2)).nowMs ≤ 120000 := by decide
  obtain ⟨htable, hagain⟩ := @failed_confirm_costs_nothing sampleOldest (sampleConfirm (.integer 2)) sampleToken _
    sampleTable _ rfl rfl hlive hrefused
  refine ⟨htable, _, hagain hminted ∅ [.open 0 (samplePreview (.integer 1))] [] htable.symm trivial 5 none
    (fun _ => false) (by decide) fun answer hanswer => by cases hanswer⟩

end Didi.Safety
