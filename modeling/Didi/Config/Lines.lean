import Didi.Config.Settings
import Didi.Config.Scan

/-!
# One line of a scan

* `scanText_entries` : what the rest of a line adds to a scan is on this line;
* `Fresh st` : where a key could start; a value that awaits its call there ends at a line that opens none
  (`scanLine_of_fresh`).
-/

namespace Didi.Config

variable {st : ScanState}

/-- What a scan has registered, the latest first. -/
def ScanState.settings (st : ScanState) : List (Text × Text × Text) := st.entries.map Entry.setting

@[simp] theorem ScanState.extend_headers (st : ScanState) (piece : Text) :
    (st.extend piece).headers = st.headers := by
  unfold ScanState.extend
  split <;> rfl

@[simp] theorem ScanState.extend_sectionName (st : ScanState) (piece : Text) :
    (st.extend piece).sectionName = st.sectionName := by
  unfold ScanState.extend
  split <;> rfl

/-! ## The rest of a line -/

@[simp] theorem scanText_number (fuel : Nat) (st : ScanState) (text : Text) :
    (scanText fuel st text).number = st.number := by
  induction fuel generalizing st text with
  | zero => rfl
  | succ fuel ih =>
    unfold scanText
    dsimp only
    split_ifs
    · rfl
    · rfl
    · split
      · rfl
      · split
        · rw [ih]
          rfl
        · rfl

/-- A pending key begins no later than the line that is read. -/
def PendingHere (st : ScanState) : Prop := st.pending ≠ [] → st.pendingLine ≤ st.number

/-- An entry whose `=` is on the line `n`. -/
structure OnLine (n : Nat) (e : Entry) : Prop where
  line : e.line = n
  keyLine : e.keyLine ≤ e.line
  joined : e.joined = false → e.keyLine = e.line

theorem PendingHere.keyText (h : PendingHere st) (pending : Text) : (st.keyText pending).pendingLine ≤ st.number := by
  unfold ScanState.keyText
  dsimp only
  split_ifs with hempty
  · exact le_rfl
  · exact h (by simpa using hempty)

theorem PendingHere.entry (h : PendingHere st) (pending keyOnLine piece : Text) :
    OnLine st.number ((st.keyText pending).entry pending keyOnLine piece) := by
  refine ⟨rfl, h.keyText pending, ?_⟩
  intro hjoined
  simpa [ScanState.entry] using hjoined

/-- The keys of the rest of a line are on this line, and so far their values end here. -/
theorem scanText_entries (fuel : Nat) {st : ScanState} (hpending : PendingHere st) (text : Text) :
    PendingHere (scanText fuel st text) ∧ ∃ P, (scanText fuel st text).entries = P ++ st.entries ∧
      (∀ e ∈ P, OnLine st.number e ∧ e.valueEndLine = st.number) ∧
      (st.inValue = false → (scanText fuel st text).inValue = true → P ≠ []) := by
  induction fuel generalizing st text with
  | zero => exact ⟨hpending, [], rfl, by simp, fun h h' => absurd (h.symm.trans h') (by decide)⟩
  | succ fuel ih =>
    have hstay : ∀ st' : ScanState, PendingHere st' → st'.entries = st.entries → st'.inValue = st.inValue →
        PendingHere st' ∧ ∃ P, st'.entries = P ++ st.entries ∧
          (∀ e ∈ P, OnLine st.number e ∧ e.valueEndLine = st.number) ∧
          (st.inValue = false → st'.inValue = true → P ≠ []) := by
      intro st' hst' hentries hinValue
      exact ⟨hst', [], hentries, by simp, fun h h' => absurd (h.symm.trans (hinValue ▸ h')) (by decide)⟩
    unfold scanText
    dsimp only
    split_ifs
    · exact hstay st hpending rfl rfl
    · exact hstay _ hpending rfl rfl
    · split
      · exact hstay _ (fun _ => hpending.keyText _) rfl rfl
      · rename_i pending equals _
        have hkey : ∀ keyOnLine piece finished value,
            PendingHere (st.key pending keyOnLine piece finished value) := fun _ _ _ _ hne => absurd rfl hne
        have hentry := hpending.entry pending
        split_ifs
        · obtain ⟨hpending', P, hP, hlines, -⟩ := ih (hkey _ _ _ _) _
          refine ⟨hpending', P ++ [_], by rw [hP, List.append_assoc]; rfl, ?_, by simp⟩
          intro e he
          rcases List.mem_append.mp he with he | he
          · exact hlines e he
          · rw [List.mem_singleton.mp he]
            exact ⟨hentry _ _, rfl⟩
        · refine ⟨hkey _ _ _ _, [_], rfl, ?_, by simp⟩
          intro e he
          rw [List.mem_singleton.mp he]
          exact ⟨hentry _ _, rfl⟩

@[simp] theorem ScanState.valueLine_headers (st : ScanState) (raw : Text) :
    (st.valueLine raw).headers = st.headers ∧ (st.valueLine raw).sectionName = st.sectionName := by
  unfold ScanState.valueLine
  dsimp only
  split_ifs
  · exact ⟨st.extend_headers _, st.extend_sectionName _⟩
  · exact ⟨rfl, rfl⟩

/-! ## Where a key could start -/

/-- An empty line registers nothing. -/
theorem scanLine_nil (st : ScanState) : (scanLine st []).entries = st.entries ∧
    (st.complete = true → (scanLine st []).complete = true) := by
  have hrest : ∀ st : ScanState, scanRest st [] = st := fun st => rfl
  unfold scanLine
  dsimp only
  rw [List.drop_nil, hrest, hrest, ite_self]
  by_cases hvalue : st.nextLine.inValue = true
  · rw [if_pos hvalue]
    unfold ScanState.valueLine advanceValue
    dsimp only
    split_ifs with hawait hstop hstop
    · exact absurd hstop (lt_irrefl 0)
    · refine ⟨rfl, fun _ => ?_⟩
      simp [ScanState.complete, hawait]
    · exact absurd hstop (lt_irrefl 0)
    · refine ⟨rfl, fun hcomplete => ?_⟩
      have : st.value.awaitingCall = true := by
        simpa [ScanState.complete, show st.inValue = true from hvalue] using hcomplete
      exact absurd this hawait
  · rw [if_neg hvalue]
    exact ⟨rfl, id⟩

/-- Where a key could start: a value that is open at most awaits its call. -/
structure Fresh (st : ScanState) : Prop where
  pending : st.pending = []
  complete : st.complete = true

theorem Fresh.awaitingCall {st : ScanState} (h : Fresh st) (hvalue : st.inValue = true) :
    st.value.awaitingCall = true := by
  simpa [ScanState.complete, hvalue] using h.complete

theorem trimmedView_blank {text : Text} (h : text.dropWhile isSpace = []) : trimmedView text = [] := by
  unfold trimmedView trimBy
  rw [h]
  rfl

/-- A value that awaits its call ends before a line that opens none. -/
theorem scanLine_of_fresh {st : ScanState} {raw rest : Text} {c : Char} (h : Fresh st)
    (hline : raw.dropWhile isSpace = c :: rest) (hopens : st.inValue = true → (c = '(' || c = '[') = false) :
    scanLine st raw = scanLine { st with inValue := false } raw := by
  by_cases hvalue : st.inValue = true
  · have hadvance : advanceValue raw st.value = (true, st.value, 0) := by
      unfold advanceValue
      rw [if_pos (h.awaitingCall hvalue), hline]
      dsimp only
      rw [hopens hvalue]
      rfl
    have hended : st.nextLine.valueLine raw = { st.nextLine with inValue := false } := by
      unfold ScanState.valueLine
      rw [show st.nextLine.value = st.value from rfl, hadvance]
      rfl
    unfold scanLine
    dsimp only
    rw [if_pos (show st.nextLine.inValue = true from hvalue), hended,
      show st.nextLine.value = st.value from rfl, hadvance]
    rfl
  · rw [show ({ st with inValue := false } : ScanState) = st by rw [← Bool.eq_false_iff.mpr hvalue]]

theorem scanLines_append (st : ScanState) (lines more : List Text) :
    scanLines st (lines ++ more) = scanLines (scanLines st lines) more := List.foldl_append

end Didi.Config
