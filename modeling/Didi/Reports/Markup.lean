import Didi.Lib.Locked
import Didi.Reports.Scanner

/-!
# What the scanner reads of a piece of markup

* `scanLoop_fuel` : a scan has steps enough, since each of them takes something off the text;
* `scanFrom_run`, `scanFrom_markup` : a scan goes on behind the text and the markup that it has read.
-/

namespace Didi.Reports
open Config (Text bytesOf isSpace)

/-! ## Cuts -/

theorem cut_length {needle : Text} (hneedle : needle ≠ []) {text before rest : Text}
    (h : cut needle text = some (before, rest)) : rest.length < text.length := by
  induction text generalizing before with
  | nil => cases h
  | cons c text ih =>
    unfold cut at h
    split_ifs at h
    · cases h
      have hpos : 0 < needle.length := List.length_pos_iff.mpr hneedle
      rw [List.length_drop, List.length_cons]
      omega
    · obtain ⟨e, he, h⟩ := Option.map_eq_some_iff.mp h
      cases h
      have hlt := ih he
      rw [List.length_cons]
      omega

theorem cut_char {c : Char} {before : Text} (h : c ∉ before) (rest : Text) :
    cut [c] (before ++ c :: rest) = some (before, rest) := by
  induction before with
  | nil => simp [cut]
  | cons d before ih =>
    have hne : c ≠ d := fun heq => h (heq ▸ List.mem_cons_self)
    have hbefore : c ∉ before := fun hmem => h (List.mem_cons_of_mem d hmem)
    rw [List.cons_append, cut, if_neg (by simp [hne]), ih hbefore]
    rfl

/-- The characters of a CDATA section end where it ends. -/
theorem cut_characters {characters : Text} (h : ¬ [']', ']', '>'] <:+: characters) (rest : Text) :
    cut [']', ']', '>'] (characters ++ [']', ']', '>'] ++ rest) = some (characters, rest) := by
  induction characters with
  | nil => simp [cut]
  | cons c characters ih =>
    have hrest : ¬ [']', ']', '>'] <:+: characters := fun hinside => h (hinside.trans (List.suffix_cons c _).isInfix)
    have hhere : ¬ [']', ']', '>'].isPrefixOf (c :: (characters ++ [']', ']', '>'] ++ rest)) = true := by
      intro hstarts
      rw [List.isPrefixOf_iff_prefix] at hstarts
      rcases characters with _ | ⟨d, _ | ⟨e, characters⟩⟩
      · simp [List.cons_prefix_cons] at hstarts
      · simp [List.cons_prefix_cons] at hstarts
      · simp only [List.cons_append, List.cons_prefix_cons, List.nil_prefix, and_true] at hstarts
        obtain ⟨rfl, rfl, rfl⟩ := hstarts
        exact h ⟨[], characters, by simp⟩
    rw [List.cons_append, List.cons_append, cut, if_neg hhere, ih hrest]
    rfl

/-! ## The scan goes on -/

theorem readAttributes_length {name : Text} {fuel : Nat} {attributes attributes' : Attributes} {text rest : Text}
    {selfClosing : Bool} (h : readAttributes name fuel attributes text = .ok (attributes', selfClosing, rest)) :
    rest.length < text.length := by
  induction fuel generalizing attributes text with
  | zero => cases h
  | succ fuel ih =>
    have hspaces := List.length_dropWhile_le isSpace text
    unfold readAttributes at h
    split at h
    · cases h
    · rename_i heq
      cases h
      rw [heq, List.length_cons] at hspaces
      omega
    · rename_i heq
      cases h
      rw [heq, List.length_cons, List.length_cons] at hspaces
      omega
    · cases h
    · dsimp only at h
      split at h
      · rename_i afterKey hafterKey
        split at h
        · rename_i quote quoted hquoted
          split_ifs at h
          split at h
          · rename_i value after hcut
            have hlt := ih h
            have hcutLength := cut_length (by simp) hcut
            have hquotedLength := List.length_dropWhile_le isSpace afterKey
            rw [hquoted, List.length_cons] at hquotedLength
            have hkeyLength := List.length_dropWhile_le isSpace
              ((text.dropWhile isSpace).dropWhile fun c => c ≠ '=' && !isSpace c && c ≠ '>')
            rw [hafterKey, List.length_cons] at hkeyLength
            have htagLength := List.length_dropWhile_le (fun c => c ≠ '=' && !isSpace c && c ≠ '>')
              (text.dropWhile isSpace)
            omega
          · cases h
        · cases h
      · cases h

section
variable {ρ : Type} [Zero ρ] {stod : Text → Option ρ} {s s' : JUnitScanner ρ} {rest : Text}
namespace JUnitScanner

theorem openElement_length {text : Text} (h : s.openElement stod text = .ok (s', rest)) :
    rest.length < text.length + 1 := by
  unfold openElement at h
  dsimp only at h
  split_ifs at h
  obtain ⟨⟨attributes, selfClosing, after⟩, hread, h⟩ := Except.bind_eq_ok.mp h
  have hlength := readAttributes_length hread
  have htag := List.length_dropWhile_le inName text
  have hafter : rest = after := by
    dsimp only at h
    split_ifs at h
    · obtain ⟨_, -, h⟩ := Except.bind_eq_ok.mp h
      cases h
      rfl
    · cases h
      rfl
  rw [hafter]
  omega

theorem readMarkup_length {text : Text} (htext : text ≠ []) (h : s.readMarkup stod text = .ok (s', rest)) :
    rest.length < text.length := by
  have hpos : 0 < text.length := List.length_pos_iff.mpr htext
  have hdrop : ∀ n, (text.drop n).length ≤ text.length := fun n => by
    rw [List.length_drop]
    omega
  unfold readMarkup at h
  split_ifs at h
  · split at h
    · rename_i hcut
      cases h
      exact cut_length (by decide) hcut
    · cases h
  · split at h
    · rename_i hcut
      cases h
      exact (cut_length (by decide) hcut).trans_le (hdrop 9)
    · cases h
  · split at h
    · rename_i hcut
      cases h
      exact cut_length (by decide) hcut
    · cases h
  · split at h
    · rename_i hcut
      obtain ⟨_, -, h⟩ := Except.bind_eq_ok.mp h
      cases h
      exact (cut_length (by decide) hcut).trans_le (hdrop 2)
    · cases h
  · have hlength := openElement_length h
    rw [List.length_tail] at hlength
    omega

theorem scanStep_length {xml : Text} (h : s.scanStep stod xml = .ok (some (s', rest))) : rest.length < xml.length := by
  unfold scanStep at h
  by_cases hmem : '<' ∉ xml
  · rw [if_neg hmem] at h
    cases h
  rw [not_not] at hmem
  rw [if_pos hmem] at h
  have hne : xml.dropWhile (· ≠ '<') ≠ [] := by
    rw [Ne, List.dropWhile_eq_nil_iff]
    intro hall
    simpa using hall '<' hmem
  cases hread : readMarkup stod (s.keep (decode (xml.takeWhile (· ≠ '<')))) (xml.dropWhile (· ≠ '<')) with
  | error e =>
    rw [hread] at h
    cases h
  | ok read =>
    rw [hread] at h
    cases h
    exact (readMarkup_length hne hread).trans_le (List.length_dropWhile_le _ xml)

/-- Fuel beyond the length of the text changes nothing. -/
theorem scanLoop_fuel {fuel : Nat} (xml : Text) (s : JUnitScanner ρ) (h : xml.length < fuel) :
    scanLoop stod fuel s xml = scanFrom stod s xml := by
  induction fuel using Nat.strong_induction_on generalizing xml s with
  | _ fuel ih =>
    obtain ⟨fuel, rfl⟩ : ∃ n, fuel = n + 1 := ⟨fuel - 1, by omega⟩
    show scanLoop stod (fuel + 1) s xml = scanLoop stod (xml.length + 1) s xml
    by_cases hlength : xml.length = fuel
    · rw [hlength]
    · unfold scanLoop
      split
      · rfl
      · rfl
      · rename_i s' rest hstep
        have hlt := scanStep_length hstep
        rw [ih fuel (by omega) rest s' (by omega), ih xml.length (by omega) rest s' (by omega)]

theorem scanFrom_eq (s : JUnitScanner ρ) (xml : Text) : scanFrom stod s xml =
    match s.scanStep stod xml with
    | .error e => .error e
    | .ok none => .ok s
    | .ok (some (s, rest)) => scanFrom stod s rest := by
  show scanLoop stod (xml.length + 1) s xml = _
  unfold scanLoop
  cases hstep : s.scanStep stod xml with
  | error e => rfl
  | ok next =>
    cases next with
    | none => rfl
    | some next => exact scanLoop_fuel _ _ (scanStep_length hstep)

theorem scanStep_run {run : Text} (hrun : '<' ∉ run) (s : JUnitScanner ρ) (text : Text) :
    s.scanStep stod (run ++ '<' :: text) = (readMarkup stod (s.keep (decode run)) ('<' :: text)).map some := by
  have hall : ∀ c ∈ run, decide (c ≠ '<') = true := fun c hc => by
    simpa using fun heq : c = '<' => hrun (heq ▸ hc)
  unfold scanStep
  rw [if_pos (by simp), List.takeWhile_append_of_pos hall, List.dropWhile_append_of_pos hall]
  simp

omit [Zero ρ] in
theorem keep_nil (s : JUnitScanner ρ) : s.keep [] = s := by
  unfold keep
  split_ifs
  · rw [List.append_nil]
  · rfl

/-- The text before markup is kept, and the markup is read. -/
theorem scanFrom_run {run : Text} (hrun : '<' ∉ run) (s : JUnitScanner ρ) (text : Text) :
    scanFrom stod s (run ++ '<' :: text) = scanFrom stod (s.keep (decode run)) ('<' :: text) := by
  have hempty : (s.keep (decode run)).scanStep stod ('<' :: text) =
      (readMarkup stod (s.keep (decode run)) ('<' :: text)).map some := by
    have hstep := @scanStep_run ρ _ stod [] (by simp) (s.keep (decode run)) text
    rwa [show decode [] = [] from rfl, keep_nil] at hstep
  rw [scanFrom_eq, scanFrom_eq (s.keep (decode run)), scanStep_run hrun, hempty]
  cases hread : readMarkup stod (s.keep (decode run)) ('<' :: text) <;> rfl

/-- Markup is read, and the scan goes on behind it. -/
theorem scanFrom_markup {text : Text} (h : s.readMarkup stod ('<' :: text) = .ok (s', rest)) :
    scanFrom stod s ('<' :: text) = scanFrom stod s' rest := by
  have hstep := @scanStep_run ρ _ stod [] (by simp) s text
  rw [show decode [] = [] from rfl, keep_nil, h, List.nil_append] at hstep
  rw [scanFrom_eq, hstep]
  rfl

/-- A text without markup ends the scan. -/
theorem scanFrom_end {run : Text} (hrun : '<' ∉ run) (s : JUnitScanner ρ) : scanFrom stod s run = .ok s := by
  rw [scanFrom_eq, scanStep, if_neg hrun]

end JUnitScanner
end

end Didi.Reports
