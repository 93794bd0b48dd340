import Didi.Config.Lines
import Didi.Config.Accepted

/-!
# A carriage return that ends a line

`scanLine_return` : a scan stands at the same place after a line and after the line with one more carriage return;
the two are `Alike`. A walk of a value that reaches the end of the line takes the carriage return with it, and any
other ends where it did (`SameEnd`).
-/

namespace Didi.Config

/-- A space is passed over before a value and inside brackets. After a value it ends the value, unless the value may
still name a call and a bracket comes next. -/
theorem walkValue_gap {c : Char} {rest : Text} {s : ValueState} {word : Option Text} {index : Nat}
    (hstring : s.inString = false) (hspace : isSpace c = true) :
    walkValue (c :: rest) s word index =
      if s.depth = 0 && s.seen then
        if (s.identifier && !(word.any isValueKeyword)) || s.awaitingCall then
          match rest.dropWhile isSpace with
          | [] => (s.awaitCall, index + 1 + rest.length)
          | d :: _ => if d = '(' || d = '[' then walkValue rest s.awaitCall word (index + 1) else (s, index)
        else (s, index)
      else walkValue rest s word (index + 1) := by
  have hc := isSpace_iff.mp hspace
  rw [walkValue.eq_def]
  dsimp only
  rw [if_neg (by simp [hstring])]
  fin_cases hc <;> rfl

/-- What a walk and the walk with one more space at the end of the text answer, where the text ends at `stop`. -/
def SameEnd (stop : Nat) (p q : ValueState × Nat) : Prop :=
  q.1 = p.1 ∧ (q.2 = p.2 ∧ p.2 ≤ stop ∨ stop ≤ p.2 ∧ stop + 1 ≤ q.2)

theorem SameEnd.refl {p : ValueState × Nat} {stop : Nat} (h : p.2 ≤ stop) : SameEnd stop p p := ⟨rfl, .inl ⟨rfl, h⟩⟩

theorem walkValue_return (text : Text) (s : ValueState) (word : Option Text) (index : Nat)
    (h : s.awaitingCall = true → s.identifier = false ∧ s.seen = true) :
    SameEnd (index + text.length) (walkValue text s word index) (walkValue (text ++ ['\r']) s word index) := by
  have hreach : ∀ {rest : Text} {s : ValueState} {word index c},
      SameEnd (index + 1 + rest.length) (walkValue rest s word (index + 1))
        (walkValue (rest ++ ['\r']) s word (index + 1)) →
      SameEnd (index + (c :: rest).length) (walkValue rest s word (index + 1))
        (walkValue (rest ++ ['\r']) s word (index + 1)) := by
    intro rest s word index c h
    rw [List.length_cons, Nat.add_comm rest.length, ← Nat.add_assoc]
    exact h
  induction text, s, word, index using walkValue.induct with
  | case1 s word index =>
    rw [walkValue_nil, List.nil_append, List.length_nil]
    cases hstring : s.inString with
    | true =>
      rw [walkValue_inString hstring (by decide) (by decide)]
      exact ⟨rfl, .inr ⟨le_rfl, le_rfl⟩⟩
    | false =>
      rw [walkValue_gap hstring (by decide)]
      split_ifs with hseen hcall
      · -- the call that may follow is awaited from the end of the line as from the space
        have hsame : s.endLine word = s.awaitCall := by
          unfold ValueState.endLine
          have hdepth : s.depth = 0 := by simpa using (Bool.and_eq_true_iff.mp hseen).1
          cases hword : s.identifier && !(word.any isValueKeyword) with
          | true => simp_all
          | false =>
            have hawait : s.awaitingCall = true := by simpa [hword] using hcall
            obtain ⟨hidentifier, -⟩ := h hawait
            rw [if_neg (by simp [hidentifier])]
            cases s
            simp_all [ValueState.awaitCall]
        rw [hsame]
        exact ⟨rfl, .inr ⟨le_rfl, le_rfl⟩⟩
      · have hsame : s.endLine word = s := by
          unfold ValueState.endLine
          simp_all
        rw [hsame]
        exact .refl le_rfl
      · exact ⟨rfl, .inr ⟨le_rfl, le_rfl⟩⟩
  | case2 s word index hstring =>
    have hend : walkValue ['\\'] s word index = (s, index + 2) := by
      simp [walkValue, hstring]
    have hskip : walkValue ['\\', '\r'] s word index = (s, index + 2) := by
      rw [walkValue_escape hstring]
      simp [walkValue, ValueState.endLine, hstring]
    rw [List.singleton_append, hskip, hend]
    exact ⟨rfl, .inr ⟨by simp, le_rfl⟩⟩
  | case3 s word index hstring d rest ih =>
    rw [List.cons_append, List.cons_append, walkValue_escape hstring, walkValue_escape hstring]
    rw [show index + ('\\' :: d :: rest).length = index + 2 + rest.length by simp; omega]
    exact ih h
  | case4 rest s word index hstring hdepth =>
    rw [List.cons_append, walkValue_closeQuote hstring, walkValue_closeQuote hstring, if_pos hdepth, if_pos hdepth]
    exact .refl (by simp)
  | case5 rest s word index hstring hdepth _ ih =>
    rw [List.cons_append, walkValue_closeQuote hstring, walkValue_closeQuote hstring, if_neg hdepth, if_neg hdepth]
    exact hreach (ih h)
  | case6 c rest s word index hstring hbackslash hquote ih =>
    rw [List.cons_append, walkValue_inString hstring hbackslash hquote, walkValue_inString hstring hbackslash hquote]
    exact hreach (ih h)
  | case7 rest s word index hstring =>
    have hcomment : ∀ rest, walkValue (';' :: rest) s word index = (s, index) := by
      intro rest
      rw [walkValue.eq_def]
      dsimp only
      rw [if_neg hstring, if_pos rfl]
    rw [List.cons_append, hcomment, hcomment]
    exact .refl (by simp)
  | case8 rest s word index hstring _ ih =>
    have hstring := Bool.eq_false_iff.mpr hstring
    rw [List.cons_append, walkValue_openQuote hstring, walkValue_openQuote hstring]
    exact hreach (ih fun _ => ⟨rfl, rfl⟩)
  | case9 c rest s word index hstring _ _ hopener ih =>
    have hstring := Bool.eq_false_iff.mpr hstring
    rw [List.cons_append, walkValue_opener hstring hopener, walkValue_opener hstring hopener]
    exact hreach (ih fun _ => ⟨rfl, rfl⟩)
  | case10 c rest s word index hstring _ _ _ hcloser s' hdepth hannotation ih =>
    have hstring := Bool.eq_false_iff.mpr hstring
    rw [List.cons_append, walkValue_closer hstring hcloser, walkValue_closer hstring hcloser,
      if_pos hdepth, if_pos hdepth, if_pos hannotation, if_pos hannotation]
    exact hreach (ih fun _ => ⟨rfl, rfl⟩)
  | case11 c rest s word index hstring _ _ _ hcloser s' hdepth hannotation =>
    have hstring := Bool.eq_false_iff.mpr hstring
    rw [List.cons_append, walkValue_closer hstring hcloser, walkValue_closer hstring hcloser,
      if_pos hdepth, if_pos hdepth, if_neg hannotation, if_neg hannotation]
    exact .refl (by simp)
  | case12 c rest s word index hstring _ _ _ hcloser s' hdepth ih =>
    have hstring := Bool.eq_false_iff.mpr hstring
    rw [List.cons_append, walkValue_closer hstring hcloser, walkValue_closer hstring hcloser, if_neg hdepth,
      if_neg hdepth]
    exact hreach (ih fun _ => ⟨rfl, rfl⟩)
  | case13 c rest s word index hstring hsemi hquote hopener hcloser hspace hseen hcall hrest =>
    have hstring := Bool.eq_false_iff.mpr hstring
    have hrest' : (rest ++ ['\r']).dropWhile isSpace = [] := by
      rw [List.dropWhile_append, hrest]
      rfl
    rw [List.cons_append, walkValue_gap hstring hspace, walkValue_gap hstring hspace, if_pos hseen,
      if_pos hseen, if_pos hcall, if_pos hcall, hrest, hrest']
    refine ⟨rfl, .inr ⟨?_, ?_⟩⟩
    all_goals
      simp only [List.length_cons, List.length_append, List.length_nil]
      omega
  | case14 c rest s word index hstring hsemi hquote hopener hcloser hspace hseen hcall d rest' hrest hd ih =>
    have hstring := Bool.eq_false_iff.mpr hstring
    have hrest' : (rest ++ ['\r']).dropWhile isSpace = d :: (rest' ++ ['\r']) := by
      rw [List.dropWhile_append, hrest]
      rfl
    rw [List.cons_append, walkValue_gap hstring hspace, walkValue_gap hstring hspace, if_pos hseen,
      if_pos hseen, if_pos hcall, if_pos hcall, hrest, hrest']
    dsimp only
    rw [if_pos hd, if_pos hd]
    exact hreach (ih fun _ => ⟨rfl, (Bool.and_eq_true_iff.mp hseen).2⟩)
  | case15 c rest s word index hstring hsemi hquote hopener hcloser hspace hseen hcall d rest' hrest hd =>
    have hstring := Bool.eq_false_iff.mpr hstring
    have hrest' : (rest ++ ['\r']).dropWhile isSpace = d :: (rest' ++ ['\r']) := by
      rw [List.dropWhile_append, hrest]
      rfl
    rw [List.cons_append, walkValue_gap hstring hspace, walkValue_gap hstring hspace, if_pos hseen,
      if_pos hseen, if_pos hcall, if_pos hcall, hrest, hrest']
    dsimp only
    rw [if_neg hd, if_neg hd]
    exact .refl (by simp)
  | case16 c rest s word index hstring hsemi hquote hopener hcloser hspace hseen hcall =>
    have hstring := Bool.eq_false_iff.mpr hstring
    rw [List.cons_append, walkValue_gap hstring hspace, walkValue_gap hstring hspace, if_pos hseen,
      if_pos hseen, if_neg hcall, if_neg hcall]
    exact .refl (by simp)
  | case17 c rest s word index hstring hsemi hquote hopener hcloser hspace hseen ih =>
    have hstring := Bool.eq_false_iff.mpr hstring
    rw [List.cons_append, walkValue_gap hstring hspace, walkValue_gap hstring hspace, if_neg hseen,
      if_neg hseen]
    exact hreach (ih h)
  | case18 c rest s word index hstring hsemi hquote hopener hcloser hspace ih =>
    have hstring := Bool.eq_false_iff.mpr hstring
    have hc : Inert c := ⟨hsemi, hquote, Bool.eq_false_iff.mpr hopener, Bool.eq_false_iff.mpr hcloser⟩
    have hspace := Bool.eq_false_iff.mpr hspace
    rw [List.cons_append, walkValue_token hstring hc hspace, walkValue_token hstring hc hspace]
    refine hreach (ih fun hawait => ⟨?_, rfl⟩)
    obtain ⟨hidentifier, hseen⟩ := h hawait
    simp [ValueState.readToken, hidentifier, hseen]

theorem advanceValue_return (text : Text) (s : ValueState) :
    (advanceValue (text ++ ['\r']) s).1 = (advanceValue text s).1 ∧
      SameEnd text.length (advanceValue text s).2 (advanceValue (text ++ ['\r']) s).2 := by
  unfold advanceValue
  by_cases hawait : s.awaitingCall = true
  · rw [if_pos hawait, if_pos hawait]
    cases htext : text.dropWhile isSpace with
    | nil =>
      have hreturn : (text ++ ['\r']).dropWhile isSpace = [] := by
        rw [List.dropWhile_append, htext]
        rfl
      rw [hreturn]
      refine ⟨rfl, rfl, .inr ⟨le_rfl, ?_⟩⟩
      simp
    | cons c rest =>
      have hreturn : (text ++ ['\r']).dropWhile isSpace = c :: (rest ++ ['\r']) := by
        rw [List.dropWhile_append, htext]
        rfl
      have hlength : rest.length + 1 ≤ text.length := by
        have := (List.dropWhile_suffix isSpace (l := text)).length_le
        rwa [htext] at this
      rw [hreturn]
      dsimp only
      split_ifs
      · have hwalk := walkValue_return (c :: rest) { s with awaitingCall := false } none (text.length - (rest.length + 1))
          (by simp)
        rw [List.length_cons, Nat.sub_add_cancel hlength] at hwalk
        have hindex : (text ++ ['\r']).length - ((rest ++ ['\r']).length + 1) = text.length - (rest.length + 1) := by
          simp
        rw [hindex]
        exact ⟨congrArg ValueState.finished hwalk.1, hwalk⟩
      · exact ⟨rfl, .refl (Nat.zero_le _)⟩
  · rw [if_neg hawait, if_neg hawait]
    have hwalk := walkValue_return text s none 0 (fun h => absurd h hawait)
    rw [Nat.zero_add] at hwalk
    exact ⟨congrArg ValueState.finished hwalk.1, hwalk⟩

theorem trimmedView_return (text : Text) : trimmedView (text ++ ['\r']) = trimmedView text := trimBy_concat rfl text

/-- The `=` that closes a key is one of the characters of the line. -/
theorem keyTokens_bound {text : Text} {index : Nat} {pending key : Text} {quoted : Option Text} {equals : Nat}
    (h : keyTokens text index pending quoted = (key, some equals)) : equals < index + text.length := by
  fun_induction keyTokens text index pending quoted <;> grind [List.length_cons]

/-- More steps than there are characters change nothing. -/
theorem scanText_return {fuel fuel' : Nat} {st : ScanState} {text : Text} (h : text.length < fuel)
    (h' : text.length + 1 < fuel') : scanText fuel' st (text ++ ['\r']) = scanText fuel st text := by
  induction fuel generalizing fuel' st text with
  | zero => exact absurd h (Nat.not_lt_zero _)
  | succ fuel ih =>
    obtain ⟨fuel', rfl⟩ : ∃ n, fuel' = n + 1 := ⟨fuel' - 1, by omega⟩
    rw [scanText, scanText]
    dsimp only
    rw [trimmedView_return]
    split_ifs with hcomment hheader
    · rfl
    · rfl
    cases htokens : appendKeyTokens (trimmedView text) st.pending with
    | mk pending equals =>
      cases equals with
      | none => rfl
      | some equals =>
        dsimp only
        have hfull : ¬ (text.dropWhile isSpace).isEmpty = true := by
          intro hblank
          rw [trimmedView_blank (List.isEmpty_iff.mp hblank)] at hcomment
          exact hcomment rfl
        have hequals : equals + 1 ≤ (text.dropWhile isSpace).length := by
          have hbound := keyTokens_bound htokens
          have hview : (trimmedView text).length ≤ (text.dropWhile isSpace).length :=
            (List.rdropWhile_prefix isSpace _).length_le
          omega
        have hdrop : ((text ++ ['\r']).dropWhile isSpace).drop (equals + 1) =
            (text.dropWhile isSpace).drop (equals + 1) ++ ['\r'] := by
          rw [List.dropWhile_append, if_neg hfull, List.drop_append_of_le_length hequals]
        have hshort : ((text.dropWhile isSpace).drop (equals + 1)).length < text.length := by
          have := (List.dropWhile_suffix isSpace (l := text)).length_le
          rw [List.length_drop]
          omega
        rw [hdrop]
        generalize (text.dropWhile isSpace).drop (equals + 1) = text at hshort
        obtain ⟨hfinished, hvalue, hstop⟩ := advanceValue_return text {}
        rcases hstop with ⟨hsame, hinside⟩ | ⟨hend, hend'⟩
        · rw [hfinished, hvalue, hsame, List.take_append_of_le_length hinside, List.drop_append_of_le_length hinside]
          split_ifs
          · apply ih
            · rw [List.length_drop]
              omega
            · rw [List.length_drop]
              omega
          · rfl
        · -- the value reaches the end of the line, and nothing is left of it
          have hkey : ∀ keyOnLine finished value, st.key pending keyOnLine (text ++ ['\r']) finished value =
              st.key pending keyOnLine text finished value := by
            intro keyOnLine finished value
            unfold ScanState.key ScanState.entry appendValueText
            rw [trimmedView_return]
          have hnil : ∀ fuel st, scanText fuel st [] = st := by
            intro fuel st
            cases fuel <;> rfl
          rw [hfinished, hvalue, List.take_of_length_le hend, List.take_of_length_le (by simpa using hend'), hkey,
            List.drop_of_length_le hend, List.drop_of_length_le (by simpa using hend'), hnil, hnil]

/-! ## Scans that stand at the same place -/

/-- Two scans that have registered the same and stand at the same place, whatever the numbers of their lines. -/
structure Alike (st st' : ScanState) : Prop where
  settings : st.settings = st'.settings
  names : st.headers.map Header.name = st'.headers.map Header.name
  pending : st.pending = st'.pending
  sectionName : st.sectionName = st'.sectionName
  inValue : st.inValue = st'.inValue
  value : st.inValue = true → st.value = st'.value

theorem Alike.refl (st : ScanState) : Alike st st := ⟨rfl, rfl, rfl, rfl, rfl, fun _ => rfl⟩

theorem Alike.trans {st st' st'' : ScanState} (h : Alike st st') (h' : Alike st' st'') : Alike st st'' :=
  ⟨h.settings.trans h'.settings, h.names.trans h'.names, h.pending.trans h'.pending,
    h.sectionName.trans h'.sectionName, h.inValue.trans h'.inValue,
    fun hvalue => (h.value hvalue).trans (h'.value (h.inValue ▸ hvalue))⟩

theorem Alike.symm {st st' : ScanState} (h : Alike st st') : Alike st' st :=
  ⟨h.settings.symm, h.names.symm, h.pending.symm, h.sectionName.symm, h.inValue.symm,
    fun hvalue => (h.value (h.inValue.trans hvalue)).symm⟩

theorem Alike.complete {st st' : ScanState} (h : Alike st st') : st.complete = st'.complete := by
  unfold ScanState.complete
  rw [h.inValue]
  cases hvalue : st'.inValue with
  | false => rfl
  | true => rw [h.value (h.inValue.trans hvalue)]

theorem extend_settings {st : ScanState} {piece piece' : Text} (h : trimmedView piece = trimmedView piece') :
    (st.extend piece).settings = (st.extend piece').settings := by
  unfold ScanState.extend ScanState.settings
  cases st.entries with
  | nil => rfl
  | cons e entries => simp [Entry.setting, appendValueText, h]

theorem valueLine_settings (st : ScanState) (raw : Text) :
    (st.valueLine raw).settings = (st.extend (raw.take (advanceValue raw st.value).2.2)).settings := by
  unfold ScanState.valueLine
  dsimp only
  split_ifs with hstop
  · rfl
  · have hnone : raw.take (advanceValue raw st.value).2.2 = [] := by simp [Nat.eq_zero_of_not_pos hstop]
    rw [hnone]
    unfold ScanState.extend ScanState.settings
    cases hentries : st.entries with
    | nil => simp [hentries]
    | cons e entries => rfl

@[simp] theorem valueLine_pending (st : ScanState) (raw : Text) : (st.valueLine raw).pending = st.pending := by
  unfold ScanState.valueLine ScanState.extend
  dsimp only
  split_ifs
  · split <;> rfl
  · rfl

/-- **A carriage return at the end of a line changes nothing.** -/
theorem scanLine_return (st : ScanState) (raw : Text) : Alike (scanLine st (raw ++ ['\r'])) (scanLine st raw) := by
  have hrest : ∀ st text, scanRest st (text ++ ['\r']) = scanRest st text := by
    intro st text
    exact scanText_return (Nat.lt_succ_self _) (by simp)
  unfold scanLine
  dsimp only
  by_cases hvalue : st.nextLine.inValue = true
  · rw [if_pos hvalue, if_pos hvalue]
    generalize st.nextLine = st
    obtain ⟨hfinished, hvalue, hstop⟩ := advanceValue_return raw st.value
    have hinValue : (st.valueLine (raw ++ ['\r'])).inValue = (st.valueLine raw).inValue := by
      unfold ScanState.valueLine
      simp [hfinished]
    rw [hinValue]
    rcases hstop with ⟨hsame, hinside⟩ | ⟨hend, hend'⟩
    · have hline : st.valueLine (raw ++ ['\r']) = st.valueLine raw := by
        unfold ScanState.valueLine
        dsimp only
        rw [hfinished, hvalue, hsame, List.take_append_of_le_length hinside]
      rw [hline, hsame, List.drop_append_of_le_length hinside, hrest]
      exact .refl _
    · have hnil : ∀ st, scanRest st [] = st := fun st => rfl
      rw [List.drop_of_length_le hend, List.drop_of_length_le (by simpa using hend'), hnil, hnil, ite_self, ite_self]
      refine ⟨?_, ?_, ?_, ?_, hinValue, fun _ => hvalue⟩
      · rw [valueLine_settings, valueLine_settings, List.take_of_length_le hend,
          List.take_of_length_le (by simpa using hend')]
        exact extend_settings (trimmedView_return raw)
      · simp
      · simp
      · simp
  · rw [if_neg hvalue, if_neg hvalue, hrest]
    exact .refl _

/-! ### Empty lines -/

/-- What an empty line leaves of a value that it does not end, the next one leaves too. -/
theorem advanceValue_nil (s : ValueState) : ∃ finished value, advanceValue [] s = (finished, value, 0) ∧
    (finished = false → advanceValue [] value = (false, value, 0)) := by
  have hwaits : ∀ s : ValueState, s.awaitingCall = true → advanceValue [] s = (false, s, 0) := by
    intro s hawait
    unfold advanceValue
    rw [if_pos hawait]
    rfl
  by_cases hawait : s.awaitingCall = true
  · exact ⟨false, s, hwaits s hawait, fun _ => hwaits s hawait⟩
  · have hends : advanceValue [] s = ((s.endLine none).finished, s.endLine none, 0) := by
      unfold advanceValue
      rw [if_neg hawait]
      rfl
    refine ⟨_, _, hends, fun hfinished => ?_⟩
    by_cases hcall : (s.endLine none).awaitingCall = true
    · exact hwaits _ hcall
    · have hsame : s.endLine none = s := by
        unfold ValueState.endLine at hcall ⊢
        split_ifs at hcall ⊢
        · exact absurd rfl hcall
        · rfl
      rw [hsame] at hfinished hends ⊢
      rw [hends, hfinished]

/-- An empty line: nothing is registered, and an open value may end or go on. -/
theorem scanLine_nil_eq (st : ScanState) : scanLine st [] =
    if st.inValue then
      { st.nextLine with value := (advanceValue [] st.value).2.1, inValue := !(advanceValue [] st.value).1 }
    else st.nextLine := by
  have hrest : ∀ st, scanRest st [] = st := fun st => rfl
  obtain ⟨finished, value, hadvance, -⟩ := advanceValue_nil st.value
  unfold scanLine
  dsimp only
  rw [List.drop_nil, hrest, hrest, ite_self]
  split_ifs with hvalue hvalue' hvalue'
  · unfold ScanState.valueLine
    rw [show st.nextLine.value = st.value from rfl, hadvance]
    rfl
  · exact absurd hvalue hvalue'
  · exact absurd hvalue' hvalue
  · rfl

/-- An empty line after a text that is complete changes nothing. -/
theorem scanLine_nil_alike {st : ScanState} (h : st.complete = true) : Alike (scanLine st []) st := by
  rw [scanLine_nil_eq]
  split_ifs with hvalue
  · have hawait : st.value.awaitingCall = true := by simpa [ScanState.complete, hvalue] using h
    have hadvance : advanceValue [] st.value = (false, st.value, 0) := by
      unfold advanceValue
      rw [if_pos hawait]
      rfl
    rw [hadvance]
    exact ⟨rfl, rfl, rfl, rfl, hvalue.symm, fun _ => rfl⟩
  · exact ⟨rfl, rfl, rfl, rfl, rfl, fun _ => rfl⟩

/-- An empty line after another changes nothing. -/
theorem scanLine_nil_nil (st : ScanState) : Alike (scanLine (scanLine st []) []) (scanLine st []) := by
  obtain ⟨finished, value, hadvance, hagain⟩ := advanceValue_nil st.value
  rw [scanLine_nil_eq (scanLine st []), scanLine_nil_eq st]
  by_cases hvalue : st.inValue = true
  · rw [if_pos hvalue, hadvance]
    cases finished with
    | true => exact ⟨rfl, rfl, rfl, rfl, rfl, fun _ => rfl⟩
    | false =>
      dsimp only
      rw [Bool.not_false, if_pos rfl, hagain rfl]
      exact ⟨rfl, rfl, rfl, rfl, rfl, fun _ => rfl⟩
  · rw [if_neg hvalue, if_neg (show ¬ st.nextLine.inValue = true from hvalue)]
    exact ⟨rfl, rfl, rfl, rfl, rfl, fun _ => rfl⟩

end Didi.Config
