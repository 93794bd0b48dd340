import Didi.Export.Presets
import Didi.Lib.Glob

/-!
# What an exclude pattern matches

* `Walk.step` : one round of the loop of `wildcardMatch`, and `Walk.Ends` : the loop answers after some rounds;
* `Walk.Finds` : the pattern matches the rest of the text, or the pattern behind the last star matches a later rest;
* `Walk.step_inl`, `Walk.step_inr` : a round keeps that, and leaves less to do;
* `wildcardMatch_iff` : the loop ends, and answers whether the pattern matches the text.
-/

namespace Didi.Export
open Config
variable {back : Option (Text × Text)}

def isStar (p : Char) : Bool := p = '*'

/-- A `?` takes any byte, every other byte of a pattern its equal without case. -/
def takes (p c : Char) : Bool := p = '?' || p.toLower = c

/-- The pattern matches the text, compared without case. -/
def Matched (pattern text : Text) : Prop := Glob isStar (fun p c => takes p c.toLower) pattern text

/-- What the loop still has to compare. -/
structure Walk where
  text : Text
  pattern : Text
  back : Option (Text × Text)

namespace Walk
variable {w w' : Walk} {b : Bool} {t m : Nat}

def run (fuel : Nat) (w : Walk) : Bool := wildcardWalk fuel w.text w.pattern w.back

/-- Back to the last star, which takes one byte more. -/
def goBack (w : Walk) : Bool ⊕ Walk :=
  match w.back with
  | some (after, _ :: mark) => .inr ⟨mark, after, some (after, mark)⟩
  | _ => .inl false

def step (w : Walk) : Bool ⊕ Walk :=
  match w.text, w.pattern with
  | [], pattern => .inl (pattern.all (· = '*'))
  | _ :: _, [] => w.goBack
  | c :: text, p :: rest =>
    if p = '?' || p.toLower = c.toLower then .inr ⟨text, rest, w.back⟩
    else if p = '*' then .inr ⟨c :: text, rest, some (rest, c :: text)⟩
    else w.goBack

/-- The loop answers after some rounds. -/
inductive Ends : Walk → Bool → Prop
  | now {w : Walk} {b : Bool} (h : w.step = .inl b) : Ends w b
  | later {w w' : Walk} {b : Bool} (h : w.step = .inr w') (hends : Ends w' b) : Ends w b

/-- What the loop answers after a step back. -/
def runBack (fuel : Nat) : Option (Text × Text) → Bool
  | some (after, _ :: mark) => wildcardWalk fuel mark after (some (after, mark))
  | _ => false

theorem run_goBack (fuel : Nat) (w : Walk) :
    runBack fuel w.back = match w.goBack with
      | .inl b => b
      | .inr w' => w'.run fuel := by
  obtain ⟨text, pattern, _ | ⟨after, _ | ⟨x, mark⟩⟩⟩ := w <;> rfl

theorem run_succ (fuel : Nat) (w : Walk) :
    w.run (fuel + 1) = match w.step with
      | .inl b => b
      | .inr w' => w'.run fuel := by
  obtain ⟨_ | ⟨c, text⟩, pattern, back⟩ := w
  · rfl
  · cases pattern with
    | nil => exact run_goBack fuel ⟨c :: text, [], back⟩
    | cons p rest =>
      have hstep : step ⟨c :: text, p :: rest, back⟩ =
          if p = '?' || p.toLower = c.toLower then .inr ⟨text, rest, back⟩
          else if p = '*' then .inr ⟨c :: text, rest, some (rest, c :: text)⟩
          else goBack ⟨c :: text, p :: rest, back⟩ := rfl
      have hrun : run (fuel + 1) ⟨c :: text, p :: rest, back⟩ =
          if p = '?' || p.toLower = c.toLower then run fuel ⟨text, rest, back⟩
          else if p = '*' then run fuel ⟨c :: text, rest, some (rest, c :: text)⟩
          else runBack fuel back := rfl
      rw [hstep, hrun]
      split_ifs
      · rfl
      · rfl
      · exact run_goBack fuel ⟨c :: text, p :: rest, back⟩

/-- The pattern matches the rest of the text, or what follows the last star matches a later rest. -/
def Finds (w : Walk) : Prop :=
  Matched w.pattern w.text ∨
    ∃ after mark left, w.back = some (after, mark) ∧ left <:+ mark ∧ left.length < mark.length ∧ Matched after left

/-- What was passed since the last star was matched byte by byte. -/
structure Sound (t m : Nat) (w : Walk) : Prop where
  noStar : '*' ∉ w.text
  text_le : w.text.length ≤ t
  pattern_le : w.pattern.length ≤ m
  back : ∀ after mark, w.back = some (after, mark) → '*' ∉ mark ∧ mark.length ≤ t ∧ after.length ≤ m ∧
    ∃ seg passed, after = seg ++ w.pattern ∧ mark = passed ++ w.text ∧ (∀ p ∈ seg, isStar p = false) ∧
      passed.length = seg.length

/-- The work that is left: a step back leaves less of the text behind the last star. -/
def size (t m : Nat) (w : Walk) : Nat :=
  (w.back.elim (t + 1) fun back => back.2.length) * (t + m + 2) + w.text.length + w.pattern.length

theorem eq_star_of_toLower {c : Char} (h : '*'.toLower = c.toLower) : c = '*' := by
  have hstar : '*'.toLower = '*' := by decide
  rw [hstar] at h
  delta Char.toLower at h
  split_ifs at h with hupper
  · have hcode := congrArg Char.toNat h
    change 42 = (c.val + ('a'.val - 'A'.val)).toNat at hcode
    have hlow : 65 ≤ c.val.toNat := hupper.1
    have hhigh : c.val.toNat ≤ 90 := hupper.2
    rw [UInt32.toNat_add] at hcode
    change 42 = (c.val.toNat + 32) % 4294967296 at hcode
    omega
  · exact h.symm

theorem not_star_of_takes {p c : Char} (hc : c ≠ '*') (h : (p = '?' || p.toLower = c.toLower) = true) :
    isStar p = false := by
  rw [isStar, decide_eq_false_iff_not]
  rintro rfl
  rcases Bool.or_eq_true _ _ ▸ h with h | h
  · exact absurd (of_decide_eq_true h) (by decide)
  · exact hc (eq_star_of_toLower (of_decide_eq_true h))

theorem matched_cons_take {p c : Char} {rest text : Text} (hc : c ≠ '*')
    (h : (p = '?' || p.toLower = c.toLower) = true) : Matched (p :: rest) (c :: text) ↔ Matched rest text := by
  rw [Matched, glob_cons_one (not_star_of_takes hc h)]
  constructor
  · rintro ⟨_, _, ⟨rfl, rfl⟩, -, hrest⟩
    exact hrest
  · exact fun hrest => ⟨c, text, rfl, h, hrest⟩

/-- Where no byte fits, only the last star can take more. -/
theorem not_matched_cons {p c : Char} {rest text : Text} (h : ¬ (p = '?' || p.toLower = c.toLower) = true) (hp : p ≠ '*') :
    ¬ Matched (p :: rest) (c :: text) := by
  rw [Matched, glob_cons_one (show isStar p = false from decide_eq_false hp)]
  rintro ⟨_, _, ⟨rfl, rfl⟩, htakes, -⟩
  exact h htakes

theorem finds_goBack (hnot : ¬ Matched w.pattern w.text) (hback : w.goBack = .inr w') : w'.Finds ↔ w.Finds := by
  obtain ⟨text, pattern, _ | ⟨after, _ | ⟨x, mark⟩⟩⟩ := w
  · cases hback
  · cases hback
  · cases hback
    constructor
    · rintro (hmatched | ⟨_, _, left, ⟨rfl, rfl⟩, hleft, -, hmatched⟩)
      · exact .inr ⟨after, x :: mark, mark, rfl, List.suffix_cons x mark, Nat.lt_succ_self _, hmatched⟩
      · exact .inr ⟨after, x :: mark, left, rfl, hleft.trans (List.suffix_cons x mark),
          Nat.lt_succ_of_le hleft.length_le, hmatched⟩
    · rintro (hmatched | ⟨_, _, left, ⟨rfl, rfl⟩, hleft, hshort, hmatched⟩)
      · exact absurd hmatched hnot
      · rcases List.suffix_cons_iff.mp hleft with rfl | hleft
        · exact absurd hshort (Nat.lt_irrefl _)
        · rcases hleft.length_le.lt_or_eq with hlt | heq
          · exact .inr ⟨after, mark, left, rfl, hleft, hlt, hmatched⟩
          · rw [hleft.eq_of_length heq] at hmatched
            exact .inl hmatched

theorem not_finds_goBack (hnot : ¬ Matched w.pattern w.text) (hback : w.goBack = .inl b) : b = false ∧ ¬ w.Finds := by
  obtain ⟨text, pattern, _ | ⟨after, _ | ⟨x, mark⟩⟩⟩ := w
  · cases hback
    exact ⟨rfl, by rintro (h | ⟨_, _, _, h, -⟩); exacts [hnot h, nomatch h]⟩
  · cases hback
    refine ⟨rfl, ?_⟩
    rintro (h | ⟨_, _, left, ⟨rfl, rfl⟩, -, hshort, -⟩)
    · exact hnot h
    · exact absurd hshort (Nat.not_lt_zero _)
  · cases hback

theorem Sound.goBack (h : w.Sound t m) (hback : w.goBack = .inr w') : w'.Sound t m ∧ w'.size t m < w.size t m := by
  obtain ⟨text, pattern, _ | ⟨after, _ | ⟨x, mark⟩⟩⟩ := w
  · cases hback
  · cases hback
  · cases hback
    obtain ⟨hstar, hmark, hafter, -⟩ := h.back after (x :: mark) rfl
    have hstar' : '*' ∉ mark := fun hmem => hstar (List.mem_cons_of_mem _ hmem)
    rw [List.length_cons] at hmark
    refine ⟨⟨hstar', (by omega : mark.length ≤ t), hafter, ?_⟩, ?_⟩
    · rintro _ _ ⟨rfl, rfl⟩
      exact ⟨hstar', by omega, hafter, [], [], rfl, rfl, by simp, rfl⟩
    · have hwork : (mark.length + 1) * (t + m + 2) = mark.length * (t + m + 2) + (t + m + 2) := Nat.succ_mul _ _
      simp only [size, Option.elim_some, List.length_cons, hwork]
      omega

theorem matched_star {rest text : Text} :
    Matched ('*' :: rest) text ↔ ∃ left, left <:+ text ∧ Matched rest left :=
  glob_cons_star rfl

/-- What was passed since the last star is matched by as many bytes again: what is left lies behind it. -/
theorem matched_behind {seg pattern passed text left : Text} (hseg : ∀ p ∈ seg, isStar p = false)
    (hlength : passed.length = seg.length) (hleft : left <:+ passed ++ text)
    (hshort : left.length < (passed ++ text).length) (h : Matched (seg ++ pattern) left) :
    ∃ last, last <:+ text ∧ last.length < text.length ∧ Matched pattern last := by
  obtain ⟨u, last, hu, hlast, rfl⟩ := glob_append.mp h
  have hulength := hu.length_eq hseg
  rw [List.length_append, List.length_append, hulength, hlength] at hshort
  have hlt : last.length < text.length := Nat.lt_of_add_lt_add_left hshort
  have hsuffix : last <:+ passed ++ text := (List.suffix_append u last).trans hleft
  exact ⟨last, List.suffix_of_suffix_length_le hsuffix (List.suffix_append passed text) hlt.le, hlt, hlast⟩

/-- At the end of the text only stars may be left. -/
theorem Sound.finds_nil {pattern : Text} (h : Sound t m ⟨[], pattern, back⟩) :
    pattern.all (· = '*') = true ↔ Finds ⟨[], pattern, back⟩ := by
  have hall : Matched pattern [] ↔ pattern.all (· = '*') = true := glob_text_nil
  rw [← hall]
  refine ⟨.inl, ?_⟩
  rintro (hmatched | ⟨after, mark, left, hback, hleft, hshort, hmatched⟩)
  · exact hmatched
  · obtain ⟨-, -, -, seg, passed, rfl, rfl, hseg, hlength⟩ := h.back after mark hback
    obtain ⟨last, -, hlast, -⟩ := matched_behind hseg hlength hleft hshort hmatched
    exact absurd hlast (Nat.not_lt_zero _)

/-- A star takes over from the last one, which has nothing to find any more. -/
theorem Sound.finds_star {c : Char} {text rest : Text} (h : Sound t m ⟨c :: text, '*' :: rest, back⟩) :
    Finds ⟨c :: text, rest, some (rest, c :: text)⟩ ↔ Finds ⟨c :: text, '*' :: rest, back⟩ := by
  constructor
  · rintro (hmatched | ⟨_, _, left, ⟨rfl, rfl⟩, hleft, -, hmatched⟩)
    · exact .inl (matched_star.mpr ⟨_, List.suffix_rfl, hmatched⟩)
    · exact .inl (matched_star.mpr ⟨left, hleft, hmatched⟩)
  · intro hfinds
    have hstar : Matched ('*' :: rest) (c :: text) := by
      rcases hfinds with hmatched | ⟨after, mark, left, hback, hleft, hshort, hmatched⟩
      · exact hmatched
      · obtain ⟨-, -, -, seg, passed, rfl, rfl, hseg, hlength⟩ := h.back after mark hback
        obtain ⟨last, hlast, -, hmatched⟩ := matched_behind hseg hlength hleft hshort hmatched
        exact hmatched.of_suffix rfl hlast
    obtain ⟨left, hleft, hmatched⟩ := matched_star.mp hstar
    rcases hleft.length_le.lt_or_eq with hlt | heq
    · exact .inr ⟨rest, c :: text, left, rfl, hleft, hlt, hmatched⟩
    · rw [hleft.eq_of_length heq] at hmatched
      exact .inl hmatched

theorem Sound.take {p c : Char} {text rest : Text} (h : Sound t m ⟨c :: text, p :: rest, back⟩)
    (hp : isStar p = false) :
    Sound t m ⟨text, rest, back⟩ ∧ size t m ⟨text, rest, back⟩ < size t m ⟨c :: text, p :: rest, back⟩ := by
  refine ⟨⟨fun hmem => h.noStar (List.mem_cons_of_mem _ hmem), Nat.le_of_succ_le h.text_le,
    Nat.le_of_succ_le h.pattern_le, ?_⟩, ?_⟩
  · intro after mark hback
    obtain ⟨hmark, hmarkLength, hafter, seg, passed, rfl, rfl, hseg, hlength⟩ := h.back after mark hback
    refine ⟨hmark, hmarkLength, hafter, seg ++ [p], passed ++ [c], ?_, ?_, ?_, ?_⟩
    · rw [List.append_assoc, List.singleton_append]
    · rw [List.append_assoc, List.singleton_append]
    · intro q hq
      rcases List.mem_append.mp hq with hq | hq
      · exact hseg q hq
      · rw [List.mem_singleton.mp hq, hp]
    · rw [List.length_append, List.length_append, hlength, List.length_singleton, List.length_singleton]
  · simp only [size, List.length_cons]
    omega

theorem Sound.star {c : Char} {text rest : Text} (h : Sound t m ⟨c :: text, '*' :: rest, back⟩) :
    Sound t m ⟨c :: text, rest, some (rest, c :: text)⟩ ∧
      size t m ⟨c :: text, rest, some (rest, c :: text)⟩ < size t m ⟨c :: text, '*' :: rest, back⟩ := by
  have hrest : rest.length ≤ m := Nat.le_of_succ_le h.pattern_le
  refine ⟨⟨h.noStar, h.text_le, hrest, ?_⟩, ?_⟩
  · rintro _ _ ⟨rfl, rfl⟩
    exact ⟨h.noStar, h.text_le, hrest, [], [], rfl, rfl, by simp, rfl⟩
  · have hmark : (c :: text).length ≤ back.elim (t + 1) fun back => back.2.length := by
      cases hback : back with
      | none => exact Nat.le_succ_of_le h.text_le
      | some last =>
        obtain ⟨-, -, -, seg, passed, -, hmark, -⟩ := h.back last.1 last.2 hback
        rw [Option.elim_some, hmark, List.length_append]
        exact Nat.le_add_left _ _
    have hwork := Nat.mul_le_mul_right (t + m + 2) hmark
    simp only [size, Option.elim_some, List.length_cons] at hwork ⊢
    omega

/-! ## A round -/

theorem step_inl (h : w.Sound t m) (hstep : w.step = .inl b) : b = true ↔ w.Finds := by
  obtain ⟨_ | ⟨c, text⟩, pattern, back⟩ := w
  · cases hstep
    exact h.finds_nil
  · have hfails : ¬ Matched pattern (c :: text) → goBack ⟨c :: text, pattern, back⟩ = .inl b →
        (b = true ↔ Finds ⟨c :: text, pattern, back⟩) := by
      intro hnot hback
      obtain ⟨rfl, hfinds⟩ := not_finds_goBack hnot hback
      exact ⟨(nomatch ·), fun h => absurd h hfinds⟩
    cases pattern with
    | nil => exact hfails (fun hmatched => nomatch glob_nil.mp hmatched) hstep
    | cons p rest =>
      simp only [step] at hstep
      split_ifs at hstep with htakes hp
      exact hfails (not_matched_cons htakes hp) hstep

theorem step_inr (h : w.Sound t m) (hstep : w.step = .inr w') :
    (w'.Sound t m ∧ w'.size t m < w.size t m) ∧ (w'.Finds ↔ w.Finds) := by
  obtain ⟨_ | ⟨c, text⟩, pattern, back⟩ := w
  · cases hstep
  · cases pattern with
    | nil => exact ⟨h.goBack hstep, finds_goBack (fun hmatched => nomatch glob_nil.mp hmatched) hstep⟩
    | cons p rest =>
      simp only [step] at hstep
      split_ifs at hstep with htakes hp
      · cases hstep
        have hc : c ≠ '*' := fun hc => h.noStar (hc ▸ List.mem_cons_self)
        refine ⟨h.take (not_star_of_takes hc htakes), ?_⟩
        rw [Finds, Finds, matched_cons_take hc htakes]
      · cases hstep
        cases hp
        exact ⟨h.star, h.finds_star⟩
      · exact ⟨h.goBack hstep, finds_goBack (not_matched_cons htakes hp) hstep⟩

/-! ## The loop -/

/-- The loop ends within the work that is left, and answers what it looks for. -/
theorem ends (h : w.Sound t m) : ∃ b, Ends w b ∧ (b = true ↔ w.Finds) ∧ ∀ fuel, w.size t m < fuel → w.run fuel = b := by
  induction hsize : w.size t m using Nat.strong_induction_on generalizing w with
  | _ size ih =>
    cases hstep : w.step with
    | inl b =>
      refine ⟨b, .now hstep, step_inl h hstep, ?_⟩
      rintro (_ | fuel) hfuel
      · exact absurd hfuel (Nat.not_lt_zero _)
      · rw [run_succ, hstep]
    | inr w' =>
      obtain ⟨⟨hsound, hless⟩, hfinds⟩ := step_inr h hstep
      obtain ⟨b, hends, hb, hrun⟩ := ih _ (hsize ▸ hless) hsound rfl
      refine ⟨b, .later hstep hends, hb.trans hfinds, ?_⟩
      rintro (_ | fuel) hfuel
      · exact absurd hfuel (Nat.not_lt_zero _)
      · rw [run_succ, hstep]
        exact hrun fuel (by omega)

end Walk

/-- A pattern matches a text without stars where its bytes take the pieces of the text in lower case. -/
theorem wildcardMatch_iff (text pattern : Text) (h : '*' ∉ text) :
    Walk.Ends ⟨text, pattern, none⟩ (wildcardMatch text pattern) ∧
      (wildcardMatch text pattern = true ↔ Glob isStar takes pattern (text.map Char.toLower)) := by
  have hsound : Walk.Sound text.length pattern.length ⟨text, pattern, none⟩ :=
    ⟨h, le_rfl, le_rfl, fun _ _ hback => nomatch hback⟩
  obtain ⟨b, hends, hb, hrun⟩ := Walk.ends hsound
  have hfuel : Walk.size text.length pattern.length ⟨text, pattern, none⟩ <
      (text.length + 2) * (text.length + pattern.length + 2) := by
    simp only [Walk.size, Option.elim_none]
    have hmul : (text.length + 2) * (text.length + pattern.length + 2) =
        (text.length + 1) * (text.length + pattern.length + 2) + (text.length + pattern.length + 2) := Nat.succ_mul _ _
    omega
  have hmatch : wildcardMatch text pattern = b := hrun _ hfuel
  rw [hmatch, glob_map]
  refine ⟨hends, hb.trans ⟨?_, .inl⟩⟩
  rintro (hmatched | ⟨_, _, _, hback, -⟩)
  · exact hmatched
  · cases hback

theorem wildcardMatch_iff_kExtension :
    Walk.Ends ⟨kExtension, "ADDONS/*/didi.?dextension".toList, none⟩
        (wildcardMatch kExtension "ADDONS/*/didi.?dextension".toList) ∧
      (wildcardMatch kExtension "ADDONS/*/didi.?dextension".toList = true ↔
        Glob isStar takes "ADDONS/*/didi.?dextension".toList (kExtension.map Char.toLower)) :=
  wildcardMatch_iff kExtension _ (by decide)

end Didi.Export
