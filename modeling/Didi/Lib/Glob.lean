import Mathlib.Data.List.Forall2
import Mathlib.Data.List.Infix

/-!
# Patterns with runs

* `Glob star fits pattern text` : the text can be split so that each element of the pattern takes a piece, a star any
  run and every other element one letter that fits;
* `glob_cons_star`, `glob_cons_one`, `glob_append` : what the first elements of a pattern take;
* `Glob.length_eq` : a pattern without stars takes one letter for each of its elements;
* `Glob.of_suffix` : a star in front takes what comes before a match as well.
-/

variable {π α β : Type*} {star : π → Bool} {fits : π → α → Bool} {p : π} {pattern rest seg : List π} {text u : List α}

/-- What an element of a pattern takes. -/
def Takes (star : π → Bool) (fits : π → α → Bool) (p : π) (piece : List α) : Prop :=
  star p = true ∨ ∃ c, piece = [c] ∧ fits p c = true

def Glob (star : π → Bool) (fits : π → α → Bool) (pattern : List π) (text : List α) : Prop :=
  ∃ pieces, List.Forall₂ (Takes star fits) pattern pieces ∧ pieces.flatten = text

theorem glob_nil : Glob star fits [] text ↔ text = [] := by
  constructor
  · rintro ⟨pieces, hpieces, rfl⟩
    cases hpieces
    rfl
  · rintro rfl
    exact ⟨[], .nil, rfl⟩

theorem glob_cons : Glob star fits (p :: rest) text ↔
    ∃ piece left, Takes star fits p piece ∧ Glob star fits rest left ∧ text = piece ++ left := by
  constructor
  · rintro ⟨pieces, hpieces, rfl⟩
    cases hpieces with
    | cons hpiece hrest => exact ⟨_, _, hpiece, ⟨_, hrest, rfl⟩, List.flatten_cons⟩
  · rintro ⟨piece, left, hpiece, ⟨pieces, hpieces, rfl⟩, rfl⟩
    exact ⟨piece :: pieces, .cons hpiece hpieces, List.flatten_cons⟩

theorem glob_cons_star (hp : star p = true) :
    Glob star fits (p :: rest) text ↔ ∃ left, left <:+ text ∧ Glob star fits rest left := by
  rw [glob_cons]
  constructor
  · rintro ⟨piece, left, -, hleft, rfl⟩
    exact ⟨left, List.suffix_append _ _, hleft⟩
  · rintro ⟨left, ⟨piece, rfl⟩, hleft⟩
    exact ⟨piece, left, .inl hp, hleft, rfl⟩

theorem glob_cons_one (hp : star p = false) :
    Glob star fits (p :: rest) text ↔ ∃ c left, text = c :: left ∧ fits p c = true ∧ Glob star fits rest left := by
  rw [glob_cons]
  constructor
  · rintro ⟨piece, left, hstar | ⟨c, rfl, hfits⟩, hleft, rfl⟩
    · rw [hp] at hstar
      cases hstar
    · exact ⟨c, left, rfl, hfits, hleft⟩
  · rintro ⟨c, left, rfl, hfits, hleft⟩
    exact ⟨[c], left, .inr ⟨c, rfl, hfits⟩, hleft, rfl⟩

theorem glob_append : Glob star fits (seg ++ rest) text ↔
    ∃ u left, Glob star fits seg u ∧ Glob star fits rest left ∧ text = u ++ left := by
  induction seg generalizing text with
  | nil => simp [glob_nil]
  | cons p seg ih =>
    simp only [List.cons_append, glob_cons, ih]
    constructor
    · rintro ⟨piece, _, hpiece, ⟨u, left, hu, hleft, rfl⟩, rfl⟩
      exact ⟨piece ++ u, left, ⟨piece, u, hpiece, hu, rfl⟩, hleft, (List.append_assoc _ _ _).symm⟩
    · rintro ⟨_, left, ⟨piece, u, hpiece, hu, rfl⟩, hleft, rfl⟩
      exact ⟨piece, u ++ left, hpiece, ⟨u, left, hu, hleft, rfl⟩, List.append_assoc _ _ _⟩

theorem Glob.length_eq (h : Glob star fits seg u) (hseg : ∀ p ∈ seg, star p = false) : u.length = seg.length := by
  induction seg generalizing u with
  | nil => rw [glob_nil.mp h]; rfl
  | cons p seg ih =>
    obtain ⟨c, left, rfl, -, hleft⟩ := (glob_cons_one (hseg p List.mem_cons_self)).mp h
    rw [List.length_cons, List.length_cons, ih hleft fun q hq => hseg q (List.mem_cons_of_mem _ hq)]

theorem Glob.of_suffix (hp : star p = true) {left : List α} (hleft : left <:+ text)
    (h : Glob star fits (p :: rest) left) : Glob star fits (p :: rest) text := by
  rw [glob_cons_star hp] at h ⊢
  obtain ⟨last, hlast, h⟩ := h
  exact ⟨last, hlast.trans hleft, h⟩

/-- Stars alone take nothing. -/
theorem glob_text_nil : Glob star fits pattern [] ↔ pattern.all star = true := by
  induction pattern with
  | nil => simp [glob_nil]
  | cons p pattern ih =>
    cases hp : star p with
    | true => simp [glob_cons_star hp, ih, hp]
    | false => simp [glob_cons_one hp, hp]

/-- A pattern is matched with the images of the letters. -/
theorem glob_map (f : β → α) {letters : List β} :
    Glob star fits pattern (letters.map f) ↔ Glob star (fun p c => fits p (f c)) pattern letters := by
  induction pattern generalizing letters with
  | nil => simp [glob_nil]
  | cons p pattern ih =>
    cases hp : star p with
    | true =>
      rw [glob_cons_star hp, glob_cons_star hp]
      constructor
      · rintro ⟨left, hleft, h⟩
        obtain ⟨u, hu⟩ := hleft
        obtain ⟨before, after, rfl, -, rfl⟩ := List.append_eq_map_iff.mp hu
        exact ⟨after, List.suffix_append _ _, ih.mp h⟩
      · rintro ⟨left, hleft, h⟩
        exact ⟨left.map f, hleft.map f, ih.mpr h⟩
    | false =>
      rw [glob_cons_one hp, glob_cons_one hp]
      constructor
      · rintro ⟨c, left, hletters, hfits, h⟩
        obtain ⟨b, letters, rfl, rfl, rfl⟩ := List.map_eq_cons_iff.mp hletters
        exact ⟨b, letters, rfl, hfits, ih.mp h⟩
      · rintro ⟨b, left, rfl, hfits, h⟩
        exact ⟨f b, left.map f, rfl, hfits, ih.mpr h⟩
