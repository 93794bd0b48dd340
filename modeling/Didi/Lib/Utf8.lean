import Mathlib.Data.List.Basic
import Mathlib.Data.UInt

/-!
# Well-formed UTF-8

A byte sequence read from the left. Between characters nothing is owed; after a leading byte the ranges the next bytes
must lie in.

* `WellFormed` : every character is complete at the end;
* `wellFormed_append_ascii`, `wellFormed_ascii_append` : ASCII text around does not change it;
* `wellFormed_flatMap` : nor does writing ASCII text for ASCII bytes inside;
* `wellFormed_cons` : a text is its first character and a text, and `character` is how long that character is;
* `wellFormed_of_lead` : a text ends where a byte that continues no character follows;
* `WellFormed.characters` : a text is its characters, as many as it has bytes that continue none.
-/

namespace Utf8

/-- The range a continuation byte must lie in. -/
structure Tail where
  low : UInt8
  high : UInt8
  continues : 0x80 ≤ low

def anyTail : Tail := ⟨0x80, 0xBF, by decide⟩

/-- What the leading byte of a character leaves to be read. -/
def lead (b : UInt8) : Option (List Tail) :=
  if b < 0x80 then some []
  else if 0xC2 ≤ b ∧ b ≤ 0xDF then some [anyTail]
  else if b = 0xE0 then some [⟨0xA0, 0xBF, by decide⟩, anyTail]
  else if b = 0xED then some [⟨0x80, 0x9F, by decide⟩, anyTail]
  else if 0xE1 ≤ b ∧ b ≤ 0xEF then some [anyTail, anyTail]
  else if b = 0xF0 then some [⟨0x90, 0xBF, by decide⟩, anyTail, anyTail]
  else if 0xF1 ≤ b ∧ b ≤ 0xF3 then some [anyTail, anyTail, anyTail]
  else if b = 0xF4 then some [⟨0x80, 0x8F, by decide⟩, anyTail, anyTail]
  else none

def step (owed : List Tail) (b : UInt8) : Option (List Tail) :=
  match owed with
  | [] => lead b
  | t :: rest => if t.low ≤ b ∧ b ≤ t.high then some rest else none

def read (owed : List Tail) (bytes : List UInt8) : Option (List Tail) := bytes.foldlM step owed

def WellFormed (bytes : List UInt8) : Prop := (read [] bytes).map List.isEmpty = some true

instance (bytes : List UInt8) : Decidable (WellFormed bytes) := inferInstanceAs (Decidable (_ = _))

def Ascii (bytes : List UInt8) : Prop := ∀ b ∈ bytes, b < 0x80

instance (bytes : List UInt8) : Decidable (Ascii bytes) := List.decidableBAll (· < 0x80) bytes

variable {owed : List Tail} {b : UInt8} {s t : List UInt8}

theorem read_cons : read owed (b :: s) = (step owed b).bind (read · s) := by
  rw [read, List.foldlM_cons]
  rfl

theorem read_append : read owed (s ++ t) = (read owed s).bind (read · t) := by
  rw [read, List.foldlM_append]
  rfl

/-- An ASCII byte is a character of its own, and comes inside no other. -/
theorem step_ascii (hb : b < 0x80) : step owed b = if owed = [] then some [] else none := by
  cases owed with
  | nil => simp [step, lead, hb]
  | cons t rest =>
    have hlow : ¬ t.low ≤ b := by
      intro h
      exact absurd (UInt8.lt_of_le_of_lt (UInt8.le_trans t.continues h) hb) (by decide)
    simp [step, hlow]

theorem read_ascii (hs : Ascii s) : read [] s = some [] := by
  induction s with
  | nil => rfl
  | cons b s ih =>
    rw [read_cons, step_ascii (hs b List.mem_cons_self), if_pos rfl]
    exact ih fun c hc => hs c (List.mem_cons_of_mem _ hc)

theorem wellFormed_iff : WellFormed s ↔ read [] s = some [] := by
  rw [WellFormed]
  cases h : read [] s with
  | none => simp
  | some owed => simp

theorem wellFormed_ascii_append (hs : Ascii s) : WellFormed (s ++ t) ↔ WellFormed t := by
  rw [wellFormed_iff, wellFormed_iff, read_append, read_ascii hs]
  rfl

/-- ASCII text ends no character that is still open. -/
theorem read_eq_nil_of_append (ht : Ascii t) (h : read owed t = some []) : owed = [] := by
  cases t with
  | nil => simpa [read] using h
  | cons b t =>
    rw [read_cons, step_ascii (ht b List.mem_cons_self)] at h
    by_contra howed
    simp [howed] at h

theorem wellFormed_append_ascii (ht : Ascii t) : WellFormed (s ++ t) ↔ WellFormed s := by
  rw [wellFormed_iff, wellFormed_iff, read_append]
  constructor
  · intro h
    obtain ⟨owed, hs, h⟩ := Option.bind_eq_some_iff.mp h
    rw [hs, read_eq_nil_of_append ht h]
  · intro h
    rw [h]
    exact read_ascii ht

/-- ASCII text in place of an ASCII byte leaves the reading where the byte does. -/
theorem read_eq_step (hb : b < 0x80) (ht : Ascii t) (hne : t ≠ []) : read owed t = step owed b := by
  rw [step_ascii hb]
  by_cases howed : owed = []
  · rw [howed, if_pos rfl, read_ascii ht]
  · obtain ⟨c, t, rfl⟩ := List.exists_cons_of_ne_nil hne
    rw [if_neg howed, read_cons, step_ascii (ht c List.mem_cons_self), if_neg howed]
    rfl

variable {f : UInt8 → List UInt8}

theorem read_flatMap (hf : ∀ b, f b = [b] ∨ b < 0x80 ∧ Ascii (f b) ∧ f b ≠ []) :
    read owed (s.flatMap f) = read owed s := by
  induction s generalizing owed with
  | nil => rfl
  | cons b s ih =>
    have hhead : read owed (f b) = step owed b := by
      rcases hf b with h | ⟨hb, ht, hne⟩
      · rw [h, read_cons]
        cases step owed b <;> rfl
      · exact read_eq_step hb ht hne
    rw [List.flatMap_cons, read_append, hhead, read_cons]
    congr 1
    funext owed
    exact ih

theorem wellFormed_flatMap (hf : ∀ b, f b = [b] ∨ b < 0x80 ∧ Ascii (f b) ∧ f b ≠ []) :
    WellFormed (s.flatMap f) ↔ WellFormed s := by
  rw [wellFormed_iff, wellFormed_iff, read_flatMap hf]

/-! ## The first character -/

/-- The bytes that are owed stand in front. -/
def fits : List Tail → List UInt8 → Bool
  | [], _ => true
  | _ :: _, [] => false
  | t :: owed, b :: bytes => t.low ≤ b && b ≤ t.high && fits owed bytes

/-- How many bytes continue the character that `b` leads, if there is one. -/
def character (b : UInt8) (bytes : List UInt8) : Option Nat :=
  (lead b).bind fun owed => if fits owed bytes then some owed.length else none

theorem read_eq_nil_iff : read owed s = some [] ↔ fits owed s = true ∧ WellFormed (s.drop owed.length) := by
  induction owed generalizing s with
  | nil => simp [fits, wellFormed_iff]
  | cons t owed ih =>
    cases s with
    | nil => simp [read, fits]
    | cons b s =>
      rw [read_cons, step, fits, List.length_cons, List.drop_succ_cons]
      by_cases hb : t.low ≤ b ∧ b ≤ t.high
      · rw [if_pos hb, Option.bind_some, ih]
        simp [hb]
      · rw [if_neg hb]
        simp only [Option.bind_none, reduceCtorEq, Bool.and_eq_true, decide_eq_true_eq, false_iff]
        rintro ⟨⟨h, -⟩, -⟩
        exact hb h

theorem fits_length (h : fits owed s = true) : owed.length ≤ s.length := by
  induction owed generalizing s with
  | nil => simp
  | cons t owed ih =>
    cases s with
    | nil => simp [fits] at h
    | cons b s =>
      rw [fits, Bool.and_eq_true] at h
      simpa using ih h.2

theorem fits_append (h : owed.length ≤ s.length) : fits owed (s ++ t) = fits owed s := by
  induction owed generalizing s with
  | nil => rfl
  | cons r owed ih =>
    cases s with
    | nil => simp at h
    | cons b s =>
      rw [List.cons_append, fits, fits, ih (by simpa using h)]

theorem wellFormed_cons : WellFormed (b :: s) ↔ ∃ n, character b s = some n ∧ WellFormed (s.drop n) := by
  rw [wellFormed_iff, read_cons, step, character]
  cases h : lead b with
  | none => simp
  | some owed =>
    rw [Option.bind_some, read_eq_nil_iff]
    by_cases hfits : fits owed s = true <;> simp [hfits]

theorem wellFormed_append (hs : WellFormed s) : WellFormed (s ++ t) ↔ WellFormed t := by
  rw [wellFormed_iff, wellFormed_iff, read_append, wellFormed_iff.mp hs, Option.bind_some]

theorem character_length {n : Nat} (h : character b s = some n) : n ≤ s.length := by
  obtain ⟨owed, -, h⟩ := Option.bind_eq_some_iff.mp h
  split_ifs at h with hfits
  cases h
  exact fits_length hfits

/-- A character does not depend on what follows it. -/
theorem character_take {n : Nat} (h : character b s = some n) : character b (s.take n) = some n := by
  obtain ⟨owed, hlead, h⟩ := Option.bind_eq_some_iff.mp h
  split_ifs at h with hfits
  cases h
  rw [character, hlead, Option.bind_some, if_pos]
  have hlength := fits_length hfits
  rw [← List.take_append_drop owed.length s, fits_append (by simp [hlength])] at hfits
  exact hfits

theorem wellFormed_character {n : Nat} (h : character b s = some n) : WellFormed (b :: s.take n) := by
  refine wellFormed_cons.mpr ⟨n, character_take h, ?_⟩
  rw [List.drop_eq_nil_of_le (List.length_take_le n s)]
  exact wellFormed_iff.mpr rfl

/-! ## The characters -/

/-- A byte that comes inside a character. -/
def continues (b : UInt8) : Bool := 0x80 ≤ b && b ≤ 0xBF

theorem lead_tails (h : lead b = some owed) : continues b = false ∧ ∀ t ∈ owed, t.high ≤ 0xBF := by
  revert owed
  have hall : ∀ n < 256, ((lead (UInt8.ofNat n)).elim true fun owed =>
      !continues (UInt8.ofNat n) && owed.all fun t => t.high ≤ 0xBF) = true := by decide +kernel
  intro owed h
  have hb := hall b.toNat b.toNat_lt
  rw [UInt8.ofNat_toNat, h, Option.elim_some, Bool.and_eq_true, Bool.not_eq_true', List.all_eq_true] at hb
  exact ⟨hb.1, fun t ht => by simpa using hb.2 t ht⟩

theorem continues_of_mem {t : Tail} (ht : t.high ≤ 0xBF) (h : t.low ≤ b ∧ b ≤ t.high) : continues b = true := by
  rw [continues, Bool.and_eq_true, decide_eq_true_iff, decide_eq_true_iff]
  exact ⟨UInt8.le_trans t.continues h.1, UInt8.le_trans h.2 ht⟩

theorem read_tails {owed' : List Tail} (howed : ∀ t ∈ owed, t.high ≤ 0xBF) (h : read owed s = some owed') :
    ∀ t ∈ owed', t.high ≤ 0xBF := by
  induction s generalizing owed with
  | nil =>
    cases h
    exact howed
  | cons b s ih =>
    rw [read_cons] at h
    obtain ⟨next, hstep, h⟩ := Option.bind_eq_some_iff.mp h
    refine ih ?_ h
    cases owed with
    | nil => exact (lead_tails hstep).2
    | cons t owed =>
      rw [step] at hstep
      split_ifs at hstep
      cases hstep
      exact fun r hr => howed r (List.mem_cons_of_mem _ hr)

/-- A text ends in front of a byte that continues no character. -/
theorem wellFormed_of_lead (hb : continues b = false) (h : WellFormed (s ++ b :: t)) : WellFormed s := by
  rw [wellFormed_iff, read_append] at h
  obtain ⟨owed, hs, h⟩ := Option.bind_eq_some_iff.mp h
  rw [wellFormed_iff, hs]
  cases owed with
  | nil => rfl
  | cons r owed =>
    rw [read_cons, step] at h
    split_ifs at h with hr
    · rw [continues_of_mem (read_tails (List.forall_mem_nil _) hs r List.mem_cons_self) hr] at hb
      cases hb
    · cases h

/-- The bytes are one character. -/
def IsCharacter (bytes : List UInt8) : Prop := ∃ b rest, bytes = b :: rest ∧ character b rest = some rest.length

theorem continues_of_fits (howed : ∀ t ∈ owed, t.high ≤ 0xBF) (h : fits owed s = true) :
    ∀ c ∈ s.take owed.length, continues c = true := by
  induction owed generalizing s with
  | nil => simp
  | cons t owed ih =>
    cases s with
    | nil => simp
    | cons b s =>
      rw [fits, Bool.and_eq_true, Bool.and_eq_true, decide_eq_true_iff, decide_eq_true_iff] at h
      rw [List.length_cons, List.take_succ_cons]
      intro c hc
      rcases List.mem_cons.mp hc with rfl | hc
      · exact continues_of_mem (howed t List.mem_cons_self) h.1
      · exact ih (fun r hr => howed r (List.mem_cons_of_mem _ hr)) h.2 c hc

/-- The first byte of a character continues none, and the others do. -/
theorem character_continues {n : Nat} (h : character b s = some n) :
    continues b = false ∧ ∀ c ∈ s.take n, continues c = true := by
  obtain ⟨owed, hlead, h⟩ := Option.bind_eq_some_iff.mp h
  split_ifs at h with hfits
  cases h
  obtain ⟨hb, howed⟩ := lead_tails hlead
  exact ⟨hb, continues_of_fits howed hfits⟩

/-- A text is its characters. -/
theorem WellFormed.characters : ∀ {s : List UInt8}, WellFormed s → ∃ characters : List (List UInt8),
    (∀ c ∈ characters, IsCharacter c) ∧ characters.flatten = s ∧ characters.length = s.countP fun b => !continues b
  | [], _ => ⟨[], List.forall_mem_nil _, rfl, rfl⟩
  | b :: s, h => by
    obtain ⟨n, hn, hrest⟩ := wellFormed_cons.mp h
    obtain ⟨characters, hall, hflatten, hlength⟩ := WellFormed.characters hrest
    obtain ⟨hb, htail⟩ := character_continues hn
    refine ⟨(b :: s.take n) :: characters, ?_, ?_, ?_⟩
    · intro c hc
      rcases List.mem_cons.mp hc with rfl | hc
      · exact ⟨b, s.take n, rfl, by rw [character_take hn, List.length_take, min_eq_left (character_length hn)]⟩
      · exact hall c hc
    · rw [List.flatten_cons, hflatten, List.cons_append, List.take_append_drop]
    · have hzero : (s.take n).countP (fun b => !continues b) = 0 := by
        rw [List.countP_eq_zero]
        intro c hc
        simp [htail c hc]
      conv_rhs => rw [← List.take_append_drop n s]
      rw [List.countP_cons, List.countP_append, hzero, List.length_cons, hlength, Nat.zero_add, hb]
      rfl
termination_by s => s.length
decreasing_by simp only [List.length_drop, List.length_cons]; omega

end Utf8
