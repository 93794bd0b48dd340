import Didi.Lib.Utf8

/-!
# The readers of UTF-8

* `isDecodableUtf8`, `isValidUtf8Text`, `isValidUtf8` : three loops over the characters of a text, each with its own body;
* `lossyUtf8` : the text with a replacement for every byte that is not part of a character;
* `everyCharacter_iff` : a loop whose body finds the first character of a text decides `Utf8.WellFormed`;
* `decodableCharacter_eq`, `textCharacter_eq`, `policyCharacter_eq` : the three bodies do;
* `wellFormed_lossyUtf8`, `lossyUtf8_eq_self_iff` : the repair;
* `one_notion` : one notion of well-formed UTF-8.

A text is its bytes. The body of a loop is given the byte at the index and the bytes behind it; it answers how many of
these belong to the character, or leaves with `false`.
-/

namespace Didi.Validators
open Utf8

/-! ## The loops -/

/-- `while (index < size)`. -/
def everyCharacter (body : UInt8 → List UInt8 → Option Nat) : List UInt8 → Bool
  | [] => true
  | lead :: rest =>
    match body lead rest with
    | none => false
    | some n => everyCharacter body (rest.drop n)
termination_by text => text.length
decreasing_by all_goals (simp_wf; try omega)

/-- The code point with the bits of one continuation byte more. -/
def accumulate (codePoint : Nat) (continuation : UInt8) : Option Nat :=
  if continuation &&& 0xC0 = 0x80 then some (codePoint <<< 6 ||| (continuation &&& 0x3F).toNat) else none

/-- The length of a character by its first byte, and the bits of it that the byte holds. -/
def leadBits (lead : UInt8) : Option (Nat × Nat) :=
  if lead &&& 0xE0 = 0xC0 then some (2, (lead &&& 0x1F).toNat)
  else if lead &&& 0xF0 = 0xE0 then some (3, (lead &&& 0x0F).toNat)
  else if lead &&& 0xF8 = 0xF0 then some (4, (lead &&& 0x07).toNat)
  else none

def isSurrogate (codePoint : Nat) : Bool := 0xD800 ≤ codePoint && codePoint ≤ 0xDFFF

/-- The body of `isDecodableUtf8`. -/
def decodableCharacter (lead : UInt8) (rest : List UInt8) : Option Nat :=
  if lead < 0x80 then some 0
  else do
    let (length, bits) ← leadBits lead
    if rest.length + 1 < length then none
    else
      let codePoint ← (rest.take (length - 1)).foldlM accumulate bits
      if (length = 2 && codePoint < 0x80) || (length = 3 && codePoint < 0x800) || (length = 4 && codePoint < 0x10000) ||
          0x10FFFF < codePoint || isSurrogate codePoint then none
      else some (length - 1)

def isDecodableUtf8 (value : List UInt8) : Bool := everyCharacter decodableCharacter value

/-- The number of continuation bytes by the first byte, and the bits of the code point that it holds. -/
def continuationCount (first : UInt8) : Option (Nat × Nat) :=
  if first &&& 0xE0 = 0xC0 then
    -- a lead that can only begin an overlong form
    if (first &&& 0x1F).toNat < 2 then none else some (1, (first &&& 0x1F).toNat)
  else if first &&& 0xF0 = 0xE0 then some (2, (first &&& 0x0F).toNat)
  else if first &&& 0xF8 = 0xF0 then some (3, (first &&& 0x07).toNat)
  else none

/-- The body of `isValidUtf8Text`. -/
def textCharacter (first : UInt8) (rest : List UInt8) : Option Nat :=
  if first = 0 then none
  else if first < 0x80 then some 0
  else do
    let (count, bits) ← continuationCount first
    if rest.length < count then none
    else
      let codepoint ← (rest.take count).foldlM accumulate bits
      if (count = 2 && codepoint < 0x800) || (count = 3 && codepoint < 0x10000) || 0x10FFFF < codepoint ||
          isSurrogate codepoint then none
      else some count

def isValidUtf8Text (value : List UInt8) : Bool := everyCharacter textCharacter value

def isContinuation (byte : UInt8) : Bool := byte &&& 0xC0 = 0x80

/-- The body of `isValidUtf8`. -/
def policyCharacter (first : UInt8) (rest : List UInt8) : Option Nat :=
  if first ≤ 0x7F then some 0
  else if 0xC2 ≤ first && first ≤ 0xDF then
    match rest with
    | second :: _ => if !isContinuation second then none else some 1
    | _ => none
  else if 0xE0 ≤ first && first ≤ 0xEF then
    match rest with
    | second :: third :: _ =>
      if !isContinuation second || !isContinuation third || (first = 0xE0 && second < 0xA0) ||
          (first = 0xED && 0xA0 ≤ second) then none
      else some 2
    | _ => none
  else if 0xF0 ≤ first && first ≤ 0xF4 then
    match rest with
    | second :: third :: fourth :: _ =>
      if !isContinuation second || !isContinuation third || !isContinuation fourth || (first = 0xF0 && second < 0x90) ||
          (first = 0xF4 && 0x90 ≤ second) then none
      else some 3
    | _ => none
  else none

def isValidUtf8 (text : List UInt8) : Bool := everyCharacter policyCharacter text

/-! ## The repair -/

/-- U+FFFD. -/
def replacement : List UInt8 := [0xEF, 0xBF, 0xBD]

/-- The length that the first byte of a character announces, zero for a byte that is none. -/
def announcedLength (lead : UInt8) : Nat :=
  if 0x80 ≤ lead then
    if lead &&& 0xE0 = 0xC0 then 2 else if lead &&& 0xF0 = 0xE0 then 3 else if lead &&& 0xF8 = 0xF0 then 4 else 0
  else 1

def lossyUtf8 (value : List UInt8) : List UInt8 :=
  match value with
  | [] => []
  | lead :: rest =>
    let length := announcedLength lead
    if length ≠ 0 && length ≤ (lead :: rest).length && isDecodableUtf8 ((lead :: rest).take length) then
      lead :: rest.take (length - 1) ++ lossyUtf8 (rest.drop (length - 1))
    else replacement ++ lossyUtf8 rest
termination_by value.length
decreasing_by all_goals (simp_wf; try omega)

/-! ## What a byte is -/

variable {lead : UInt8} {rest value : List UInt8}

theorem byte_forall {p : UInt8 → Prop} (h : ∀ n < 256, p (UInt8.ofNat n)) (b : UInt8) : p b := by
  have := h b.toNat b.toNat_lt
  rwa [UInt8.ofNat_toNat] at this

theorem two_iff (b : UInt8) : b &&& 0xE0 = 0xC0 ↔ 0xC0 ≤ b.toNat ∧ b.toNat < 0xE0 :=
  byte_forall (p := fun b => b &&& 0xE0 = 0xC0 ↔ 0xC0 ≤ b.toNat ∧ b.toNat < 0xE0) (by decide +kernel) b

theorem three_iff (b : UInt8) : b &&& 0xF0 = 0xE0 ↔ 0xE0 ≤ b.toNat ∧ b.toNat < 0xF0 :=
  byte_forall (p := fun b => b &&& 0xF0 = 0xE0 ↔ 0xE0 ≤ b.toNat ∧ b.toNat < 0xF0) (by decide +kernel) b

theorem four_iff (b : UInt8) : b &&& 0xF8 = 0xF0 ↔ 0xF0 ≤ b.toNat ∧ b.toNat < 0xF8 :=
  byte_forall (p := fun b => b &&& 0xF8 = 0xF0 ↔ 0xF0 ≤ b.toNat ∧ b.toNat < 0xF8) (by decide +kernel) b

def IsTail (b : UInt8) : Prop := 0x80 ≤ b.toNat ∧ b.toNat < 0xC0

instance (b : UInt8) : Decidable (IsTail b) := inferInstanceAs (Decidable (_ ∧ _))

theorem continuation_iff (b : UInt8) : b &&& 0xC0 = 0x80 ↔ IsTail b :=
  byte_forall (p := fun b => b &&& 0xC0 = 0x80 ↔ IsTail b) (by decide +kernel) b

theorem low_bits (b : UInt8) (k : Nat) (m : UInt8) (hm : m.toNat = 2 ^ k - 1) : (b &&& m).toNat = b.toNat % 2 ^ k := by
  rw [UInt8.toNat_and, hm, Nat.and_two_pow_sub_one_eq_mod]

theorem accumulate_eq (codePoint : Nat) (b : UInt8) :
    accumulate codePoint b = if IsTail b then some (codePoint * 64 + b.toNat % 64) else none := by
  rw [accumulate]
  have h : codePoint <<< 6 ||| (b &&& 0x3F).toNat = codePoint * 64 + b.toNat % 64 := by
    rw [low_bits b 6 0x3F rfl, ← Nat.shiftLeft_add_eq_or_of_lt (Nat.mod_lt _ (by decide)), Nat.shiftLeft_eq]
  rw [h]
  simp only [continuation_iff]

/-! ### The characters by their first byte -/

theorem character_one (h : lead.toNat < 0x80) : character lead rest = some 0 := by
  rw [character, Utf8.lead, if_pos (UInt8.lt_iff_toNat_lt.mpr h)]
  rfl

theorem lead_eq (b : UInt8) : Utf8.lead b =
    if b.toNat < 0x80 then some []
    else if 0xC2 ≤ b.toNat ∧ b.toNat ≤ 0xDF then some [anyTail]
    else if b.toNat = 0xE0 then some [⟨0xA0, 0xBF, by decide⟩, anyTail]
    else if b.toNat = 0xED then some [⟨0x80, 0x9F, by decide⟩, anyTail]
    else if 0xE1 ≤ b.toNat ∧ b.toNat ≤ 0xEF then some [anyTail, anyTail]
    else if b.toNat = 0xF0 then some [⟨0x90, 0xBF, by decide⟩, anyTail, anyTail]
    else if 0xF1 ≤ b.toNat ∧ b.toNat ≤ 0xF3 then some [anyTail, anyTail, anyTail]
    else if b.toNat = 0xF4 then some [⟨0x80, 0x8F, by decide⟩, anyTail, anyTail]
    else none := by
  simp only [Utf8.lead, UInt8.lt_iff_toNat_lt, UInt8.le_iff_toNat_le, ← UInt8.toNat_inj]
  rfl

theorem fits_cons_iff {t : Tail} {owed : List Tail} {b : UInt8} {bytes : List UInt8} :
    fits (t :: owed) (b :: bytes) = true ↔ (t.low.toNat ≤ b.toNat ∧ b.toNat ≤ t.high.toNat) ∧ fits owed bytes = true := by
  rw [fits, Bool.and_eq_true, Bool.and_eq_true, decide_eq_true_eq, decide_eq_true_eq, UInt8.le_iff_toNat_le,
    UInt8.le_iff_toNat_le]

theorem fits_nil {bytes : List UInt8} : fits [] bytes = true := rfl

theorem character_two (h : 0xC0 ≤ lead.toNat) (h' : lead.toNat < 0xE0) : character lead rest =
    match rest with
    | b :: _ => if 0xC2 ≤ lead.toNat ∧ IsTail b then some 1 else none
    | _ => none := by
  rw [character, lead_eq, if_neg (by omega)]
  by_cases hlow : 0xC2 ≤ lead.toNat
  · rw [if_pos ⟨hlow, by omega⟩]
    rcases rest with _ | ⟨b, rest⟩
    · rfl
    · refine if_congr ?_ rfl rfl
      simp only [fits_cons_iff, fits_nil, anyTail, IsTail, UInt8.reduceToNat, and_true]
      omega
  · rw [if_neg (by omega), if_neg (by omega), if_neg (by omega), if_neg (by omega), if_neg (by omega), if_neg (by omega),
      if_neg (by omega)]
    rcases rest with _ | ⟨b, rest⟩
    · rfl
    · simp [hlow]

theorem character_three (h : 0xE0 ≤ lead.toNat) (h' : lead.toNat < 0xF0) : character lead rest =
    match rest with
    | b :: c :: _ =>
      if IsTail b ∧ IsTail c ∧ (lead.toNat = 0xE0 → 0xA0 ≤ b.toNat) ∧ (lead.toNat = 0xED → b.toNat < 0xA0) then some 2
      else none
    | _ => none := by
  rw [character, lead_eq, if_neg (by omega), if_neg (by omega)]
  split_ifs with h1 h2 h3 h4 h5 h6
  case pos | pos | pos =>
    rcases rest with _ | ⟨b, _ | ⟨c, rest⟩⟩
    · rfl
    · simp [fits]
    · refine if_congr ?_ rfl rfl
      simp only [fits_cons_iff, fits_nil, anyTail, IsTail, UInt8.reduceToNat, and_true]
      omega
  all_goals omega

theorem character_four (h : 0xF0 ≤ lead.toNat) (h' : lead.toNat < 0xF8) : character lead rest =
    match rest with
    | b :: c :: d :: _ =>
      if IsTail b ∧ IsTail c ∧ IsTail d ∧ lead.toNat < 0xF5 ∧ (lead.toNat = 0xF0 → 0x90 ≤ b.toNat) ∧
          (lead.toNat = 0xF4 → b.toNat < 0x90) then some 3
      else none
    | _ => none := by
  rw [character, lead_eq, if_neg (by omega), if_neg (by omega), if_neg (by omega), if_neg (by omega), if_neg (by omega)]
  split_ifs with h1 h2 h3
  case neg =>
    rcases rest with _ | ⟨b, _ | ⟨c, _ | ⟨d, rest⟩⟩⟩ <;> first | rfl | exact (if_neg (by omega)).symm
  all_goals
    rcases rest with _ | ⟨b, _ | ⟨c, _ | ⟨d, rest⟩⟩⟩
    · rfl
    · simp [fits]
    · simp [fits]
    · refine if_congr ?_ rfl rfl
      simp only [fits_cons_iff, fits_nil, anyTail, IsTail, UInt8.reduceToNat, and_true]
      omega

theorem character_none (h : 0x80 ≤ lead.toNat) (h' : lead.toNat < 0xC0 ∨ 0xF8 ≤ lead.toNat) :
    character lead rest = none := by
  rw [character, lead_eq]
  repeat rw [if_neg (by omega)]
  rfl

theorem classes (b : UInt8) : b.toNat < 0x80 ∨ (0x80 ≤ b.toNat ∧ (b.toNat < 0xC0 ∨ 0xF8 ≤ b.toNat)) ∨
    (0xC0 ≤ b.toNat ∧ b.toNat < 0xE0) ∨ (0xE0 ≤ b.toNat ∧ b.toNat < 0xF0) ∨ (0xF0 ≤ b.toNat ∧ b.toNat < 0xF8) := by
  omega

theorem refuses_iff {p q : Prop} [Decidable p] [Decidable q] {n : Nat} (h : p ↔ ¬ q) :
    (if p then none else some n) = if q then some n else none := by
  by_cases hq : q <;> simp [h, hq]

theorem folds_iff {p q : Prop} [Decidable p] [Decidable q] {codePoint n : Nat} {bad : Nat → Prop} [DecidablePred bad]
    (h : p ∧ ¬ bad codePoint ↔ q) :
    ((if p then some codePoint else none).bind fun c => if bad c then none else some n) =
      if q then some n else none := by
  by_cases hp : p
  · rw [if_pos hp, Option.bind_some]
    refine refuses_iff ?_
    rw [← h]
    simp [hp]
  · have hq : ¬ q := fun hq => hp (h.mpr hq).1
    rw [if_neg hp, if_neg hq]
    rfl

theorem accumulate_bind (codePoint : Nat) (b : UInt8) (f : Nat → Option Nat) :
    (accumulate codePoint b).bind f = if IsTail b then f (codePoint * 64 + b.toNat % 64) else none := by
  rw [accumulate_eq]
  split_ifs <;> rfl

variable {b c d : UInt8} {bits : Nat}

theorem accumulate_one : [b].foldlM accumulate bits = if IsTail b then some (bits * 64 + b.toNat % 64) else none := by
  rw [List.foldlM_cons, Option.bind_eq_bind, accumulate_bind]
  rfl

theorem accumulate_two : [b, c].foldlM accumulate bits =
    if IsTail b ∧ IsTail c then some ((bits * 64 + b.toNat % 64) * 64 + c.toNat % 64) else none := by
  rw [List.foldlM_cons, Option.bind_eq_bind, accumulate_bind, accumulate_one, ite_and]

theorem accumulate_three : [b, c, d].foldlM accumulate bits =
    if IsTail b ∧ IsTail c ∧ IsTail d then
      some (((bits * 64 + b.toNat % 64) * 64 + c.toNat % 64) * 64 + d.toNat % 64)
    else none := by
  rw [List.foldlM_cons, Option.bind_eq_bind, accumulate_bind, accumulate_two, ite_and (IsTail b)]

theorem policyCharacter_eq : policyCharacter lead rest = character lead rest := by
  simp only [policyCharacter, isContinuation, continuation_iff, IsTail]
  simp only [UInt8.le_iff_toNat_le, UInt8.lt_iff_toNat_lt, ← UInt8.toNat_inj, UInt8.reduceToNat,
    Bool.and_eq_true, Bool.or_eq_true, Bool.not_eq_true', decide_eq_true_eq, decide_eq_false_iff_not]
  rcases classes lead with h | ⟨h, h'⟩ | ⟨h, h'⟩ | ⟨h, h'⟩ | ⟨h, h'⟩
  · rw [character_one h, if_pos (by omega)]
  · rw [character_none h h', if_neg (by omega), if_neg (by omega), if_neg (by omega), if_neg (by omega)]
  · rw [character_two h h', if_neg (by omega)]
    by_cases hlow : 0xC2 ≤ lead.toNat
    · rw [if_pos (by omega)]
      rcases rest with _ | ⟨b, rest⟩
      · rfl
      · refine refuses_iff ?_
        rw [IsTail]
        omega
    · rw [if_neg (by omega), if_neg (by omega), if_neg (by omega)]
      rcases rest with _ | ⟨b, rest⟩
      · rfl
      · exact (if_neg (by omega)).symm
  · rw [character_three h h', if_neg (by omega), if_neg (by omega), if_pos (by omega)]
    rcases rest with _ | ⟨b, _ | ⟨c, rest⟩⟩
    · rfl
    · rfl
    · refine refuses_iff ?_
      rw [IsTail, IsTail]
      omega
  · rw [character_four h h', if_neg (by omega), if_neg (by omega), if_neg (by omega)]
    by_cases hhigh : lead.toNat < 0xF5
    · rw [if_pos (by omega)]
      rcases rest with _ | ⟨b, _ | ⟨c, _ | ⟨d, rest⟩⟩⟩
      · rfl
      · rfl
      · rfl
      · refine refuses_iff ?_
        rw [IsTail, IsTail, IsTail]
        omega
    · rw [if_neg (by omega)]
      rcases rest with _ | ⟨b, _ | ⟨c, _ | ⟨d, rest⟩⟩⟩ <;> first | rfl | exact (if_neg (by omega)).symm

theorem decodableCharacter_eq : decodableCharacter lead rest = character lead rest := by
  simp only [decodableCharacter, leadBits, low_bits lead 5 0x1F rfl, low_bits lead 4 0x0F rfl,
    low_bits lead 3 0x07 rfl, two_iff, three_iff, four_iff, UInt8.lt_iff_toNat_lt, UInt8.reduceToNat]
  rcases classes lead with h | ⟨h, h'⟩ | ⟨h, h'⟩ | ⟨h, h'⟩ | ⟨h, h'⟩
  · rw [character_one h, if_pos h]
  · rw [character_none h h', if_neg (by omega), if_neg (by omega), if_neg (by omega), if_neg (by omega)]
    rfl
  · rw [character_two h h', if_neg (by omega), if_pos ⟨h, h'⟩, Option.bind_eq_bind, Option.bind_some]
    rcases rest with _ | ⟨b, rest⟩
    · rfl
    · rw [if_neg (by simp)]
      change ([b].foldlM accumulate _).bind _ = _
      rw [accumulate_one]
      refine folds_iff ?_
      simp [isSurrogate, IsTail]
      omega
  · rw [character_three h h', if_neg (by omega), if_neg (by omega), if_pos ⟨h, h'⟩, Option.bind_eq_bind, Option.bind_some]
    rcases rest with _ | ⟨b, _ | ⟨c, rest⟩⟩
    · rfl
    · rfl
    · rw [if_neg (by simp)]
      change ([b, c].foldlM accumulate _).bind _ = _
      rw [accumulate_two]
      refine folds_iff ?_
      simp [isSurrogate, IsTail]
      omega
  · rw [character_four h h', if_neg (by omega), if_neg (by omega), if_neg (by omega), if_pos ⟨h, h'⟩,
      Option.bind_eq_bind, Option.bind_some]
    rcases rest with _ | ⟨b, _ | ⟨c, _ | ⟨d, rest⟩⟩⟩
    · rfl
    · rfl
    · rfl
    · rw [if_neg (by simp)]
      change ([b, c, d].foldlM accumulate _).bind _ = _
      rw [accumulate_three]
      refine folds_iff ?_
      simp [isSurrogate, IsTail]
      omega

theorem textCharacter_eq (hlead : lead ≠ 0) : textCharacter lead rest = character lead rest := by
  simp only [textCharacter, continuationCount, hlead, if_false, low_bits lead 5 0x1F rfl, low_bits lead 4 0x0F rfl,
    low_bits lead 3 0x07 rfl, two_iff, three_iff, four_iff, UInt8.lt_iff_toNat_lt, UInt8.reduceToNat]
  rcases classes lead with h | ⟨h, h'⟩ | ⟨h, h'⟩ | ⟨h, h'⟩ | ⟨h, h'⟩
  · rw [character_one h, if_pos h]
  · rw [character_none h h', if_neg (by omega), if_neg (by omega), if_neg (by omega), if_neg (by omega)]
    rfl
  · rw [character_two h h', if_neg (by omega), if_pos ⟨h, h'⟩]
    by_cases hlow : 0xC2 ≤ lead.toNat
    · rw [if_neg (by omega), Option.bind_eq_bind, Option.bind_some]
      rcases rest with _ | ⟨b, rest⟩
      · rfl
      · rw [if_neg (by simp)]
        change ([b].foldlM accumulate _).bind _ = _
        rw [accumulate_one]
        refine folds_iff ?_
        simp [isSurrogate, IsTail]
        omega
    · rw [if_pos (by omega)]
      rcases rest with _ | ⟨b, rest⟩
      · rfl
      · exact (if_neg (by omega)).symm
  · rw [character_three h h', if_neg (by omega), if_neg (by omega), if_pos ⟨h, h'⟩, Option.bind_eq_bind, Option.bind_some]
    rcases rest with _ | ⟨b, _ | ⟨c, rest⟩⟩
    · rfl
    · rfl
    · rw [if_neg (by simp)]
      change ([b, c].foldlM accumulate _).bind _ = _
      rw [accumulate_two]
      refine folds_iff ?_
      simp [isSurrogate, IsTail]
      omega
  · rw [character_four h h', if_neg (by omega), if_neg (by omega), if_neg (by omega), if_pos ⟨h, h'⟩,
      Option.bind_eq_bind, Option.bind_some]
    rcases rest with _ | ⟨b, _ | ⟨c, _ | ⟨d, rest⟩⟩⟩
    · rfl
    · rfl
    · rfl
    · rw [if_neg (by simp)]
      change ([b, c, d].foldlM accumulate _).bind _ = _
      rw [accumulate_three]
      refine folds_iff ?_
      simp [isSurrogate, IsTail]
      omega

/-! ## One notion -/

theorem everyCharacter_cons (body : UInt8 → List UInt8 → Option Nat) (b : UInt8) (s : List UInt8) :
    everyCharacter body (b :: s) = true ↔ ∃ n, body b s = some n ∧ everyCharacter body (s.drop n) = true := by
  rw [everyCharacter]
  cases body b s <;> simp

/-- A loop whose body finds the characters of a text reads the text as it is. -/
theorem everyCharacter_iff {body : UInt8 → List UInt8 → Option Nat} {p : UInt8 → Prop}
    (hbody : ∀ b s, p b → body b s = character b s) : ∀ (text : List UInt8), (∀ b ∈ text, p b) →
    (everyCharacter body text = true ↔ WellFormed text)
  | [], _ => by
    rw [everyCharacter]
    exact iff_of_true rfl (wellFormed_iff.mpr rfl)
  | b :: s, htext => by
    rw [everyCharacter_cons, wellFormed_cons, hbody b s (htext b List.mem_cons_self)]
    refine exists_congr fun n => and_congr_right fun _ => ?_
    exact everyCharacter_iff hbody (s.drop n) fun c hc => htext c (List.mem_cons_of_mem b (List.mem_of_mem_drop hc))
termination_by text => text.length
decreasing_by all_goals (simp_wf; try omega)

theorem isDecodableUtf8_iff : isDecodableUtf8 value = true ↔ WellFormed value :=
  everyCharacter_iff (p := fun _ => True) (fun _ _ _ => decodableCharacter_eq) value fun _ _ => trivial

theorem isValidUtf8_iff : isValidUtf8 value = true ↔ WellFormed value :=
  everyCharacter_iff (p := fun _ => True) (fun _ _ _ => policyCharacter_eq) value fun _ _ => trivial

theorem isValidUtf8Text_iff (h : 0 ∉ value) : isValidUtf8Text value = true ↔ WellFormed value :=
  everyCharacter_iff (p := (· ≠ 0)) (fun _ _ hb => textCharacter_eq hb) value fun _ hb h0 => h (h0 ▸ hb)

/-- Text that is not taken for binary is well formed. -/
theorem wellFormed_of_isValidUtf8Text : ∀ {value : List UInt8}, isValidUtf8Text value = true → WellFormed value
  | [], _ => wellFormed_iff.mpr rfl
  | b :: s, h => by
    obtain ⟨n, hn, hrest⟩ := (everyCharacter_cons _ b s).mp h
    have hb : b ≠ 0 := by
      rintro rfl
      rw [textCharacter, if_pos rfl] at hn
      cases hn
    rw [textCharacter_eq hb] at hn
    exact wellFormed_cons.mpr ⟨n, hn, wellFormed_of_isValidUtf8Text hrest⟩
termination_by value => value.length
decreasing_by all_goals (simp_wf; try omega)

/-! ## What the repair keeps -/

theorem announcedLength_eq {n : Nat} (h : character lead rest = some n) : announcedLength lead = n + 1 := by
  have hlead := lead.toNat_lt
  rw [announcedLength]
  simp only [two_iff, three_iff, four_iff, UInt8.le_iff_toNat_le, UInt8.reduceToNat]
  rcases classes lead with h1 | ⟨h1, h2⟩ | ⟨h1, h2⟩ | ⟨h1, h2⟩ | ⟨h1, h2⟩
  · rw [character_one h1] at h
    cases h
    rw [if_neg (by omega)]
  · rw [character_none h1 h2] at h
    cases h
  · rw [character_two h1 h2] at h
    rw [if_pos (by omega), if_pos ⟨h1, h2⟩]
    split at h
    · split_ifs at h
      cases h
      rfl
    · cases h
  · rw [character_three h1 h2] at h
    rw [if_pos (by omega), if_neg (by omega), if_pos ⟨h1, h2⟩]
    split at h
    · split_ifs at h
      cases h
      rfl
    · cases h
  · rw [character_four h1 h2] at h
    rw [if_pos (by omega), if_neg (by omega), if_neg (by omega), if_pos ⟨h1, h2⟩]
    split at h
    · split_ifs at h
      cases h
      rfl
    · cases h

theorem lossyUtf8_cons : lossyUtf8 (lead :: rest) =
    let length := announcedLength lead
    if length ≠ 0 && length ≤ (lead :: rest).length && isDecodableUtf8 ((lead :: rest).take length) then
      lead :: rest.take (length - 1) ++ lossyUtf8 (rest.drop (length - 1))
    else replacement ++ lossyUtf8 rest := by
  rw [lossyUtf8]

theorem wellFormed_lossyUtf8 : ∀ value : List UInt8, WellFormed (lossyUtf8 value)
  | [] => by
    rw [lossyUtf8]
    exact wellFormed_iff.mpr rfl
  | lead :: rest => by
    rw [lossyUtf8_cons]
    dsimp only
    split_ifs with h
    · rw [Bool.and_eq_true, Bool.and_eq_true, decide_eq_true_eq, decide_eq_true_eq] at h
      obtain ⟨⟨hpos, -⟩, h⟩ := h
      obtain ⟨k, hk⟩ := Nat.exists_eq_succ_of_ne_zero hpos
      rw [isDecodableUtf8_iff, hk, List.take_succ_cons] at h
      rw [hk]
      exact (wellFormed_append h).mpr (wellFormed_lossyUtf8 (rest.drop k))
    · exact (wellFormed_append (by decide)).mpr (wellFormed_lossyUtf8 rest)
termination_by value => value.length
decreasing_by all_goals (simp_wf; try omega)

theorem lossyUtf8_of_wellFormed : ∀ value : List UInt8, WellFormed value → lossyUtf8 value = value
  | [], _ => by rw [lossyUtf8]
  | lead :: rest, h => by
    obtain ⟨n, hn, hrest⟩ := wellFormed_cons.mp h
    have hlength := character_length hn
    rw [lossyUtf8_cons, announcedLength_eq hn]
    dsimp only
    rw [if_pos, Nat.add_sub_cancel, lossyUtf8_of_wellFormed (rest.drop n) hrest, List.cons_append,
      List.take_append_drop]
    rw [Bool.and_eq_true, Bool.and_eq_true, List.take_succ_cons, isDecodableUtf8_iff]
    exact ⟨⟨decide_eq_true (by omega), decide_eq_true (by simpa using hlength)⟩, wellFormed_character hn⟩
termination_by value => value.length
decreasing_by all_goals (simp_wf; try omega)

theorem lossyUtf8_eq_self_iff : lossyUtf8 value = value ↔ WellFormed value := by
  constructor
  · intro h
    rw [← h]
    exact wellFormed_lossyUtf8 value
  · exact lossyUtf8_of_wellFormed value

/-- The validators answer alike, and for RFC 3629 UTF-8 only; the repair answers it, and changes nothing else. -/
theorem one_notion : (∀ value : List UInt8, 0 ∉ value →
      isDecodableUtf8 value = isValidUtf8Text value ∧ isValidUtf8Text value = isValidUtf8 value ∧
        (isDecodableUtf8 value = true ↔ WellFormed value)) ∧
    ∀ value : List UInt8, WellFormed (lossyUtf8 value) ∧ (lossyUtf8 value = value ↔ WellFormed value) := by
  refine ⟨fun value h => ⟨?_, ?_, isDecodableUtf8_iff⟩, fun value => ⟨wellFormed_lossyUtf8 value, lossyUtf8_eq_self_iff⟩⟩
  · rw [Bool.eq_iff_iff, isDecodableUtf8_iff, isValidUtf8Text_iff h]
  · rw [Bool.eq_iff_iff, isValidUtf8Text_iff h, isValidUtf8_iff]


/-- The euro sign, and its first byte alone. -/
theorem one_notion_euro : isDecodableUtf8 [0xE2, 0x82, 0xAC] = isValidUtf8Text [0xE2, 0x82, 0xAC] ∧
    isDecodableUtf8 [0xE2, 0x82, 0xAC] = true ∧ lossyUtf8 [0xE2] ≠ [0xE2] := by
  refine ⟨(one_notion.1 _ (by decide)).1, (one_notion.1 _ (by decide)).2.2.mpr (by decide), ?_⟩
  rw [Ne, (one_notion.2 _).2]
  decide

end Didi.Validators
