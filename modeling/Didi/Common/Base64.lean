import Mathlib.Algebra.Ring.Nat
import Mathlib.Data.List.Basic

/-!
# Base64

* `encode` : three bytes as four characters, with `=` for what the last group lacks;
* `decode` : the bytes of a text up to its padding, through a 32-bit accumulator that is never masked;
* `decode_encode` : the two are inverse, whatever else stands between the characters.
-/

namespace Didi.Base64

def kEncodeTable : List Char := "ABCDEFGHIJKLMNOPQRSTUVWXYZabcdefghijklmnopqrstuvwxyz0123456789+/".toList

/-- The character of six bits. -/
def encodeChar (bits : Nat) : Char := kEncodeTable.getD (bits % 64) '='

/-- The bytes do not overlap, so `|` adds them. -/
def triple (a b c : UInt8) : Nat := a.toNat * 2 ^ 16 + b.toNat * 2 ^ 8 + c.toNat

def encode : List UInt8 → List Char
  | [] => []
  | [a] => [encodeChar (triple a 0 0 / 2 ^ 18), encodeChar (triple a 0 0 / 2 ^ 12), '=', '=']
  | [a, b] =>
    [encodeChar (triple a b 0 / 2 ^ 18), encodeChar (triple a b 0 / 2 ^ 12), encodeChar (triple a b 0 / 2 ^ 6), '=']
  | a :: b :: c :: rest =>
    encodeChar (triple a b c / 2 ^ 18) :: encodeChar (triple a b c / 2 ^ 12) :: encodeChar (triple a b c / 2 ^ 6) ::
      encodeChar (triple a b c) :: encode rest

/-- The table of the decoder: the bits of a character, if it is one of the alphabet. -/
def decodeChar (c : Char) : Option Nat := kEncodeTable.idxOf? c

/-- The byte that the accumulator holds above its last `valb` bits, by an arithmetic shift. -/
def emitted (val : BitVec 32) (valb : Nat) : UInt8 := ⟨(val.sshiftRight valb).setWidth 8⟩

/-- Six bits more. -/
def accumulate (val : BitVec 32) (bits : Nat) : BitVec 32 := (val <<< 6) + BitVec.ofNat 32 bits

def decodeFrom : List Char → BitVec 32 → Int → List UInt8
  | [], _, _ => []
  | c :: rest, val, valb =>
    if c = '=' then []
    else match decodeChar c with
      | none => decodeFrom rest val valb
      | some bits =>
        let val := accumulate val bits
        if 0 ≤ valb + 6 then emitted val (valb + 6).toNat :: decodeFrom rest val (valb + 6 - 8)
        else decodeFrom rest val (valb + 6)

def decode (input : List Char) : List UInt8 := decodeFrom input 0 (-8)

/-! ## The accumulator -/

/-- What stands above the byte and what the sign fills in do not matter. -/
theorem emitted_toNat (val : BitVec 32) {valb : Nat} (h : valb ≤ 4) :
    (emitted val valb).toNat = val.toNat / 2 ^ valb % 2 ^ 8 := by
  have hbits : (val.sshiftRight valb).setWidth 8 = (val >>> valb).setWidth 8 := by
    apply BitVec.eq_of_getLsbD_eq
    intro i hi
    have hlow : valb + i < 32 := by omega
    simp only [BitVec.getLsbD_setWidth, BitVec.getLsbD_sshiftRight, BitVec.getLsbD_ushiftRight, hi, hlow, if_true]
    simp only [decide_true, Bool.true_and]
    have hnot : ¬ 32 ≤ i := by omega
    simp [hnot]
  show ((val.sshiftRight valb).setWidth 8).toNat = _
  rw [hbits, BitVec.toNat_setWidth, BitVec.toNat_ushiftRight, Nat.shiftRight_eq_div_pow]

theorem toNat_accumulate (val : BitVec 32) (bits : Nat) :
    (accumulate val bits).toNat = (val.toNat * 64 + bits) % 2 ^ 32 := by
  rw [accumulate, BitVec.toNat_add, BitVec.toNat_shiftLeft, Nat.shiftLeft_eq, BitVec.toNat_ofNat]
  omega

/-- A character of the alphabet is read as the bits that it was written for. -/
theorem decodeChar_encodeChar (bits : Nat) : decodeChar (encodeChar bits) = some (bits % 64) ∧ encodeChar bits ≠ '=' := by
  have hall : ∀ bits ∈ List.range 64,
      decodeChar (kEncodeTable.getD bits '=') = some bits ∧ kEncodeTable.getD bits '=' ≠ '=' := by
    decide +kernel
  exact hall (bits % 64) (List.mem_range.mpr (Nat.mod_lt _ (by decide)))

theorem decodeFrom_pad (rest : List Char) (val : BitVec 32) (valb : Int) : decodeFrom ('=' :: rest) val valb = [] := by
  rw [decodeFrom, if_pos rfl]

/-- The first character of a group emits nothing, -/
theorem decodeFrom_first (bits : Nat) (rest : List Char) (val : BitVec 32) :
    decodeFrom (encodeChar bits :: rest) val (-8) = decodeFrom rest (accumulate val (bits % 64)) (-2) := by
  rw [decodeFrom, if_neg (decodeChar_encodeChar bits).2, (decodeChar_encodeChar bits).1]
  rfl

/-- and each of the next three the byte that it completes. -/
theorem decodeFrom_next (bits : Nat) (rest : List Char) (val : BitVec 32) (shift : Nat) :
    decodeFrom (encodeChar bits :: rest) val ((shift : Int) - 6) =
      emitted (accumulate val (bits % 64)) shift :: decodeFrom rest (accumulate val (bits % 64)) ((shift : Int) - 8) := by
  have hvalb : (shift : Int) - 6 + 6 = shift := by omega
  rw [decodeFrom, if_neg (decodeChar_encodeChar bits).2, (decodeChar_encodeChar bits).1]
  simp only [hvalb]
  rw [if_pos (Int.natCast_nonneg shift), Int.toNat_natCast]

section Group
variable (val : BitVec 32) (a b c : UInt8)

/-- The accumulator after the first characters of a group. -/
abbrev after₁ : BitVec 32 := accumulate val (triple a b c / 2 ^ 18 % 64)
abbrev after₂ : BitVec 32 := accumulate (after₁ val a b c) (triple a b c / 2 ^ 12 % 64)
abbrev after₃ : BitVec 32 := accumulate (after₂ val a b c) (triple a b c / 2 ^ 6 % 64)
abbrev after₄ : BitVec 32 := accumulate (after₃ val a b c) (triple a b c % 64)

theorem emitted_after₂ : emitted (after₂ val a b c) 4 = a := by
  apply UInt8.toNat_inj.mp
  have ha := a.toNat_lt
  have hb := b.toNat_lt
  have hc := c.toNat_lt
  rw [emitted_toNat _ (Nat.le_refl 4), toNat_accumulate, toNat_accumulate, triple]
  omega

theorem emitted_after₃ : emitted (after₃ val a b c) 2 = b := by
  apply UInt8.toNat_inj.mp
  have ha := a.toNat_lt
  have hb := b.toNat_lt
  have hc := c.toNat_lt
  rw [emitted_toNat _ (by decide), toNat_accumulate, toNat_accumulate, toNat_accumulate, triple]
  omega

theorem emitted_after₄ : emitted (after₄ val a b c) 0 = c := by
  apply UInt8.toNat_inj.mp
  have ha := a.toNat_lt
  have hb := b.toNat_lt
  have hc := c.toNat_lt
  rw [emitted_toNat _ (by decide), toNat_accumulate, toNat_accumulate, toNat_accumulate, toNat_accumulate, triple]
  omega

end Group

/-! ## Round trips -/

/-- A group of characters is read as its bytes, whatever the accumulator holds. -/
theorem decodeFrom_encode (b : List UInt8) (val : BitVec 32) : decodeFrom (encode b) val (-8) = b := by
  induction b using encode.induct generalizing val with
  | case1 => rfl
  | case2 a =>
    have hnext := decodeFrom_next (triple a 0 0 / 2 ^ 12) ['=', '='] (after₁ val a 0 0) 4
    rw [decodeFrom_pad, emitted_after₂] at hnext
    rw [encode, decodeFrom_first]
    exact hnext
  | case3 a b =>
    have hnext₂ := decodeFrom_next (triple a b 0 / 2 ^ 12) [encodeChar (triple a b 0 / 2 ^ 6), '=']
      (after₁ val a b 0) 4
    have hnext₃ := decodeFrom_next (triple a b 0 / 2 ^ 6) ['='] (after₂ val a b 0) 2
    rw [emitted_after₂] at hnext₂
    rw [decodeFrom_pad, emitted_after₃] at hnext₃
    rw [encode, decodeFrom_first]
    exact hnext₂.trans (congrArg _ hnext₃)
  | case4 a b c rest ih =>
    have hnext₂ := decodeFrom_next (triple a b c / 2 ^ 12)
      (encodeChar (triple a b c / 2 ^ 6) :: encodeChar (triple a b c) :: encode rest) (after₁ val a b c) 4
    have hnext₃ := decodeFrom_next (triple a b c / 2 ^ 6) (encodeChar (triple a b c) :: encode rest)
      (after₂ val a b c) 2
    have hnext₄ := decodeFrom_next (triple a b c) (encode rest) (after₃ val a b c) 0
    rw [emitted_after₂] at hnext₂
    rw [emitted_after₃] at hnext₃
    rw [emitted_after₄] at hnext₄
    have hrest := ih (after₄ val a b c)
    rw [encode, decodeFrom_first]
    exact hnext₂.trans (congrArg _ (hnext₃.trans (congrArg _ (hnext₄.trans (congrArg _ hrest)))))

/-- What the decoder does not skip. -/
def counts (c : Char) : Bool := (decodeChar c).isSome || c = '='

/-- The decoder reads a text as without what it skips. -/
theorem decodeFrom_filter (text : List Char) (val : BitVec 32) (valb : Int) :
    decodeFrom (text.filter counts) val valb = decodeFrom text val valb := by
  induction text generalizing val valb with
  | nil => rfl
  | cons c text ih =>
    rw [List.filter_cons, decodeFrom]
    by_cases hpad : c = '='
    · have hcounts : counts c = true := by
        rw [counts, hpad, decide_eq_true rfl, Bool.or_true]
      rw [if_pos hcounts, if_pos hpad, decodeFrom, if_pos hpad]
    · rw [if_neg hpad]
      cases hbits : decodeChar c with
      | none =>
        have hskips : counts c = false := by
          rw [counts, hbits, decide_eq_false hpad]
          rfl
        rw [hskips, if_neg Bool.false_ne_true]
        exact ih val valb
      | some bits =>
        have hcounts : counts c = true := by
          rw [counts, hbits]
          rfl
        rw [if_pos hcounts, decodeFrom, if_neg hpad, hbits]
        simp only [ih]

/-- **Base64 round-trips**, also with characters that are not of the alphabet in between. -/
theorem decode_encode (b : List UInt8) :
    decode (encode b) = b ∧
      ∀ text : List Char, text.filter (fun c => kEncodeTable.contains c || c = '=') = encode b → decode text = b := by
  refine ⟨decodeFrom_encode b 0, ?_⟩
  intro text htext
  have hcounts : (fun c => kEncodeTable.contains c || decide (c = '=')) = counts := by
    funext c
    have hmem : (decodeChar c).isSome = kEncodeTable.contains c := by
      rw [Bool.eq_iff_iff, decodeChar, List.isSome_idxOf?, List.contains_iff_mem]
    rw [counts, hmem]
  rw [hcounts] at htext
  rw [decode, ← decodeFrom_filter, htext]
  exact decodeFrom_encode b 0

end Didi.Base64
