import Mathlib.Data.Nat.Bitwise
import Mathlib.Tactic.Ring

/-!
# Words of 32 bits

* `toNat_append_byte` : a byte behind other bits;
* `toNat_or_shift_low`, `toNat_or_shift_high` : a byte put into a word, above what it holds or below it;
* `toNat_bytes_high`, `toNat_bytes_low` : a word of four bytes, from the high end or from the low one;
* `toBitVec_rotr`, `toBitVec_rotl` : rotations written with two shifts.
-/

namespace Word32

theorem toNat_append_byte {n : Nat} (x : BitVec n) (b : UInt8) :
    (x ++ b.toBitVec).toNat = x.toNat * 256 + b.toNat := by
  rw [BitVec.toNat_append, ← Nat.shiftLeft_add_eq_or_of_lt b.toBitVec.isLt, Nat.shiftLeft_eq]
  rfl

section Bytes
variable {w : UInt32} {byte shift : Nat} (hbyte : byte < 256)
include hbyte

theorem shifted_lt : 2 ^ shift * byte < 2 ^ (shift + 8) := by
  rw [Nat.pow_add]
  exact Nat.mul_lt_mul_of_pos_left hbyte (Nat.two_pow_pos _)

variable (hshift : shift ≤ 24)
include hshift

theorem toNat_shift : (UInt32.ofNat byte <<< UInt32.ofNat shift).toNat = 2 ^ shift * byte := by
  have hpow : 2 ^ (shift + 8) ≤ 2 ^ 32 := Nat.pow_le_pow_right (by decide) (by omega)
  have hlt : 2 ^ shift * byte < 2 ^ (shift + 8) := shifted_lt hbyte
  rw [UInt32.toNat_shiftLeft, UInt32.toNat_ofNat', UInt32.toNat_ofNat', Nat.shiftLeft_eq,
    Nat.mod_eq_of_lt (show byte < 2 ^ 32 by omega), Nat.mod_eq_of_lt (show shift < 2 ^ 32 by omega),
    Nat.mod_eq_of_lt (show shift < 32 by omega), Nat.mul_comm, Nat.mod_eq_of_lt (hlt.trans_le hpow)]

theorem toNat_or_shift_low (hw : w.toNat < 2 ^ shift) :
    (w ||| UInt32.ofNat byte <<< UInt32.ofNat shift).toNat = 2 ^ shift * byte + w.toNat := by
  rw [UInt32.toNat_or, toNat_shift hbyte hshift, Nat.or_comm, Nat.two_pow_add_eq_or_of_lt hw]

theorem toNat_or_shift_high (hw : 2 ^ (shift + 8) ∣ w.toNat) :
    (w ||| UInt32.ofNat byte <<< UInt32.ofNat shift).toNat = w.toNat + 2 ^ shift * byte := by
  obtain ⟨high, hhigh⟩ := hw
  rw [UInt32.toNat_or, toNat_shift hbyte hshift, hhigh, Nat.two_pow_add_eq_or_of_lt (shifted_lt hbyte)]

end Bytes

section Four
variable {b0 b1 b2 b3 : Nat} (h0 : b0 < 256) (h1 : b1 < 256) (h2 : b2 < 256) (h3 : b3 < 256)
include h0 h1 h2 h3

theorem toNat_bytes_high :
    (0 ||| UInt32.ofNat b0 <<< UInt32.ofNat 24 ||| UInt32.ofNat b1 <<< UInt32.ofNat 16 |||
      UInt32.ofNat b2 <<< UInt32.ofNat 8 ||| UInt32.ofNat b3 <<< UInt32.ofNat 0).toNat =
      ((b0 * 256 + b1) * 256 + b2) * 256 + b3 := by
  have e0 := toNat_or_shift_high h0 (le_refl 24) (show 2 ^ (24 + 8) ∣ (0 : UInt32).toNat from dvd_zero _)
  rw [UInt32.toNat_zero, Nat.zero_add] at e0
  have e1 := toNat_or_shift_high h1 (show 16 ≤ 24 by decide) (e0 ▸ Dvd.intro b0 rfl)
  rw [e0] at e1
  have e2 := toNat_or_shift_high h2 (show 8 ≤ 24 by decide) (e1 ▸ (by omega : 65536 ∣ 2 ^ 24 * b0 + 2 ^ 16 * b1))
  rw [e1] at e2
  have e3 := toNat_or_shift_high h3 (Nat.zero_le 24)
    (e2 ▸ (by omega : 256 ∣ 2 ^ 24 * b0 + 2 ^ 16 * b1 + 2 ^ 8 * b2))
  rw [e3, e2]
  omega

theorem toNat_bytes_low :
    (UInt32.ofNat b0 ||| UInt32.ofNat b1 <<< UInt32.ofNat 8 ||| UInt32.ofNat b2 <<< UInt32.ofNat 16 |||
      UInt32.ofNat b3 <<< UInt32.ofNat 24).toNat = ((b3 * 256 + b2) * 256 + b1) * 256 + b0 := by
  have e0 : (UInt32.ofNat b0).toNat = b0 := UInt32.toNat_ofNat_of_lt' (h0.trans (by decide))
  have e1 := toNat_or_shift_low h1 (show 8 ≤ 24 by decide) (e0 ▸ h0)
  rw [e0] at e1
  have e2 := toNat_or_shift_low h2 (show 16 ≤ 24 by decide) (e1 ▸ (by omega : 2 ^ 8 * b1 + b0 < 2 ^ 16))
  rw [e1] at e2
  have e3 := toNat_or_shift_low h3 (le_refl 24) (e2 ▸ (by omega : 2 ^ 16 * b2 + (2 ^ 8 * b1 + b0) < 2 ^ 24))
  rw [e3, e2]
  omega

end Four

section Rotations
variable {x n : UInt32} (hn : 0 < n.toNat) (h : n.toNat < 32)
include hn h

theorem toNat_sub_mod : ((32 - n).toBitVec % 32).toNat = 32 - n.toNat := by
  have hle : n ≤ 32 := UInt32.le_iff_toNat_le.mpr h.le
  change (32 - n).toNat % 32 = _
  rw [UInt32.toNat_sub_of_le _ _ hle]
  exact Nat.mod_eq_of_lt (Nat.sub_lt (by decide) hn)

theorem toBitVec_rotr : ((x >>> n) ||| (x <<< (32 - n))).toBitVec = x.toBitVec.rotateRight n.toNat := by
  have hmod : (n.toBitVec % 32).toNat = n.toNat := Nat.mod_eq_of_lt h
  rw [UInt32.toBitVec_or, UInt32.toBitVec_shiftRight, UInt32.toBitVec_shiftLeft, BitVec.rotateRight_def,
    Nat.mod_eq_of_lt h, BitVec.ushiftRight_eq', BitVec.shiftLeft_eq', hmod, toNat_sub_mod hn h]

theorem toBitVec_rotl : ((x <<< n) ||| (x >>> (32 - n))).toBitVec = x.toBitVec.rotateLeft n.toNat := by
  have hmod : (n.toBitVec % 32).toNat = n.toNat := Nat.mod_eq_of_lt h
  rw [UInt32.toBitVec_or, UInt32.toBitVec_shiftRight, UInt32.toBitVec_shiftLeft, BitVec.rotateLeft_def,
    Nat.mod_eq_of_lt h, BitVec.ushiftRight_eq', BitVec.shiftLeft_eq', hmod, toNat_sub_mod hn h]

end Rotations

end Word32
