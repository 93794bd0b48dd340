import Mathlib.Algebra.Ring.Nat
import Mathlib.Data.List.Basic
import Mathlib.Order.Bounds.Basic

/-!
# Streams in blocks

* `feed` : whole blocks are taken from the front of a stream, and what is left is shorter than a block;
* `feed_append` : a stream may be cut anywhere, when what is left of the one part goes before the other;
* `feed_eq_foldl` : a stream of whole blocks is a loop over them;
* `zeros`, `zeros_isLeast` : the padding of a digest whose length ends a block of 64 bytes;
* `leftpad_toDigits` : a number in digits, padded with zeros, digit by digit.
-/

/-- The number in digits of the base, padded with zeros: each digit by its place. -/
theorem leftpad_toDigits {base : Nat} (hbase : 1 < base) {width n : Nat} (h : n < base ^ (width + 1)) :
    List.leftpad (width + 1) '0' (Nat.toDigits base n) =
      (List.range (width + 1)).map fun i => (n / base ^ (width - i) % base).digitChar := by
  induction width generalizing n with
  | zero =>
    rw [Nat.zero_add, Nat.pow_one] at h
    simp [Nat.toDigits_of_lt_base h, Nat.mod_eq_of_lt h, List.leftpad]
  | succ width ih =>
    have hdiv : n / base < base ^ (width + 1) := Nat.div_lt_of_lt_mul (by rwa [← Nat.pow_succ'])
    have hplaces : ∀ i ∈ List.range (width + 1), (n / base ^ (width + 1 - i) % base).digitChar =
        (n / base / base ^ (width - i) % base).digitChar := by
      intro i hi
      rw [Nat.div_div_eq_div_mul, ← Nat.pow_succ', show width + 1 - i = width - i + 1 from
        Nat.succ_sub (Nat.lt_succ_iff.mp (List.mem_range.mp hi))]
    rw [List.range_succ, List.map_append, List.map_congr_left hplaces, ← ih hdiv, List.map_singleton, Nat.sub_self,
      Nat.pow_zero, Nat.div_one]
    rcases Nat.lt_or_ge n base with hn | hn
    · rw [Nat.toDigits_of_lt_base hn, Nat.div_eq_of_lt hn, Nat.toDigits_zero, Nat.mod_eq_of_lt hn]
      simp [List.leftpad, List.replicate_succ']
    · rw [Nat.toDigits_of_base_le hbase hn, List.leftpad, List.leftpad, List.length_append, List.length_singleton,
        Nat.add_sub_add_right, List.append_assoc]

namespace Blocks
variable {σ α : Type*} {f : σ → List α → σ} {n : Nat} {s : σ} {l l' : List α}

def feed (f : σ → List α → σ) (n : Nat) (s : σ) (l : List α) : σ × List α :=
  if 0 < n ∧ n ≤ l.length then feed f n (f s (l.take n)) (l.drop n) else (s, l)
termination_by l.length
decreasing_by
  rw [List.length_drop]
  omega

theorem feed_short (h : l.length < n) : feed f n s l = (s, l) := by
  rw [feed, if_neg (by omega)]

theorem feed_long (hn : 0 < n) (h : n ≤ l.length) : feed f n s l = feed f n (f s (l.take n)) (l.drop n) := by
  rw [feed, if_pos ⟨hn, h⟩]

theorem feed_append (hn : 0 < n) : feed f n s (l ++ l') = feed f n (feed f n s l).1 ((feed f n s l).2 ++ l') := by
  induction hlength : l.length using Nat.strong_induction_on generalizing s l with
  | _ length ih =>
    rcases Nat.lt_or_ge l.length n with h | h
    · rw [feed_short h]
    · have hlong : n ≤ (l ++ l').length := h.trans (List.length_append ▸ Nat.le_add_right _ _)
      rw [feed_long hn h, feed_long hn hlong, List.take_append_of_le_length h, List.drop_append_of_le_length h]
      exact ih _ (by rw [List.length_drop]; omega) rfl

theorem length_feed (hn : 0 < n) : (feed f n s l).2.length = l.length % n := by
  induction hlength : l.length using Nat.strong_induction_on generalizing s l with
  | _ length ih =>
    rcases Nat.lt_or_ge l.length n with h | h
    · rw [feed_short h, hlength, Nat.mod_eq_of_lt (hlength ▸ h)]
    · rw [feed_long hn h, ih _ (by rw [List.length_drop]; omega) rfl, List.length_drop, ← Nat.mod_eq_sub_mod h, hlength]

theorem feed_eq_foldl (hn : 0 < n) {k : Nat} (h : l.length = n * k) :
    feed f n s l = ((List.range k).foldl (fun s i => f s ((l.drop (n * i)).take n)) s, []) := by
  induction k generalizing s l with
  | zero => rw [feed_short (by omega), List.length_eq_zero_iff.mp h, List.range_zero, List.foldl_nil]
  | succ k ih =>
    have hlong : n ≤ l.length := h ▸ Nat.le_mul_of_pos_right n k.succ_pos
    have hrest : (l.drop n).length = n * k := by
      rw [List.length_drop, h, Nat.mul_succ]
      omega
    rw [feed_long hn hlong, ih hrest, List.range_succ_eq_map, List.foldl_cons, List.foldl_map, Nat.mul_zero, List.drop_zero]
    simp only [List.drop_drop, Nat.mul_succ, Nat.add_comm]

/-- A stream can be taken in another state that follows the first one. -/
theorem feed_sim {τ : Type*} {g : τ → List α → τ} {φ : σ → τ} (hn : 0 < n)
    (h : ∀ s block, φ (f s block) = g (φ s) block) : feed g n (φ s) l = (φ (feed f n s l).1, (feed f n s l).2) := by
  induction hlength : l.length using Nat.strong_induction_on generalizing s l with
  | _ length ih =>
    rcases Nat.lt_or_ge l.length n with hshort | hlong
    · rw [feed_short hshort, feed_short hshort]
    · rw [feed_long hn hlong, feed_long hn hlong, ← h]
      exact ih _ (by rw [List.length_drop]; omega) rfl

/-- The zero bytes after the marker: what is left of a block has room for a length of eight bytes. -/
def zeros (length : Nat) : Nat := (119 - length % 64) % 64

theorem zeros_isLeast (length : Nat) : IsLeast {k | (length + 1 + k) % 64 = 56} (zeros length) := by
  refine ⟨?_, fun k hk => ?_⟩
  · change (length + 1 + (119 - length % 64) % 64) % 64 = 56
    omega
  · rw [Set.mem_ofPred_eq] at hk
    unfold zeros
    omega

end Blocks
