import Mathlib.Algebra.Order.Floor.Ring
import Mathlib.Data.Rat.Floor
import Mathlib.Tactic.Linarith
import Mathlib.Tactic.Ring
import Didi.Json.Value

/-!
# Numbers read as doubles

* `IsDouble q` : the rational `q` is the value of some double;
* `toDouble_mono`, `toDouble_of_eq` : rounding keeps the order, and keeps what is a double;
* `Json.number`, `Json.double` : the number that a value is, and what `get<double>()` makes of it;
* `Json.equals_of_sameValue` : the library's comparison never tells one value from itself.
-/

namespace Didi.Json

/-! ## Rounding -/

/-- The double nearest to a natural number, ties to the even significand. -/
def roundNat (a : Nat) : Nat :=
  let shift := a.log2 - 52
  let low := a % 2 ^ shift
  let high := a / 2 ^ shift
  let up := 2 ^ shift < 2 * low ∨ (2 ^ shift = 2 * low ∧ high % 2 = 1)
  (if up then high + 1 else high) * 2 ^ shift

theorem toDouble_eq (i : Int) : toDouble i = i.sign * (roundNat i.natAbs : Nat) := rfl

theorem roundNat_of_dvd {a : Nat} (h : 2 ^ (a.log2 - 52) ∣ a) : roundNat a = a := by
  unfold roundNat
  have hlow : a % 2 ^ (a.log2 - 52) = 0 := Nat.mod_eq_zero_of_dvd h
  have hpos : 0 < 2 ^ (a.log2 - 52) := by positivity
  simp only [hlow]
  rw [if_neg (by omega), Nat.div_mul_cancel h]

theorem roundNat_le {a : Nat} : roundNat a ≤ (a / 2 ^ (a.log2 - 52) + 1) * 2 ^ (a.log2 - 52) := by
  unfold roundNat
  dsimp only
  split_ifs
  · exact Nat.le_refl _
  · exact Nat.mul_le_mul_right _ (Nat.le_succ _)

theorem le_roundNat {a : Nat} : a / 2 ^ (a.log2 - 52) * 2 ^ (a.log2 - 52) ≤ roundNat a := by
  unfold roundNat
  dsimp only
  split_ifs
  · exact Nat.mul_le_mul_right _ (Nat.le_succ _)
  · exact Nat.le_refl _

/-- A number rounds to something between the powers of two around it. -/
theorem roundNat_le_pow {a : Nat} : roundNat a ≤ 2 ^ (a.log2 + 1) := by
  refine Nat.le_trans roundNat_le ?_
  by_cases h : a.log2 ≤ 52
  · have ha : a < 2 ^ (a.log2 + 1) := Nat.lt_log2_self
    rw [Nat.sub_eq_zero_of_le h, Nat.pow_zero, Nat.div_one, Nat.mul_one]
    omega
  · have hsplit : 2 ^ (a.log2 + 1) = 2 ^ 53 * 2 ^ (a.log2 - 52) := by
      rw [← Nat.pow_add]
      congr 1
      omega
    rw [hsplit]
    apply Nat.mul_le_mul_right
    have ha : a < 2 ^ 53 * 2 ^ (a.log2 - 52) := by
      rw [← hsplit]
      exact Nat.lt_log2_self
    exact Nat.div_lt_of_lt_mul (by rwa [Nat.mul_comm])

theorem pow_le_roundNat {a : Nat} (ha : a ≠ 0) : 2 ^ a.log2 ≤ roundNat a := by
  refine Nat.le_trans ?_ le_roundNat
  by_cases h : a.log2 ≤ 52
  · rw [Nat.sub_eq_zero_of_le h, Nat.pow_zero, Nat.div_one, Nat.mul_one]
    exact Nat.log2_self_le ha
  · have hsplit : 2 ^ a.log2 = 2 ^ 52 * 2 ^ (a.log2 - 52) := by
      rw [← Nat.pow_add]
      congr 1
      omega
    rw [hsplit]
    apply Nat.mul_le_mul_right
    rw [Nat.le_div_iff_mul_le (by positivity), ← hsplit]
    exact Nat.log2_self_le ha

theorem roundNat_mono {a b : Nat} (h : a ≤ b) : roundNat a ≤ roundNat b := by
  by_cases ha : a = 0
  · subst ha
    exact Nat.zero_le _
  have hb : b ≠ 0 := by omega
  have hlog : a.log2 ≤ b.log2 := by
    rw [Nat.le_log2 hb]
    exact Nat.le_trans (Nat.log2_self_le ha) h
  by_cases hlt : a.log2 < b.log2
  · calc roundNat a ≤ 2 ^ (a.log2 + 1) := roundNat_le_pow
      _ ≤ 2 ^ b.log2 := Nat.pow_le_pow_right (by omega) hlt
      _ ≤ roundNat b := pow_le_roundNat hb
  · have hsame : a.log2 = b.log2 := by omega
    -- both are rounded to multiples of one power of two
    have hhigh : a / 2 ^ (b.log2 - 52) ≤ b / 2 ^ (b.log2 - 52) := Nat.div_le_div_right h
    rcases Nat.lt_or_eq_of_le hhigh with hnext | heq
    · calc roundNat a ≤ (a / 2 ^ (a.log2 - 52) + 1) * 2 ^ (a.log2 - 52) := roundNat_le
        _ ≤ b / 2 ^ (b.log2 - 52) * 2 ^ (b.log2 - 52) := by
          rw [hsame]
          exact Nat.mul_le_mul_right _ hnext
        _ ≤ roundNat b := le_roundNat
    · have hlow : a % 2 ^ (b.log2 - 52) ≤ b % 2 ^ (b.log2 - 52) := by
        have h1 := Nat.div_add_mod a (2 ^ (b.log2 - 52))
        have h2 := Nat.div_add_mod b (2 ^ (b.log2 - 52))
        rw [heq] at h1
        omega
      unfold roundNat
      simp only [hsame, heq]
      apply Nat.mul_le_mul_right
      split_ifs with h1 h2
      · exact Nat.le_refl _
      · omega
      · exact Nat.le_succ _
      · exact Nat.le_refl _

theorem toDouble_mono {i j : Int} (h : i ≤ j) : toDouble i ≤ toDouble j := by
  rw [toDouble_eq, toDouble_eq]
  rcases lt_trichotomy i 0 with hi | rfl | hi
  · rcases lt_trichotomy j 0 with hj | rfl | hj
    · have hmono := roundNat_mono (show j.natAbs ≤ i.natAbs by omega)
      rw [Int.sign_eq_neg_one_of_neg hi, Int.sign_eq_neg_one_of_neg hj]
      omega
    · rw [Int.sign_eq_neg_one_of_neg hi]
      simp
    · rw [Int.sign_eq_neg_one_of_neg hi, Int.sign_eq_one_of_pos hj]
      omega
  · rcases h.eq_or_lt with rfl | hj
    · exact le_refl _
    · rw [Int.sign_eq_one_of_pos hj]
      simp
  · have hmono := roundNat_mono (show i.natAbs ≤ j.natAbs by omega)
    rw [Int.sign_eq_one_of_pos hi, Int.sign_eq_one_of_pos (by omega)]
    omega

/-! ## Doubles -/

/-- A significand of 53 bits and an exponent. -/
def IsDouble (q : Rat) : Prop := ∃ m e : Int, m.natAbs < 2 ^ 53 ∧ q = m * 2 ^ e

theorem toDouble_of_natAbs {i : Int} {k e : Nat} (hk : k < 2 ^ 53) (h : i.natAbs = k * 2 ^ e) :
    toDouble i = i := by
  have hround : roundNat i.natAbs = i.natAbs := by
    apply roundNat_of_dvd
    by_cases h0 : i.natAbs = 0
    · rw [h0]
      exact Nat.dvd_zero _
    · have hlog : i.natAbs.log2 < 53 + e := by
        rw [Nat.log2_lt h0, h, Nat.pow_add]
        exact Nat.mul_lt_mul_of_pos_right hk (by positivity)
      rw [h]
      exact Dvd.dvd.mul_left (Nat.pow_dvd_pow 2 (by rw [← h]; omega)) k
  rw [toDouble_eq, hround]
  exact Int.sign_mul_natAbs i

theorem toDouble_of_natAbs_le {i : Int} (h : i.natAbs ≤ 2 ^ 53) : toDouble i = i := by
  rcases Nat.lt_or_eq_of_le h with hlt | heq
  · exact @toDouble_of_natAbs i i.natAbs 0 hlt (by omega)
  · exact @toDouble_of_natAbs i (2 ^ 52) 1 (by norm_num) (by rw [heq]; norm_num)

/-- The integers around a double are doubles. -/
theorem toDouble_floor_ceil {q : Rat} (h : IsDouble q) : toDouble ⌊q⌋ = ⌊q⌋ ∧ toDouble ⌈q⌉ = ⌈q⌉ := by
  obtain ⟨m, e, hm, hq⟩ := h
  by_cases he : 0 ≤ e
  · have hint : q = ((m * 2 ^ e.toNat : Int) : Rat) := by
      rw [hq]
      push_cast
      rw [← zpow_natCast, Int.toNat_of_nonneg he]
    have hexact : toDouble (m * 2 ^ e.toNat) = m * 2 ^ e.toNat := by
      apply toDouble_of_natAbs hm
      rw [Int.natAbs_mul, Int.natAbs_pow]
      rfl
    rw [hint, Int.floor_intCast, Int.ceil_intCast]
    exact ⟨hexact, hexact⟩
  · have hsmall : |q| ≤ m.natAbs := by
      rw [hq, abs_mul, abs_of_pos (zpow_pos (by norm_num) e : (0 : Rat) < 2 ^ e), Nat.cast_natAbs, Int.cast_abs]
      exact mul_le_of_le_one_right (abs_nonneg _) (zpow_le_one_of_nonpos₀ (by norm_num) (by omega))
    obtain ⟨hlow, hhigh⟩ := abs_le.mp hsmall
    have hm' : (m.natAbs : Int) ≤ 2 ^ 53 := by omega
    have hfloor : -(m.natAbs : Int) ≤ ⌊q⌋ := by
      rw [Int.le_floor]
      exact_mod_cast hlow
    have hceil : ⌈q⌉ ≤ (m.natAbs : Int) := by
      rw [Int.ceil_le, Int.cast_natCast]
      exact hhigh
    have horder := Int.floor_le_ceil q
    constructor <;> apply toDouble_of_natAbs_le <;> omega

theorem toDouble_le {i : Int} {q : Rat} (hq : IsDouble q) (h : (i : Rat) ≤ q) : (toDouble i : Rat) ≤ q := by
  have hmono := toDouble_mono (Int.le_floor.mpr h)
  rw [(toDouble_floor_ceil hq).1] at hmono
  exact le_trans (Int.cast_le.mpr hmono) (Int.floor_le q)

theorem le_toDouble {i : Int} {q : Rat} (hq : IsDouble q) (h : q ≤ (i : Rat)) : q ≤ (toDouble i : Rat) := by
  have hmono := toDouble_mono (Int.ceil_le.mpr h)
  rw [(toDouble_floor_ceil hq).2] at hmono
  exact le_trans (Int.le_ceil q) (Int.cast_le.mpr hmono)

/-! ## Values -/

/-- The number that a value is. -/
def number : Json → Option Rat
  | .integer i => some i
  | .real value _ => some value
  | _ => none

/-- `get<double>()` of a number. -/
def double : Json → Option Rat
  | .integer i => some (toDouble i)
  | .real value _ => some value
  | _ => none

mutual

/-- Every number that is held as a double is one. -/
def HoldsDoubles : Json → Prop
  | .real value _ => IsDouble value
  | .array elements => ElementsHoldDoubles elements
  | .object members => MembersHoldDoubles members
  | _ => True

def ElementsHoldDoubles : List Json → Prop
  | [] => True
  | v :: vs => HoldsDoubles v ∧ ElementsHoldDoubles vs

def MembersHoldDoubles : List (String × Json) → Prop
  | [] => True
  | (_, v) :: ms => HoldsDoubles v ∧ MembersHoldDoubles ms

end

theorem elementsHoldDoubles_iff {vs : List Json} : ElementsHoldDoubles vs ↔ ∀ v ∈ vs, HoldsDoubles v := by
  induction vs with
  | nil => simp [ElementsHoldDoubles]
  | cons v vs ih => simp [ElementsHoldDoubles, ih]

theorem membersHoldDoubles_iff {ms : List (String × Json)} :
    MembersHoldDoubles ms ↔ ∀ e ∈ ms, HoldsDoubles e.2 := by
  induction ms with
  | nil => simp [MembersHoldDoubles]
  | cons e ms ih => simp [MembersHoldDoubles, ih]

/-- Rounding keeps the order of numbers. -/
theorem double_mono {v w : Json} (hv : HoldsDoubles v) (hw : HoldsDoubles w) {m n a b : Rat}
    (hm : v.number = some m) (hn : w.number = some n) (ha : v.double = some a) (hb : w.double = some b)
    (h : m ≤ n) : a ≤ b := by
  cases v with
  | integer i =>
    cases hm
    cases ha
    cases w with
    | integer j =>
      cases hn
      cases hb
      exact_mod_cast toDouble_mono (by exact_mod_cast h)
    | real q text =>
      cases hn
      cases hb
      exact toDouble_le hw h
    | _ => cases hn
  | real q text =>
    cases hm
    cases ha
    cases w with
    | integer j =>
      cases hn
      cases hb
      exact le_toDouble hv h
    | real r text =>
      cases hn
      cases hb
      exact h
    | _ => cases hn
  | _ => cases hm

theorem toDouble_of_eq {i : Int} {q : Rat} (hq : IsDouble q) (h : (i : Rat) = q) : (toDouble i : Rat) = q :=
  le_antisymm (toDouble_le hq h.le) (le_toDouble hq h.ge)

mutual

/-- The library's comparison never tells a value from itself. -/
theorem equals_of_sameValue : ∀ {v w : Json}, HoldsDoubles v → HoldsDoubles w → sameValue v w = true →
    equals v w = true
  | .null, .null, _, _, _ => rfl
  | .boolean a, .boolean b, _, _, h => h
  | .integer i, .integer j, _, _, h => by
    obtain rfl : i = j := of_decide_eq_true h
    simp only [equals, integersEqual]
    split_ifs <;> simp
  | .integer i, .real q _, _, hq, h => decide_eq_true (toDouble_of_eq hq (of_decide_eq_true h))
  | .real q _, .integer j, hq, _, h => decide_eq_true (toDouble_of_eq hq (of_decide_eq_true h).symm).symm
  | .real a _, .real b _, _, _, h => h
  | .string s, .string t, _, _, h => h
  | .array vs, .array ws, hv, hw, h => equalElements_of_sameElements hv hw h
  | .object ms, .object ns, hm, hn, h => equalMembers_of_sameMembers hm hn h

theorem equalElements_of_sameElements : ∀ {vs ws : List Json}, ElementsHoldDoubles vs →
    ElementsHoldDoubles ws → sameElements vs ws = true → equalElements vs ws = true
  | [], [], _, _, _ => rfl
  | v :: vs, w :: ws, hv, hw, h => by
    rw [sameElements, Bool.and_eq_true] at h
    rw [equalElements, Bool.and_eq_true]
    exact ⟨equals_of_sameValue hv.1 hw.1 h.1, equalElements_of_sameElements hv.2 hw.2 h.2⟩

theorem equalMembers_of_sameMembers : ∀ {ms ns : List (String × Json)}, MembersHoldDoubles ms →
    MembersHoldDoubles ns → sameMembers ms ns = true → equalMembers ms ns = true
  | [], [], _, _, _ => rfl
  | (j, v) :: ms, (k, w) :: ns, hm, hn, h => by
    rw [sameMembers, Bool.and_eq_true, Bool.and_eq_true] at h
    rw [equalMembers, Bool.and_eq_true, Bool.and_eq_true]
    exact ⟨⟨h.1.1, equals_of_sameValue hm.1 hn.1 h.1.2⟩, equalMembers_of_sameMembers hm.2 hn.2 h.2⟩

end

end Didi.Json
