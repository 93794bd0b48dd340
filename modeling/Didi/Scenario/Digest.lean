import Didi.Config.Strings
import Didi.Lib.Fold
import Didi.Lib.Sha2
import Didi.Lib.Word32
import Didi.Scenario.Sha256
import Didi.Search.Lines

/-!
# The digest of a file is SHA-256

* `k_eq`, `start_eq` : the constants of the source are those of the standard;
* `paddedByte_eq` : a byte that the source decides by its position is the byte of the padded message;
* `schedule_eq`, `round_eq`, `nextBlock_eq` : what the source does to a block;
* `sha256Hex_eq` : the digest.
-/

namespace Didi.Scenario
open Config Word32

namespace Sha256

/-! ## Constants -/

/-- A number below 18 * 18 is prime where no number below 18 divides it. -/
theorem decide_prime {n : Nat} (hn : n < 18 * 18) : decide n.Prime =
    decide (2 ≤ n ∧ ∀ d : Nat, d < 18 → d < 2 ∨ n < d * d ∨ n % d ≠ 0) := by
  rw [decide_eq_decide, Nat.prime_def_le_sqrt]
  refine and_congr_right fun _ => ⟨fun h d _ => ?_, fun h d hd hsqrt hdvd => ?_⟩
  · by_contra hnot
    push Not at hnot
    obtain ⟨hd, hsquare, hmod⟩ := hnot
    exact h d hd (Nat.le_sqrt.mpr hsquare) (Nat.dvd_of_mod_eq_zero hmod)
  · have hsquare := Nat.le_sqrt.mp hsqrt
    have hlt : d < 18 := by
      by_contra hge
      exact absurd (Nat.mul_le_mul (Nat.not_lt.mp hge) (Nat.not_lt.mp hge)) (by omega)
    rcases h d hlt with h | h | h
    · exact absurd hd (Nat.not_le.mpr h)
    · exact absurd hsquare (Nat.not_le.mpr h)
    · exact h (Nat.mod_eq_zero_of_dvd hdvd)

theorem primes_eq : Sha2.primes =
    [2, 3, 5, 7, 11, 13, 17, 19, 23, 29, 31, 37, 41, 43, 47, 53, 59, 61, 67, 71, 73, 79, 83, 89, 97, 101, 103, 107, 109,
      113, 127, 131, 137, 139, 149, 151, 157, 163, 167, 173, 179, 181, 191, 193, 197, 199, 211, 223, 227, 229, 233, 239,
      241, 251, 257, 263, 269, 271, 277, 281, 283, 293, 307, 311] := by
  have hbelow : ∀ n ∈ List.range 312, n < 18 * 18 := fun n hn => (List.mem_range.mp hn).trans (by decide)
  rw [Sha2.primes, List.filter_congr fun n hn => decide_prime (hbelow n hn)]
  decide

theorem toBitVec_eq_fraction {n p q : Nat} {w : UInt32} (hn : n ≠ 0)
    (h : (q * 2 ^ 32 + w.toNat) ^ n ≤ p * 2 ^ (32 * n) ∧ p * 2 ^ (32 * n) < (q * 2 ^ 32 + w.toNat + 1) ^ n) :
    w.toBitVec = Sha2.fraction n p := by
  rw [Sha2.fraction_eq hn h.1 h.2]
  exact ((BitVec.ofNat_toNat 32 w.toBitVec).trans (BitVec.setWidth_eq _)).symm

theorem k_eq {t : Nat} (h : t < 64) : (k.getD t 0).toBitVec = Sha2.K t := by
  have hall : (List.range 64).all fun t => (List.range 7).any fun q =>
      decide ((q * 2 ^ 32 + (k.getD t 0).toNat) ^ 3 ≤ Sha2.primes.getD t 0 * 2 ^ 96 ∧
        Sha2.primes.getD t 0 * 2 ^ 96 < (q * 2 ^ 32 + (k.getD t 0).toNat + 1) ^ 3) := by
    rw [primes_eq]
    decide
  obtain ⟨q, -, hq⟩ := List.any_eq_true.mp (List.all_eq_true.mp hall t (List.mem_range.mpr h))
  exact toBitVec_eq_fraction (by decide) (of_decide_eq_true hq)

/-- The words of the hash as those of the standard. -/
def Words.vars (h : Words) : Sha2.Vars :=
  ⟨h.a.toBitVec, h.b.toBitVec, h.c.toBitVec, h.d.toBitVec, h.e.toBitVec, h.f.toBitVec, h.g.toBitVec, h.v.toBitVec⟩

theorem start_eq : start.vars = Sha2.start := by
  have hroot (q p : Nat) (w : UInt32) (h : (q * 2 ^ 32 + w.toNat) ^ 2 ≤ p * 2 ^ 64 ∧
      p * 2 ^ 64 < (q * 2 ^ 32 + w.toNat + 1) ^ 2) : w.toBitVec = Sha2.fraction 2 p :=
    toBitVec_eq_fraction (by decide) h
  rw [Words.vars, Sha2.start, Sha2.Vars.mk.injEq]
  exact ⟨hroot 1 2 _ (by decide), hroot 1 3 _ (by decide), hroot 2 5 _ (by decide), hroot 2 7 _ (by decide),
    hroot 3 11 _ (by decide), hroot 3 13 _ (by decide), hroot 4 17 _ (by decide), hroot 4 19 _ (by decide)⟩

/-! ## Padding -/

theorem blocksOf_eq (input : Text) : blocksOf input * 64 = (input.length + 72) / 64 * 64 := rfl

theorem getD_textOf {bytes : List UInt8} {pos : Nat} (h : pos < bytes.length) :
    ((Search.textOf bytes).getD pos '\x00').toNat = (bytes.getD pos 0).toNat := by
  have hlength : (Search.textOf bytes).length = bytes.length := List.length_map _
  rw [List.getD_eq_getElem _ _ h, List.getD_eq_getElem _ _ (by rwa [hlength])]
  exact (congrArg Char.toNat (List.getElem_map _)).trans (Config.toNat_byte _)

theorem paddedByte_eq {bytes : List UInt8} {pos : Nat} (h : pos < blocksOf (Search.textOf bytes) * 64) :
    paddedByte (Search.textOf bytes) pos = ((Sha2.pad bytes).getD pos 0).toNat := by
  have hlength : (Search.textOf bytes).length = bytes.length := List.length_map _
  rw [blocksOf_eq, hlength] at h
  simp only [paddedByte, blocksOf_eq, hlength]
  have hzeros : Blocks.zeros bytes.length = (119 - bytes.length % 64) % 64 := rfl
  split_ifs with hbefore hmarker hlast
  · rw [Sha2.pad, List.getD_append _ _ _ _ hbefore, getD_textOf hbefore]
  · rw [hmarker, Sha2.getD_pad_length]
    rfl
  · obtain ⟨i, hi⟩ : ∃ i, pos = bytes.length + (Blocks.zeros bytes.length + i + 1) :=
      ⟨pos - bytes.length - Blocks.zeros bytes.length - 1, by omega⟩
    rw [hi, Sha2.getD_pad_last (by omega), UInt8.toNat_ofNat', Nat.mul_comm bytes.length]
    congr 3
    omega
  · obtain ⟨i, hi⟩ : ∃ i, pos = bytes.length + (i + 1) := ⟨pos - bytes.length - 1, by omega⟩
    rw [hi, Sha2.getD_pad_zeros (by omega)]
    rfl

theorem paddedByte_lt (bytes : List UInt8) (pos : Nat) : paddedByte (Search.textOf bytes) pos < 256 := by
  simp only [paddedByte]
  split_ifs with hbefore
  · rw [getD_textOf (hbefore.trans_eq (List.length_map _))]
    exact UInt8.toNat_lt _
  · decide
  · exact Nat.mod_lt _ (by decide)
  · decide

theorem toNat_blockWord {bytes : List UInt8} {block i : Nat} {byte : Nat → Nat}
    (h : ∀ j < 4, paddedByte (Search.textOf bytes) (block * 64 + i * 4 + j) = byte j) :
    (blockWord (Search.textOf bytes) block i).toNat = ((byte 0 * 256 + byte 1) * 256 + byte 2) * 256 + byte 3 := by
  have hlt (j : Nat) (hj : j < 4) : byte j < 256 := h j hj ▸ paddedByte_lt bytes _
  have h0 := hlt 0 (by decide)
  have h1 := hlt 1 (by decide)
  have h2 := hlt 2 (by decide)
  have h3 := hlt 3 (by decide)
  change (List.foldl _ 0 [0, 1, 2, 3]) % 2 ^ 32 = _
  rw [List.foldl_cons, List.foldl_cons, List.foldl_cons, List.foldl_cons, List.foldl_nil, h 0 (by decide),
    h 1 (by decide), h 2 (by decide), h 3 (by decide), Nat.zero_mul, Nat.zero_add]
  exact Nat.mod_eq_of_lt (by omega)

theorem blockWord_eq {bytes : List UInt8} {block i : Nat} (hblock : block < blocksOf (Search.textOf bytes))
    (hi : i < 16) :
    (blockWord (Search.textOf bytes) block i).toBitVec = Sha2.wordAt (Sha2.pad bytes) (64 * block + 4 * i) := by
  have hbyte : ∀ j < 4, paddedByte (Search.textOf bytes) (block * 64 + i * 4 + j) =
      ((Sha2.pad bytes).getD (64 * block + 4 * i + j) 0).toNat := by
    intro j hj
    rw [paddedByte_eq (by omega), Nat.mul_comm block, Nat.mul_comm i]
  apply BitVec.eq_of_toNat_eq
  rw [Sha2.wordAt, toNat_append_byte, toNat_append_byte, toNat_append_byte, UInt32.toNat_toBitVec, toNat_blockWord hbyte]
  rfl

/-- The source shifts each byte of a word to its place. -/
theorem blockWord_or (bytes : List UInt8) (block i : Nat) :
    blockWord (Search.textOf bytes) block i = (List.range 4).foldl (fun w j =>
      w ||| UInt32.ofNat (paddedByte (Search.textOf bytes) (block * 64 + i * 4 + j)) <<< UInt32.ofNat (24 - j * 8))
      0 := by
  have hlt (j : Nat) := paddedByte_lt bytes (block * 64 + i * 4 + j)
  have hor := toNat_bytes_high (hlt 0) (hlt 1) (hlt 2) (hlt 3)
  apply UInt32.toNat_inj.mp
  exact (toNat_blockWord fun _ _ => rfl).trans hor.symm

/-! ## A block -/

theorem rotr_eq {x n : UInt32} (hn : 0 < n.toNat) (h : n.toNat < 32) :
    (rotr x n).toBitVec = x.toBitVec.rotateRight n.toNat :=
  toBitVec_rotr hn h

theorem round_eq (h : Words) (k w : UInt32) : (round h (k, w)).vars = Sha2.round h.vars k.toBitVec w.toBitVec := by
  simp [round, Words.vars, Sha2.round, Sha2.bigSigma0, Sha2.bigSigma1, Sha2.ch, Sha2.maj, rotr_eq]

theorem length_extend (w : List UInt32) : (extend w).length = w.length + 1 := by
  rw [extend, List.length_append, List.length_singleton]

/-- Extended words continue the schedule of the standard. -/
theorem extend_eq {block : Nat → Sha2.Word} {w : List UInt32} (hlength : 16 ≤ w.length)
    (h : ∀ t < w.length, (w.getD t 0).toBitVec = Sha2.schedule block t) :
    ∀ t < (extend w).length, ((extend w).getD t 0).toBitVec = Sha2.schedule block t := by
  intro t ht
  rw [length_extend] at ht
  rcases Nat.lt_succ_iff_lt_or_eq.mp ht with hlt | rfl
  · rw [extend, List.getD_append _ _ _ _ hlt, h t hlt]
  · rw [extend, List.getD_append_right _ _ _ _ le_rfl, Nat.sub_self, List.getD_cons_zero, Sha2.schedule_ge hlength,
      ← h _ (by omega), ← h _ (by omega), ← h _ (by omega), ← h _ (by omega)]
    simp [rotr_eq, Sha2.smallSigma0, Sha2.smallSigma1]
    ac_rfl

theorem schedule_eq (bytes : List UInt8) {block : Nat} (hblock : block < blocksOf (Search.textOf bytes)) {t : Nat}
    (ht : t < 64) : ((schedule (Search.textOf bytes) block).getD t 0).toBitVec =
      Sha2.schedule (fun i => Sha2.wordAt (Sha2.pad bytes) (64 * block + 4 * i)) t := by
  have hrun : ∀ n, (extend^[n] ((List.range 16).map (blockWord (Search.textOf bytes) block))).length = 16 + n ∧
      ∀ t < 16 + n, ((extend^[n] ((List.range 16).map (blockWord (Search.textOf bytes) block))).getD t 0).toBitVec =
        Sha2.schedule (fun i => Sha2.wordAt (Sha2.pad bytes) (64 * block + 4 * i)) t := by
    intro n
    induction n with
    | zero =>
      refine ⟨by simp, fun t ht => ?_⟩
      rw [Function.iterate_zero, id, List.getD_eq_getElem _ _ (by simpa using ht), List.getElem_map, List.getElem_range,
        blockWord_eq hblock ht, Sha2.schedule_lt ht]
    | succ n ih =>
      obtain ⟨hlength, hwords⟩ := ih
      rw [Function.iterate_succ_apply']
      have hlength' := (length_extend _).trans (congrArg (· + 1) hlength)
      refine ⟨hlength', ?_⟩
      rw [← Nat.add_assoc, ← hlength']
      exact extend_eq (by omega) (hlength ▸ hwords)
  exact (hrun 48).2 t ht

theorem length_schedule (input : Text) (block : Nat) : (schedule input block).length = 64 := by
  have hrun : ∀ n w, (extend^[n] w).length = w.length + n := by
    intro n w
    induction n with
    | zero => rfl
    | succ n ih => rw [Function.iterate_succ_apply', length_extend, ih, Nat.add_assoc]
  rw [schedule, hrun, List.length_map, List.length_range]

theorem zip_schedule (input : Text) (block : Nat) :
    k.zip (schedule input block) = (List.range 64).map fun t => (k.getD t 0, (schedule input block).getD t 0) := by
  have hk : k.length = 64 := by decide
  have hlength := length_schedule input block
  apply List.ext_getElem
  · rw [List.length_zip, hk, hlength, List.length_map, List.length_range, Nat.min_self]
  · intro t ht ht'
    rw [List.length_map, List.length_range] at ht'
    rw [List.getElem_zip, List.getElem_map, List.getElem_range, List.getD_eq_getElem _ _ (by omega),
      List.getD_eq_getElem _ _ (by omega)]

theorem nextBlock_eq (bytes : List UInt8) (h : Words) {block : Nat} (hblock : block < blocksOf (Search.textOf bytes)) :
    (nextBlock (Search.textOf bytes) h block).vars =
      Sha2.compress h.vars fun i => Sha2.wordAt (Sha2.pad bytes) (64 * block + 4 * i) := by
  have hround : ∀ t ∈ List.range 64, ∀ h : Words,
      (round h (k.getD t 0, (schedule (Search.textOf bytes) block).getD t 0)).vars = Sha2.round h.vars (Sha2.K t)
        (Sha2.schedule (fun i => Sha2.wordAt (Sha2.pad bytes) (64 * block + 4 * i)) t) := by
    intro t ht h
    have hlt := List.mem_range.mp ht
    rw [round_eq, k_eq hlt, schedule_eq bytes hblock hlt]
  rw [Sha2.compress, ← foldl_sim hround h, nextBlock, zip_schedule, List.foldl_map]
  simp only [Words.vars, UInt32.toBitVec_add, add_comm]

/-! ## The digest -/

theorem hexWord_eq (w : UInt32) : hexWord w = Sha2.hexWord w.toBitVec := by
  have hdigit : ∀ n < 16, hexDigit n = n.digitChar := by decide
  have hlt : w.toBitVec.toNat < 16 ^ (7 + 1) := w.toNat_lt
  rw [Sha2.hexWord, leftpad_toDigits (by decide) hlt]
  exact List.map_congr_left fun i _ => hdigit _ (Nat.mod_lt _ (by decide))

end Sha256

/-- The digest is that of the standard, of every message that has one. -/
theorem sha256Hex_eq (bytes : List UInt8) (h : bytes.length < 2 ^ 61) :
    Sha2.hexDigest bytes = some (sha256Hex (Search.textOf bytes)) := by
  have hblocks : (Sha2.pad bytes).length / 64 = Sha256.blocksOf (Search.textOf bytes) := by
    rw [Sha2.length_pad, Nat.mul_div_cancel _ (by decide), Sha256.blocksOf, Search.textOf, List.length_map]
  have hloop : Sha2.hash (Sha2.pad bytes) = ((List.range (Sha256.blocksOf (Search.textOf bytes))).foldl
      (Sha256.nextBlock (Search.textOf bytes)) Sha256.start).vars := by
    rw [Sha2.hash, hblocks, ← Sha256.start_eq]
    exact (foldl_sim (fun block hblock h => Sha256.nextBlock_eq bytes h (List.mem_range.mp hblock)) _).symm
  rw [Sha2.hexDigest, if_pos (by omega), hloop, sha256Hex]
  simp only [List.flatMap_cons, List.flatMap_nil, Sha256.hexWord_eq, Sha256.Words.vars]

theorem sha256Hex_eq_abc :
    [0x61, 0x62, 0x63].length < 2 ^ 61 ∧
      Sha2.hexDigest [0x61, 0x62, 0x63] = some (sha256Hex (Search.textOf [0x61, 0x62, 0x63])) :=
  ⟨by decide, sha256Hex_eq _ (by decide)⟩

end Didi.Scenario
