import Didi.Lib.Blocks
import Mathlib.Analysis.SpecialFunctions.Pow.NthRootLemmas
import Mathlib.Data.Nat.Prime.Basic
import Mathlib.Data.Nat.Sqrt
import Mathlib.Data.List.GetD

/-!
# SHA-256 of a byte string

The digest as the standard defines it.

* `Sha2.pad` : the message, a one bit, zeros, and the number of its bits in eight bytes;
* `Sha2.schedule`, `Sha2.round`, `Sha2.compress` : what a block of sixteen words does to the eight words of the hash;
* `Sha2.fraction` : the constants, which are roots of primes;
* `Sha2.hexDigest` : the digest in hexadecimal. A message of `2 ^ 64` bits or more has none.
-/

namespace Sha2
open Blocks

abbrev Word := BitVec 32

/-! ## Constants -/

/-- The first 32 bits of the fractional part of the root. -/
def fraction (n p : Nat) : Word := BitVec.ofNat 32 (Nat.nthRoot n (p * 2 ^ (32 * n)))

def primes : List Nat := (List.range 312).filter (Nat.Prime ·)

def K (t : Nat) : Word := fraction 3 (primes.getD t 0)

/-- The words of the hash, or the working variables. -/
structure Vars where
  a : Word
  b : Word
  c : Word
  d : Word
  e : Word
  f : Word
  g : Word
  h : Word

def start : Vars :=
  ⟨fraction 2 2, fraction 2 3, fraction 2 5, fraction 2 7, fraction 2 11, fraction 2 13, fraction 2 17, fraction 2 19⟩

/-! ## Padding -/

def bigEndian (width n : Nat) : List UInt8 := (List.range width).map fun i => UInt8.ofNat (n / 256 ^ (width - 1 - i))

def pad (message : List UInt8) : List UInt8 :=
  message ++ 0x80 :: (List.replicate (zeros message.length) 0 ++ bigEndian 8 (8 * message.length))

def wordAt (bytes : List UInt8) (pos : Nat) : Word :=
  (bytes.getD pos 0).toBitVec ++ (bytes.getD (pos + 1) 0).toBitVec ++ (bytes.getD (pos + 2) 0).toBitVec ++
    (bytes.getD (pos + 3) 0).toBitVec

/-! ## Hashing -/

def ch (x y z : Word) : Word := (x &&& y) ^^^ (~~~x &&& z)

def maj (x y z : Word) : Word := (x &&& y) ^^^ (x &&& z) ^^^ (y &&& z)

def bigSigma0 (x : Word) : Word := x.rotateRight 2 ^^^ x.rotateRight 13 ^^^ x.rotateRight 22

def bigSigma1 (x : Word) : Word := x.rotateRight 6 ^^^ x.rotateRight 11 ^^^ x.rotateRight 25

def smallSigma0 (x : Word) : Word := x.rotateRight 7 ^^^ x.rotateRight 18 ^^^ (x >>> 3)

def smallSigma1 (x : Word) : Word := x.rotateRight 17 ^^^ x.rotateRight 19 ^^^ (x >>> 10)

def schedule (block : Nat → Word) (t : Nat) : Word :=
  if t < 16 then block t
  else smallSigma1 (schedule block (t - 2)) + schedule block (t - 7) + smallSigma0 (schedule block (t - 15)) +
    schedule block (t - 16)

def round (v : Vars) (k w : Word) : Vars :=
  let t1 := v.h + bigSigma1 v.e + ch v.e v.f v.g + k + w
  let t2 := bigSigma0 v.a + maj v.a v.b v.c
  ⟨t1 + t2, v.a, v.b, v.c, v.d + t1, v.e, v.f, v.g⟩

def compress (h : Vars) (block : Nat → Word) : Vars :=
  let v := (List.range 64).foldl (fun v t => round v (K t) (schedule block t)) h
  ⟨v.a + h.a, v.b + h.b, v.c + h.c, v.d + h.d, v.e + h.e, v.f + h.f, v.g + h.g, v.h + h.h⟩

def hash (padded : List UInt8) : Vars :=
  (List.range (padded.length / 64)).foldl (fun h i => compress h fun t => wordAt padded (64 * i + 4 * t)) start

def hexWord (w : Word) : List Char := List.leftpad 8 '0' (Nat.toDigits 16 w.toNat)

def hexDigest (message : List UInt8) : Option (List Char) :=
  if 8 * message.length < 2 ^ 64 then
    let h := hash (pad message)
    some ([h.a, h.b, h.c, h.d, h.e, h.f, h.g, h.h].flatMap hexWord)
  else none

/-! ## Lemmas -/

/-- The padded message ends with a block. -/
theorem length_pad (message : List UInt8) : (pad message).length = (message.length + 72) / 64 * 64 := by
  simp only [pad, bigEndian, zeros, List.length_append, List.length_cons, List.length_replicate, List.length_map,
    List.length_range]
  omega

/-- The byte at a place of the padded message. -/
theorem getD_pad_length (message : List UInt8) : (pad message).getD message.length 0 = 0x80 := by
  rw [pad, List.getD_append_right _ _ _ _ le_rfl, Nat.sub_self, List.getD_cons_zero]

theorem getD_pad_zeros {message : List UInt8} {i : Nat} (h : i < zeros message.length) :
    (pad message).getD (message.length + (i + 1)) 0 = 0 := by
  rw [pad, List.getD_append_right _ _ _ _ (Nat.le_add_right _ _), Nat.add_sub_cancel_left, List.getD_cons_succ,
    List.getD_append _ _ _ _ (by rwa [List.length_replicate]), List.getD_replicate 0 h]

theorem getD_pad_last {message : List UInt8} {i : Nat} (h : i < 8) :
    (pad message).getD (message.length + (zeros message.length + i + 1)) 0 =
      UInt8.ofNat (8 * message.length / 256 ^ (7 - i)) := by
  rw [pad, List.getD_append_right _ _ _ _ (Nat.le_add_right _ _), Nat.add_sub_cancel_left, List.getD_cons_succ,
    List.getD_append_right _ _ _ _ (by rw [List.length_replicate]; exact Nat.le_add_right _ _), List.length_replicate,
    Nat.add_sub_cancel_left, bigEndian, List.getD_eq_getElem _ _ (by rwa [List.length_map, List.length_range]),
    List.getElem_map, List.getElem_range]

theorem fraction_eq {n p q w : Nat} (hn : n ≠ 0) (hle : (q * 2 ^ 32 + w) ^ n ≤ p * 2 ^ (32 * n))
    (hlt : p * 2 ^ (32 * n) < (q * 2 ^ 32 + w + 1) ^ n) : fraction n p = BitVec.ofNat 32 w := by
  have hroot : Nat.nthRoot n (p * 2 ^ (32 * n)) = q * 2 ^ 32 + w :=
    Nat.le_antisymm (Nat.lt_succ_iff.mp ((Nat.nthRoot_lt_iff hn).mpr hlt)) ((Nat.le_nthRoot_iff hn).mpr hle)
  apply BitVec.eq_of_toNat_eq
  rw [fraction, hroot, BitVec.toNat_ofNat, BitVec.toNat_ofNat, Nat.mul_add_mod_self_right]

theorem schedule_lt {block : Nat → Word} {t : Nat} (h : t < 16) : schedule block t = block t := by
  rw [schedule, if_pos h]

theorem schedule_ge {block : Nat → Word} {t : Nat} (h : 16 ≤ t) :
    schedule block t = smallSigma1 (schedule block (t - 2)) + schedule block (t - 7) +
      smallSigma0 (schedule block (t - 15)) + schedule block (t - 16) := by
  rw [schedule, if_neg (Nat.not_lt.mpr h)]

end Sha2
