import Didi.Lib.Blocks
import Mathlib.Data.List.GetD

/-!
# MD5 of a byte string

The digest as its specification defines it.

* `Md5.pad` : the message, a one bit, zeros, and the number of its bits, of which the low 64 bits are kept;
* `Md5.operation` : one of the 64 operations, on the register whose turn it is;
* `Md5.hexDigest` : the registers in hexadecimal, the low byte first.
-/

namespace Md5
open Blocks

abbrev Word := BitVec 32

structure Registers where
  a : Word
  b : Word
  c : Word
  d : Word

def start : Registers := ⟨0x67452301, 0xefcdab89, 0x98badcfe, 0x10325476⟩

/-! ## Tables -/

/-- The integer part of `2 ^ 32` times the sine of the number of the operation, without its sign. -/
def T : List Nat :=
  [3614090360, 3905402710, 606105819, 3250441966, 4118548399, 1200080426, 2821735955, 4249261313, 1770035416,
    2336552879, 4294925233, 2304563134, 1804603682, 4254626195, 2792965006, 1236535329, 4129170786, 3225465664,
    643717713, 3921069994, 3593408605, 38016083, 3634488961, 3889429448, 568446438, 3275163606, 4107603335,
    1163531501, 2850285829, 4243563512, 1735328473, 2368359562, 4294588738, 2272392833, 1839030562, 4259657740,
    2763975236, 1272893353, 4139469664, 3200236656, 681279174, 3936430074, 3572445317, 76029189, 3654602809,
    3873151461, 530742520, 3299628645, 4096336452, 1126891415, 2878612391, 4237533241, 1700485571, 2399980690,
    4293915773, 2240044497, 1873313359, 4264355552, 2734768916, 1309151649, 4149444226, 3174756917, 718787259,
    3951481745]

/-- The word of the block that each operation takes. -/
def K : List Nat :=
  [0, 1, 2, 3, 4, 5, 6, 7, 8, 9, 10, 11, 12, 13, 14, 15, 1, 6, 11, 0, 5, 10, 15, 4, 9, 14, 3, 8, 13, 2, 7, 12, 5, 8, 11,
    14, 1, 4, 7, 10, 13, 0, 3, 6, 9, 12, 15, 2, 0, 7, 14, 5, 12, 3, 10, 1, 8, 15, 6, 13, 4, 11, 2, 9]

/-- The shifts of each round. -/
def S : List (List Nat) := [[7, 12, 17, 22], [5, 9, 14, 20], [4, 11, 16, 23], [6, 10, 15, 21]]

/-! ## Padding -/

def littleEndian (width n : Nat) : List UInt8 := (List.range width).map fun i => UInt8.ofNat (n / 256 ^ i)

def pad (message : List UInt8) : List UInt8 :=
  message ++ 0x80 :: (List.replicate (zeros message.length) 0 ++ littleEndian 8 (8 * message.length))

def wordAt (bytes : List UInt8) (pos : Nat) : Word :=
  (bytes.getD (pos + 3) 0).toBitVec ++ (bytes.getD (pos + 2) 0).toBitVec ++ (bytes.getD (pos + 1) 0).toBitVec ++
    (bytes.getD pos 0).toBitVec

/-! ## Hashing -/

def F (x y z : Word) : Word := (x &&& y) ||| (~~~x &&& z)

def G (x y z : Word) : Word := (x &&& z) ||| (y &&& ~~~z)

def H (x y z : Word) : Word := x ^^^ y ^^^ z

def I (x y z : Word) : Word := y ^^^ (x ||| ~~~z)

def function (i : Nat) : Word → Word → Word → Word :=
  match i / 16 with
  | 0 => F
  | 1 => G
  | 2 => H
  | _ => I

/-- What an operation puts into its register. -/
def mixed (block : List UInt8) (i : Nat) (a b c d : Word) : Word :=
  b + (a + function i b c d + wordAt block (4 * K.getD i 0) + BitVec.ofNat 32 (T.getD i 0)).rotateLeft
    ((S.getD (i / 16) []).getD (i % 4) 0)

def operation (block : List UInt8) (r : Registers) (i : Nat) : Registers :=
  match i % 4 with
  | 0 => { r with a := mixed block i r.a r.b r.c r.d }
  | 1 => { r with d := mixed block i r.d r.a r.b r.c }
  | 2 => { r with c := mixed block i r.c r.d r.a r.b }
  | _ => { r with b := mixed block i r.b r.c r.d r.a }

def compress (r : Registers) (block : List UInt8) : Registers :=
  let r' := (List.range 64).foldl (operation block) r
  ⟨r'.a + r.a, r'.b + r.b, r'.c + r.c, r'.d + r.d⟩

def hash (padded : List UInt8) : Registers :=
  (List.range (padded.length / 64)).foldl (fun r i => compress r ((padded.drop (64 * i)).take 64)) start

def hexByte (n : Nat) : List Char := List.leftpad 2 '0' (Nat.toDigits 16 n)

def hexWord (w : Word) : List Char := (List.range 4).flatMap fun i => hexByte (w.toNat / 256 ^ i % 256)

def hexDigest (message : List UInt8) : List Char :=
  let r := hash (pad message)
  [r.a, r.b, r.c, r.d].flatMap hexWord

/-- The padded message ends with a block. -/
theorem length_pad (message : List UInt8) : (pad message).length = 64 * ((message.length + 72) / 64) := by
  simp only [pad, littleEndian, zeros, List.length_append, List.length_cons, List.length_replicate, List.length_map,
    List.length_range]
  omega

/-- The blocks of the padded message are taken one after another. -/
theorem hash_pad (message : List UInt8) : feed compress 64 start (pad message) = (hash (pad message), []) := by
  rw [feed_eq_foldl (by decide) (length_pad message), hash, length_pad, Nat.mul_div_cancel_left _ (by decide)]

end Md5
