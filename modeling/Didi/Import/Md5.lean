import Didi.Config.Text

/-!
# The digest of an imported source

* `Md5Digest` : the state of a digest, the bytes that wait for a whole block, and the number of bits so far;
* `Md5Digest.absorb`, `Md5Digest.update` : bytes that come in;
* `Md5Digest.hex` : the digest in hexadecimal;
* `md5Hex`, `md5FilesHex` : the digest of a text, and of several files one after another.
-/

namespace Didi.Import
open Didi.Config

def kMd5Sine : List UInt32 :=
  [0xd76aa478, 0xe8c7b756, 0x242070db, 0xc1bdceee, 0xf57c0faf, 0x4787c62a, 0xa8304613, 0xfd469501, 0x698098d8,
    0x8b44f7af, 0xffff5bb1, 0x895cd7be, 0x6b901122, 0xfd987193, 0xa679438e, 0x49b40821, 0xf61e2562, 0xc040b340,
    0x265e5a51, 0xe9b6c7aa, 0xd62f105d, 0x02441453, 0xd8a1e681, 0xe7d3fbc8, 0x21e1cde6, 0xc33707d6, 0xf4d50d87,
    0x455a14ed, 0xa9e3e905, 0xfcefa3f8, 0x676f02d9, 0x8d2a4c8a, 0xfffa3942, 0x8771f681, 0x6d9d6122, 0xfde5380c,
    0xa4beea44, 0x4bdecfa9, 0xf6bb4b60, 0xbebfbc70, 0x289b7ec6, 0xeaa127fa, 0xd4ef3085, 0x04881d05, 0xd9d4d039,
    0xe6db99e5, 0x1fa27cf8, 0xc4ac5665, 0xf4292244, 0x432aff97, 0xab9423a7, 0xfc93a039, 0x655b59c3, 0x8f0ccc92,
    0xffeff47d, 0x85845dd1, 0x6fa87e4f, 0xfe2ce6e0, 0xa3014314, 0x4e0811a1, 0xf7537e82, 0xbd3af235, 0x2ad7d2bb,
    0xeb86d391]

def kMd5Shift : List UInt32 :=
  [7, 12, 17, 22, 7, 12, 17, 22, 7, 12, 17, 22, 7, 12, 17, 22, 5, 9, 14, 20, 5, 9, 14, 20, 5, 9, 14, 20, 5, 9, 14, 20,
    4, 11, 16, 23, 4, 11, 16, 23, 4, 11, 16, 23, 4, 11, 16, 23, 6, 10, 15, 21, 6, 10, 15, 21, 6, 10, 15, 21, 6, 10,
    15, 21]

structure Md5State where
  a : UInt32 := 0x67452301
  b : UInt32 := 0xefcdab89
  c : UInt32 := 0x98badcfe
  d : UInt32 := 0x10325476

structure Md5Digest where
  state : Md5State := {}
  bits : UInt64 := 0
  block : List UInt8 := List.replicate 64 0
  pending : Nat := 0
  length_block : block.length = 64 := by decide
  pending_lt : pending < 64 := by decide

namespace Md5Digest

/-- The little-endian word at this place of a block. -/
def blockWord (block : List UInt8) (index : Nat) : UInt32 :=
  (block.getD (index * 4) 0).toUInt32 ||| (block.getD (index * 4 + 1) 0).toUInt32 <<< 8 |||
    (block.getD (index * 4 + 2) 0).toUInt32 <<< 16 ||| (block.getD (index * 4 + 3) 0).toUInt32 <<< 24

/-- What a round mixes in, and the word it takes. -/
def mixed (round : Nat) (b c d : UInt32) : UInt32 × Nat :=
  if round < 16 then ((b &&& c) ||| (~~~b &&& d), round)
  else if round < 32 then ((d &&& b) ||| (~~~d &&& c), (5 * round + 1) % 16)
  else if round < 48 then (b ^^^ c ^^^ d, (3 * round + 5) % 16)
  else (c ^^^ (b ||| ~~~d), 7 * round % 16)

def transformRound (words : List UInt32) (s : Md5State) (round : Nat) : Md5State :=
  let m := mixed round s.b s.c s.d
  let sum := s.a + m.1 + kMd5Sine.getD round 0 + words.getD m.2 0
  let shift := kMd5Shift.getD round 0
  ⟨s.d, s.b + ((sum <<< shift) ||| (sum >>> (32 - shift))), s.b, s.c⟩

def transform (s : Md5State) (block : List UInt8) : Md5State :=
  let words := (List.range 16).map (blockWord block)
  let r := (List.range 64).foldl (transformRound words) s
  ⟨s.a + r.a, s.b + r.b, s.c + r.c, s.d + r.d⟩

/-- The block with bytes copied behind those that wait. -/
def fill (m : Md5Digest) (data : List UInt8) : List UInt8 :=
  m.block.take m.pending ++ data ++ m.block.drop (m.pending + data.length)

theorem length_fill (m : Md5Digest) {data : List UInt8} (h : m.pending + data.length ≤ 64) :
    (m.fill data).length = 64 := by
  have hlength := m.length_block
  simp only [fill, List.length_append, List.length_take, List.length_drop]
  omega

def absorb (m : Md5Digest) (data : List UInt8) : Md5Digest :=
  if hdata : data = [] then m
  else
    let taken := min data.length (64 - m.pending)
    have htaken : (data.take taken).length = taken := List.length_take_of_le (Nat.min_le_left _ _)
    have hfill : (m.fill (data.take taken)).length = 64 := by
      have hlt := m.pending_lt
      exact m.length_fill (by omega)
    if hfull : m.pending + taken = 64 then
      absorb ⟨transform m.state (m.fill (data.take taken)), m.bits, m.fill (data.take taken), 0, hfill, by decide⟩
        (data.drop taken)
    else
      absorb ⟨m.state, m.bits, m.fill (data.take taken), m.pending + taken, hfill, by
        have hlt := m.pending_lt
        omega⟩ (data.drop taken)
termination_by data.length
decreasing_by all_goals
  have hlt := m.pending_lt
  have hpos := List.length_pos_iff.mpr hdata
  rw [List.length_drop]
  omega

def update (m : Md5Digest) (data : List UInt8) : Md5Digest :=
  { m with bits := m.bits + UInt64.ofNat data.length * 8 }.absorb data

def kHexDigits : Text := "0123456789abcdef".toList

def hexWord (word : UInt32) : Text :=
  (List.range 4).flatMap fun byte =>
    let value := word.toNat / 256 ^ byte % 256
    [kHexDigits.getD (value / 16) '0', kHexDigits.getD (value % 16) '0']

def lengthBytes (bits : UInt64) : List UInt8 :=
  (List.range 8).map fun index => UInt8.ofNat (bits.toNat / 256 ^ index % 256)

/-- The padding, of which as much is absorbed as leaves room for the length. -/
def padding (pending : Nat) : List UInt8 :=
  (0x80 :: List.replicate 63 0).take (if pending < 56 then 56 - pending else 64 + 56 - pending)

def hex (m : Md5Digest) : Text :=
  let r := ((m.absorb (padding (m.pending % 64))).absorb (lengthBytes m.bits)).state
  [r.a, r.b, r.c, r.d].flatMap hexWord

end Md5Digest

def md5Hex (text : List UInt8) : Text := (Md5Digest.update {} text).hex

/-! ## Files -/

/-- A file as it is read: its size, and the pieces that the stream gives before it ends. -/
structure ReadFile where
  size : Option Nat
  pieces : Option (List (List UInt8))
  bad : Bool := false

def md5FilesFrom (m : Md5Digest) (remaining : Nat) : List ReadFile → Option Text
  | [] => some m.hex
  | file :: files =>
    match file.size, file.pieces with
    | some size, some pieces =>
      if remaining < size || file.bad then none
      else md5FilesFrom (pieces.foldl Md5Digest.update m) (remaining - size) files
    | _, _ => none

def md5FilesHex (paths : List ReadFile) (maxBytes : Nat) : Option Text := md5FilesFrom {} maxBytes paths

def md5FileHex (path : ReadFile) (maxBytes : Nat) : Option Text := md5FilesHex [path] maxBytes

end Didi.Import
