import Didi.Config.Text

/-!
# The digest of a file

`sha256Hex` : the SHA-256 of a text in lower-case hexadecimal, block by block as the source computes it.
-/

namespace Didi.Scenario
open Config

namespace Sha256

def k : List UInt32 :=
  [0x428a2f98, 0x71374491, 0xb5c0fbcf, 0xe9b5dba5, 0x3956c25b, 0x59f111f1, 0x923f82a4, 0xab1c5ed5, 0xd807aa98,
    0x12835b01, 0x243185be, 0x550c7dc3, 0x72be5d74, 0x80deb1fe, 0x9bdc06a7, 0xc19bf174, 0xe49b69c1, 0xefbe4786,
    0x0fc19dc6, 0x240ca1cc, 0x2de92c6f, 0x4a7484aa, 0x5cb0a9dc, 0x76f988da, 0x983e5152, 0xa831c66d, 0xb00327c8,
    0xbf597fc7, 0xc6e00bf3, 0xd5a79147, 0x06ca6351, 0x14292967, 0x27b70a85, 0x2e1b2138, 0x4d2c6dfc, 0x53380d13,
    0x650a7354, 0x766a0abb, 0x81c2c92e, 0x92722c85, 0xa2bfe8a1, 0xa81a664b, 0xc24b8b70, 0xc76c51a3, 0xd192e819,
    0xd6990624, 0xf40e3585, 0x106aa070, 0x19a4c116, 0x1e376c08, 0x2748774c, 0x34b0bcb5, 0x391c0cb3, 0x4ed8aa4a,
    0x5b9cca4f, 0x682e6ff3, 0x748f82ee, 0x78a5636f, 0x84c87814, 0x8cc70208, 0x90befffa, 0xa4506ceb, 0xbef9a3f7,
    0xc67178f2]

structure Words where
  a : UInt32
  b : UInt32
  c : UInt32
  d : UInt32
  e : UInt32
  f : UInt32
  g : UInt32
  v : UInt32

def start : Words :=
  ⟨0x6a09e667, 0xbb67ae85, 0x3c6ef372, 0xa54ff53a, 0x510e527f, 0x9b05688c, 0x1f83d9ab, 0x5be0cd19⟩

def rotr (x n : UInt32) : UInt32 := (x >>> n) ||| (x <<< (32 - n))

def blocksOf (input : Text) : Nat := (input.length + 9 + 63) / 64

/-- A byte of the padded text: the text, a one bit, zeros and the number of its bits. -/
def paddedByte (input : Text) (pos : Nat) : Nat :=
  let blocks := blocksOf input
  if pos < input.length then (input.getD pos '\x00').toNat
  else if pos = input.length then 0x80
  else if blocks * 64 - 8 ≤ pos then input.length * 8 / 256 ^ (blocks * 64 - 1 - pos) % 256
  else 0

/-- The big-endian word at this place of a block. -/
def blockWord (input : Text) (block i : Nat) : UInt32 :=
  UInt32.ofNat ((List.range 4).foldl (fun word j => word * 256 + paddedByte input (block * 64 + i * 4 + j)) 0)

/-- The next word of a schedule. -/
def extend (w : List UInt32) : List UInt32 :=
  let i := w.length
  let w15 := w.getD (i - 15) 0
  let w2 := w.getD (i - 2) 0
  w ++ [w.getD (i - 16) 0 + (rotr w15 7 ^^^ rotr w15 18 ^^^ (w15 >>> 3)) + w.getD (i - 7) 0 +
    (rotr w2 17 ^^^ rotr w2 19 ^^^ (w2 >>> 10))]

def schedule (input : Text) (block : Nat) : List UInt32 :=
  extend^[48] ((List.range 16).map (blockWord input block))

def round (h : Words) (kw : UInt32 × UInt32) : Words :=
  let t1 := h.v + (rotr h.e 6 ^^^ rotr h.e 11 ^^^ rotr h.e 25) + ((h.e &&& h.f) ^^^ (~~~h.e &&& h.g)) + kw.1 + kw.2
  let t2 := (rotr h.a 2 ^^^ rotr h.a 13 ^^^ rotr h.a 22) + ((h.a &&& h.b) ^^^ (h.a &&& h.c) ^^^ (h.b &&& h.c))
  ⟨t1 + t2, h.a, h.b, h.c, h.d + t1, h.e, h.f, h.g⟩

def nextBlock (input : Text) (h : Words) (block : Nat) : Words :=
  let r := (k.zip (schedule input block)).foldl round h
  ⟨h.a + r.a, h.b + r.b, h.c + r.c, h.d + r.d, h.e + r.e, h.f + r.f, h.g + r.g, h.v + r.v⟩

def hexDigit (n : Nat) : Char := "0123456789abcdef".toList.getD n '0'

def hexWord (v : UInt32) : Text := (List.range 8).map fun i => hexDigit (v.toNat / 16 ^ (7 - i) % 16)

end Sha256

open Sha256 in
def sha256Hex (input : Text) : Text :=
  let h := (List.range (blocksOf input)).foldl (nextBlock input) start
  [h.a, h.b, h.c, h.d, h.e, h.f, h.g, h.v].flatMap hexWord

theorem length_sha256Hex (input : Text) : (sha256Hex input).length = 64 := by
  simp [sha256Hex, Sha256.hexWord]

theorem sha256Hex_ne_nil (input : Text) : sha256Hex input ≠ [] := by
  intro h
  have hlength := length_sha256Hex input
  rw [h] at hlength
  cases hlength

end Didi.Scenario
