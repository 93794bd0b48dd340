import Didi.Import.Md5
import Didi.Lib.Md5
import Didi.Lib.Word32

/-!
# The digest of an imported source is MD5

* `Md5Digest.view_absorb` : bytes that come in are taken block by block, however they are cut;
* `Md5Digest.transform_eq` : what the source does to a block, whose registers change places in each round;
* `md5_eq` : the digest of any number of updates is that of their bytes one after another;
* `md5FilesHex_iff` : when several files have a digest, and which.
-/

namespace Didi.Import
open Didi.Config Blocks Word32
variable {m : Md5Digest} {bytes : List UInt8}

namespace Md5Digest

/-! ## Bytes that come in -/

/-- The state, and the bytes that wait. -/
def view (m : Md5Digest) : Md5State × List UInt8 := (m.state, m.block.take m.pending)

theorem length_waiting (m : Md5Digest) : (m.block.take m.pending).length = m.pending :=
  List.length_take_of_le (m.length_block ▸ m.pending_lt.le)

theorem take_fill (m : Md5Digest) (data : List UInt8) :
    (m.fill data).take (m.pending + data.length) = m.block.take m.pending ++ data := by
  rw [fill, List.take_left']
  rw [List.length_append, m.length_waiting]

theorem absorb_nil (m : Md5Digest) : m.absorb [] = m := by
  rw [absorb, dif_pos rfl]

/-- Bytes that leave a block open only wait. -/
theorem absorb_fits (m : Md5Digest) {data : List UInt8} (h : m.pending + data.length < 64) :
    (m.absorb data).view = (m.state, m.block.take m.pending ++ data) ∧ (m.absorb data).bits = m.bits := by
  by_cases hdata : data = []
  · rw [hdata, absorb_nil, List.append_nil]
    exact ⟨rfl, rfl⟩
  · have htaken : min data.length (64 - m.pending) = data.length := Nat.min_eq_left (by omega)
    have hopen : ¬ m.pending + min data.length (64 - m.pending) = 64 := by omega
    rw [absorb, dif_neg hdata]
    simp only [hopen, ↓reduceDIte]
    rw [List.drop_eq_nil_of_le htaken.ge, absorb_nil]
    refine ⟨Prod.ext rfl ?_, rfl⟩
    change (m.fill (data.take (min data.length (64 - m.pending)))).take (m.pending + _) = _
    rw [htaken, List.take_length, take_fill]

/-- Bytes that fill a block are a step of the state, and the rest follows. -/
theorem absorb_fills (m : Md5Digest) {data : List UInt8} (h : 64 ≤ m.pending + data.length) :
    ∃ m' : Md5Digest, m'.view = (transform m.state (m.block.take m.pending ++ data.take (64 - m.pending)), []) ∧
      m'.bits = m.bits ∧ m.absorb data = m'.absorb (data.drop (64 - m.pending)) := by
  have hlt := m.pending_lt
  have hdata : data ≠ [] := List.ne_nil_of_length_pos (by omega)
  have htaken : min data.length (64 - m.pending) = 64 - m.pending := Nat.min_eq_right (by omega)
  have hfull : m.pending + (data.take (64 - m.pending)).length = 64 := by
    rw [List.length_take_of_le (by omega)]
    omega
  have hlength := m.length_fill hfull.le
  have hfill : m.fill (data.take (64 - m.pending)) = m.block.take m.pending ++ data.take (64 - m.pending) := by
    rw [← take_fill, hfull, List.take_of_length_le hlength.le]
  refine ⟨⟨transform m.state (m.fill (data.take (64 - m.pending))), m.bits, _, 0, hlength, by decide⟩, ?_, rfl, ?_⟩
  · exact Prod.ext (congrArg (transform m.state) hfill) rfl
  · rw [absorb, dif_neg hdata]
    simp only [htaken]
    rw [dif_pos (by omega)]

theorem view_absorb (m : Md5Digest) (data : List UInt8) :
    (m.absorb data).view = feed transform 64 m.view.1 (m.view.2 ++ data) ∧ (m.absorb data).bits = m.bits := by
  induction hlength : data.length using Nat.strong_induction_on generalizing m data with
  | _ length ih =>
    have hlt := m.pending_lt
    have hwaiting : m.view.2.length = m.pending := m.length_waiting
    rcases Nat.lt_or_ge (m.pending + data.length) 64 with h | h
    · rw [feed_short (by rw [List.length_append]; omega)]
      exact m.absorb_fits h
    · obtain ⟨m', hview, hbits, habsorb⟩ := m.absorb_fills h
      obtain ⟨hview', hbits'⟩ := ih _ (by rw [List.length_drop]; omega) m' (data.drop (64 - m.pending)) rfl
      have hlong : 64 ≤ (m.view.2 ++ data).length := by
        rw [List.length_append]
        omega
      have htake : (m.view.2 ++ data).take 64 = m.view.2 ++ data.take (64 - m.pending) := by
        rw [List.take_append, hwaiting, List.take_of_length_le (by omega)]
      have hdrop : (m.view.2 ++ data).drop 64 = data.drop (64 - m.pending) := by
        rw [List.drop_append, hwaiting, List.drop_eq_nil_of_le (by omega), List.nil_append]
      rw [habsorb, hview', hbits', hbits, hview, List.nil_append, feed_long (by decide) hlong, htake, hdrop]
      exact ⟨rfl, rfl⟩

theorem view_update (m : Md5Digest) (data : List UInt8) :
    (m.update data).view = feed transform 64 m.view.1 (m.view.2 ++ data) ∧
      (m.update data).bits = m.bits + UInt64.ofNat data.length * 8 :=
  view_absorb { m with bits := m.bits + UInt64.ofNat data.length * 8 } data

/-- What a run of updates leaves: the whole blocks are in the state, and the rest waits. -/
structure Holds (m : Md5Digest) (bytes : List UInt8) : Prop where
  view : m.view = feed transform 64 {} bytes
  bits : m.bits = UInt64.ofNat (8 * bytes.length)

theorem holds_start : Holds {} [] := ⟨by rw [feed_short (by decide)]; rfl, rfl⟩

theorem Holds.update (h : Holds m bytes) (data : List UInt8) :
    Holds (m.update data) (bytes ++ data) := by
  obtain ⟨hview, hbits⟩ := m.view_update data
  refine ⟨?_, ?_⟩
  · rw [hview, h.view, ← feed_append (by decide)]
  · rw [hbits, h.bits, List.length_append, Nat.mul_add, UInt64.ofNat_add, Nat.mul_comm 8 data.length,
      UInt64.ofNat_mul data.length]
    rfl

theorem Holds.updates (h : Holds m bytes) (pieces : List (List UInt8)) :
    Holds (pieces.foldl Md5Digest.update m) (bytes ++ pieces.flatten) := by
  induction pieces generalizing m bytes with
  | nil => rwa [List.flatten_nil, List.append_nil]
  | cons piece pieces ih =>
    rw [List.foldl_cons, List.flatten_cons, ← List.append_assoc]
    exact ih (h.update piece)

/-! ## A block -/

/-- The words of the state as registers. -/
def registers (s : Md5State) : Md5.Registers := ⟨s.a.toBitVec, s.b.toBitVec, s.c.toBitVec, s.d.toBitVec⟩

theorem blockWord_eq (block : List UInt8) (t : Nat) : (blockWord block t).toBitVec = Md5.wordAt block (4 * t) := by
  have hlt (pos : Nat) : (block.getD pos 0).toNat < 256 := UInt8.toNat_lt _
  have hbyte (b : UInt8) : b.toUInt32 = UInt32.ofNat b.toNat := by
    rw [← UInt32.toNat_inj, UInt8.toNat_toUInt32, UInt32.toNat_ofNat_of_lt' (b.toNat_lt.trans (by decide))]
  apply BitVec.eq_of_toNat_eq
  rw [Md5.wordAt, toNat_append_byte, toNat_append_byte, toNat_append_byte, blockWord, Nat.mul_comm t]
  simp only [hbyte]
  exact toNat_bytes_low (hlt _) (hlt _) (hlt _) (hlt _)

/-- The function and the word of a round are those of its operation. -/
theorem mixed_eq {i : Nat} (hi : i < 64) (b c d : UInt32) :
    (mixed i b c d).1.toBitVec = Md5.function i b.toBitVec c.toBitVec d.toBitVec ∧
      (mixed i b c d).2 = Md5.K.getD i 0 := by
  have h0 : ∀ i < 16, i / 16 = 0 ∧ i = Md5.K.getD i 0 := by decide
  have h1 : ∀ i < 32, 16 ≤ i → i / 16 = 1 ∧ (5 * i + 1) % 16 = Md5.K.getD i 0 := by decide
  have h2 : ∀ i < 48, 32 ≤ i → i / 16 = 2 ∧ (3 * i + 5) % 16 = Md5.K.getD i 0 := by decide
  have h3 : ∀ i < 64, 48 ≤ i → i / 16 = 3 ∧ 7 * i % 16 = Md5.K.getD i 0 := by decide
  rw [mixed, Md5.function]
  split_ifs with hF hG hH
  · obtain ⟨hround, hword⟩ := h0 i hF
    rw [hround]
    exact ⟨rfl, hword⟩
  · obtain ⟨hround, hword⟩ := h1 i hG (Nat.not_lt.mp hF)
    rw [hround]
    refine ⟨?_, hword⟩
    simp only [Md5.G, UInt32.toBitVec_or, UInt32.toBitVec_and, UInt32.toBitVec_not, BitVec.and_comm]
  · obtain ⟨hround, hword⟩ := h2 i hH (Nat.not_lt.mp hG)
    rw [hround]
    exact ⟨rfl, hword⟩
  · obtain ⟨hround, hword⟩ := h3 i hi (Nat.not_lt.mp hH)
    rw [hround]
    exact ⟨rfl, hword⟩

/-- The registers as the source names them before a round: each round passes them on. -/
def turned (i : Nat) (r : Md5.Registers) : Md5.Registers :=
  match i % 4 with
  | 0 => r
  | 1 => ⟨r.d, r.a, r.b, r.c⟩
  | 2 => ⟨r.c, r.d, r.a, r.b⟩
  | _ => ⟨r.b, r.c, r.d, r.a⟩

/-- What a round adds to a register. -/
theorem sum_eq {i : Nat} (hi : i < 64) (block : List UInt8) (s : Md5State) :
    (transformRound ((List.range 16).map (blockWord block)) s i).b.toBitVec =
      Md5.mixed block i s.a.toBitVec s.b.toBitVec s.c.toBitVec s.d.toBitVec := by
  have hsine : ∀ i < 64, (kMd5Sine.getD i 0).toBitVec = BitVec.ofNat 32 (Md5.T.getD i 0) := by decide
  have hshift : ∀ i < 64, 0 < (kMd5Shift.getD i 0).toNat ∧ (kMd5Shift.getD i 0).toNat < 32 ∧
      (kMd5Shift.getD i 0).toNat = (Md5.S.getD (i / 16) []).getD (i % 4) 0 := by decide
  have hword : ∀ i < 64, Md5.K.getD i 0 < 16 := by decide
  obtain ⟨hfunction, hindex⟩ := mixed_eq hi s.b s.c s.d
  obtain ⟨hpos, hlt, hamount⟩ := hshift i hi
  have hwords : (((List.range 16).map (blockWord block)).getD (mixed i s.b s.c s.d).2 0).toBitVec =
      Md5.wordAt block (4 * Md5.K.getD i 0) := by
    have hplace : Md5.K.getD i 0 < ((List.range 16).map (blockWord block)).length := by
      rw [List.length_map, List.length_range]
      exact hword i hi
    rw [hindex, List.getD_eq_getElem _ _ hplace, List.getElem_map, List.getElem_range, blockWord_eq]
  rw [transformRound, Md5.mixed, ← hfunction, ← hwords, ← hsine i hi, ← hamount]
  simp only [UInt32.toBitVec_add, toBitVec_rotl hpos hlt]
  congr 2
  ac_rfl

theorem round_eq {block : List UInt8} {i : Nat} (hi : i < 64) {s : Md5State} {r : Md5.Registers}
    (h : registers s = turned i r) : registers (transformRound ((List.range 16).map (blockWord block)) s i) =
      turned (i + 1) (Md5.operation block r i) := by
  have hregisters : registers (transformRound ((List.range 16).map (blockWord block)) s i) =
      ⟨s.d.toBitVec, Md5.mixed block i s.a.toBitVec s.b.toBitVec s.c.toBitVec s.d.toBitVec, s.b.toBitVec,
        s.c.toBitVec⟩ := by
    rw [← sum_eq hi]
    rfl
  rw [hregisters]
  obtain ⟨ra, rb, rc, rd⟩ := r
  have hturn : i % 4 = 0 ∧ (i + 1) % 4 = 1 ∨ i % 4 = 1 ∧ (i + 1) % 4 = 2 ∨ i % 4 = 2 ∧ (i + 1) % 4 = 3 ∨
      i % 4 = 3 ∧ (i + 1) % 4 = 0 := by omega
  rcases hturn with ⟨hi, hi'⟩ | ⟨hi, hi'⟩ | ⟨hi, hi'⟩ | ⟨hi, hi'⟩
  all_goals
    simp only [turned, hi, registers, Md5.Registers.mk.injEq] at h
    obtain ⟨ha, hb, hc, hd⟩ := h
    simp only [turned, hi', Md5.operation, hi, ha, hb, hc, hd]

theorem transform_eq (s : Md5State) (block : List UInt8) :
    registers (transform s block) = Md5.compress (registers s) block := by
  have hrounds : ∀ n ≤ 64,
      registers ((List.range n).foldl (transformRound ((List.range 16).map (blockWord block))) s) =
        turned n ((List.range n).foldl (Md5.operation block) (registers s)) := by
    intro n hn
    induction n with
    | zero => rfl
    | succ n ih =>
      have hrange : List.range (n + 1) = List.range n ++ [n] := List.range_succ
      rw [hrange, List.foldl_append, List.foldl_append]
      exact round_eq hn (ih (Nat.le_of_succ_le hn))
  have hlast : registers _ = (List.range 64).foldl (Md5.operation block) (registers s) := hrounds 64 le_rfl
  rw [Md5.compress, ← hlast, transform]
  simp only [registers, UInt32.toBitVec_add, BitVec.add_comm]

/-! ## The digest -/

theorem feed_transform (bytes : List UInt8) : feed Md5.compress 64 Md5.start bytes =
    (registers (feed transform 64 {} bytes).1, (feed transform 64 {} bytes).2) := by
  change feed Md5.compress 64 (registers {}) bytes = _
  exact feed_sim (by decide) transform_eq

theorem Holds.pending_eq (h : Holds m bytes) : m.pending = bytes.length % 64 := by
  have hlength := congrArg (fun v => v.2.length) h.view
  rw [length_feed (by decide)] at hlength
  exact m.length_waiting.symm.trans hlength

theorem padding_eq (length : Nat) : padding (length % 64) = 0x80 :: List.replicate (zeros length) 0 := by
  have hcount : (if length % 64 < 56 then 56 - length % 64 else 64 + 56 - length % 64) = zeros length + 1 := by
    unfold zeros
    split_ifs <;> omega
  have hzeros : zeros length ≤ 63 := Nat.le_of_lt_succ (Nat.mod_lt _ (by decide))
  rw [padding, hcount, List.take_succ_cons, List.take_replicate, Nat.min_eq_left hzeros]

/-- The length that is counted modulo `2 ^ 64` has the same low bytes. -/
theorem lengthBytes_eq (bits : Nat) : lengthBytes (UInt64.ofNat bits) = Md5.littleEndian 8 bits := by
  refine List.map_congr_left fun i hi => ?_
  have hi : i < 8 := List.mem_range.mp hi
  have hpow : 2 ^ 64 = 256 ^ i * 256 ^ (8 - i) := by
    rw [← Nat.pow_add, Nat.add_sub_cancel' hi.le]
    rfl
  have hdvd : 256 ∣ 256 ^ (8 - i) := dvd_pow_self 256 (by omega)
  rw [← UInt8.toNat_inj, UInt8.toNat_ofNat', UInt8.toNat_ofNat', UInt64.toNat_ofNat', hpow,
    Nat.mod_mul_right_div_self, Nat.mod_mod_of_dvd _ hdvd, Nat.mod_mod]

theorem hexWord_eq (w : UInt32) : hexWord w = Md5.hexWord w.toBitVec := by
  have hdigit : ∀ n < 16, kHexDigits.getD n '0' = n.digitChar := by decide
  have hbyte : ∀ n < 256, [kHexDigits.getD (n / 16) '0', kHexDigits.getD (n % 16) '0'] = Md5.hexByte n := by
    intro n hn
    have hpad := leftpad_toDigits (show 1 < 16 by decide) (show n < 16 ^ (1 + 1) from hn)
    rw [Md5.hexByte, hpad, hdigit _ (Nat.div_lt_of_lt_mul hn), hdigit _ (Nat.mod_lt _ (by decide))]
    change [_, _] = [(n / 16 % 16).digitChar, (n / 1 % 16).digitChar]
    rw [Nat.mod_eq_of_lt (Nat.div_lt_of_lt_mul hn), Nat.div_one]
  exact List.flatMap_congr fun i _ => hbyte _ (Nat.mod_lt _ (by decide))

theorem Holds.hex_eq (h : Holds m bytes) : m.hex = Md5.hexDigest bytes := by
  have hpadding : padding (m.pending % 64) = 0x80 :: List.replicate (zeros bytes.length) 0 := by
    rw [Nat.mod_eq_of_lt m.pending_lt, h.pending_eq, padding_eq]
  have hlength : lengthBytes m.bits = Md5.littleEndian 8 (8 * bytes.length) := by rw [h.bits, lengthBytes_eq]
  have hview : ((m.absorb (padding (m.pending % 64))).absorb (lengthBytes m.bits)).view =
      feed transform 64 {} (Md5.pad bytes) := by
    rw [(view_absorb _ _).1, (view_absorb _ _).1, h.view, ← feed_append (Nat.succ_pos 63), List.append_assoc,
      ← feed_append (Nat.succ_pos 63), hpadding, hlength, List.cons_append, Md5.pad]
  have hstate : registers ((m.absorb (padding (m.pending % 64))).absorb (lengthBytes m.bits)).state =
      Md5.hash (Md5.pad bytes) := by
    have hfeed := feed_transform (Md5.pad bytes)
    rw [Md5.hash_pad, ← hview] at hfeed
    exact (congrArg Prod.fst hfeed).symm
  rw [hex, Md5.hexDigest, ← hstate]
  simp only [List.flatMap_cons, List.flatMap_nil, hexWord_eq, registers]

end Md5Digest

/-- However the bytes come in, the digest is that of all of them. -/
theorem md5_eq (updates : List (List UInt8)) :
    (updates.foldl Md5Digest.update {}).hex = Md5.hexDigest updates.flatten :=
  (Md5Digest.holds_start.updates updates).hex_eq

theorem md5Hex_eq (text : List UInt8) : md5Hex text = Md5.hexDigest text :=
  (Md5Digest.holds_start.update text).hex_eq

/-! ## Files -/

def ReadFile.content (file : ReadFile) : List UInt8 := (file.pieces.getD []).flatten

/-- Every file is read to its end, and they are no larger than what may be read. -/
structure Readable (paths : List ReadFile) (maxBytes : Nat) : Prop where
  read : ∀ file ∈ paths, file.size.isSome ∧ file.pieces.isSome ∧ file.bad = false
  fits : (paths.map fun file => file.size.getD 0).sum ≤ maxBytes

theorem readable_cons {size : Nat} {pieces : List (List UInt8)} {files : List ReadFile} {maxBytes : Nat}
    (h : size ≤ maxBytes) : Readable (⟨some size, some pieces, false⟩ :: files) maxBytes ↔
      Readable files (maxBytes - size) := by
  constructor
  · rintro ⟨hread, hfits⟩
    rw [List.map_cons, List.sum_cons, Option.getD_some] at hfits
    exact ⟨fun file hfile => hread file (List.mem_cons_of_mem _ hfile), by omega⟩
  · rintro ⟨hread, hfits⟩
    refine ⟨List.forall_mem_cons.mpr ⟨⟨rfl, rfl, rfl⟩, hread⟩, ?_⟩
    rw [List.map_cons, List.sum_cons, Option.getD_some]
    omega

theorem md5FilesFrom_eq (h : m.Holds bytes) (remaining : Nat) (files : List ReadFile)
    (digest : Text) : md5FilesFrom m remaining files = some digest ↔
      Readable files remaining ∧ digest = Md5.hexDigest (bytes ++ files.flatMap ReadFile.content) := by
  induction files generalizing m bytes remaining with
  | nil =>
    have hread : Readable [] remaining := ⟨List.forall_mem_nil _, Nat.zero_le _⟩
    rw [List.flatMap_nil, List.append_nil, ← h.hex_eq, and_iff_right hread, md5FilesFrom, Option.some_inj, eq_comm]
  | cons file files ih =>
    have hrefused : ∀ {file : ReadFile}, ¬ (file.size.isSome ∧ file.pieces.isSome ∧ file.bad = false) →
        ¬ (Readable (file :: files) remaining ∧
          digest = Md5.hexDigest (bytes ++ (file :: files).flatMap ReadFile.content)) :=
      fun hno hyes => hno (hyes.1.read _ List.mem_cons_self)
    obtain ⟨_ | size, _ | pieces, bad⟩ := file
    · exact iff_of_false (fun h => by cases h) (hrefused (by simp))
    · exact iff_of_false (fun h => by cases h) (hrefused (by simp))
    · exact iff_of_false (fun h => by cases h) (hrefused (by simp))
    · simp only [md5FilesFrom]
      split_ifs with hover
      · refine iff_of_false (fun h => by cases h) fun hyes => ?_
        have hfits := hyes.1.fits
        have hbad : bad = false := (hyes.1.read _ List.mem_cons_self).2.2
        rw [List.map_cons, List.sum_cons, Option.getD_some] at hfits
        rw [hbad, Bool.or_false, decide_eq_true_eq] at hover
        omega
      · simp only [Bool.or_eq_true, decide_eq_true_eq, not_or, Bool.not_eq_true, Nat.not_lt] at hover
        obtain ⟨hsize, rfl⟩ := hover
        rw [ih (h.updates pieces), readable_cons hsize, List.flatMap_cons, List.append_assoc]
        rfl

/-- Several files have a digest when each can be read and together they are not too large, and it is that of their
contents one after another, in whatever pieces they are read. -/
theorem md5FilesHex_iff (paths : List ReadFile) (maxBytes : Nat) (digest : Text) :
    md5FilesHex paths maxBytes = some digest ↔
      Readable paths maxBytes ∧ digest = Md5.hexDigest (paths.flatMap ReadFile.content) :=
  md5FilesFrom_eq Md5Digest.holds_start maxBytes paths digest

end Didi.Import
