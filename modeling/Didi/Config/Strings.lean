import Didi.Config.Accepted
import Didi.Config.Settings

/-!
# The text that a string stands for

* `decodeUtf8TheWayGodotDoes` : the decode when the closing quote is read, with what is not well formed replaced;
* `stringValue` : the text of a value that is one string;
* `stringValue_quotedLiteral` : what is written is read back, less a byte order mark that leads it.
-/

namespace Didi.Config

def kReplacement : Text := ['\xEF', '\xBF', '\xBD']

def kByteOrderMark : Text := ['\xEF', '\xBB', '\xBF']

/-- How many bytes a sequence has by its first one, and the bits of it that this one holds. -/
def sequenceLead (lead : Nat) : Nat × Nat :=
  if lead / 2 ^ 5 = 0xC0 / 2 ^ 5 then (2, lead % 2 ^ 5)
  else if lead / 2 ^ 4 = 0xE0 / 2 ^ 4 then (3, lead % 2 ^ 4)
  else if lead / 2 ^ 3 = 0xF0 / 2 ^ 3 then (4, lead % 2 ^ 3)
  else (0, 0)

/-- The smallest character that needs a sequence of the length. -/
def kSmallest (length : Nat) : Nat := [0, 0, 0x80, 0x800, 0x10000].getD length 0

/-- The length of the well-formed sequence that begins with the byte, if one does. -/
def sequenceLength (lead : Char) (rest : Text) : Option Nat :=
  let length := (sequenceLead lead.toNat).1
  let others := rest.take (length - 1)
  let code := others.foldl (fun code next => code * 2 ^ 6 + next.toNat % 2 ^ 6) (sequenceLead lead.toNat).2
  if length ≠ 0 && others.length + 1 = length && others.all (fun next => next.toNat / 2 ^ 6 = 0x80 / 2 ^ 6) &&
      kSmallest length ≤ code && code ≤ 0x10FFFF && !(0xD800 ≤ code && code ≤ 0xDFFF) then some length
  else none

/-- The decode, after the first `skip` bytes, which belong to a sequence that is well formed. -/
def decodeSequences : Text → Nat → Text
  | [], _ => []
  | c :: rest, skip + 1 => c :: decodeSequences rest skip
  | c :: rest, 0 =>
    if c.toNat < 0x80 then c :: decodeSequences rest 0
    else match sequenceLength c rest with
      | some length => c :: decodeSequences rest (length - 1)
      | none => kReplacement ++ decodeSequences rest 0

/-- The text without the mark that leads it. -/
def withoutMark (bytes : Text) : Text := if kByteOrderMark.isPrefixOf bytes then bytes.drop 3 else bytes

def decodeUtf8TheWayGodotDoes (bytes : Text) : Text := decodeSequences (withoutMark bytes) 0

/-- What a string stands for, which means nothing where there is a problem. -/
structure StringValue where
  text : Text
  problem : Option String
deriving DecidableEq

/-- The value after the sign of a name or of a path. -/
def withoutSign (text : Text) : Text := if text.head? = some '&' || text.head? = some '@' then text.drop 1 else text

def stringValue (valueText : Text) : Option StringValue :=
  let text := withoutSign (trimmedView valueText)
  if text.head? = some '"' then
    let decoded := decodeString (text.drop 1)
    if decoded.closed && decoded.rest = [] then
      some ⟨if decoded.problem = none then decodeUtf8TheWayGodotDoes decoded.bytes else [], decoded.problem⟩
    else none
  else none

/-! ## The decode of well-formed text -/

/-- The bytes of a character. -/
def bytesOfChar (c : Char) : Text := (String.utf8EncodeChar c).map fun b => Char.ofNat b.toNat

theorem bytesOf_eq (s : String) : bytesOf s = s.toList.flatMap bytesOfChar := by
  rw [bytesOf, List.map_flatMap]
  rfl

theorem toNat_byte (b : UInt8) : (Char.ofNat b.toNat).toNat = b.toNat := by
  have hlt := b.toNat_lt
  rw [Char.ofNat, dif_pos (Or.inl (by omega))]
  rfl

/-- A sequence that is well formed is kept. -/
theorem decodeSequences_sequence {c : Char} {others rest : Text} (hc : ¬ c.toNat < 0x80)
    (h : sequenceLength c (others ++ rest) = some (others.length + 1)) :
    decodeSequences (c :: (others ++ rest)) 0 = c :: (others ++ decodeSequences rest 0) := by
  have hskip : ∀ others : Text, decodeSequences (others ++ rest) others.length = others ++ decodeSequences rest 0 := by
    intro others
    induction others with
    | nil => rfl
    | cons d others ih =>
      rw [List.cons_append, List.length_cons, decodeSequences, ih, List.cons_append]
  rw [decodeSequences.eq_def]
  simp only
  rw [if_neg hc, h]
  simp only [Nat.add_sub_cancel]
  rw [hskip]

/-- The code of a character is no surrogate. -/
theorem toNat_char (c : Char) : c.toNat < 0xD800 ∨ (0xDFFF < c.toNat ∧ c.toNat ≤ 0x10FFFF) := by
  have hvalid := c.valid
  unfold UInt32.isValidChar Nat.isValidChar at hvalid
  show c.val.toNat < 0xD800 ∨ _
  change _ ∨ (0xDFFF < c.val.toNat ∧ c.val.toNat ≤ 0x10FFFF)
  omega

theorem sequenceLength_eq {c : Char} {others : Text} {bits v : Nat}
    (hlead : sequenceLead c.toNat = (others.length + 1, bits))
    (htails : others.all (fun next => next.toNat / 2 ^ 6 = 0x80 / 2 ^ 6) = true)
    (hcode : others.foldl (fun code next => code * 2 ^ 6 + next.toNat % 2 ^ 6) bits = v)
    (hsmallest : kSmallest (others.length + 1) ≤ v) (hv : v < 0xD800 ∨ (0xDFFF < v ∧ v ≤ 0x10FFFF)) (rest : Text) :
    sequenceLength c (others ++ rest) = some (others.length + 1) := by
  have htake : (others ++ rest).take (others.length + 1 - 1) = others := by
    rw [Nat.add_sub_cancel, List.take_left]
  rw [sequenceLength, hlead]
  simp only [htake, hcode, htails]
  rw [if_pos]
  simp only [Bool.and_eq_true, Bool.not_eq_true', decide_eq_true_eq, Bool.and_eq_false_iff, decide_eq_false_iff_not]
  exact ⟨⟨⟨⟨⟨Nat.succ_ne_zero _, True.intro⟩, True.intro⟩, hsmallest⟩, by omega⟩, by omega⟩

/-- **The bytes of a character are kept as they are.** -/
theorem decodeSequences_char (ch : Char) (rest : Text) :
    decodeSequences (bytesOfChar ch ++ rest) 0 = bytesOfChar ch ++ decodeSequences rest 0 := by
  have hv := toNat_char ch
  obtain ⟨v, hval⟩ : ∃ v, ch.val.toNat = v := ⟨_, rfl⟩
  change ch.val.toNat < 0xD800 ∨ (0xDFFF < ch.val.toNat ∧ ch.val.toNat ≤ 0x10FFFF) at hv
  rw [hval] at hv
  unfold bytesOfChar String.utf8EncodeChar
  rw [hval]
  dsimp only
  split_ifs with h1 h2 h3
  · rw [List.map_singleton, List.singleton_append, decodeSequences.eq_def]
    simp only
    rw [if_pos (by rw [toNat_byte, UInt8.toNat_ofNat']; omega)]
    rfl
  · have hlength := @sequenceLength_eq (Char.ofNat (UInt8.ofNat (v / 64 % 0x20 + 0xC0)).toNat)
      [Char.ofNat (UInt8.ofNat (v % 0x40 + 0x80)).toNat] (v / 64) v
      (by
        rw [toNat_byte, UInt8.toNat_ofNat', sequenceLead, if_pos (by omega)]
        congr 1
        omega)
      (by
        rw [List.all_cons, List.all_nil, toNat_byte, UInt8.toNat_ofNat', Bool.and_true]
        exact decide_eq_true (by omega))
      (by
        rw [List.foldl_cons, List.foldl_nil, toNat_byte, UInt8.toNat_ofNat']
        omega)
      (by
        show 0x80 ≤ v
        omega) hv rest
    exact decodeSequences_sequence (by rw [toNat_byte, UInt8.toNat_ofNat']; omega) hlength
  · have hlength := @sequenceLength_eq (Char.ofNat (UInt8.ofNat (v / 4096 % 0x10 + 0xE0)).toNat)
      [Char.ofNat (UInt8.ofNat (v / 64 % 0x40 + 0x80)).toNat, Char.ofNat (UInt8.ofNat (v % 0x40 + 0x80)).toNat]
      (v / 4096) v
      (by
        rw [toNat_byte, UInt8.toNat_ofNat', sequenceLead, if_neg (by omega), if_pos (by omega)]
        congr 1
        omega)
      (by
        rw [List.all_cons, List.all_cons, List.all_nil, toNat_byte, toNat_byte, UInt8.toNat_ofNat',
          UInt8.toNat_ofNat', Bool.and_true, Bool.and_eq_true]
        exact ⟨decide_eq_true (by omega), decide_eq_true (by omega)⟩)
      (by
        rw [List.foldl_cons, List.foldl_cons, List.foldl_nil, toNat_byte, toNat_byte, UInt8.toNat_ofNat',
          UInt8.toNat_ofNat']
        omega)
      (by
        show 0x800 ≤ v
        omega) hv rest
    exact decodeSequences_sequence (by rw [toNat_byte, UInt8.toNat_ofNat']; omega) hlength
  · have hlength := @sequenceLength_eq (Char.ofNat (UInt8.ofNat (v / 262144 % 0x08 + 0xF0)).toNat)
      [Char.ofNat (UInt8.ofNat (v / 4096 % 0x40 + 0x80)).toNat, Char.ofNat (UInt8.ofNat (v / 64 % 0x40 + 0x80)).toNat,
        Char.ofNat (UInt8.ofNat (v % 0x40 + 0x80)).toNat] (v / 262144) v
      (by
        rw [toNat_byte, UInt8.toNat_ofNat', sequenceLead, if_neg (by omega), if_neg (by omega), if_pos (by omega)]
        congr 1
        omega)
      (by
        rw [List.all_cons, List.all_cons, List.all_cons, List.all_nil, toNat_byte, toNat_byte, toNat_byte,
          UInt8.toNat_ofNat', UInt8.toNat_ofNat', UInt8.toNat_ofNat', Bool.and_true, Bool.and_eq_true,
          Bool.and_eq_true]
        exact ⟨decide_eq_true (by omega), decide_eq_true (by omega), decide_eq_true (by omega)⟩)
      (by
        rw [List.foldl_cons, List.foldl_cons, List.foldl_cons, List.foldl_nil, toNat_byte, toNat_byte, toNat_byte,
          UInt8.toNat_ofNat', UInt8.toNat_ofNat', UInt8.toNat_ofNat']
        omega)
      (by
        show 0x10000 ≤ v
        omega) hv rest
    exact decodeSequences_sequence (by rw [toNat_byte, UInt8.toNat_ofNat']; omega) hlength

theorem decodeSequences_chars (cs : List Char) :
    decodeSequences (cs.flatMap bytesOfChar) 0 = cs.flatMap bytesOfChar := by
  induction cs with
  | nil => rfl
  | cons c cs ih => rw [List.flatMap_cons, decodeSequences_char, ih]

/-- Text that begins with the bytes of the mark begins with the mark. -/
theorem eq_mark_of_isPrefixOf {c : Char} {rest : Text}
    (h : kByteOrderMark.isPrefixOf (bytesOfChar c ++ rest) = true) : c = '\uFEFF' := by
  obtain ⟨tail, htail⟩ := List.isPrefixOf_iff_prefix.mp h
  have hfirst : (bytesOfChar c ++ rest)[0]? = some '\xEF' := by
    rw [← htail]
    rfl
  have hsecond : (bytesOfChar c ++ rest)[1]? = some '\xBB' := by
    rw [← htail]
    rfl
  have hthird : (bytesOfChar c ++ rest)[2]? = some '\xBF' := by
    rw [← htail]
    rfl
  have hv := toNat_char c
  obtain ⟨v, hval⟩ : ∃ v, c.val.toNat = v := ⟨_, rfl⟩
  change c.val.toNat < 0xD800 ∨ (0xDFFF < c.val.toNat ∧ c.val.toNat ≤ 0x10FFFF) at hv
  have hnat : ∀ {b : UInt8} {d : Char}, some (Char.ofNat b.toNat) = some d → b.toNat = d.toNat := by
    intro b d hbd
    rw [← Option.some.inj hbd, toNat_byte]
  unfold bytesOfChar String.utf8EncodeChar at hfirst hsecond hthird
  rw [hval] at hfirst hsecond hthird hv
  dsimp only at hfirst hsecond hthird
  split_ifs at hfirst hsecond hthird
  · have hlead := hnat hfirst
    rw [UInt8.toNat_ofNat'] at hlead
    change _ = 0xEF at hlead
    omega
  · have hlead := hnat hfirst
    rw [UInt8.toNat_ofNat'] at hlead
    change _ = 0xEF at hlead
    omega
  · have hlead := hnat hfirst
    have hmiddle := hnat hsecond
    have hlast := hnat hthird
    rw [UInt8.toNat_ofNat'] at hlead hmiddle hlast
    change _ = 0xEF at hlead
    change _ = 0xBB at hmiddle
    change _ = 0xBF at hlast
    have hcode : c.toNat = 0xFEFF := by
      show c.val.toNat = _
      omega
    rw [← Char.ofNat_toNat c, hcode]
  · have hlead := hnat hfirst
    rw [UInt8.toNat_ofNat'] at hlead
    change _ = 0xEF at hlead
    omega

/-- The decode drops the mark and keeps the rest. -/
theorem decodeUtf8_bytesOf (s : String) : decodeUtf8TheWayGodotDoes (bytesOf s) = withoutMark (bytesOf s) := by
  rw [decodeUtf8TheWayGodotDoes, bytesOf_eq, withoutMark]
  cases s.toList with
  | nil => rfl
  | cons c cs =>
    rw [List.flatMap_cons]
    split_ifs with hmark
    · have hc := eq_mark_of_isPrefixOf hmark
      have hbytes : bytesOfChar c = kByteOrderMark := by
        rw [hc]
        decide
      rw [hbytes]
      exact decodeSequences_chars cs
    · rw [← List.flatMap_cons]
      exact decodeSequences_chars (c :: cs)

/-! ## What is written -/

/-- An escaped text is read back as it was. -/
theorem decodeFrom_escaped_eq (text rest : Text) (w : StringWalk) (hlead : w.lead = 0) (hproblem : w.problem = none) :
    decodeFrom (escapeSettingString text ++ '"' :: rest) 0 w = ⟨w.bytes ++ text, none, rest, true⟩ := by
  induction text generalizing w with
  | nil =>
    rw [show escapeSettingString [] = [] from rfl, List.nil_append, decodeFrom_quote]
    simp [StringWalk.refuseLead, hlead, hproblem]
  | cons c text ih =>
    have hbyte : ∀ d, (w.byte d).lead = 0 ∧ (w.byte d).problem = none ∧ (w.byte d).bytes = w.bytes ++ [d] := by
      intro d
      simp [StringWalk.byte, StringWalk.refuseLead, hlead, hproblem]
    have hescape : ∀ next d, readEscape next (escapeSettingString text ++ '"' :: rest) = (d.toNat, 0, none) →
        d.toNat / 2 ^ 10 ≠ 0xD800 / 2 ^ 10 → d.toNat / 2 ^ 10 ≠ 0xDC00 / 2 ^ 10 → d.toNat ≠ 0 → ¬ 0xFF < d.toNat →
        decodeFrom ('\\' :: next :: (escapeSettingString text ++ '"' :: rest)) 0 w =
          ⟨w.bytes ++ d :: text, none, rest, true⟩ := by
      intro next d hread hnotLead hnotTrail hzero hbig
      rw [decodeFrom.eq_def]
      simp only
      rw [if_neg (by decide), if_neg (by simp), hread]
      show decodeFrom _ 0 (w.unit d.toNat) = _
      rw [StringWalk.unit, if_neg hnotLead, if_neg hnotTrail]
      rw [if_neg (by simp only [Bool.or_eq_true, decide_eq_true_eq]; exact not_or.mpr ⟨hzero, hbig⟩), Char.ofNat_toNat]
      obtain ⟨hlead', hproblem', hbytes⟩ := hbyte d
      rw [ih _ hlead' hproblem', hbytes, List.append_assoc, List.singleton_append]
    have hcons : escapeSettingString (c :: text) = _ ++ escapeSettingString text := List.flatMap_cons
    rw [hcons, List.append_assoc]
    split_ifs with hbackslash hquote hnewline hreturn htab
    · subst hbackslash
      exact hescape '\\' '\\' rfl (by decide) (by decide) (by decide) (by decide)
    · subst hquote
      exact hescape '"' '"' rfl (by decide) (by decide) (by decide) (by decide)
    · subst hnewline
      exact hescape 'n' '\n' rfl (by decide) (by decide) (by decide) (by decide)
    · subst hreturn
      exact hescape 'r' '\r' rfl (by decide) (by decide) (by decide) (by decide)
    · subst htab
      exact hescape 't' '\t' rfl (by decide) (by decide) (by decide) (by decide)
    · obtain ⟨hlead', hproblem', hbytes⟩ := hbyte c
      rw [List.singleton_append, decodeFrom_byte hquote hbackslash, ih _ hlead' hproblem', hbytes, List.append_assoc,
        List.singleton_append]

theorem decodeString_escaped (text rest : Text) :
    decodeString (escapeSettingString text ++ '"' :: rest) = ⟨text, none, rest, true⟩ :=
  decodeFrom_escaped_eq text rest {} rfl rfl

/-- The literal of a text is read as what the text is decoded to. -/
theorem stringValue_quotedLiteral (text : Text) :
    stringValue (quotedLiteral text) = some ⟨decodeUtf8TheWayGodotDoes text, none⟩ := by
  have hquoted : quotedLiteral text = '"' :: (escapeSettingString text ++ ['"']) := by
    rw [quotedLiteral, List.cons_append]
  have htrimmed : trimmedView ('"' :: (escapeSettingString text ++ ['"'])) =
      '"' :: (escapeSettingString text ++ ['"']) := by
    refine trimmedView_eq_self ?_ ?_
    · intro c hc
      rw [← Option.some.inj hc]
      decide
    · intro c hc
      rw [← List.cons_append, List.getLast?_concat] at hc
      rw [← Option.some.inj hc]
      decide
  have hsign : withoutSign ('"' :: (escapeSettingString text ++ ['"'])) = '"' :: (escapeSettingString text ++ ['"']) :=
    if_neg (by simp)
  rw [hquoted, stringValue, htrimmed]
  simp only [hsign, List.head?_cons, if_true, List.drop_succ_cons, List.drop_zero, decodeString_escaped]
  rfl

/-- **A string is read back as it was written**, less a byte order mark that leads it. -/
theorem stringValue_settingLiteral (s : String) :
    ∃ literal, settingLiteral kMaxLevels (.string s) = .ok literal ∧
      stringValue literal = some ⟨withoutMark (bytesOf s), none⟩ := by
  refine ⟨quotedLiteral (bytesOf s), rfl, ?_⟩
  rw [stringValue_quotedLiteral, decodeUtf8_bytesOf]

/-- A mark that leads a string is lost. -/
theorem not_stringValue_settingLiteral :
    ¬ ∀ s : String, ∃ literal, settingLiteral kMaxLevels (.string s) = .ok literal ∧
      stringValue literal = some ⟨bytesOf s, none⟩ := by
  intro h
  obtain ⟨literal, hliteral, hvalue⟩ := h "\uFEFFname"
  obtain ⟨literal', hliteral', hvalue'⟩ := stringValue_settingLiteral "\uFEFFname"
  rw [hliteral] at hliteral'
  cases hliteral'
  rw [hvalue] at hvalue'
  have hne : bytesOf "\uFEFFname" ≠ withoutMark (bytesOf "\uFEFFname") := by decide
  exact hne (congrArg StringValue.text (Option.some.inj hvalue'))

end Didi.Config
