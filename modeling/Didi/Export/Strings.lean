import Didi.Config.Strings

/-!
# The strings of an export preset

* `unquote` : the text of a value, with the bytes of a string decoded as the engine decodes them;
* `configFileString` : the quoted string that is written for a text; `unquote_configFileString` : what is read of
  it again;
* `booleanize` : a value as the engine converts it to a boolean.
-/

namespace Didi.Export
open Didi.Config

/-! ## The text of a value -/

/-- A preset field as the engine reads it. -/
def unquote (value : Text) : Text :=
  match stringValue value with
  | some ⟨text, none⟩ => text
  | _ => stringsTrim value

/-! ## The boolean of a value -/

/-- The value of the digits, most significant first. -/
def digitsValue (base : Nat) (digits : Text) : Nat :=
  digits.foldl (fun value c => value * base + (hexValue c).getD 0) 0

def isDigitOf (base : Nat) (c : Char) : Bool := (hexValue c).any (· < base)

/-- The digits of a mantissa as a whole number, how many of them stand after the point, and what follows. -/
def readMantissa (base : Nat) (text : Text) : Option (Nat × Nat × Text) :=
  let whole := text.takeWhile (isDigitOf base)
  let (fraction, rest) :=
    match text.dropWhile (isDigitOf base) with
    | '.' :: rest => (rest.takeWhile (isDigitOf base), rest.dropWhile (isDigitOf base))
    | rest => ([], rest)
  if whole.isEmpty && fraction.isEmpty then none
  else some (digitsValue base (whole ++ fraction), fraction.length, rest)

def unsigned (text : Text) : Bool × Text :=
  match text with
  | '-' :: rest => (true, rest)
  | '+' :: rest => (false, rest)
  | rest => (false, rest)

/-- The exponent that is all that is left of a number. -/
def readExponent (mark : Char) (text : Text) : Option Int :=
  match text with
  | [] => some 0
  | c :: rest =>
    let (negative, digits) := unsigned rest
    if c.toLower = mark && !digits.isEmpty && digits.all Char.isDigit then
      some (if negative then -(digitsValue 10 digits : Int) else digitsValue 10 digits)
    else none

/-- Whether the double nearest to `mantissa * base ^ exponent` is zero. Half of the least double above zero, which is
`2 ^ (-1075)`, is rounded to zero, the even one. -/
def roundsToZero (mantissa base : Nat) (exponent : Int) : Bool :=
  mantissa = 0 || (exponent < 0 && mantissa * 2 ^ 1075 ≤ base ^ exponent.natAbs)

/-- Whether the unsigned number that is all of a text is zero, if one is. -/
def isZeroNumber (text : Text) : Option Bool :=
  let lowered := text.map Char.toLower
  if lowered = "inf".toList || lowered = "infinity".toList || lowered = "nan".toList then some false
  else if "nan(".toList.isPrefixOf lowered && lowered.getLast? = some ')' &&
      ((text.drop 4).dropLast.all isIdentifierChar) then some false
  else
    let hexadecimal :=
      if "0x".toList.isPrefixOf lowered then readMantissa 16 (text.drop 2) else none
    match hexadecimal with
    | some (mantissa, places, rest) =>
      (readExponent 'p' rest).map fun exponent => roundsToZero mantissa 2 (exponent - 4 * (places : Int))
    | none => do
      let (mantissa, places, rest) ← readMantissa 10 text
      let exponent ← readExponent 'e' rest
      return roundsToZero mantissa 10 (exponent - (places : Int))

/-- `std::strtod` over a text up to its first zero byte: whether the number that is all of it is zero. -/
def strtodIsZero (text : Text) : Option Bool :=
  isZeroNumber (unsigned ((text.takeWhile (· ≠ '\x00')).dropWhile isSpace)).2

def booleanize (valueText : Text) : Bool :=
  let text := stringsTrim valueText
  if text = "false".toList || text = "null".toList || text = "nil".toList || text.isEmpty then false
  else !((strtodIsZero text).getD false)

example : ["true", "1", "-0.0", "0x0p3", "1e-400", "\"\"", "0x"].map (fun s => booleanize s.toList) =
    [true, true, false, false, false, true, true] := by decide +kernel

/-! ## Strings that are written -/

/-- The two escapes of a string that holds no control characters. -/
def escapeString (text : Text) : Text :=
  text.flatMap fun c => if c = '\\' then ['\\', '\\'] else if c = '"' then ['\\', '"'] else [c]

def configFileString (text : Text) : Text := '"' :: escapeString text ++ ['"']

/-- What is written is read byte for byte. -/
theorem decodeFrom_escapeString (text rest : Text) (w : StringWalk) (hlead : w.lead = 0) (hproblem : w.problem = none) :
    decodeFrom (escapeString text ++ '"' :: rest) 0 w = ⟨w.bytes ++ text, none, rest, true⟩ := by
  induction text generalizing w with
  | nil =>
    rw [show escapeString [] = [] from rfl, List.nil_append, decodeFrom_quote]
    simp [StringWalk.refuseLead, hlead, hproblem]
  | cons c text ih =>
    have hbyte : ∀ d, w.byte d = { w with bytes := w.bytes ++ [d] } := by
      intro d
      simp [StringWalk.byte, StringWalk.refuseLead, hlead]
    have hnext : decodeFrom (escapeString text ++ '"' :: rest) 0 (w.byte c) = ⟨w.bytes ++ c :: text, none, rest, true⟩ := by
      rw [hbyte, ih { w with bytes := w.bytes ++ [c] } hlead hproblem]
      simp
    unfold escapeString at hnext ⊢
    rw [List.flatMap_cons, List.append_assoc]
    split_ifs with hbackslash hquote
    · subst hbackslash
      rw [← hnext]
      rfl
    · subst hquote
      rw [← hnext]
      rfl
    · rw [List.singleton_append, decodeFrom_byte hquote hbackslash, hnext]

theorem trimmedView_configFileString (text : Text) : trimmedView (configFileString text) = configFileString text := by
  apply trimmedView_eq_self
  · intro c hc
    obtain rfl : '"' = c := by simpa [configFileString] using hc
    decide
  · intro c hc
    rw [configFileString, List.getLast?_append_of_ne_nil _ (by simp)] at hc
    obtain rfl : '"' = c := by simpa using hc
    decide

/-- **What is written of a text is read as the engine's decode of it.** -/
theorem unquote_configFileString (text : Text) : unquote (configFileString text) = decodeUtf8TheWayGodotDoes text := by
  have hvalue : stringValue (configFileString text) = some ⟨decodeUtf8TheWayGodotDoes text, none⟩ := by
    have hdecoded := decodeFrom_escapeString text [] {} rfl rfl
    have hsign : withoutSign (configFileString text) = configFileString text := if_neg (by simp [configFileString])
    unfold stringValue
    rw [trimmedView_configFileString, hsign]
    unfold configFileString decodeString
    simp [hdecoded]
  unfold unquote
  rw [hvalue]

/-- A text without control characters has no other escapes. -/
theorem configFileString_eq {text : Text} (h : ∀ c ∈ text, 0x20 ≤ c.toNat) :
    configFileString text = quotedLiteral text := by
  have hescape : escapeString text = escapeSettingString text := by
    unfold escapeString escapeSettingString
    apply List.flatMap_congr
    intro c hc
    have hne : ∀ d : Char, d.toNat < 0x20 → c ≠ d := by
      rintro d hd rfl
      exact absurd (h c hc) (by omega)
    rw [if_neg (hne '\n' (by decide)), if_neg (hne '\r' (by decide)), if_neg (hne '\t' (by decide))]
  unfold configFileString quotedLiteral
  rw [hescape]

end Didi.Export
