import Mathlib.Data.List.DropRight
import Mathlib.Data.String.Basic
import Mathlib.Tactic.FinCases
import Mathlib.Tactic.IntervalCases
import Didi.Lib.Split

/-!
# The text of a configuration file

`Text` is the bytes of a file, each as the character of its code. `linesOf` are the lines as the scan goes
through them, `fileLines` those that `getline` reads, and `textOfLines` writes lines back.
-/

namespace Didi.Config

abbrev Text := List Char

/-- The bytes of a string. -/
def bytesOf (s : String) : Text := (s.toList.flatMap String.utf8EncodeChar).map fun b => Char.ofNat b.toNat

/-- `std::isspace`. -/
def isSpace (c : Char) : Bool := c = ' ' || (9 ≤ c.toNat && c.toNat ≤ 13)

theorem isSpace_iff {c : Char} : isSpace c = true ↔ c ∈ [' ', '\t', '\n', '\x0b', '\x0c', '\r'] := by
  constructor
  · intro h
    have h : c = ' ' ∨ 9 ≤ c.toNat ∧ c.toNat ≤ 13 := by simpa [isSpace] using h
    rcases h with rfl | ⟨hlow, hhigh⟩
    · decide
    · obtain ⟨n, hn⟩ : ∃ n, c.toNat = n := ⟨_, rfl⟩
      have hc : c = Char.ofNat n := by rw [← hn, Char.ofNat_toNat]
      rw [hn] at hlow hhigh
      subst hc
      interval_cases n <;> decide
  · intro h
    fin_cases h <;> decide

def isIdentifierStart (c : Char) : Bool := c.isAlpha || c = '_'

def isIdentifierChar (c : Char) : Bool := c.isAlphanum || c = '_'

def isHexDigit (c : Char) : Bool := c.isDigit || ('a' ≤ c && c ≤ 'f') || ('A' ≤ c && c ≤ 'F')

/-- What `strings::trim` takes off. -/
def isSpacing (c : Char) : Bool := c = ' ' || c = '\t' || c = '\n' || c = '\r'

def isBlankChar (c : Char) : Bool := c = ' ' || c = '\t'

def isQuote (c : Char) : Bool := c = '"' || c = '\''

/-- A byte that continues a code point. -/
def isContinuation (c : Char) : Bool := c.toNat / 64 = 2

/-- `paths::codePointCount`. -/
def codePointCount (text : Text) : Nat := text.countP fun c => !isContinuation c

/-! ## The ends of a text -/

/-- What follows a prefix. -/
def following (before : String) (text : Text) : Option Text :=
  if before.toList.isPrefixOf text then some (text.drop before.toList.length) else none

/-- The text without the blank characters at its ends. -/
def trimBy (blank : Char → Bool) (text : Text) : Text := (text.dropWhile blank).rdropWhile blank

def trimmedView (text : Text) : Text := trimBy isSpace text

/-- `strings::trim`. -/
def stringsTrim (text : Text) : Text := trimBy isSpacing text

theorem isInfix_trimBy (blank : Char → Bool) (text : Text) : trimBy blank text <:+: text :=
  (List.rdropWhile_prefix blank _).isInfix.trans (List.dropWhile_suffix blank).isInfix

/-- One blank character more at the end is taken off. -/
theorem trimBy_concat {blank : Char → Bool} {c : Char} (hc : blank c = true) (text : Text) :
    trimBy blank (text ++ [c]) = trimBy blank text := by
  rw [trimBy, trimBy, List.dropWhile_append]
  split_ifs with hempty
  · rw [List.isEmpty_iff.mp hempty, List.dropWhile_cons_of_pos hc]
    rfl
  · exact List.rdropWhile_concat_pos _ _ _ hc

/-! ## Lines -/

/-- A line without the carriage return that ends it. -/
def dropReturn (line : Text) : Text := if line.getLast? = some '\r' then line.dropLast else line

/-- A line without the newline that ends it. -/
def dropNewline (line : Text) : Text := if line.getLast? = some '\n' then line.dropLast else line

/-- The lines of a text, the last one being what follows the last newline. -/
def linesOf (text : Text) : List Text := (text.splitOn '\n').map dropReturn

/-- What follows the last newline is a line of a file only when there is something. -/
def dropEmptyLast (lines : List Text) : List Text := if lines.getLast? = some [] then lines.dropLast else lines

def fileLines (text : Text) : List Text := (dropEmptyLast (text.splitOn '\n')).map dropReturn

/-- Whether two characters stand side by side. -/
def hasPair (a b : Char) : Text → Bool
  | c :: d :: text => (c = a && d = b) || hasPair a b (d :: text)
  | _ => false

def newlineOf (text : Text) : Text := if hasPair '\r' '\n' text then ['\r', '\n'] else ['\n']

def textOfLines (newline : Text) (lines : List Text) : Text := lines.flatMap (· ++ newline)

theorem mem_dropReturn {line : Text} {c : Char} (h : c ∈ dropReturn line) : c ∈ line := by
  unfold dropReturn at h
  split_ifs at h
  · exact List.dropLast_subset _ h
  · exact h

theorem mem_fileLines {text line : Text} (h : line ∈ fileLines text) :
    ∃ piece ∈ text.splitOn '\n', dropReturn piece = line := by
  unfold fileLines dropEmptyLast at h
  obtain ⟨piece, hpiece, hline⟩ := List.mem_map.mp h
  refine ⟨piece, ?_, hline⟩
  split_ifs at hpiece
  · exact List.dropLast_subset _ hpiece
  · exact hpiece

theorem hasPair_append (a b : Char) (before rest : Text) : hasPair a b (before ++ a :: b :: rest) = true := by
  induction before with
  | nil => simp [hasPair]
  | cons c before ih =>
    cases before with
    | nil => simp [hasPair]
    | cons d before =>
      rw [List.cons_append, List.cons_append, hasPair, ← List.cons_append, ih, Bool.or_true]

theorem dropReturn_append (line : Text) : dropReturn (line ++ ['\r']) = line := by
  simp [dropReturn]

theorem dropReturn_eq_self {line : Text} (h : line.getLast? ≠ some '\r') : dropReturn line = line := if_neg h

end Didi.Config
