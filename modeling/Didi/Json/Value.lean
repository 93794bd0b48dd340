import Mathlib.Algebra.GroupWithZero.Nat
import Mathlib.Algebra.Group.Int.Defs
import Mathlib.Data.Rat.Defs
import Mathlib.Data.String.Basic
import Didi.Lib.OrderedMap

/-!
# JSON values as the vendored library holds and prints them

* `Json` : a value; an object is its list of members, in the order of its keys;
* `Json.dump` : the compact text `dump()` writes, and `Json.dumpSize` its length in bytes
  (`utf8ByteSize_dump`);
* `Json.equals` : `operator==`, which compares numbers across their representations;
* `Json.sameValue` : the same value, numbers compared exactly.

A number without fraction or exponent is an `integer`. Any other number is a `real`: the value of
the double and the shortest text that reads back as it, which is what `dump()` prints.
-/

namespace Didi

inductive Json
  | null
  | boolean (b : Bool)
  | integer (i : Int)
  | real (value : Rat) (text : String)
  | string (s : String)
  | array (elements : List Json)
  | object (members : List (String × Json))

/-- The members of an object. -/
abbrev JsonObject := List (String × Json)

namespace Json

def isObject : Json → Bool
  | .object _ => true
  | _ => false

def isString : Json → Bool
  | .string _ => true
  | _ => false

def isBoolean : Json → Bool
  | .boolean _ => true
  | _ => false

def isArray : Json → Bool
  | .array _ => true
  | _ => false

def isNumber : Json → Bool
  | .integer _ => true
  | .real _ _ => true
  | _ => false

def isNumberInteger : Json → Bool
  | .integer _ => true
  | _ => false

def isStructured : Json → Bool
  | .object _ => true
  | .array _ => true
  | _ => false

def typeName : Json → String
  | .null => "null"
  | .boolean _ => "boolean"
  | .integer _ => "number"
  | .real _ _ => "number"
  | .string _ => "string"
  | .array _ => "array"
  | .object _ => "object"

/-- The members of an object; anything else has none. -/
def members : Json → JsonObject
  | .object members => members
  | _ => []

def find (v : Json) (key : String) : Option Json :=
  match v with
  | .object members => members.lookup key
  | _ => none

/-! ## Printing -/

/-- The digit of `n < 16` in lowercase hexadecimal. -/
def hexDigit (n : Nat) : Char := if n < 10 then Char.ofNat (48 + n) else Char.ofNat (87 + n)

/-- The two-character escape of a character that has one. -/
def shortEscape (c : Char) : Option Char :=
  if c = '\x08' then some 'b'
  else if c = '\t' then some 't'
  else if c = '\n' then some 'n'
  else if c = '\x0c' then some 'f'
  else if c = '\r' then some 'r'
  else if c = '"' then some '"'
  else if c = '\\' then some '\\'
  else none

def escapeChar (c : Char) : String :=
  match shortEscape c with
  | some e => String.ofList ['\\', e]
  | none =>
    if c.toNat ≤ 0x1f then
      String.ofList ['\\', 'u', '0', '0', hexDigit (c.toNat / 16), hexDigit (c.toNat % 16)]
    else String.ofList [c]

def escapeChars : List Char → String
  | [] => ""
  | c :: cs => escapeChar c ++ escapeChars cs

def dumpString (s : String) : String := "\"" ++ escapeChars s.toList ++ "\""

mutual

def dump : Json → String
  | .null => "null"
  | .boolean b => if b then "true" else "false"
  | .integer i => toString i
  | .real _ text => text
  | .string s => dumpString s
  | .array elements => "[" ++ dumpElements elements ++ "]"
  | .object members => "\x7b" ++ dumpMembers members ++ "\x7d"

def dumpElements : List Json → String
  | [] => ""
  | v :: [] => v.dump
  | v :: vs => v.dump ++ "," ++ dumpElements vs

def dumpMembers : List (String × Json) → String
  | [] => ""
  | (k, v) :: [] => dumpString k ++ ":" ++ v.dump
  | (k, v) :: ms => dumpString k ++ ":" ++ v.dump ++ "," ++ dumpMembers ms

end

/-- The bytes `escapeChar` writes. -/
def escapedSize (c : Char) : Nat :=
  match shortEscape c with
  | some _ => 2
  | none => if c.toNat ≤ 0x1f then 6 else c.utf8Size

def stringSize (s : String) : Nat := 2 + (s.toList.map escapedSize).sum

mutual

/-- The length in bytes of the text `dump()` writes. -/
def dumpSize : Json → Nat
  | .null => 4
  | .boolean b => if b then 4 else 5
  | .integer i => (toString i).utf8ByteSize
  | .real _ text => text.utf8ByteSize
  | .string s => stringSize s
  | .array elements => 2 + elementsSize elements
  | .object members => 2 + membersSize members

def elementsSize : List Json → Nat
  | [] => 0
  | v :: [] => v.dumpSize
  | v :: vs => v.dumpSize + 1 + elementsSize vs

def membersSize : List (String × Json) → Nat
  | [] => 0
  | (k, v) :: [] => stringSize k + 1 + v.dumpSize
  | (k, v) :: ms => stringSize k + 1 + v.dumpSize + 1 + membersSize ms

end

theorem utf8Size_shortEscape {c e : Char} (h : shortEscape c = some e) : e.utf8Size = 1 := by
  unfold shortEscape at h
  split_ifs at h <;> cases h <;> rfl

theorem utf8Size_hexDigit : ∀ n < 32, (hexDigit (n / 16)).utf8Size = 1 ∧ (hexDigit (n % 16)).utf8Size = 1 := by
  decide

theorem utf8ByteSize_escapeChar (c : Char) : (escapeChar c).utf8ByteSize = escapedSize c := by
  unfold escapeChar escapedSize
  cases h : shortEscape c with
  | some e =>
    have hb : ("\\" : String).utf8ByteSize = 1 := rfl
    simp [utf8Size_shortEscape h, hb]
  | none =>
    dsimp only
    split_ifs with hc
    · obtain ⟨h1, h2⟩ := utf8Size_hexDigit c.toNat (by omega)
      have hb : ("\\" : String).utf8ByteSize = 1 := rfl
      have hu : ("u" : String).utf8ByteSize = 1 := rfl
      have h0 : ("0" : String).utf8ByteSize = 1 := rfl
      simp [h1, h2, hb, hu, h0]
    · simp

theorem utf8ByteSize_dumpString (s : String) : (dumpString s).utf8ByteSize = stringSize s := by
  have h : ∀ cs, (escapeChars cs).utf8ByteSize = (cs.map escapedSize).sum := by
    intro cs
    induction cs with
    | nil => rfl
    | cons c cs ih => simp [escapeChars, utf8ByteSize_escapeChar, ih]
  simp only [dumpString, stringSize, String.utf8ByteSize_append, h]
  have hq : ("\"" : String).utf8ByteSize = 1 := rfl
  omega

mutual

/-- The size that the bounds check is about is the size of the text that is written. -/
theorem utf8ByteSize_dump : ∀ v : Json, v.dump.utf8ByteSize = v.dumpSize
  | .null => rfl
  | .boolean b => by cases b <;> rfl
  | .integer _ => by simp only [dump, dumpSize]
  | .real _ _ => by simp only [dump, dumpSize]
  | .string s => by simp only [dump, dumpSize, utf8ByteSize_dumpString]
  | .array elements => by
    have h1 : ("[" : String).utf8ByteSize = 1 := rfl
    have h2 : ("]" : String).utf8ByteSize = 1 := rfl
    simp only [dump, dumpSize, String.utf8ByteSize_append, utf8ByteSize_dumpElements elements]
    omega
  | .object members => by
    have h1 : ("\x7b" : String).utf8ByteSize = 1 := rfl
    have h2 : ("\x7d" : String).utf8ByteSize = 1 := rfl
    simp only [dump, dumpSize, String.utf8ByteSize_append, utf8ByteSize_dumpMembers members]
    omega

theorem utf8ByteSize_dumpElements : ∀ vs : List Json, (dumpElements vs).utf8ByteSize = elementsSize vs
  | [] => rfl
  | [v] => by simp only [dumpElements, elementsSize, utf8ByteSize_dump v]
  | v :: w :: vs => by
    have h : ("," : String).utf8ByteSize = 1 := rfl
    simp only [dumpElements, elementsSize, String.utf8ByteSize_append, utf8ByteSize_dump v,
      utf8ByteSize_dumpElements (w :: vs), h]

theorem utf8ByteSize_dumpMembers :
    ∀ ms : List (String × Json), (dumpMembers ms).utf8ByteSize = membersSize ms
  | [] => rfl
  | [(k, v)] => by
    have h : (":" : String).utf8ByteSize = 1 := rfl
    simp only [dumpMembers, membersSize, String.utf8ByteSize_append, utf8ByteSize_dump v,
      utf8ByteSize_dumpString, h]
  | (k, v) :: m :: ms => by
    have h1 : (":" : String).utf8ByteSize = 1 := rfl
    have h2 : ("," : String).utf8ByteSize = 1 := rfl
    simp only [dumpMembers, membersSize, String.utf8ByteSize_append, utf8ByteSize_dump v,
      utf8ByteSize_dumpString, utf8ByteSize_dumpMembers (m :: ms), h1, h2]

end

/-! ## Comparing -/

/-- The double nearest to an integer, ties to the even significand. -/
def toDouble (i : Int) : Int :=
  let a := i.natAbs
  let shift := a.log2 - 52
  let low := a % 2 ^ shift
  let high := a / 2 ^ shift
  let up := 2 ^ shift < 2 * low ∨ (2 ^ shift = 2 * low ∧ high % 2 = 1)
  i.sign * ((if up then high + 1 else high) * 2 ^ shift : Nat)

/-- An integer of at least `2 ^ 63` is held unsigned, and read back as signed beside a negative. -/
def asSigned (i : Int) : Int := if 2 ^ 63 ≤ i then i - 2 ^ 64 else i

def integersEqual (i j : Int) : Bool :=
  if (0 ≤ i ∧ 0 ≤ j) ∨ (i < 0 ∧ j < 0) then i = j else asSigned i = asSigned j

mutual

def equals : Json → Json → Bool
  | .null, .null => true
  | .boolean a, .boolean b => a == b
  | .integer i, .integer j => integersEqual i j
  | .integer i, .real value _ => (toDouble i : Rat) = value
  | .real value _, .integer j => value = (toDouble j : Rat)
  | .real a _, .real b _ => a = b
  | .string s, .string t => s == t
  | .array vs, .array ws => equalElements vs ws
  | .object ms, .object ns => equalMembers ms ns
  | _, _ => false

def equalElements : List Json → List Json → Bool
  | [], [] => true
  | v :: vs, w :: ws => equals v w && equalElements vs ws
  | _, _ => false

def equalMembers : List (String × Json) → List (String × Json) → Bool
  | [], [] => true
  | (j, v) :: ms, (k, w) :: ns => j == k && equals v w && equalMembers ms ns
  | _, _ => false

end

mutual

/-- The same value: numbers are compared as the numbers they stand for. -/
def sameValue : Json → Json → Bool
  | .null, .null => true
  | .boolean a, .boolean b => a == b
  | .integer i, .integer j => i = j
  | .integer i, .real value _ => (i : Rat) = value
  | .real value _, .integer j => value = (j : Rat)
  | .real a _, .real b _ => a = b
  | .string s, .string t => s == t
  | .array vs, .array ws => sameElements vs ws
  | .object ms, .object ns => sameMembers ms ns
  | _, _ => false

def sameElements : List Json → List Json → Bool
  | [], [] => true
  | v :: vs, w :: ws => sameValue v w && sameElements vs ws
  | _, _ => false

def sameMembers : List (String × Json) → List (String × Json) → Bool
  | [], [] => true
  | (j, v) :: ms, (k, w) :: ns => j == k && sameValue v w && sameMembers ms ns
  | _, _ => false

end

mutual

theorem equals_self : ∀ v : Json, equals v v = true
  | .null => rfl
  | .boolean b => by rw [equals, beq_self_eq_true]
  | .integer i => by simp [equals, integersEqual]
  | .real value text => by simp [equals]
  | .string s => by rw [equals, beq_self_eq_true]
  | .array vs => by rw [equals, equalElements_self vs]
  | .object ms => by rw [equals, equalMembers_self ms]

theorem equalElements_self : ∀ vs : List Json, equalElements vs vs = true
  | [] => by rw [equalElements]
  | v :: vs => by rw [equalElements, equals_self v, equalElements_self vs, Bool.and_self]

theorem equalMembers_self : ∀ ms : List (String × Json), equalMembers ms ms = true
  | [] => by rw [equalMembers]
  | (k, v) :: ms => by
    rw [equalMembers, equals_self v, equalMembers_self ms, beq_self_eq_true, Bool.and_self, Bool.and_self]

end

/-! ## Integers of a value, within bounds -/

/-- What is above the signed 64 bits is held unsigned, and is none. -/
def jsonInt64 : Json → Option Int
  | .integer i => if 2 ^ 63 ≤ i then none else some i
  | _ => none

def boundedJsonInteger (value : Json) (minimum maximum : Int) : Option Int :=
  (jsonInt64 value).filter fun number => minimum ≤ number && number ≤ maximum

theorem boundedJsonInteger_eq_some {value : Json} {minimum maximum i : Int} (h : maximum < 2 ^ 63) :
    boundedJsonInteger value minimum maximum = some i ↔ value = .integer i ∧ minimum ≤ i ∧ i ≤ maximum := by
  rw [boundedJsonInteger, Option.filter_eq_some_iff, Bool.and_eq_true, decide_eq_true_iff, decide_eq_true_iff]
  constructor
  · rintro ⟨hi, hle⟩
    cases value with
    | integer j =>
      rw [jsonInt64] at hi
      split_ifs at hi
      obtain rfl := Option.some.inj hi
      exact ⟨rfl, hle⟩
    | _ => cases hi
  · rintro ⟨rfl, hmin, hmax⟩
    refine ⟨?_, hmin, hmax⟩
    rw [jsonInt64, if_neg (by omega)]

end Json
end Didi
