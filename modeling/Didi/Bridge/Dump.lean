import Didi.Lib.Utf8

/-!
# JSON values as the bytes the bridge holds and serializes

* `ByteJson` : a value whose strings are byte sequences, well-formed UTF-8 or not;
* `ByteJson.dump` : the text `dump()` writes; a string that is not well-formed UTF-8 is a `type_error`;
* `Reading` : where a reader of a structured text stands. The text of an object is read to its end
  (`read_text_object`) and not before (`eq_nil_of_complete`), so no text of an object begins another.
-/

namespace Didi.Bridge

abbrev Bytes := List UInt8

/-- A literal of the source. -/
def ascii (s : String) : Bytes := s.toList.map fun c => UInt8.ofNat c.toNat

/-- The characters of a number's text; a number that is not finite is written `null`. -/
def numberCharacters : Bytes := ascii "0123456789+-.enul"

/-- The text `dump()` writes for a number. -/
structure NumberText where
  bytes : Bytes
  plain : ∀ b ∈ bytes, b ∈ numberCharacters

inductive ByteJson
  | null
  | boolean (b : Bool)
  | number (text : NumberText)
  | string (s : Bytes)
  | array (elements : List ByteJson)
  | object (members : List (Bytes × ByteJson))

namespace ByteJson

def isObject : ByteJson → Bool
  | .object _ => true
  | _ => false

def isNull : ByteJson → Bool
  | .null => true
  | _ => false

/-- `contains(key)` and `operator[]` together. -/
def find : ByteJson → Bytes → Option ByteJson
  | .object members, key => (members.find? (·.1 = key)).map (·.2)
  | _, _ => none

/-! ## Serialization -/

def hexDigit (n : UInt8) : UInt8 := if n < 10 then 48 + n else 87 + n

def escapeByte (b : UInt8) : Bytes :=
  if b = 0x08 then ascii "\\b"
  else if b = 0x09 then ascii "\\t"
  else if b = 0x0A then ascii "\\n"
  else if b = 0x0C then ascii "\\f"
  else if b = 0x0D then ascii "\\r"
  else if b = 0x22 then ascii "\\\""
  else if b = 0x5C then ascii "\\\\"
  else if b ≤ 0x1F then ascii "\\u00" ++ [hexDigit (b / 16), hexDigit (b % 16)]
  else [b]

def stringText (s : Bytes) : Bytes := 0x22 :: (s.flatMap escapeByte ++ [0x22])

/-- The pieces with a comma between them. -/
def joined : List Bytes → Bytes
  | [] => []
  | [piece] => piece
  | piece :: rest => piece ++ 0x2C :: joined rest

mutual
def text : ByteJson → Bytes
  | .null => ascii "null"
  | .boolean true => ascii "true"
  | .boolean false => ascii "false"
  | .number t => t.bytes
  | .string s => stringText s
  | .array elements => 0x5B :: (joined (elementTexts elements) ++ [0x5D])
  | .object members => 0x7B :: (joined (memberTexts members) ++ [0x7D])

def elementTexts : List ByteJson → List Bytes
  | [] => []
  | e :: rest => text e :: elementTexts rest

def memberTexts : List (Bytes × ByteJson) → List Bytes
  | [] => []
  | m :: rest => (stringText m.1 ++ 0x3A :: text m.2) :: memberTexts rest
end

mutual
/-- Every string and every key is well-formed UTF-8. -/
def WellFormed : ByteJson → Prop
  | .null => True
  | .boolean _ => True
  | .number _ => True
  | .string s => Utf8.WellFormed s
  | .array elements => ElementsWellFormed elements
  | .object members => MembersWellFormed members

def ElementsWellFormed : List ByteJson → Prop
  | [] => True
  | e :: rest => WellFormed e ∧ ElementsWellFormed rest

def MembersWellFormed : List (Bytes × ByteJson) → Prop
  | [] => True
  | m :: rest => (Utf8.WellFormed m.1 ∧ WellFormed m.2) ∧ MembersWellFormed rest
end

mutual
def decWellFormed : (j : ByteJson) → Decidable (WellFormed j)
  | .null => isTrue (by simp [WellFormed])
  | .boolean _ => isTrue (by simp [WellFormed])
  | .number _ => isTrue (by simp [WellFormed])
  | .string s => decidable_of_iff (Utf8.WellFormed s) (by simp [WellFormed])
  | .array elements =>
    let _ := decElementsWellFormed elements
    decidable_of_iff (ElementsWellFormed elements) (by simp [WellFormed])
  | .object members =>
    let _ := decMembersWellFormed members
    decidable_of_iff (MembersWellFormed members) (by simp [WellFormed])

def decElementsWellFormed : (l : List ByteJson) → Decidable (ElementsWellFormed l)
  | [] => isTrue (by simp [ElementsWellFormed])
  | e :: rest =>
    let _ := decWellFormed e
    let _ := decElementsWellFormed rest
    decidable_of_iff (WellFormed e ∧ ElementsWellFormed rest) (by simp [ElementsWellFormed])

def decMembersWellFormed : (l : List (Bytes × ByteJson)) → Decidable (MembersWellFormed l)
  | [] => isTrue (by simp [MembersWellFormed])
  | m :: rest =>
    let _ := decWellFormed m.2
    let _ := decMembersWellFormed rest
    decidable_of_iff ((Utf8.WellFormed m.1 ∧ WellFormed m.2) ∧ MembersWellFormed rest) (by simp [MembersWellFormed])
end

instance (j : ByteJson) : Decidable (WellFormed j) := decWellFormed j

/-- `dump()`. It writes into a string of its own, so nothing of it is left when it throws. -/
def dump (j : ByteJson) : Option Bytes := if j.WellFormed then some j.text else none

end ByteJson

/-! ## One object's text begins no other's -/

/-- Where a reader of a structured text stands; `depth` counts the brackets open beside the outermost. -/
inductive Reading
  | start
  | inside (depth : Nat)
  | quoted (depth : Nat)
  | escaped (depth : Nat)
  | complete

namespace Reading

def step : Reading → UInt8 → Option Reading
  | .start, b => if b = 0x7B ∨ b = 0x5B then some (.inside 0) else none
  | .inside depth, b =>
    if b = 0x22 then some (.quoted depth)
    else if b = 0x7B ∨ b = 0x5B then some (.inside (depth + 1))
    else if b = 0x7D ∨ b = 0x5D then
      match depth with
      | 0 => some .complete
      | d + 1 => some (.inside d)
    else some (.inside depth)
  | .quoted depth, b =>
    if b = 0x22 then some (.inside depth) else if b = 0x5C then some (.escaped depth) else some (.quoted depth)
  | .escaped depth, _ => some (.quoted depth)
  | .complete, _ => none

def read (r : Reading) (bytes : Bytes) : Option Reading := bytes.foldlM step r

variable {r : Reading} {b : UInt8} {s t : Bytes} {d : Nat}

theorem read_cons : read r (b :: s) = (step r b).bind (read · s) := by
  rw [read, List.foldlM_cons]
  rfl

theorem read_append : read r (s ++ t) = (read r s).bind (read · t) := by
  rw [read, List.foldlM_append]
  rfl

/-- Nothing is read after the closing bracket of the outermost opening. -/
theorem eq_nil_of_complete (hs : read .start s = some .complete) (ht : read .start (s ++ t) = some .complete) :
    t = [] := by
  cases t with
  | nil => rfl
  | cons b t =>
    rw [read_append, hs] at ht
    cases ht

/-- A byte that is neither a quote nor a bracket. -/
def Plain (b : UInt8) : Prop := b ≠ 0x22 ∧ b ≠ 0x7B ∧ b ≠ 0x5B ∧ b ≠ 0x7D ∧ b ≠ 0x5D

instance (b : UInt8) : Decidable (Plain b) := inferInstanceAs (Decidable (_ ∧ _))

theorem step_plain (hb : Plain b) : step (.inside d) b = some (.inside d) := by
  obtain ⟨h1, h2, h3, h4, h5⟩ := hb
  simp [step, h1, h2, h3, h4, h5]

theorem read_plain (hs : ∀ b ∈ s, Plain b) : read (.inside d) s = some (.inside d) := by
  induction s with
  | nil => rfl
  | cons b s ih =>
    rw [read_cons, step_plain (hs b List.mem_cons_self)]
    exact ih fun c hc => hs c (List.mem_cons_of_mem _ hc)

theorem plain_numberCharacters : (numberCharacters.all fun b => decide (Plain b)) = true := by
  decide

theorem plain_of_mem_numberCharacters : ∀ b ∈ numberCharacters, Plain b :=
  fun b hb => of_decide_eq_true (List.all_eq_true.mp plain_numberCharacters b hb)

theorem hexDigit_ne (n : UInt8) (hn : n < 16) : ByteJson.hexDigit n ≠ 0x22 ∧ ByteJson.hexDigit n ≠ 0x5C := by
  have h : ∀ k : Fin 16, ByteJson.hexDigit (UInt8.ofNat k) ≠ 0x22 ∧ ByteJson.hexDigit (UInt8.ofNat k) ≠ 0x5C := by
    decide
  simpa using h ⟨n.toNat, UInt8.lt_iff_toNat_lt.mp hn⟩

theorem read_escapeByte (b : UInt8) : read (.quoted d) (ByteJson.escapeByte b) = some (.quoted d) := by
  rw [ByteJson.escapeByte]
  split_ifs with h1 h2 h3 h4 h5 h6 h7 h8
  all_goals try rfl
  · have hb : b.toNat < 256 := b.toNat_lt
    have hhigh := hexDigit_ne (b / 16) (by rw [UInt8.lt_iff_toNat_lt, UInt8.toNat_div]; simp; omega)
    have hlow := hexDigit_ne (b % 16) (by rw [UInt8.lt_iff_toNat_lt, UInt8.toNat_mod]; simp; omega)
    simp [read, ascii, step, hhigh, hlow]
  · simp [read, step, h6, h7]

theorem read_stringText (s : Bytes) : read (.inside d) (ByteJson.stringText s) = some (.inside d) := by
  have hbody : read (.quoted d) (s.flatMap ByteJson.escapeByte) = some (.quoted d) := by
    induction s with
    | nil => rfl
    | cons b s ih =>
      rw [List.flatMap_cons, read_append, read_escapeByte]
      exact ih
  rw [ByteJson.stringText, read_cons, show step (.inside d) 0x22 = some (.quoted d) from rfl, Option.bind_some,
    read_append, hbody]
  rfl

theorem read_joined {pieces : List Bytes} (h : ∀ p ∈ pieces, read (.inside d) p = some (.inside d)) :
    read (.inside d) (ByteJson.joined pieces) = some (.inside d) := by
  fun_induction ByteJson.joined pieces with
  | case1 => rfl
  | case2 piece => exact h piece List.mem_cons_self
  | case3 piece rest _ ih =>
    rw [read_append, h piece List.mem_cons_self, Option.bind_some, read_cons, step_plain (by decide)]
    exact ih fun p hp => h p (List.mem_cons_of_mem _ hp)

mutual
theorem read_text : (d : Nat) → (j : ByteJson) → read (.inside d) j.text = some (.inside d)
  | _, .null => rfl
  | _, .boolean true => rfl
  | _, .boolean false => rfl
  | _, .number t => read_plain fun b hb => plain_of_mem_numberCharacters b (t.plain b hb)
  | _, .string s => read_stringText s
  | d, .array elements => by
    have hbody := read_joined (read_elementTexts (d + 1) elements)
    rw [ByteJson.text, read_cons, show step (.inside d) 0x5B = some (.inside (d + 1)) from rfl, Option.bind_some,
      read_append, hbody]
    rfl
  | d, .object members => by
    have hbody := read_joined (read_memberTexts (d + 1) members)
    rw [ByteJson.text, read_cons, show step (.inside d) 0x7B = some (.inside (d + 1)) from rfl, Option.bind_some,
      read_append, hbody]
    rfl

theorem read_elementTexts : (d : Nat) → (l : List ByteJson) →
    ∀ p ∈ ByteJson.elementTexts l, read (.inside d) p = some (.inside d)
  | _, [], p, hp => by cases hp
  | d, e :: rest, p, hp => by
    rw [ByteJson.elementTexts] at hp
    rcases List.mem_cons.mp hp with rfl | hp
    · exact read_text d e
    · exact read_elementTexts d rest p hp

theorem read_memberTexts : (d : Nat) → (l : List (Bytes × ByteJson)) →
    ∀ p ∈ ByteJson.memberTexts l, read (.inside d) p = some (.inside d)
  | _, [], p, hp => by cases hp
  | d, m :: rest, p, hp => by
    rw [ByteJson.memberTexts] at hp
    rcases List.mem_cons.mp hp with rfl | hp
    · rw [read_append, read_stringText, Option.bind_some, read_cons, step_plain (by decide), Option.bind_some]
      exact read_text d m.2
    · exact read_memberTexts d rest p hp
end

theorem read_text_object (members : List (Bytes × ByteJson)) :
    read .start (ByteJson.object members).text = some .complete := by
  have hbody := read_joined (read_memberTexts 0 members)
  rw [ByteJson.text, read_cons, show step .start 0x7B = some (.inside 0) from rfl, Option.bind_some, read_append, hbody]
  rfl

end Reading

namespace ByteJson

theorem dump_eq_some {j : ByteJson} {t : Bytes} (h : j.dump = some t) : j.WellFormed ∧ t = j.text := by
  rw [dump] at h
  split_ifs at h with hwf
  cases h
  exact ⟨hwf, rfl⟩

theorem WellFormed.of_mem {members : List (Bytes × ByteJson)} (h : MembersWellFormed members) {m : Bytes × ByteJson}
    (hm : m ∈ members) : m.2.WellFormed := by
  induction members with
  | nil => cases hm
  | cons first rest ih =>
    rw [MembersWellFormed] at h
    rcases List.mem_cons.mp hm with rfl | hm
    · exact h.1.2
    · exact ih h.2 hm

theorem WellFormed.find {j value : ByteJson} (h : j.WellFormed) {key : Bytes} (hfind : j.find key = some value) :
    value.WellFormed := by
  cases j with
  | object members =>
    rw [WellFormed] at h
    obtain ⟨m, hm, rfl⟩ := Option.map_eq_some_iff.mp hfind
    exact WellFormed.of_mem h (List.mem_of_find?_eq_some hm)
  | _ => cases hfind

/-- A proper beginning of an object's text is the text of no object. -/
theorem text_ne_take {j k : ByteJson} (hj : j.isObject = true) (hk : k.isObject = true) {n : Nat}
    (hn : n < j.text.length) : k.text ≠ j.text.take n := by
  intro heq
  cases j with
  | object members =>
    cases k with
    | object others =>
      have hwhole := Reading.read_text_object members
      rw [← List.take_append_drop n (ByteJson.object members).text, ← heq] at hwhole
      have hnil := Reading.eq_nil_of_complete (Reading.read_text_object others) hwhole
      rw [List.drop_eq_nil_iff] at hnil
      omega
    | _ => cases hk
  | _ => cases hj

end ByteJson
end Didi.Bridge
