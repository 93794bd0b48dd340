import Didi.Json.Value
import Didi.Lib.Locked

/-!
# JSON pointers, typed reads and patches

* `Json.resolve` : what a pointer resolves to, if anything; `contains_eq_true` says that `contains`
  answers true exactly where it resolves;
* `Json.eraseMember` : the removal of what a pointer resolves to where that is an object member;
* `Json.getInteger`, `Json.getBoolean`, `Json.getText` : `get<int64_t>()`, `get<bool>()` and
  `get<std::string>()`;
* `Json.value`, `Json.valueInteger`, `Json.valueBoolean`, `Json.valueString` : `value(key, default)`, with the exception
  it throws on a value that is not an object.

A pointer is its list of reference tokens. `JsonPointer.parse` reads the text form; `Json.contains`,
`Json.atPointer` and `Json.alterAt` walk a value the way `contains`, `at` and a write through `at`
do, with the exceptions the library throws.

An integer is read as it stands: none that is read here comes near the end of its 64 bits.

`Json.patchOne` applies one RFC 6902 operation as `patch` does for a patch of that one operation,
with the exceptions it throws. `Json.operationAdd` and `Json.operationRemove` are the two wrappers
that `add`, `copy`, `move` and `remove` share.
-/

namespace Didi

/-- An exception of the JSON library: its number and the text of `what()`. -/
structure JsonException where
  id : Nat
  what : String
  deriving DecidableEq

namespace JsonException

def parseError (id : Nat) (byte : Nat) (message : String) : JsonException where
  id := id
  what := "[json.exception.parse_error." ++ toString id ++ "] parse error" ++
    (if byte = 0 then "" else " at byte " ++ toString byte) ++ ": " ++ message

def outOfRange (id : Nat) (message : String) : JsonException where
  id := id
  what := "[json.exception.out_of_range." ++ toString id ++ "] " ++ message

def typeError (id : Nat) (message : String) : JsonException where
  id := id
  what := "[json.exception.type_error." ++ toString id ++ "] " ++ message

def otherError (id : Nat) (message : String) : JsonException where
  id := id
  what := "[json.exception.other_error." ++ toString id ++ "] " ++ message

def unresolvedToken (token : String) : JsonException :=
  outOfRange 404 ("unresolved reference token '" ++ token ++ "'")

end JsonException

abbrev JsonPointer := List String

namespace JsonPointer

/-- Undo the escapes of one token; `none` when a `~` is not followed by `0` or `1`. -/
def unescape : List Char → Option (List Char)
  | [] => some []
  | c :: cs =>
    if c = '~' then
      match cs with
      | [] => none
      | d :: ds =>
        if d = '0' then (unescape ds).map ('~' :: ·)
        else if d = '1' then (unescape ds).map ('/' :: ·)
        else none
    else (unescape cs).map (c :: ·)

def parseTokens : List (List Char) → Except JsonException JsonPointer
  | [] => .ok []
  | token :: tokens =>
    match unescape token with
    | none => .error (.parseError 108 0 "escape character '~' must be followed with '0' or '1'")
    | some cs => (parseTokens tokens).map (String.ofList cs :: ·)

/-- The constructor of `json_pointer`: the tokens of a pointer text. -/
def parse (text : String) : Except JsonException JsonPointer :=
  match text.toList with
  | [] => .ok []
  | c :: cs =>
    if c = '/' then parseTokens (cs.splitOn '/')
    else .error (.parseError 107 1
      ("JSON pointer must be empty or begin with '/' - was: '" ++ text ++ "'"))

def isDigit (c : Char) : Bool := '0' ≤ c && c ≤ '9'

/-- The number a nonempty run of decimal digits denotes. -/
def digitsValue (cs : List Char) : Option Nat :=
  if cs ≠ [] ∧ cs.all isDigit then some (cs.foldl (fun n c => 10 * n + (c.toNat - 48)) 0) else none

/-- A token as an array index of 64 bits. -/
def arrayIndex (token : String) : Except JsonException Nat :=
  let cs := token.toList
  if 1 < token.utf8ByteSize ∧ cs.head? = some '0' then
    .error (.parseError 106 0 ("array index '" ++ token ++ "' must not begin with '0'"))
  else if 1 < token.utf8ByteSize ∧ ¬ cs.head?.any isDigit then
    .error (.parseError 109 0 ("array index '" ++ token ++ "' is not a number"))
  else
    match digitsValue cs with
    | none => .error (.unresolvedToken token)
    | some n =>
      if 2 ^ 64 ≤ n then .error (.unresolvedToken token)
      else if n = 2 ^ 64 - 1 then
        .error (.outOfRange 410 ("array index " ++ token ++ " exceeds size_type"))
      else .ok n

/-- The spelling `contains` asks of an index: one digit, or digits that do not begin with `0`. The
empty token gets past these tests. -/
def indexSyntax (token : String) : Bool :=
  match token.toList with
  | [] => true
  | c :: [] => isDigit c
  | c :: cs => isDigit c && c ≠ '0' && cs.all isDigit

end JsonPointer

namespace Json
open JsonPointer

/-- `contains(pointer)`. -/
def contains : Json → JsonPointer → Except JsonException Bool
  | _, [] => .ok true
  | .object members, k :: ks =>
    match members.lookup k with
    | none => .ok false
    | some child => child.contains ks
  | .array elements, k :: ks =>
    if k = "-" then .ok false
    else if indexSyntax k then
      match arrayIndex k with
      | .error e => .error e
      | .ok idx =>
        match elements[idx]? with
        | none => .ok false
        | some child => child.contains ks
    else .ok false
  | _, _ :: _ => .ok false

def keyNotFound (k : String) : JsonException := .outOfRange 403 ("key '" ++ k ++ "' not found")

def dashIndex (size : Nat) : JsonException :=
  .outOfRange 402 ("array index '-' (" ++ toString size ++ ") is out of range")

def indexOutOfRange (idx : Nat) : JsonException :=
  .outOfRange 401 ("array index " ++ toString idx ++ " is out of range")

/-- Replace what `at(pointer)` refers to by the value `f` answers for it. -/
def alterAt (f : Json → Except JsonException Json) : Json → JsonPointer → Except JsonException Json
  | v, [] => f v
  | .object members, k :: ks =>
    match members.lookup k with
    | none => .error (keyNotFound k)
    | some child => (child.alterAt f ks).map fun v => .object (members.alterKey k fun _ => v)
  | .array elements, k :: ks =>
    if k = "-" then .error (dashIndex elements.length)
    else
      match arrayIndex k with
      | .error e => .error e
      | .ok idx =>
        match elements[idx]? with
        | none => .error (indexOutOfRange idx)
        | some child => (child.alterAt f ks).map fun v => .array (elements.set idx v)
  | _, k :: _ => .error (.unresolvedToken k)

/-- `at(pointer)`. -/
def atPointer : Json → JsonPointer → Except JsonException Json
  | v, [] => .ok v
  | .object members, k :: ks =>
    match members.lookup k with
    | none => .error (keyNotFound k)
    | some child => child.atPointer ks
  | .array elements, k :: ks =>
    if k = "-" then .error (dashIndex elements.length)
    else
      match arrayIndex k with
      | .error e => .error e
      | .ok idx =>
        match elements[idx]? with
        | none => .error (indexOutOfRange idx)
        | some child => child.atPointer ks
  | _, k :: _ => .error (.unresolvedToken k)

/-- `erase(key)`, which only an object has. -/
def erase (k : String) : Json → Except JsonException Json
  | .object members => .ok (.object (members.eraseKey k))
  | v => .error (.typeError 307 ("cannot use erase() with " ++ v.typeName))

/-- Remove what the pointer resolves to if it is a member of an object. -/
def eraseMember (v : Json) (pointer : JsonPointer) : Except JsonException Json := do
  if !(← v.contains pointer) then return v
  let parent := pointer.dropLast
  if !(← v.contains parent) then return v
  if !(← v.atPointer parent).isObject then return v
  v.alterAt (erase (pointer.getLastD "")) parent

/-- What the pointer resolves to, if anything. -/
def resolve (v : Json) (pointer : JsonPointer) : Option Json := (v.atPointer pointer).toOption

/-! ## Where a pointer resolves -/

@[simp] theorem resolve_nil (v : Json) : v.resolve [] = some v := by cases v <;> rfl

@[simp] theorem resolve_object_cons (members : JsonObject) (k : String) (ks : JsonPointer) :
    (object members).resolve (k :: ks) = (members.lookup k).bind (·.resolve ks) := by
  unfold resolve
  rw [atPointer]
  cases members.lookup k <;> rfl

theorem atPointer_of_resolve {v w : Json} {p : JsonPointer} (h : v.resolve p = some w) :
    v.atPointer p = .ok w := by
  unfold resolve at h
  cases hat : v.atPointer p with
  | ok u =>
    rw [hat] at h
    exact congrArg Except.ok (Option.some.inj h)
  | error e =>
    rw [hat] at h
    cases h

theorem resolve_append (v : Json) (p q : JsonPointer) :
    v.resolve (p ++ q) = (v.resolve p).bind (·.resolve q) := by
  induction p generalizing v with
  | nil => simp
  | cons k ks ih =>
    cases v with
    | object members =>
      rw [List.cons_append, resolve_object_cons, resolve_object_cons]
      cases members.lookup k with
      | none => rfl
      | some child => exact ih child
    | array elements =>
      simp only [resolve, List.cons_append, atPointer]
      split_ifs
      · rfl
      · cases arrayIndex k with
        | error e => rfl
        | ok idx =>
          dsimp only
          cases elements[idx]? with
          | none => rfl
          | some child => exact ih child
    | null => rfl
    | boolean b => rfl
    | integer i => rfl
    | real value text => rfl
    | string s => rfl

theorem one_lt_utf8ByteSize {s : String} (h : 1 < s.toList.length) : 1 < s.utf8ByteSize := by
  have hle : ∀ cs : List Char, cs.length ≤ (String.ofList cs).utf8ByteSize := by
    intro cs
    induction cs with
    | nil => exact Nat.zero_le _
    | cons c cs ih =>
      have hc := c.utf8Size_pos
      simp only [List.length_cons, String.ofList_cons, String.utf8ByteSize_append,
        String.utf8ByteSize_singleton]
      omega
  have hs := hle s.toList
  rw [String.ofList_toList] at hs
  omega

theorem digitsValue_all {cs : List Char} {n : Nat} (h : digitsValue cs = some n) :
    cs.all isDigit = true := by
  unfold digitsValue at h
  split_ifs at h with hcs
  exact hcs.2

/-- An index that `at` accepts is spelled the way `contains` asks. -/
theorem indexSyntax_of_arrayIndex {k : String} {idx : Nat} (h : arrayIndex k = .ok idx) :
    indexSyntax k = true := by
  unfold arrayIndex at h
  dsimp only at h
  split_ifs at h with h1 h2
  cases hd : digitsValue k.toList with
  | none => simp [hd] at h
  | some n =>
    have hall := digitsValue_all hd
    unfold indexSyntax
    split
    · rfl
    · rename_i c hk
      simpa [hk] using hall
    · rename_i c cs hcs hk
      have hlen : 1 < k.toList.length := by
        rw [hk]
        have := List.length_pos_iff.mpr hcs
        rw [List.length_cons]
        omega
      have hne : c ≠ '0' := fun he => h1 ⟨one_lt_utf8ByteSize hlen, by rw [hk, he]; rfl⟩
      rw [hk, List.all_cons, Bool.and_eq_true] at hall
      simp [hall.1, hall.2, hne]

/-- `contains` answers true exactly where the pointer resolves. -/
theorem contains_eq_true {v : Json} {p : JsonPointer} :
    v.contains p = .ok true ↔ ∃ w, v.resolve p = some w := by
  induction p generalizing v with
  | nil => simp [contains]
  | cons k ks ih =>
    cases v with
    | object members =>
      rw [contains, resolve_object_cons]
      cases members.lookup k with
      | none => simp
      | some child => exact ih
    | array elements =>
      unfold resolve
      rw [contains, atPointer]
      split_ifs with hdash hsyn
      · simp [Except.toOption]
      · cases arrayIndex k with
        | error e => simp [Except.toOption]
        | ok idx =>
          dsimp only
          cases elements[idx]? with
          | none => simp [Except.toOption]
          | some child => exact ih
      · cases hidx : arrayIndex k with
        | error e => simp [Except.toOption]
        | ok idx => exact absurd (indexSyntax_of_arrayIndex hidx) hsyn
    | null => simp [contains, resolve, atPointer, Except.toOption]
    | boolean b => simp [contains, resolve, atPointer, Except.toOption]
    | integer i => simp [contains, resolve, atPointer, Except.toOption]
    | real value text => simp [contains, resolve, atPointer, Except.toOption]
    | string s => simp [contains, resolve, atPointer, Except.toOption]

/-- Below the place that was altered, the new value is what the function answered. -/
theorem alterAt_below {f : Json → Except JsonException Json} {p : JsonPointer} {v v' : Json}
    (h : v.alterAt f p = .ok v') :
    ∃ c c', v.resolve p = some c ∧ f c = .ok c' ∧
      ∀ q, v'.contains (p ++ q) = c'.contains q ∧ v'.resolve (p ++ q) = c'.resolve q := by
  induction p generalizing v v' with
  | nil =>
    rw [alterAt] at h
    exact ⟨v, v', resolve_nil v, h, fun q => ⟨rfl, rfl⟩⟩
  | cons k ks ih =>
    cases v with
    | object members =>
      rw [alterAt] at h
      cases hk : members.lookup k with
      | none => simp [hk] at h
      | some child =>
        rw [hk] at h
        obtain ⟨child', hchild, rfl⟩ := Except.map_eq_ok.mp h
        obtain ⟨c, c', hc, hf, hbelow⟩ := ih hchild
        have hk' : (members.alterKey k fun _ => child').lookup k = some child' := by
          simp [List.lookup_alterKey, hk]
        refine ⟨c, c', by simpa [hk] using hc, hf, fun q => ?_⟩
        rw [List.cons_append, contains, hk', resolve_object_cons, hk']
        exact hbelow q
    | array elements =>
      rw [alterAt] at h
      split_ifs at h with hdash
      cases hidx : arrayIndex k with
      | error e => simp [hidx] at h
      | ok idx =>
        rw [hidx] at h
        dsimp only at h
        cases hget : elements[idx]? with
        | none => simp [hget] at h
        | some child =>
          rw [hget] at h
          obtain ⟨child', hchild, rfl⟩ := Except.map_eq_ok.mp h
          obtain ⟨c, c', hc, hf, hbelow⟩ := ih hchild
          have hlt : idx < elements.length := (List.getElem?_eq_some_iff.mp hget).1
          have hset : (elements.set idx child')[idx]? = some child' := by simp [hlt]
          refine ⟨c, c', ?_, hf, fun q => ?_⟩
          · unfold resolve at hc ⊢
            rw [atPointer, if_neg hdash, hidx]
            dsimp only
            rwa [hget]
          · have hsyn := indexSyntax_of_arrayIndex hidx
            unfold resolve
            rw [List.cons_append, contains, if_neg hdash, if_pos hsyn, atPointer, if_neg hdash, hidx]
            dsimp only
            rw [hset]
            exact hbelow q
    | null => cases h
    | boolean b => cases h
    | integer i => cases h
    | real value text => cases h
    | string s => cases h

theorem erase_eq_ok {k : String} {v v' : Json} (h : v.erase k = .ok v') :
    ∃ members, v = .object members ∧ v' = .object (members.eraseKey k) := by
  cases v with
  | object members =>
    cases h
    exact ⟨members, rfl, rfl⟩
  | _ => cases h

/-- What was erased is not there any more. -/
theorem contains_alterAt_erase {v v' : Json} {p : JsonPointer} {k : String}
    (h : v.alterAt (erase k) p = .ok v') : v'.contains (p ++ [k]) = .ok false := by
  obtain ⟨c, c', -, herase, hbelow⟩ := alterAt_below h
  obtain ⟨members, -, rfl⟩ := erase_eq_ok herase
  rw [(hbelow [k]).1, contains, List.lookup_eraseKey, if_pos rfl]

theorem alterKey_self {m : JsonObject} {k : String} {c : Json} (h : m.lookup k = some c) :
    m.alterKey k (fun _ => c) = m := by
  induction m with
  | nil => cases h
  | cons e m ih =>
    obtain ⟨k', v⟩ := e
    rw [List.lookup_cons_eq] at h
    rw [List.alterKey]
    split_ifs at h ⊢ with hk
    · cases h
      rfl
    · rw [ih h]

/-! ## Typed reads of a member -/

def getInteger : Json → Except JsonException Int
  | .integer i => .ok i
  | .real value _ => .ok (value.num.tdiv value.den)
  | v => .error (.typeError 302 ("type must be number, but is " ++ v.typeName))

def getBoolean : Json → Except JsonException Bool
  | .boolean b => .ok b
  | v => .error (.typeError 302 ("type must be boolean, but is " ++ v.typeName))

def getText : Json → Except JsonException String
  | .string s => .ok s
  | v => .error (.typeError 302 ("type must be string, but is " ++ v.typeName))

/-- The member `key`, read by `read`, or `fallback` where the object has none. -/
def valueBy {α : Type} (read : Json → Except JsonException α) (key : String) (fallback : α) :
    Json → Except JsonException α
  | .object members =>
    match members.lookup key with
    | none => .ok fallback
    | some v => read v
  | v => .error (.typeError 306 ("cannot use value() with " ++ v.typeName))

def value (key : String) (fallback : Json) (v : Json) : Except JsonException Json :=
  v.valueBy .ok key fallback

def valueInteger (key : String) (fallback : Int) (v : Json) : Except JsonException Int :=
  v.valueBy getInteger key fallback

def valueBoolean (key : String) (fallback : Bool) (v : Json) : Except JsonException Bool :=
  v.valueBy getBoolean key fallback

def valueString (key : String) (fallback : String) (v : Json) : Except JsonException String :=
  v.valueBy getText key fallback

theorem valueInteger_of_lookup {members : JsonObject} {key : String} {i : Int} (fallback : Int)
    (h : members.lookup key = some (.integer i)) :
    (Json.object members).valueInteger key fallback = .ok i := by
  simp only [valueInteger, valueBy, h, getInteger]

/-! ## One operation of a JSON patch -/

/-- A member that an operation must have. -/
def getValue (operation : JsonObject) (op member : String) : Except JsonException Json :=
  match operation.lookup member with
  | some v => .ok v
  | none =>
    .error (.parseError 105 0
      ((if op = "op" then "operation" else "operation '" ++ op ++ "'") ++
        " must have member '" ++ member ++ "'"))

/-- A member that an operation must have and that must be a string. -/
def getString (operation : JsonObject) (op member : String) : Except JsonException String := do
  match ← getValue operation op member with
  | .string s => .ok s
  | _ =>
    .error (.parseError 105 0
      ((if op = "op" then "operation" else "operation '" ++ op ++ "'") ++
        " must have string member '" ++ member ++ "'"))

/-- Add `v` to a container. A primitive container trips an assertion that a release build leaves
out, and then nothing is added. -/
def addTo (last : String) (v : Json) : Json → Except JsonException Json
  | .null => .ok (.object [(last, v)])
  | .object members => .ok (.object (members.insertKey last v))
  | .array elements =>
    if last = "-" then .ok (.array (elements ++ [v]))
    else
      match arrayIndex last with
      | .error e => .error e
      | .ok idx =>
        if elements.length < idx then .error (indexOutOfRange idx)
        else .ok (.array (elements.insertIdx idx v))
  | parent => .ok parent

def operationAdd (result : Json) (ptr : JsonPointer) (v : Json) : Except JsonException Json :=
  match ptr with
  | [] => .ok v
  | k :: ks =>
    -- the top element is looked up on its own before the parent is
    match (if ks = [] then .ok .null else result.atPointer [k]) with
    | .error e => .error e
    | .ok _ => result.alterAt (addTo (ptr.getLastD "") v) ptr.dropLast

def removeFrom (last : String) : Json → Except JsonException Json
  | .object members =>
    match members.lookup last with
    | none => .error (keyNotFound last)
    | some _ => .ok (.object (members.eraseKey last))
  | .array elements =>
    match arrayIndex last with
    | .error e => .error e
    | .ok idx =>
      if elements.length ≤ idx then .error (indexOutOfRange idx)
      else .ok (.array (elements.eraseIdx idx))
  | parent => .ok parent

def operationRemove (result : Json) (ptr : JsonPointer) : Except JsonException Json :=
  match ptr with
  | [] => .error (.outOfRange 405 "JSON pointer has no parent")
  | _ :: _ => result.alterAt (removeFrom (ptr.getLastD "")) ptr.dropLast

/-- Whether the exception is of the class `out_of_range`, which the numbers from 400 are. -/
def isOutOfRange (e : JsonException) : Bool := 400 ≤ e.id && e.id < 500

/-- The comparison of a `test` operation; a location that does not resolve compares unequal. -/
def testEquals (result : Json) (ptr : JsonPointer) (v : Json) : Except JsonException Bool :=
  match result.atPointer ptr with
  | .ok w => .ok (w.equals v)
  | .error e => if isOutOfRange e then .ok false else .error e

/-- `patch` with an array of one operation. -/
def patchOne (result : Json) (operation : Json) : Except JsonException Json := do
  match operation with
  | .object members =>
    let op ← getString members "op" "op"
    let path ← getString members op "path"
    let ptr ← parse path
    if op = "add" then
      operationAdd result ptr (← getValue members "add" "value")
    else if op = "remove" then
      operationRemove result ptr
    else if op = "replace" then
      let v ← getValue members "replace" "value"
      result.alterAt (fun _ => .ok v) ptr
    else if op = "move" then
      let fromPtr ← parse (← getString members "move" "from")
      let v ← result.atPointer fromPtr
      operationAdd (← operationRemove result fromPtr) ptr v
    else if op = "copy" then
      let fromPtr ← parse (← getString members "copy" "from")
      let v ← result.atPointer fromPtr
      operationAdd result ptr v
    else if op = "test" then
      let success ← testEquals result ptr (← getValue members "test" "value")
      if success then .ok result
      else .error (.otherError 501 ("unsuccessful: " ++ operation.dump))
    else
      .error (.parseError 105 0 ("operation value '" ++ op ++ "' is invalid"))
  | _ => .error (.parseError 104 0 "JSON patch must be an array of objects")

end Json
end Didi
