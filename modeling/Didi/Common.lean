import Didi.Json.Value

/-!
# Errors and texts

* `Error` : the error of a `Result`;
* `utf8Prefix` : a text cut where a character begins.
-/

namespace Didi

/-- The error of a `Result`. -/
structure Error where
  code : Nat
  message : String
  data : Json := .null

namespace Error

def notFound (message : String) : Error := { code := 404, message }

def invalidArgument (message : String) : Error := { code := 400, message }

def internal (message : String) : Error := { code := 500, message }

/-- A member of the data that is a string. -/
def dataString (e : Error) (member : String) : Option String :=
  match e.data with
  | .object members =>
    match members.lookup member with
    | some (.string s) => some s
    | _ => none
  | _ => none

end Error

/-- The characters that fit in as many bytes. -/
def prefixWithin : Nat → List Char → List Char
  | _, [] => []
  | max, c :: rest => if c.utf8Size ≤ max then c :: prefixWithin (max - c.utf8Size) rest else []

/-- The first bytes of a text, cut where a character begins. -/
def utf8Prefix (text : String) (max : Nat) : String := String.ofList (prefixWithin max text.toList)

end Didi
