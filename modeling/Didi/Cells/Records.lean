import Didi.Common
import Didi.Json.Value

/-!
# Records of cells, and the cells that they expand to

* `Point`, `tuple` : coordinates, and how an argument spells them;
* `readRecord` : the checks of one record: its fields, its payload, its place and its size;
* `coverPoint`, `coverRecord` : a record joins those before it;
* `prepare` : the checked batch: its canonical records, the cells and the range of each record.
-/

namespace Didi.Cells
open Json

def kMaxRecords : Nat := 256

def kMaxExpandedCells : Nat := 4096

def kCoordinateLimit : Int := 1048576

/-! ## Coordinates -/

/-- A place on each axis; the plane has no third. -/
structure Point where
  x : Int := 0
  y : Int := 0
  z : Int := 0
  deriving DecidableEq

def axes : List String := ["x", "y", "z"]

namespace Point

/-- The coordinates on the first axes. -/
def values (p : Point) (dimensions : Nat) : List Int := [p.x, p.y, p.z].take dimensions

def ofValues (values : List Int) : Point := ⟨values.getD 0 0, values.getD 1 0, values.getD 2 0⟩

def toJson (p : Point) (dimensions : Nat) : Json := .array ((p.values dimensions).map .integer)

end Point

/-- The size of an array or of an object. -/
def tupleSize : Json → Option Nat
  | .array elements => some elements.length
  | .object members => some members.length
  | _ => none

def component (input : Json) (axis : Nat) : Option Json :=
  match input with
  | .array elements => elements[axis]?
  | .object members => (axes[axis]?).bind fun name => members.lookup name
  | _ => none

/-- Coordinates as an array, or as an object of their axes. -/
def tuple (dimensions : Nat) (minimum maximum : Int) (input : Json) : Option Point :=
  if tupleSize input = some dimensions then
    ((List.range dimensions).mapM fun axis =>
      (component input axis).bind fun value => boundedJsonInteger value minimum maximum).map Point.ofValues
  else none

/-! ## One record -/

/-- What holds the coordinate of a cell. -/
def coordinateKey (dimensions : Nat) : String := if dimensions = 2 then "coords" else "position"

/-- The other name that is taken for it. -/
def aliasKey (dimensions : Nat) : String := if dimensions = 2 then "position" else "coords"

def locators : List String := ["coords", "position", "rect"]

def payloadFields (dimensions : Nat) (record : JsonObject) : List String :=
  if dimensions = 2 then
    if (record.lookup "erase").isSome then ["erase"] else ["source_id", "atlas_coords", "alternative_tile"]
  else ["item", "orientation"]

/-- What is written is one small payload, whatever it is copied to. -/
def checkFields (dimensions : Nat) (location : String) (record : JsonObject) : Except Error Unit :=
  match record.find? fun e => e.1 ∉ locators ∧ e.1 ∉ payloadFields dimensions record with
  | some e => .error (.invalidArgument (location ++ " has an unknown or incompatible field '" ++ e.1 ++ "'."))
  | none => .ok ()

/-- The payload of a tile, which answers its atlas coordinates. -/
def checkTile (location : String) (record : JsonObject) : Except Error (Option Point) :=
  match record.lookup "erase" with
  | some (.boolean true) => .ok none
  | some _ => .error (.invalidArgument (location ++ " erase must be true."))
  | none =>
    if ((record.lookup "source_id").bind (boundedJsonInteger · 0 2147483647)).isNone then
      .error (.invalidArgument (location ++ " source_id must be an integer from 0 to 2147483647."))
    else match (record.lookup "atlas_coords").bind (tuple 2 0 kCoordinateLimit) with
      | none => .error (.invalidArgument (location ++ " atlas_coords must be a bounded integer pair."))
      | some atlas =>
        if (record.lookup "alternative_tile").any fun value => (boundedJsonInteger value 0 65535).isNone then
          .error (.invalidArgument (location ++ " alternative_tile must be an integer from 0 to 65535."))
        else .ok (some atlas)

/-- The payload of a cell of a grid. -/
def checkItem (location : String) (record : JsonObject) : Except Error (Option Point) :=
  match (record.lookup "item").bind (boundedJsonInteger · (-1) 2147483647) with
  | none => .error (.invalidArgument (location ++ " item must be an integer from -1 to 2147483647."))
  | some item =>
    match (record.lookup "orientation").elim (some 0) (boundedJsonInteger · 0 23) with
    | none => .error (.invalidArgument (location ++ " orientation must be an integer from 0 to 23."))
    | some orientation =>
      if item = -1 ∧ orientation ≠ 0 then
        .error (.invalidArgument (location ++ " erases (item -1) and sets orientation " ++ toString orientation ++
          "; an erased cell has no orientation. Drop orientation, or set an item to place."))
      else .ok none

def checkPayload (dimensions : Nat) (location : String) (record : JsonObject) : Except Error (Option Point) :=
  if dimensions = 2 then checkTile location record else checkItem location record

/-- Where a record is. -/
structure Placement where
  position : Point
  size : Point := ⟨1, 1, 1⟩
  rectangle : Bool := false

def rectParts : Json → Option (Json × Json)
  | .object members =>
    if members.length = 2 then
      match members.lookup "position", members.lookup "size" with
      | some position, some size => some (position, size)
      | _, _ => none
    else none
  | _ => none

/-- A rectangle of the plane is one cell high. -/
def flatten (dimensions : Nat) (size : Point) : Point := if dimensions = 2 then { size with z := 1 } else size

def locateRect (dimensions : Nat) (location : String) (rect : Json) : Except Error Placement :=
  match rectParts rect with
  | none => .error (.invalidArgument (location ++ " rect requires only position and size."))
  | some (position, size) =>
    match tuple dimensions (-kCoordinateLimit) kCoordinateLimit position,
        tuple dimensions 1 kMaxExpandedCells size with
    | some origin, some extent => .ok { position := origin, size := flatten dimensions extent, rectangle := true }
    | _, _ => .error (.invalidArgument (location ++
        " rect.position needs bounded integer coordinates and rect.size needs positive integers."))

def locateCell (dimensions : Nat) (location : String) (input : Json) : Except Error Placement :=
  match tuple dimensions (-kCoordinateLimit) kCoordinateLimit input with
  | none => .error (.invalidArgument (location ++ " has invalid integer coordinates."))
  | some origin => .ok { position := origin }

def locate (dimensions : Nat) (location : String) (record : JsonObject) : Except Error Placement :=
  match record.lookup "rect" with
  | some rect =>
    if (record.lookup "coords").isSome ∨ (record.lookup "position").isSome then
      .error (.invalidArgument (location ++ " must use rect or a cell coordinate, not both."))
    else locateRect dimensions location rect
  | none =>
    match record.lookup (coordinateKey dimensions), record.lookup (aliasKey dimensions) with
    | some input, none => locateCell dimensions location input
    | none, some input => locateCell dimensions location input
    | _, _ => .error (.invalidArgument (location ++ " requires exactly one cell coordinate or rect."))

def tooManyCells : Error :=
  .invalidArgument "Argument 'cells' touches more than 4096 cells; split the rectangles into separate calls."

/-- One axis more. The product is checked by division. -/
def countAxis (location : String) (count : Nat) (axis : Int × Int) : Except Error Nat :=
  if kCoordinateLimit - (axis.2 - 1) < axis.1 then
    .error (.invalidArgument (location ++ " rect ends outside coordinate bounds."))
  else if kMaxExpandedCells / count < axis.2.toNat then .error tooManyCells
  else .ok (count * axis.2.toNat)

def countCells (dimensions : Nat) (location : String) (placement : Placement) : Except Error Nat :=
  ((placement.position.values dimensions).zip (placement.size.values dimensions)).foldlM (countAxis location) 1

/-- The record, its place spelled in the one way. -/
def canonical (dimensions : Nat) (record : JsonObject) (placement : Placement) (atlas : Option Point) : JsonObject :=
  let record := record.eraseKey (aliasKey dimensions)
  let record :=
    if placement.rectangle then record.insertKey "rect" (.object
      [("position", placement.position.toJson dimensions), ("size", placement.size.toJson dimensions)])
    else record.insertKey (coordinateKey dimensions) (placement.position.toJson dimensions)
  match atlas with
  | some atlas => record.insertKey "atlas_coords" (atlas.toJson 2)
  | none => record

/-- A record that has been read. -/
structure Reading where
  record : JsonObject
  placement : Placement
  count : Nat

/-- The record at this place of the batch. -/
def readRecord (dimensions index : Nat) (record : Json) : Except Error Reading := do
  let location := "Argument 'cells' entry " ++ toString index
  match record with
  | .object members =>
    checkFields dimensions location members
    let atlas ← checkPayload dimensions location members
    let placement ← locate dimensions location members
    let count ← countCells dimensions location placement
    return { record := canonical dimensions members placement atlas, placement, count }
  | _ => .error (.invalidArgument (location ++ " must be an object."))

/-! ## The batch -/

/-- The points of a box, in the order of the loops over them. -/
def Placement.points (placement : Placement) : List Point :=
  (List.range placement.size.z.toNat).flatMap fun z : Nat =>
    (List.range placement.size.y.toNat).flatMap fun y : Nat =>
      (List.range placement.size.x.toNat).map fun x : Nat =>
        ⟨placement.position.x + x, placement.position.y + y, placement.position.z + z⟩

structure PreparedRecords where
  records : List Json := []
  expanded : List Json := []
  ranges : List (Nat × Nat) := []

/-- A batch under way, with the record that each point came from. -/
structure Preparing extends PreparedRecords where
  seen : List (Point × Nat) := []

/-- The record, at one of its points. -/
def cellAt (dimensions : Nat) (record : JsonObject) (point : Point) : JsonObject :=
  ((record.eraseKey "rect").eraseKey (aliasKey dimensions)).insertKey (coordinateKey dimensions) (point.toJson dimensions)

def writtenTwice (dimensions earlier index : Nat) (point : Point) : Error where
  code := 409
  message := "Argument 'cells' entries " ++ toString earlier ++ " and " ++ toString index ++ " both write " ++
    coordinateKey dimensions ++ " [" ++ String.intercalate ", " ((point.values dimensions).map toString) ++
    "]; each one may appear once."

def coverPoint (dimensions index : Nat) (record : JsonObject) (s : Preparing) (point : Point) :
    Except Error Preparing :=
  match s.seen.lookup point with
  | some earlier => .error (writtenTwice dimensions earlier index point)
  | none => .ok { s with
      seen := (point, index) :: s.seen
      expanded := s.expanded ++ [.object (cellAt dimensions record point)] }

def coverRecord (dimensions index : Nat) (reading : Reading) (s : Preparing) : Except Error Preparing :=
  if kMaxExpandedCells - s.expanded.length < reading.count then .error tooManyCells
  else do
    let covered ← reading.placement.points.foldlM (coverPoint dimensions index reading.record)
      { s with records := s.records ++ [.object reading.record] }
    return { covered with ranges := covered.ranges ++ [(s.expanded.length, reading.count)] }

def prepareRecord (dimensions : Nat) (s : Preparing) (entry : Json × Nat) : Except Error Preparing := do
  let reading ← readRecord dimensions entry.2 entry.1
  coverRecord dimensions entry.2 reading s

def prepare (records : Json) (dimensions : Nat) : Except Error PreparedRecords :=
  match records with
  | .array elements =>
    if elements = [] ∨ kMaxRecords < elements.length ∨ (dimensions ≠ 2 ∧ dimensions ≠ 3) then
      .error (.invalidArgument "Argument 'cells' must contain 1 to 256 records.")
    else do
      let prepared ← elements.zipIdx.foldlM (prepareRecord dimensions) {}
      return prepared.toPreparedRecords
  | _ => .error (.invalidArgument "Argument 'cells' must contain 1 to 256 records.")

end Didi.Cells
