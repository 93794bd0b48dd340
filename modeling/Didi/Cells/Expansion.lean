import Mathlib.Data.List.Nodup
import Mathlib.Tactic.Ring
import Didi.Cells.Records
import Didi.Lib.Locked

/-!
# What a record covers, and how it is read

* `Spells`, `Covers` : the points that an argument spells and that a record covers;
* `Placement.Has`, `mem_points` : the points of a box;
* `locate_ok`, `locate_placed`, `countCells_ok` : the checks of a record's place and size;
* `canonical_canonical`, `readRecord_canonical` : a canonical record is read as the record is.
-/

namespace Didi.Cells
open Json

/-! ## Points and what spells them -/

/-- A point of the plane is on its ground. -/
def Point.Flat (p : Point) (dimensions : Nat) : Prop := dimensions = 2 → p.z = 0

/-- The argument is the array of the coordinates of a point, or an object of them by their axes. -/
inductive Spells (dimensions : Nat) (p : Point) : Json → Prop
  | array : Spells dimensions p (p.toJson dimensions)
  | object (members : JsonObject) (hlength : members.length = dimensions)
      (h : ∀ e ∈ axes.zip (p.values dimensions), members.lookup e.1 = some (.integer e.2)) :
      Spells dimensions p (.object members)

/-- The point is in the box. -/
def Placement.Has (placement : Placement) (p : Point) : Prop :=
  (placement.position.x ≤ p.x ∧ p.x < placement.position.x + placement.size.x) ∧
  (placement.position.y ≤ p.y ∧ p.y < placement.position.y + placement.size.y) ∧
  placement.position.z ≤ p.z ∧ p.z < placement.position.z + placement.size.z

/-- The record covers the point: it is the record's cell, or a point of the record's rectangle. -/
inductive Covers (dimensions : Nat) (members : JsonObject) (p : Point) : Prop
  | cell {key : String} {input : Json} (hkey : key = "coords" ∨ key = "position")
      (hinput : members.lookup key = some input) (hp : Spells dimensions p input) (hflat : p.Flat dimensions)
  | rect {rect : JsonObject} {position size : Json} {origin extent : Point}
      (hrect : members.lookup "rect" = some (.object rect)) (hposition : rect.lookup "position" = some position)
      (hsize : rect.lookup "size" = some size) (horigin : Spells dimensions origin position)
      (hflat : origin.Flat dimensions) (hextent : Spells dimensions extent size) (hflat' : extent.Flat dimensions)
      (h : Placement.Has { position := origin, size := flatten dimensions extent } p)

section Points
variable {dimensions : Nat} {p q : Point} {input : Json} {minimum maximum : Int}

theorem Point.eq_of_values (hdims : dimensions = 2 ∨ dimensions = 3) (hp : p.Flat dimensions) (hq : q.Flat dimensions)
    (h : p.values dimensions = q.values dimensions) : p = q := by
  obtain ⟨px, py, pz⟩ := p
  obtain ⟨qx, qy, qz⟩ := q
  rcases hdims with rfl | rfl
  · have hpz : pz = 0 := hp rfl
    have hqz : qz = 0 := hq rfl
    simpa [Point.values, hpz, hqz] using h
  · simpa [Point.values] using h

theorem spells_object (hdims : dimensions = 2 ∨ dimensions = 3) {members : JsonObject} :
    Spells dimensions p (.object members) ↔ members.length = dimensions ∧
      members.lookup "x" = some (.integer p.x) ∧ members.lookup "y" = some (.integer p.y) ∧
      (dimensions = 3 → members.lookup "z" = some (.integer p.z)) := by
  constructor
  · intro h
    cases h with | object _ hlength h => ?_
    refine ⟨hlength, h ("x", p.x) ?_, h ("y", p.y) ?_, fun h3 => h ("z", p.z) ?_⟩
    · rcases hdims with rfl | rfl <;> simp [axes, Point.values]
    · rcases hdims with rfl | rfl <;> simp [axes, Point.values]
    · simp [axes, Point.values, h3]
  · rintro ⟨hlength, hx, hy, hz⟩
    refine .object members hlength fun e he => ?_
    rcases hdims with rfl | rfl
    · simp only [axes, Point.values, List.take_succ_cons, List.take_zero, List.zip_cons_cons, List.zip_nil_right,
        List.mem_cons, List.not_mem_nil, or_false] at he
      rcases he with rfl | rfl
      · exact hx
      · exact hy
    · simp only [axes, Point.values, List.take_succ_cons, List.take_zero, List.zip_cons_cons, List.zip_nil_right,
        List.mem_cons, List.not_mem_nil, or_false] at he
      rcases he with rfl | rfl | rfl
      · exact hx
      · exact hy
      · exact hz rfl

/-- An argument spells one point. -/
theorem Spells.unique (hdims : dimensions = 2 ∨ dimensions = 3) (hp : Spells dimensions p input)
    (hq : Spells dimensions q input) (hpflat : p.Flat dimensions) (hqflat : q.Flat dimensions) : p = q := by
  refine Point.eq_of_values hdims hpflat hqflat ?_
  cases input with
  | object members =>
    obtain ⟨-, hpx, hpy, hpz⟩ := (spells_object hdims).mp hp
    obtain ⟨-, hqx, hqy, hqz⟩ := (spells_object hdims).mp hq
    have hx : p.x = q.x := by simpa [hpx] using hqx
    have hy : p.y = q.y := by simpa [hpy] using hqy
    rcases hdims with rfl | rfl
    · simp [Point.values, hx, hy]
    · have hz : p.z = q.z := by simpa [hpz rfl] using hqz rfl
      simp [Point.values, hx, hy, hz]
  | array elements =>
    have helements {r : Point} (hr : Spells dimensions r (.array elements)) :
        elements = (r.values dimensions).map .integer := by
      cases hr
      rfl
    have hmap := (helements hp).symm.trans (helements hq)
    exact List.map_injective_iff.mpr (fun _ _ h => Json.integer.inj h) hmap
  | _ => cases hp

/-- Every coordinate is within the bounds. -/
def Point.Within (p : Point) (dimensions : Nat) (minimum maximum : Int) : Prop :=
  ∀ v ∈ p.values dimensions, minimum ≤ v ∧ v ≤ maximum

/-- Whatever spells a point has its coordinate as the component on each axis. -/
theorem spells_iff (hdims : dimensions = 2 ∨ dimensions = 3) : Spells dimensions p input ↔
    tupleSize input = some dimensions ∧ component input 0 = some (.integer p.x) ∧
      component input 1 = some (.integer p.y) ∧ (dimensions = 3 → component input 2 = some (.integer p.z)) := by
  cases input with
  | object members =>
    rw [spells_object hdims, tupleSize, Option.some_inj]
    rfl
  | array elements =>
    rw [tupleSize, Option.some_inj]
    constructor
    · intro h
      cases h
      rcases hdims with rfl | rfl
      · exact ⟨rfl, rfl, rfl, fun h3 => absurd h3 (by decide)⟩
      · exact ⟨rfl, rfl, rfl, fun _ => rfl⟩
    · rintro ⟨hlength, hx, hy, hz⟩
      have helements : elements = (p.values dimensions).map .integer := by
        rcases hdims with rfl | rfl
        · obtain ⟨a, b, rfl⟩ := List.length_eq_two.mp hlength
          obtain rfl := Option.some.inj hx
          obtain rfl := Option.some.inj hy
          rfl
        · obtain ⟨a, b, c, rfl⟩ := List.length_eq_three.mp hlength
          obtain rfl := Option.some.inj hx
          obtain rfl := Option.some.inj hy
          obtain rfl := Option.some.inj (hz rfl)
          rfl
      rw [helements]
      exact .array
  | _ =>
    constructor
    · intro h
      cases h
    · rintro ⟨h, -⟩
      cases h

/-- The coordinates that are read axis by axis. -/
theorem mapM_axes {read : Nat → Option Int} (hdims : dimensions = 2 ∨ dimensions = 3) :
    ((List.range dimensions).mapM read).map Point.ofValues = some p ↔
      read 0 = some p.x ∧ read 1 = some p.y ∧ (dimensions = 3 → read 2 = some p.z) ∧ p.Flat dimensions := by
  obtain ⟨x, y, z⟩ := p
  rcases hdims with rfl | rfl
  · cases h0 : read 0 <;> cases h1 : read 1 <;>
      simp [List.range_succ, List.mapM_cons, h0, h1, Point.ofValues, Point.Flat, eq_comm]
  · cases h0 : read 0 <;> cases h1 : read 1 <;> cases h2 : read 2 <;>
      simp [List.range_succ, List.mapM_cons, h0, h1, h2, Point.ofValues, Point.Flat]

theorem tuple_eq_some (hdims : dimensions = 2 ∨ dimensions = 3) (hmax : maximum < 2 ^ 63) :
    tuple dimensions minimum maximum input = some p ↔
      Spells dimensions p input ∧ p.Flat dimensions ∧ p.Within dimensions minimum maximum := by
  have hread {c : Option Json} {v : Int} : (c.bind fun value => boundedJsonInteger value minimum maximum) = some v ↔
      c = some (.integer v) ∧ minimum ≤ v ∧ v ≤ maximum := by
    rw [Option.bind_eq_some_iff]
    constructor
    · rintro ⟨value, rfl, h⟩
      obtain ⟨rfl, hv⟩ := (boundedJsonInteger_eq_some hmax).mp h
      exact ⟨rfl, hv⟩
    · rintro ⟨rfl, hv⟩
      exact ⟨_, rfl, (boundedJsonInteger_eq_some hmax).mpr ⟨rfl, hv⟩⟩
  have hwithin : p.Within dimensions minimum maximum ↔ (minimum ≤ p.x ∧ p.x ≤ maximum) ∧
      (minimum ≤ p.y ∧ p.y ≤ maximum) ∧ (dimensions = 3 → minimum ≤ p.z ∧ p.z ≤ maximum) := by
    rcases hdims with rfl | rfl <;> simp [Point.Within, Point.values]
  rw [spells_iff hdims, hwithin, tuple]
  split_ifs with hsize
  · rw [mapM_axes hdims, hread, hread, hread]
    tauto
  · simp [hsize]

end Points

/-! ## Boxes -/

namespace Placement
variable {placement : Placement} {p : Point}

theorem mem_points : p ∈ placement.points ↔ placement.Has p := by
  obtain ⟨x, y, z⟩ := p
  simp only [points, List.mem_flatMap, List.mem_map, List.mem_range, Has, Point.mk.injEq]
  constructor
  · rintro ⟨k, hk, j, hj, i, hi, rfl, rfl, rfl⟩
    omega
  · rintro ⟨hx, hy, hz⟩
    refine ⟨(z - placement.position.z).toNat, ?_, (y - placement.position.y).toNat, ?_,
      (x - placement.position.x).toNat, ?_, ?_, ?_, ?_⟩ <;> omega

theorem nodup_points : placement.points.Nodup := by
  have hrow (y z : Nat) : ((List.range placement.size.x.toNat).map fun x : Nat =>
      (⟨placement.position.x + x, placement.position.y + y, placement.position.z + z⟩ : Point)).Nodup := by
    refine List.nodup_range.map fun i j hij => ?_
    simpa using hij
  refine List.nodup_flatMap.mpr ⟨fun z _ => List.nodup_flatMap.mpr ⟨fun y _ => hrow y z, ?_⟩, ?_⟩
  · refine List.nodup_range.imp fun {i j} hne => ?_
    simp only [Function.onFun, List.disjoint_left, List.mem_map]
    rintro p ⟨x, -, rfl⟩ ⟨x', -, h⟩
    simp only [Point.mk.injEq] at h
    omega
  · refine List.nodup_range.imp fun {i j} hne => ?_
    simp only [Function.onFun, List.disjoint_left, List.mem_flatMap, List.mem_map]
    rintro p ⟨y, -, x, -, rfl⟩ ⟨y', -, x', -, h⟩
    simp only [Point.mk.injEq] at h
    omega

theorem length_points : placement.points.length =
    placement.size.z.toNat * (placement.size.y.toNat * placement.size.x.toNat) := by
  simp only [points, List.length_flatMap, List.length_map, List.length_range, List.map_const', List.sum_replicate_nat]

end Placement

/-! ## The checks of a record -/

section Record
variable {dimensions index count count' : Nat} {location : String} {record : Json} {members : JsonObject}
  {placement : Placement} {atlas : Option Point} {reading : Reading} {p : Point}

theorem countAxis_ok {axis : Int × Int} (h : countAxis location count axis = .ok count') :
    axis.1 + (axis.2 - 1) ≤ kCoordinateLimit ∧ count' = count * axis.2.toNat ∧ count' ≤ kMaxExpandedCells := by
  unfold countAxis at h
  split_ifs at h with hend hproduct
  obtain rfl := Except.ok.inj h
  refine ⟨by omega, rfl, ?_⟩
  rw [Nat.mul_comm]
  exact Nat.mul_le_of_le_div _ _ _ (not_lt.mp hproduct)

/-- The place of a record is within the coordinate limit, and is as flat as its space. -/
structure Placed (dimensions : Nat) (placement : Placement) : Prop where
  origin : placement.position.Within dimensions (-kCoordinateLimit) kCoordinateLimit
  flat : placement.position.Flat dimensions
  high : dimensions = 2 → placement.size.z = 1

theorem countCells_ok (hdims : dimensions = 2 ∨ dimensions = 3) (hplaced : Placed dimensions placement)
    (h : countCells dimensions location placement = .ok count) :
    count = placement.points.length ∧ count ≤ kMaxExpandedCells ∧
      ∀ p, placement.Has p → p.Within dimensions (-kCoordinateLimit) kCoordinateLimit ∧ p.Flat dimensions := by
  have horigin := hplaced.origin
  rw [Placement.length_points]
  rcases hdims with rfl | rfl
  · change [(placement.position.x, placement.size.x), (placement.position.y, placement.size.y)].foldlM _ 1 = _ at h
    rw [List.foldlM_cons] at h
    obtain ⟨c1, h1, h⟩ := Except.bind_eq_ok.mp h
    rw [List.foldlM_cons] at h
    obtain ⟨c2, h2, h⟩ := Except.bind_eq_ok.mp h
    cases h
    obtain ⟨hx, hc1, -⟩ := countAxis_ok h1
    obtain ⟨hy, hc2, hle⟩ := countAxis_ok h2
    have hz := hplaced.high rfl
    have hflat := hplaced.flat rfl
    refine ⟨?_, hle, fun p hp => ?_⟩
    · rw [hc2, hc1, hz, Int.toNat_one]
      ring
    · simp only [Point.Within, Point.values, List.take_succ_cons, List.take_zero, List.mem_cons, List.not_mem_nil,
        or_false, forall_eq_or_imp, forall_eq] at horigin ⊢
      obtain ⟨hpx, hpy, hpz⟩ := hp
      exact ⟨⟨by omega, by omega⟩, fun _ => by omega⟩
  · change [(placement.position.x, placement.size.x), (placement.position.y, placement.size.y),
      (placement.position.z, placement.size.z)].foldlM _ 1 = _ at h
    rw [List.foldlM_cons] at h
    obtain ⟨c1, h1, h⟩ := Except.bind_eq_ok.mp h
    rw [List.foldlM_cons] at h
    obtain ⟨c2, h2, h⟩ := Except.bind_eq_ok.mp h
    rw [List.foldlM_cons] at h
    obtain ⟨c3, h3, h⟩ := Except.bind_eq_ok.mp h
    cases h
    obtain ⟨hx, hc1, -⟩ := countAxis_ok h1
    obtain ⟨hy, hc2, -⟩ := countAxis_ok h2
    obtain ⟨hz, hc3, hle⟩ := countAxis_ok h3
    refine ⟨?_, hle, fun p hp => ?_⟩
    · rw [hc3, hc2, hc1]
      ring
    · simp only [Point.Within, Point.values, List.take_succ_cons, List.take_zero, List.mem_cons, List.not_mem_nil,
        or_false, forall_eq_or_imp, forall_eq] at horigin ⊢
      obtain ⟨hpx, hpy, hpz⟩ := hp
      exact ⟨⟨by omega, by omega, by omega⟩, fun h3 => absurd h3 (by decide)⟩

/-! ### The place -/

theorem rectParts_eq_some {rect position size : Json} : rectParts rect = some (position, size) ↔
    ∃ parts : JsonObject, rect = .object parts ∧ parts.length = 2 ∧ parts.lookup "position" = some position ∧
      parts.lookup "size" = some size := by
  cases rect with
  | object parts =>
    rw [rectParts]
    constructor
    · intro h
      split_ifs at h with hlength
      split at h
      · rename_i hposition hsize
        cases h
        exact ⟨parts, rfl, hlength, hposition, hsize⟩
      · cases h
    · rintro ⟨parts', hparts, hlength, hposition, hsize⟩
      obtain rfl := Json.object.inj hparts
      rw [if_pos hlength, hposition, hsize]
  | _ => exact ⟨fun h => (by cases h), fun ⟨_, h, _⟩ => (by cases h)⟩

/-- A rectangle, and no coordinate. -/
structure RectAt (dimensions : Nat) (members : JsonObject) (parts : JsonObject) (position size : Json)
    (origin extent : Point) : Prop where
  rect_eq : members.lookup "rect" = some (.object parts)
  no_coords : members.lookup "coords" = none
  no_position : members.lookup "position" = none
  length_eq : parts.length = 2
  parts_position : parts.lookup "position" = some position
  parts_size : parts.lookup "size" = some size
  origin_eq : tuple dimensions (-kCoordinateLimit) kCoordinateLimit position = some origin
  extent_eq : tuple dimensions 1 kMaxExpandedCells size = some extent

/-- One coordinate, under either of its names, and no rectangle. -/
structure CellAt (dimensions : Nat) (members : JsonObject) (key other : String) (input : Json) (origin : Point) :
    Prop where
  no_rect : members.lookup "rect" = none
  keys : (key = coordinateKey dimensions ∧ other = aliasKey dimensions) ∨
    (key = aliasKey dimensions ∧ other = coordinateKey dimensions)
  key_eq : members.lookup key = some input
  no_other : members.lookup other = none
  origin_eq : tuple dimensions (-kCoordinateLimit) kCoordinateLimit input = some origin

theorem locateCell_ok {input : Json} : locateCell dimensions location input = .ok placement ↔
    ∃ origin, tuple dimensions (-kCoordinateLimit) kCoordinateLimit input = some origin ∧
      placement = { position := origin } := by
  rw [locateCell]
  cases tuple dimensions (-kCoordinateLimit) kCoordinateLimit input <;> simp [eq_comm]

theorem locateRect_ok {rect : Json} : locateRect dimensions location rect = .ok placement ↔
    ∃ position size origin extent, rectParts rect = some (position, size) ∧
      tuple dimensions (-kCoordinateLimit) kCoordinateLimit position = some origin ∧
      tuple dimensions 1 kMaxExpandedCells size = some extent ∧
      placement = { position := origin, size := flatten dimensions extent, rectangle := true } := by
  rw [locateRect]
  cases hparts : rectParts rect with
  | none => simp
  | some pair =>
    obtain ⟨position, size⟩ := pair
    dsimp only
    cases horigin : tuple dimensions (-kCoordinateLimit) kCoordinateLimit position with
    | none =>
      refine ⟨fun h => (by cases h), fun ⟨_, _, _, _, hsome, h, _⟩ => ?_⟩
      obtain ⟨rfl, rfl⟩ := Prod.mk.inj (Option.some.inj hsome)
      rw [horigin] at h
      cases h
    | some origin =>
      cases hextent : tuple dimensions 1 kMaxExpandedCells size with
      | none =>
        refine ⟨fun h => (by cases h), fun ⟨_, _, _, _, hsome, _, h, _⟩ => ?_⟩
        obtain ⟨rfl, rfl⟩ := Prod.mk.inj (Option.some.inj hsome)
        rw [hextent] at h
        cases h
      | some extent =>
        constructor
        · intro h
          exact ⟨position, size, origin, extent, rfl, horigin, hextent, (Except.ok.inj h).symm⟩
        · rintro ⟨_, _, _, _, hsome, h, h', rfl⟩
          obtain ⟨rfl, rfl⟩ := Prod.mk.inj (Option.some.inj hsome)
          rw [horigin] at h
          rw [hextent] at h'
          obtain rfl := Option.some.inj h
          obtain rfl := Option.some.inj h'
          rfl

theorem locate_ok : locate dimensions location members = .ok placement ↔
    (∃ parts position size origin extent, RectAt dimensions members parts position size origin extent ∧
      placement = { position := origin, size := flatten dimensions extent, rectangle := true }) ∨
    ∃ key other input origin, CellAt dimensions members key other input origin ∧ placement = { position := origin } := by
  rw [locate]
  cases hlookup : members.lookup "rect" with
  | some rect =>
    constructor
    · intro h
      dsimp only at h
      split_ifs at h with hboth
      rw [not_or, Option.not_isSome_iff_eq_none, Option.not_isSome_iff_eq_none] at hboth
      obtain ⟨position, size, origin, extent, hparts, horigin, hextent, rfl⟩ := locateRect_ok.mp h
      obtain ⟨parts, rfl, hlength, hposition, hsize⟩ := rectParts_eq_some.mp hparts
      exact .inl ⟨parts, position, size, origin, extent,
        ⟨hlookup, hboth.1, hboth.2, hlength, hposition, hsize, horigin, hextent⟩, rfl⟩
    · rintro (⟨parts, position, size, origin, extent, hat, rfl⟩ | ⟨key, other, input, origin, hat, -⟩)
      · dsimp only
        rw [hat.no_coords, hat.no_position, if_neg (by simp), locateRect_ok]
        have hsame := hat.rect_eq
        rw [hlookup] at hsame
        obtain rfl := Option.some.inj hsame
        exact ⟨position, size, origin, extent,
          rectParts_eq_some.mpr ⟨parts, rfl, hat.length_eq, hat.parts_position, hat.parts_size⟩, hat.origin_eq,
            hat.extent_eq, rfl⟩
      · have hnone := hat.no_rect
        rw [hlookup] at hnone
        cases hnone
  | none =>
    dsimp only
    constructor
    · intro h
      right
      cases hkey : members.lookup (coordinateKey dimensions) with
      | some input =>
        cases halias : members.lookup (aliasKey dimensions) with
        | none =>
          rw [hkey, halias] at h
          obtain ⟨origin, horigin, rfl⟩ := locateCell_ok.mp h
          exact ⟨_, _, input, origin, ⟨hlookup, .inl ⟨rfl, rfl⟩, hkey, halias, horigin⟩, rfl⟩
        | some _ =>
          rw [hkey, halias] at h
          cases h
      | none =>
        cases halias : members.lookup (aliasKey dimensions) with
        | none =>
          rw [hkey, halias] at h
          cases h
        | some input =>
          rw [hkey, halias] at h
          obtain ⟨origin, horigin, rfl⟩ := locateCell_ok.mp h
          exact ⟨_, _, input, origin, ⟨hlookup, .inr ⟨rfl, rfl⟩, halias, hkey, horigin⟩, rfl⟩
    · rintro (⟨parts, position, size, origin, extent, hat, -⟩ | ⟨key, other, input, origin, hat, rfl⟩)
      · have hsome := hat.rect_eq
        rw [hlookup] at hsome
        cases hsome
      · obtain ⟨-, ⟨rfl, rfl⟩ | ⟨rfl, rfl⟩, hkey, hother, horigin⟩ := hat
        · rw [hkey, hother]
          exact locateCell_ok.mpr ⟨origin, horigin, rfl⟩
        · rw [hkey, hother]
          exact locateCell_ok.mpr ⟨origin, horigin, rfl⟩

theorem RectAt.placed {parts : JsonObject} {position size : Json} {origin extent : Point}
    (hdims : dimensions = 2 ∨ dimensions = 3) (h : RectAt dimensions members parts position size origin extent) :
    Placed dimensions { position := origin, size := flatten dimensions extent, rectangle := true } := by
  obtain ⟨-, hflat, hwithin⟩ := (tuple_eq_some hdims (by decide)).mp h.origin_eq
  exact ⟨hwithin, hflat, fun h2 => by rw [flatten, if_pos h2]⟩

theorem RectAt.covers {parts : JsonObject} {position size : Json} {origin extent : Point}
    (hdims : dimensions = 2 ∨ dimensions = 3) (h : RectAt dimensions members parts position size origin extent) :
    Placement.Has { position := origin, size := flatten dimensions extent, rectangle := true } p ↔
      Covers dimensions members p := by
  obtain ⟨horigin, hflat, -⟩ := (tuple_eq_some hdims (by decide)).mp h.origin_eq
  obtain ⟨hextent, hflat', -⟩ := (tuple_eq_some hdims (by decide)).mp h.extent_eq
  constructor
  · intro hp
    exact .rect h.rect_eq h.parts_position h.parts_size horigin hflat hextent hflat' hp
  · rintro (⟨rfl | rfl, hinput, -, -⟩ | ⟨hrect, hposition, hsize, horigin', hoflat, hextent', heflat, hp⟩)
    · rw [h.no_coords] at hinput
      cases hinput
    · rw [h.no_position] at hinput
      cases hinput
    · rw [h.rect_eq] at hrect
      obtain rfl := Json.object.inj (Option.some.inj hrect)
      rw [h.parts_position] at hposition
      rw [h.parts_size] at hsize
      obtain rfl := Option.some.inj hposition
      obtain rfl := Option.some.inj hsize
      rw [horigin.unique hdims horigin' hflat hoflat, hextent.unique hdims hextent' hflat' heflat]
      exact hp

theorem CellAt.placed {key other : String} {input : Json} {origin : Point} (hdims : dimensions = 2 ∨ dimensions = 3)
    (h : CellAt dimensions members key other input origin) : Placed dimensions { position := origin } := by
  obtain ⟨-, hflat, hwithin⟩ := (tuple_eq_some hdims (by decide)).mp h.origin_eq
  exact ⟨hwithin, hflat, fun _ => rfl⟩

theorem CellAt.covers {key other : String} {input : Json} {origin : Point} (hdims : dimensions = 2 ∨ dimensions = 3)
    (h : CellAt dimensions members key other input origin) :
    Placement.Has { position := origin } p ↔ Covers dimensions members p := by
  obtain ⟨horigin, hflat, -⟩ := (tuple_eq_some hdims (by decide)).mp h.origin_eq
  have hnames : (key = "coords" ∧ other = "position") ∨ (key = "position" ∧ other = "coords") := by
    rcases hdims with rfl | rfl
    · exact h.keys
    · exact h.keys.symm
  constructor
  · intro hp
    have heq : p = origin := by
      obtain ⟨x, y, z⟩ := p
      obtain ⟨ox, oy, oz⟩ := origin
      simp only [Placement.Has] at hp
      simp only [Point.mk.injEq]
      omega
    rw [heq]
    exact .cell (hnames.imp And.left And.left) h.key_eq horigin hflat
  · rintro (⟨hkey, hinput, hspells, hpflat⟩ | ⟨hrect, -, -, -, -, -, -, -⟩)
    · rename_i key' input'
      have hkeys : key' = key := by
        by_contra hne
        have hother : key' = other := by
          rcases hnames with ⟨rfl, rfl⟩ | ⟨rfl, rfl⟩
          · exact hkey.resolve_left hne
          · exact hkey.resolve_right hne
        rw [hother, h.no_other] at hinput
        cases hinput
      rw [hkeys, h.key_eq] at hinput
      obtain rfl := Option.some.inj hinput
      rw [hspells.unique hdims horigin hpflat hflat]
      simp only [Placement.Has]
      omega
    · rw [h.no_rect] at hrect
      cases hrect

theorem locate_placed (hdims : dimensions = 2 ∨ dimensions = 3) (h : locate dimensions location members = .ok placement) :
    Placed dimensions placement ∧ ∀ p, placement.Has p ↔ Covers dimensions members p := by
  rcases locate_ok.mp h with ⟨_, _, _, _, _, hat, rfl⟩ | ⟨_, _, _, _, hat, rfl⟩
  · exact ⟨hat.placed hdims, fun _ => hat.covers hdims⟩
  · exact ⟨hat.placed hdims, fun _ => hat.covers hdims⟩

/-! ### The canonical record -/

/-- What holds the place in the canonical record. -/
def Placement.key (placement : Placement) (dimensions : Nat) : String :=
  if placement.rectangle then "rect" else coordinateKey dimensions

def Placement.toJson (placement : Placement) (dimensions : Nat) : Json :=
  if placement.rectangle then .object
    [("position", placement.position.toJson dimensions), ("size", placement.size.toJson dimensions)]
  else placement.position.toJson dimensions

theorem canonical_none (dimensions : Nat) (members : JsonObject) (placement : Placement) :
    canonical dimensions members placement none =
      (members.eraseKey (aliasKey dimensions)).insertKey (placement.key dimensions) (placement.toJson dimensions) := by
  rw [canonical, Placement.key, Placement.toJson]
  split_ifs <;> rfl

theorem canonical_some (dimensions : Nat) (members : JsonObject) (placement : Placement) (a : Point) :
    canonical dimensions members placement (some a) =
      (canonical dimensions members placement none).insertKey "atlas_coords" (a.toJson 2) := rfl

theorem names_ne (hdims : dimensions = 2 ∨ dimensions = 3) (placement : Placement) :
    placement.key dimensions ∈ locators ∧ aliasKey dimensions ∈ locators ∧ coordinateKey dimensions ∈ locators ∧
      placement.key dimensions ≠ aliasKey dimensions ∧ coordinateKey dimensions ≠ aliasKey dimensions ∧
      "rect" ≠ aliasKey dimensions ∧ "rect" ≠ coordinateKey dimensions := by
  rw [Placement.key]
  rcases hdims with rfl | rfl <;> cases placement.rectangle <;> decide

/-- Beside the place and the atlas coordinates, the canonical record holds what the record holds. -/
theorem lookup_canonical_of_ne (hdims : dimensions = 2 ∨ dimensions = 3) {key : String} (hkey : key ∉ locators)
    (hatlas : key ≠ "atlas_coords") :
    (canonical dimensions members placement atlas).lookup key = members.lookup key := by
  obtain ⟨hplace, halias, -⟩ := names_ne hdims placement
  have hne : key ≠ placement.key dimensions := fun h => hkey (h ▸ hplace)
  have hne' : key ≠ aliasKey dimensions := fun h => hkey (h ▸ halias)
  cases atlas with
  | none => rw [canonical_none, List.lookup_insertKey, if_neg hne, List.lookup_eraseKey, if_neg hne']
  | some a =>
    rw [canonical_some, canonical_none, List.lookup_insertKey, if_neg hatlas, List.lookup_insertKey, if_neg hne,
      List.lookup_eraseKey, if_neg hne']

theorem lookup_canonical_locator {key : String} (hkey : key ∈ locators) :
    (canonical dimensions members placement atlas).lookup key =
      if key = placement.key dimensions then some (placement.toJson dimensions)
      else if key = aliasKey dimensions then none else members.lookup key := by
  have hne : key ≠ "atlas_coords" := by
    rintro rfl
    exact absurd hkey (by decide)
  cases atlas with
  | none => rw [canonical_none, List.lookup_insertKey, List.lookup_eraseKey]
  | some a =>
    rw [canonical_some, canonical_none, List.lookup_insertKey, if_neg hne, List.lookup_insertKey, List.lookup_eraseKey]

theorem lookup_canonical_atlas (hdims : dimensions = 2 ∨ dimensions = 3) :
    (canonical dimensions members placement atlas).lookup "atlas_coords" =
      (atlas.map fun a => a.toJson 2).or (members.lookup "atlas_coords") := by
  obtain ⟨hplace, halias, -⟩ := names_ne hdims placement
  have hne : "atlas_coords" ≠ placement.key dimensions := fun h => absurd (h ▸ hplace) (by decide)
  have hne' : "atlas_coords" ≠ aliasKey dimensions := fun h => absurd (h ▸ halias) (by decide)
  cases atlas with
  | none =>
    rw [canonical_none, List.lookup_insertKey, if_neg hne, List.lookup_eraseKey, if_neg hne', Option.map_none,
      Option.none_or]
  | some a => rw [canonical_some, List.lookup_insertKey, if_pos rfl, Option.map_some, Option.some_or]

theorem mem_canonical {e : String × Json} (h : e ∈ canonical dimensions members placement atlas) :
    e ∈ members ∨ e.1 = placement.key dimensions ∨ (e.1 = "atlas_coords" ∧ atlas.isSome) := by
  have hnone : e ∈ canonical dimensions members placement none → e ∈ members ∨ e.1 = placement.key dimensions := by
    intro h
    rw [canonical_none] at h
    rcases List.mem_insertKey h with rfl | h
    · exact .inr rfl
    · exact .inl (List.mem_of_mem_filter h)
  cases atlas with
  | none => exact (hnone h).imp_right .inl
  | some a =>
    rw [canonical_some] at h
    rcases List.mem_insertKey h with rfl | h
    · exact .inr (.inr ⟨rfl, rfl⟩)
    · exact (hnone h).imp_right .inl

/-- The canonical record is its own canonical record. -/
theorem canonical_canonical (hdims : dimensions = 2 ∨ dimensions = 3) :
    canonical dimensions (canonical dimensions members placement atlas) placement atlas =
      canonical dimensions members placement atlas := by
  obtain ⟨hplace, halias, -, hne, -⟩ := names_ne hdims placement
  have herase : (canonical dimensions members placement atlas).eraseKey (aliasKey dimensions) =
      canonical dimensions members placement atlas := by
    refine List.eraseKey_eq_self ?_
    rw [lookup_canonical_locator halias, if_neg hne.symm, if_pos rfl]
  cases atlas with
  | none =>
    rw [canonical_none dimensions (canonical _ _ _ _), herase]
    rw [canonical_none, List.insertKey_insertKey]
  | some a =>
    have hatlas : "atlas_coords" ≠ placement.key dimensions := fun h => absurd (h ▸ hplace) (by decide)
    rw [canonical_some _ (canonical _ _ _ _), canonical_none dimensions (canonical _ _ _ _), herase]
    rw [canonical_some, canonical_none, ((List.atKey_insertKey _ _ _).insertKey_of_ne _ hatlas).insertKey_eq,
      List.insertKey_insertKey]

/-! ### The payload -/

theorem checkFields_ok : checkFields dimensions location members = .ok () ↔
    ∀ e ∈ members, e.1 ∈ locators ∨ e.1 ∈ payloadFields dimensions members := by
  rw [checkFields]
  cases hfind : members.find? fun e => e.1 ∉ locators ∧ e.1 ∉ payloadFields dimensions members with
  | some e =>
    refine ⟨fun h => (by cases h), fun h => ?_⟩
    have hno : e.1 ∉ locators ∧ e.1 ∉ payloadFields dimensions members := by simpa using List.find?_some hfind
    exact absurd (h e (List.mem_of_find?_eq_some hfind)) (not_or.mpr hno)
  | none =>
    refine ⟨fun _ e he => ?_, fun _ => rfl⟩
    have hno := List.find?_eq_none.mp hfind e he
    rw [decide_eq_true_iff] at hno
    tauto

theorem not_mem_of_checkFields (h : checkFields dimensions location members = .ok ()) {key : String}
    (hlocator : key ∉ locators) (hpayload : key ∉ payloadFields dimensions members) : members.lookup key = none := by
  cases hlookup : members.lookup key with
  | none => rfl
  | some value =>
    rcases checkFields_ok.mp h _ (List.mem_of_lookup hlookup) with hmem | hmem
    · exact absurd hmem hlocator
    · exact absurd hmem hpayload

theorem readRecord_ok : readRecord dimensions index record = .ok reading ↔
    ∃ members atlas placement count, record = .object members ∧
      checkFields dimensions ("Argument 'cells' entry " ++ toString index) members = .ok () ∧
      checkPayload dimensions ("Argument 'cells' entry " ++ toString index) members = .ok atlas ∧
      locate dimensions ("Argument 'cells' entry " ++ toString index) members = .ok placement ∧
      countCells dimensions ("Argument 'cells' entry " ++ toString index) placement = .ok count ∧
      reading = { record := canonical dimensions members placement atlas, placement, count } := by
  cases record with
  | object members =>
    constructor
    · intro h
      obtain ⟨⟨⟩, hfields, h⟩ := Except.bind_eq_ok.mp h
      obtain ⟨atlas, hpayload, h⟩ := Except.bind_eq_ok.mp h
      obtain ⟨placement, hplace, h⟩ := Except.bind_eq_ok.mp h
      obtain ⟨count, hcount, h⟩ := Except.bind_eq_ok.mp h
      exact ⟨members, atlas, placement, count, rfl, hfields, hpayload, hplace, hcount, (Except.ok.inj h).symm⟩
    · rintro ⟨members', atlas, placement, count, hrecord, hfields, hpayload, hplace, hcount, rfl⟩
      obtain rfl := Json.object.inj hrecord
      refine Except.bind_eq_ok.mpr ⟨(), hfields,
        Except.bind_eq_ok.mpr ⟨atlas, hpayload, Except.bind_eq_ok.mpr ⟨placement, hplace, ?_⟩⟩⟩
      exact Except.bind_eq_ok.mpr ⟨count, hcount, rfl⟩
  | _ => exact ⟨fun h => (by cases h), fun ⟨_, _, _, _, h, _⟩ => (by cases h)⟩

/-- The atlas coordinates of the record, if it has any, spell this point. -/
def AtlasOf (dimensions : Nat) (members : JsonObject) : Option Point → Prop
  | none => members.lookup "atlas_coords" = none
  | some a => dimensions = 2 ∧ members.lookup "erase" = none ∧ a.Within 2 0 kCoordinateLimit ∧ a.Flat 2 ∧
    ∃ input, members.lookup "atlas_coords" = some input ∧ Spells 2 a input

theorem checkTile_ok : checkTile location members = .ok atlas ↔
    (atlas = none ∧ members.lookup "erase" = some (.boolean true)) ∨
    ∃ a, atlas = some a ∧ members.lookup "erase" = none ∧
      (((members.lookup "source_id").bind (boundedJsonInteger · 0 2147483647)).isNone = false) ∧
      (members.lookup "atlas_coords").bind (tuple 2 0 kCoordinateLimit) = some a ∧
      ((members.lookup "alternative_tile").any fun value => (boundedJsonInteger value 0 65535).isNone) = false := by
  rw [checkTile]
  split
  · rename_i herase
    rw [herase]
    constructor
    · intro h
      exact .inl ⟨(Except.ok.inj h).symm, rfl⟩
    · rintro (⟨rfl, -⟩ | ⟨_, -, h, -⟩)
      · rfl
      · cases h
  · rename_i value htrue herase
    rw [herase]
    refine ⟨fun h => (by cases h), ?_⟩
    rintro (⟨-, h⟩ | ⟨_, -, h, -⟩)
    · exact absurd (Option.some.inj h) htrue
    · cases h
  · rename_i herase
    rw [herase]
    by_cases hsource : ((members.lookup "source_id").bind (boundedJsonInteger · 0 2147483647)).isNone = true
    · rw [if_pos hsource, hsource]
      simp
    rw [if_neg hsource, Bool.eq_false_iff.mpr hsource]
    cases hatlas : (members.lookup "atlas_coords").bind (tuple 2 0 kCoordinateLimit) with
    | none => simp
    | some a =>
      dsimp only
      cases htile : (members.lookup "alternative_tile").any fun value => (boundedJsonInteger value 0 65535).isNone with
      | true => simp
      | false => simp [eq_comm]

theorem checkItem_none (h : checkItem location members = .ok atlas) : atlas = none := by
  rw [checkItem] at h
  split at h
  · cases h
  · split at h
    · cases h
    · split_ifs at h
      exact (Except.ok.inj h).symm

theorem atlasOf_payload (hdims : dimensions = 2 ∨ dimensions = 3)
    (hfields : checkFields dimensions location members = .ok ())
    (h : checkPayload dimensions location members = .ok atlas) : AtlasOf dimensions members atlas := by
  rw [checkPayload] at h
  rcases hdims with rfl | rfl
  · rw [if_pos rfl] at h
    rcases checkTile_ok.mp h with ⟨rfl, herase⟩ | ⟨a, rfl, herase, -, hatlas, -⟩
    · refine not_mem_of_checkFields hfields (by decide) ?_
      rw [payloadFields, if_pos rfl, herase]
      decide
    · obtain ⟨input, hinput, htuple⟩ := Option.bind_eq_some_iff.mp hatlas
      obtain ⟨hspells, hflat, hwithin⟩ := (tuple_eq_some (.inl rfl) (by decide)).mp htuple
      exact ⟨rfl, herase, hwithin, hflat, input, hinput, hspells⟩
  · rw [if_neg (by decide)] at h
    obtain rfl := checkItem_none h
    refine not_mem_of_checkFields hfields (by decide) ?_
    rw [payloadFields, if_neg (by decide)]
    decide

/-! ### Reading the canonical record -/

theorem checkFields_canonical (hdims : dimensions = 2 ∨ dimensions = 3) (hatlas : AtlasOf dimensions members atlas)
    (h : checkFields dimensions location members = .ok ()) :
    checkFields dimensions location (canonical dimensions members placement atlas) = .ok () := by
  have hfields : payloadFields dimensions (canonical dimensions members placement atlas) =
      payloadFields dimensions members := by
    rw [payloadFields, lookup_canonical_of_ne hdims (by decide) (by decide), payloadFields]
  refine checkFields_ok.mpr fun e he => ?_
  rw [hfields]
  rcases mem_canonical he with hmem | hplace | ⟨hkey, hsome⟩
  · exact checkFields_ok.mp h e hmem
  · exact .inl (hplace ▸ (names_ne hdims placement).1)
  · obtain ⟨a, rfl⟩ := Option.isSome_iff_exists.mp hsome
    obtain ⟨rfl, herase, -⟩ := hatlas
    right
    rw [hkey, payloadFields, if_pos rfl, herase]
    decide

theorem checkPayload_canonical (hdims : dimensions = 2 ∨ dimensions = 3) (hatlas : AtlasOf dimensions members atlas)
    (h : checkPayload dimensions location members = .ok atlas) :
    checkPayload dimensions location (canonical dimensions members placement atlas) = .ok atlas := by
  have hother (key : String) (hkey : key ∉ locators) (hne : key ≠ "atlas_coords") :
      (canonical dimensions members placement atlas).lookup key = members.lookup key :=
    lookup_canonical_of_ne hdims hkey hne
  rw [checkPayload] at h ⊢
  rcases hdims with rfl | rfl
  · rw [if_pos rfl, checkTile_ok] at h
    have herase := hother "erase" (by decide) (by decide)
    have hsource := hother "source_id" (by decide) (by decide)
    have htile := hother "alternative_tile" (by decide) (by decide)
    rw [if_pos rfl, checkTile_ok, herase, hsource, htile]
    refine h.imp_right fun ⟨a, ha, hnone, hvalid, _, hbounded⟩ => ⟨a, ha, hnone, hvalid, ?_, hbounded⟩
    subst ha
    obtain ⟨-, -, hwithin, hflat, -⟩ := hatlas
    rw [lookup_canonical_atlas (.inl rfl), Option.map_some, Option.some_or, Option.bind_some]
    exact (tuple_eq_some (.inl rfl) (by decide)).mpr ⟨.array, hflat, hwithin⟩
  · have hitem := hother "item" (by decide) (by decide)
    have horientation := hother "orientation" (by decide) (by decide)
    rw [if_neg (by decide)] at h ⊢
    rw [checkItem, hitem, horientation]
    exact h

theorem toJson_flatten (hdims : dimensions = 2 ∨ dimensions = 3) (extent : Point) :
    (flatten dimensions extent).toJson dimensions = extent.toJson dimensions := by
  rcases hdims with rfl | rfl <;> rfl

theorem locate_canonical (hdims : dimensions = 2 ∨ dimensions = 3)
    (h : locate dimensions location members = .ok placement) :
    locate dimensions location (canonical dimensions members placement atlas) = .ok placement := by
  obtain ⟨-, halias, hcoordinate, -, hne, hrect, hrect'⟩ := names_ne hdims placement
  rcases locate_ok.mp h with ⟨parts, position, size, origin, extent, hat, rfl⟩ | ⟨key, other, input, origin, hat, rfl⟩
  · obtain ⟨-, hflat, hwithin⟩ := (tuple_eq_some hdims (by decide)).mp hat.origin_eq
    obtain ⟨-, hflat', hwithin'⟩ := (tuple_eq_some hdims (by decide)).mp hat.extent_eq
    refine locate_ok.mpr (.inl ⟨[("position", origin.toJson dimensions),
      ("size", (flatten dimensions extent).toJson dimensions)], origin.toJson dimensions,
      (flatten dimensions extent).toJson dimensions, origin, extent, ⟨?_, ?_, ?_, rfl, rfl, rfl, ?_, ?_⟩, rfl⟩)
    · exact (lookup_canonical_locator (by decide)).trans (if_pos rfl)
    · rw [lookup_canonical_locator (by decide), hat.no_coords, ite_self]
      exact if_neg (by decide : "coords" ≠ "rect")
    · rw [lookup_canonical_locator (by decide), hat.no_position, ite_self]
      exact if_neg (by decide : "position" ≠ "rect")
    · exact (tuple_eq_some hdims (by decide)).mpr ⟨.array, hflat, hwithin⟩
    · rw [toJson_flatten hdims]
      exact (tuple_eq_some hdims (by decide)).mpr ⟨.array, hflat', hwithin'⟩
  · obtain ⟨-, hflat, hwithin⟩ := (tuple_eq_some hdims (by decide)).mp hat.origin_eq
    refine locate_ok.mpr (.inr ⟨coordinateKey dimensions, aliasKey dimensions, origin.toJson dimensions, origin,
      ⟨?_, .inl ⟨rfl, rfl⟩, ?_, ?_, ?_⟩, rfl⟩)
    · rw [lookup_canonical_locator (by decide), hat.no_rect, ite_self]
      exact if_neg hrect'
    · exact (lookup_canonical_locator hcoordinate).trans (if_pos rfl)
    · rw [lookup_canonical_locator halias, if_pos rfl]
      exact if_neg hne.symm
    · exact (tuple_eq_some hdims (by decide)).mpr ⟨.array, hflat, hwithin⟩

/-- The canonical record is read as the record is. -/
theorem readRecord_canonical (hdims : dimensions = 2 ∨ dimensions = 3)
    (h : readRecord dimensions index record = .ok reading) :
    readRecord dimensions index (.object reading.record) = .ok reading := by
  obtain ⟨members, atlas, placement, count, rfl, hfields, hpayload, hplace, hcount, rfl⟩ := readRecord_ok.mp h
  have hatlas := atlasOf_payload hdims hfields hpayload
  exact readRecord_ok.mpr ⟨_, atlas, placement, count, rfl, checkFields_canonical hdims hatlas hfields,
    checkPayload_canonical hdims hatlas hpayload, locate_canonical hdims hplace, hcount,
    by rw [canonical_canonical hdims]⟩

end Record

end Didi.Cells
