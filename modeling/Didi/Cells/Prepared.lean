import Didi.Cells.Expansion

/-!
# What a batch of cells expands to

* `CellOf` : a cell with the payload of its record;
* `Expansion` : each point that a record covers, once, in the order of the records;
* `prepareRecord_expands`, `foldlM_expands` : a record joins the batch, and so do all;
* `prepare_expands` : an accepted batch is expanded so, its canonical records are prepared to the same, and two records
  that cover one point are refused.
-/

namespace Didi.Cells
open Json

/-- The cell of a record at a point: the record's payload, with its atlas coordinates as an array. -/
structure CellOf (dimensions : Nat) (members : JsonObject) (p : Point) (cell : JsonObject) : Prop where
  place : cell.lookup (coordinateKey dimensions) = some (p.toJson dimensions)
  no_alias : cell.lookup (aliasKey dimensions) = none
  no_rect : cell.lookup "rect" = none
  payload : ∀ key ∉ locators, key ≠ "atlas_coords" → cell.lookup key = members.lookup key
  atlas : (members.lookup "atlas_coords" = none ∧ cell.lookup "atlas_coords" = none) ∨
    ∃ a input, members.lookup "atlas_coords" = some input ∧ Spells 2 a input ∧ a.Flat 2 ∧
      cell.lookup "atlas_coords" = some (a.toJson 2)

/-- Every point of every record, with its record. -/
def cellsOf (batch : List JsonObject) (blocks : List (List Point)) : List (JsonObject × Point) :=
  (batch.zip blocks).flatMap fun e => e.2.map fun p => (e.1, p)

/-- The ranges of blocks that follow one another. -/
def rangesFrom : Nat → List (List Point) → List (Nat × Nat)
  | _, [] => []
  | start, block :: blocks => (start, block.length) :: rangesFrom (start + block.length) blocks

/-- The batch is expanded to the points of these blocks, one for each record. -/
structure Expansion (dimensions : Nat) (batch : List JsonObject) (blocks : List (List Point))
    (prepared : PreparedRecords) : Prop where
  covered : List.Forall₂ (fun members block => ∀ p, p ∈ block ↔ Covers dimensions members p) batch blocks
  once : blocks.flatten.Nodup
  cells : List.Forall₂ (fun e cell => ∃ members, cell = .object members ∧ CellOf dimensions e.1 e.2 members)
    (cellsOf batch blocks) prepared.expanded
  bounded : blocks.flatten.length ≤ kMaxExpandedCells
  within : ∀ p ∈ blocks.flatten, p.Within dimensions (-kCoordinateLimit) kCoordinateLimit ∧ p.Flat dimensions
  ranges : prepared.ranges = rangesFrom 0 blocks

section Batch
variable {dimensions index : Nat} {members record : JsonObject} {batch : List JsonObject} {block points : List Point}
  {blocks : List (List Point)} {s s' : Preparing} {prepared : PreparedRecords}

theorem rangesFrom_concat (start : Nat) : rangesFrom start (blocks ++ [block]) =
    rangesFrom start blocks ++ [(start + blocks.flatten.length, block.length)] := by
  induction blocks generalizing start with
  | nil => rfl
  | cons first blocks ih =>
    rw [List.cons_append, rangesFrom, ih, rangesFrom, List.flatten_cons, List.length_append, Nat.add_assoc,
      List.cons_append]

theorem cellsOf_concat (h : batch.length = blocks.length) : cellsOf (batch ++ [members]) (blocks ++ [block]) =
    cellsOf batch blocks ++ block.map fun p => (members, p) := by
  rw [cellsOf, List.zip_append h, List.flatMap_append, cellsOf]
  simp

theorem length_cellsOf (h : batch.length = blocks.length) : (cellsOf batch blocks).length = blocks.flatten.length := by
  induction blocks generalizing batch with
  | nil =>
    rw [List.length_nil, List.length_eq_zero_iff] at h
    rw [h]
    rfl
  | cons block blocks ih =>
    cases batch with
    | nil => cases h
    | cons members batch =>
      have hcons : cellsOf (members :: batch) (block :: blocks) =
          (block.map fun p => (members, p)) ++ cellsOf batch blocks := List.flatMap_cons
      rw [hcons, List.length_append, List.length_map, ih (Nat.succ.inj h), List.flatten_cons, List.length_append]

theorem Expansion.length_expanded (h : Expansion dimensions batch blocks prepared) :
    prepared.expanded.length = blocks.flatten.length :=
  h.cells.length_eq.symm.trans (length_cellsOf h.covered.length_eq)

/-! ## One record -/

/-- The points of a record join those before it, none of which they are. -/
theorem coverPoint_foldlM (h : points.foldlM (coverPoint dimensions index record) s = .ok s') :
    (∀ p ∈ points, s.seen.lookup p = none) ∧ s'.records = s.records ∧ s'.ranges = s.ranges ∧
      s'.expanded = s.expanded ++ (points.map fun p => .object (cellAt dimensions record p)) ∧
      ∀ p, (s'.seen.lookup p).isSome ↔ (s.seen.lookup p).isSome ∨ p ∈ points := by
  induction points generalizing s with
  | nil =>
    cases h
    simp
  | cons p points ih =>
    rw [List.foldlM_cons, coverPoint] at h
    cases hseen : s.seen.lookup p with
    | some earlier =>
      rw [hseen] at h
      cases h
    | none =>
      rw [hseen] at h
      obtain ⟨hnone, hrecords, hranges, hexpanded, hall⟩ := ih h
      have hlookup (q : Point) : ((p, index) :: s.seen).lookup q = none ↔ q ≠ p ∧ s.seen.lookup q = none := by
        by_cases hq : q = p
        · simp [hq]
        · rw [List.lookup_cons, beq_eq_false_iff_ne.mpr hq]
          simp [hq]
      refine ⟨?_, hrecords, hranges, ?_, fun q => ?_⟩
      · rintro q hq
        rcases List.mem_cons.mp hq with rfl | hq
        · exact hseen
        · exact ((hlookup q).mp (hnone q hq)).2
      · rw [hexpanded, List.append_assoc, List.map_cons, List.singleton_append]
      · rw [hall, List.mem_cons]
        dsimp only
        rw [← not_iff_not, not_or, not_or, not_or, Option.not_isSome_iff_eq_none, Option.not_isSome_iff_eq_none, hlookup]
        tauto

theorem lookup_cellAt {key : String} (point : Point) (record : JsonObject) :
    (cellAt dimensions record point).lookup key = if key = coordinateKey dimensions then some (point.toJson dimensions)
      else if key = aliasKey dimensions then none else if key = "rect" then none else record.lookup key := by
  rw [cellAt, List.lookup_insertKey, List.lookup_eraseKey, List.lookup_eraseKey]

theorem cellOf_canonical (hdims : dimensions = 2 ∨ dimensions = 3) {atlas : Option Point} {placement : Placement}
    (hatlas : AtlasOf dimensions members atlas) (p : Point) :
    CellOf dimensions members p (cellAt dimensions (canonical dimensions members placement atlas) p) := by
  obtain ⟨-, halias, hcoordinate, -, hne, hrect, hrect'⟩ := names_ne hdims placement
  have hother {key : String} (hkey : key ∉ locators) :
      (cellAt dimensions (canonical dimensions members placement atlas) p).lookup key =
        (canonical dimensions members placement atlas).lookup key := by
    have h1 : key ≠ coordinateKey dimensions := fun h => hkey (h ▸ hcoordinate)
    have h2 : key ≠ aliasKey dimensions := fun h => hkey (h ▸ halias)
    have h3 : key ≠ "rect" := fun h => hkey (h ▸ by decide)
    rw [lookup_cellAt, if_neg h1, if_neg h2, if_neg h3]
  refine ⟨?_, ?_, ?_, fun key hkey hne => ?_, ?_⟩
  · rw [lookup_cellAt, if_pos rfl]
  · rw [lookup_cellAt, if_neg hne.symm, if_pos rfl]
  · rw [lookup_cellAt, if_neg hrect', if_neg hrect, if_pos rfl]
  · rw [hother hkey, lookup_canonical_of_ne hdims hkey hne]
  · rw [hother (by decide), lookup_canonical_atlas hdims]
    cases atlas with
    | none => exact .inl ⟨hatlas, hatlas⟩
    | some a =>
      obtain ⟨-, -, -, hflat, input, hinput, hspells⟩ := hatlas
      exact .inr ⟨a, input, hinput, hspells, hflat, rfl⟩

/-- What the batch has so far, with the points that it has seen. -/
structure Expanding (dimensions : Nat) (batch : List JsonObject) (blocks : List (List Point)) (s : Preparing) :
    Prop extends Expansion dimensions batch blocks s.toPreparedRecords where
  seen : ∀ p, (s.seen.lookup p).isSome ↔ p ∈ blocks.flatten

/-- One more record. -/
theorem prepareRecord_expands (hdims : dimensions = 2 ∨ dimensions = 3) (h : Expanding dimensions batch blocks s)
    {entry : Json × Nat} (hstep : prepareRecord dimensions s entry = .ok s') : ∃ members block,
      entry.1 = .object members ∧ Expanding dimensions (batch ++ [members]) (blocks ++ [block]) s' := by
  obtain ⟨record, i⟩ := entry
  obtain ⟨reading, hread, hcover⟩ := Except.bind_eq_ok.mp hstep
  obtain ⟨members, atlas, placement, count, hrecord, hfields, hpayload, hplace, hcount, rfl⟩ := readRecord_ok.mp hread
  obtain ⟨hplaced, hcovers⟩ := locate_placed hdims hplace
  obtain ⟨hlength, -, hwithin⟩ := countCells_ok hdims hplaced hcount
  rw [coverRecord] at hcover
  split_ifs at hcover with hroom
  obtain ⟨covered, hfold, hs'⟩ := Except.bind_eq_ok.mp hcover
  obtain rfl := Except.ok.inj hs'
  obtain ⟨hfresh, -, hranges, hexpanded, hseen⟩ := coverPoint_foldlM hfold
  have hsizes := h.covered.length_eq
  refine ⟨members, placement.points, hrecord,
    { covered := ?_
      once := ?_
      cells := ?_
      bounded := ?_
      within := ?_
      ranges := ?_
      seen := ?_ }⟩
  · exact List.rel_append h.covered (.cons (fun p => Placement.mem_points.trans (hcovers p)) .nil)
  · rw [List.flatten_append, List.flatten_singleton]
    refine List.nodup_append.mpr ⟨h.once, Placement.nodup_points, ?_⟩
    rintro p hp q hq rfl
    have hsome := (h.seen p).mpr hp
    rw [hfresh p hq] at hsome
    cases hsome
  · rw [cellsOf_concat hsizes]
    change List.Forall₂ _ _ covered.expanded
    rw [hexpanded]
    refine List.rel_append h.cells ?_
    rw [List.forall₂_map_left_iff, List.forall₂_map_right_iff]
    exact List.forall₂_same.mpr fun p _ => ⟨_, rfl, cellOf_canonical hdims (atlasOf_payload hdims hfields hpayload) p⟩
  · rw [List.flatten_append, List.flatten_singleton, List.length_append, ← hlength]
    have hcount : count ≤ kMaxExpandedCells - s.expanded.length := not_lt.mp hroom
    have hbounded := h.bounded
    rw [h.length_expanded] at hcount
    omega
  · intro p hp
    rw [List.flatten_append, List.flatten_singleton, List.mem_append] at hp
    rcases hp with hp | hp
    · exact h.within p hp
    · exact hwithin p (Placement.mem_points.mp hp)
  · change covered.ranges ++ [(s.expanded.length, count)] = _
    rw [hranges, rangesFrom_concat, h.length_expanded, hlength, Nat.zero_add]
    exact congrArg (· ++ _) h.ranges
  · intro p
    rw [List.flatten_append, List.flatten_singleton, List.mem_append, ← h.seen]
    exact hseen p

/-! ## The batch -/

theorem foldlM_expands (hdims : dimensions = 2 ∨ dimensions = 3) {entries : List (Json × Nat)}
    (h : Expanding dimensions batch blocks s) (hfold : entries.foldlM (prepareRecord dimensions) s = .ok s') :
    ∃ batch' blocks', entries.map Prod.fst = batch'.map .object ∧
      Expanding dimensions (batch ++ batch') (blocks ++ blocks') s' := by
  induction entries generalizing batch blocks s with
  | nil =>
    cases hfold
    exact ⟨[], [], rfl, by rwa [List.append_nil, List.append_nil]⟩
  | cons entry entries ih =>
    rw [List.foldlM_cons] at hfold
    obtain ⟨next, hstep, hfold⟩ := Except.bind_eq_ok.mp hfold
    obtain ⟨members, block, hentry, hnext⟩ := prepareRecord_expands hdims h hstep
    obtain ⟨batch', blocks', hentries, hexpanding⟩ := ih hnext hfold
    refine ⟨members :: batch', block :: blocks', ?_, ?_⟩
    · rw [List.map_cons, hentry, hentries, List.map_cons]
    · rwa [List.append_cons, List.append_cons blocks]

theorem expanding_nil (dimensions : Nat) : Expanding dimensions [] [] {} where
  covered := .nil
  once := List.nodup_nil
  cells := .nil
  bounded := Nat.zero_le _
  within p h := by cases h
  ranges := rfl
  seen p := by simp

theorem prepareRecord_canonical (hdims : dimensions = 2 ∨ dimensions = 3) {entry : Json × Nat}
    (h : prepareRecord dimensions s entry = .ok s') : ∃ record,
      s'.records = s.records ++ [record] ∧ prepareRecord dimensions s (record, entry.2) = .ok s' := by
  obtain ⟨reading, hread, hcover⟩ := Except.bind_eq_ok.mp h
  refine ⟨.object reading.record, ?_, Except.bind_eq_ok.mpr ⟨reading, readRecord_canonical hdims hread, hcover⟩⟩
  rw [coverRecord] at hcover
  split_ifs at hcover
  obtain ⟨covered, hfold, hs'⟩ := Except.bind_eq_ok.mp hcover
  obtain rfl := Except.ok.inj hs'
  exact (coverPoint_foldlM hfold).2.1

theorem foldlM_canonical (hdims : dimensions = 2 ∨ dimensions = 3) {elements : List Json} {start : Nat}
    (h : (elements.zipIdx start).foldlM (prepareRecord dimensions) s = .ok s') : ∃ records : List Json,
      s'.records = s.records ++ records ∧ records.length = elements.length ∧
      (records.zipIdx start).foldlM (prepareRecord dimensions) s = .ok s' := by
  induction elements generalizing s start with
  | nil =>
    cases h
    exact ⟨[], (List.append_nil _).symm, rfl, rfl⟩
  | cons element elements ih =>
    rw [List.zipIdx_cons, List.foldlM_cons] at h
    obtain ⟨next, hstep, hfold⟩ := Except.bind_eq_ok.mp h
    obtain ⟨record, hrecord, hstep⟩ := prepareRecord_canonical hdims hstep
    obtain ⟨records, hrecords, hlength, hfold⟩ := ih hfold
    refine ⟨record :: records, ?_, ?_, ?_⟩
    · rw [hrecords, hrecord, List.append_assoc, List.singleton_append]
    · rw [List.length_cons, List.length_cons, hlength]
    · rw [List.zipIdx_cons, List.foldlM_cons]
      exact Except.bind_eq_ok.mpr ⟨next, hstep, hfold⟩

theorem prepare_ok {records : Json} : prepare records dimensions = .ok prepared ↔
    ∃ (elements : List Json) (s : Preparing), records = .array elements ∧ elements ≠ [] ∧ elements.length ≤ kMaxRecords ∧
      (dimensions = 2 ∨ dimensions = 3) ∧ elements.zipIdx.foldlM (prepareRecord dimensions) {} = .ok s ∧
      s.toPreparedRecords = prepared := by
  cases records with
  | array elements =>
    rw [prepare]
    constructor
    · intro h
      split_ifs at h with hbad
      obtain ⟨s, hfold, hs⟩ := Except.bind_eq_ok.mp h
      exact ⟨elements, s, rfl, fun hnil => hbad (.inl hnil), by omega, by omega, hfold, Except.ok.inj hs⟩
    · rintro ⟨elements', s, helements, hne, hlength, hdims, hfold, rfl⟩
      obtain rfl := Json.array.inj helements
      have hgood : ¬(elements = [] ∨ kMaxRecords < elements.length ∨ (dimensions ≠ 2 ∧ dimensions ≠ 3)) := by
        rintro (hnil | hlong | hother)
        · exact hne hnil
        · omega
        · omega
      rw [if_neg hgood]
      exact Except.bind_eq_ok.mpr ⟨s, hfold, rfl⟩
  | _ => exact ⟨fun h => (by cases h), fun ⟨_, _, h, _⟩ => (by cases h)⟩

theorem prepare_expansion {records : Json} (h : prepare records dimensions = .ok prepared) :
    ∃ batch blocks, records = .array (batch.map .object) ∧ Expansion dimensions batch blocks prepared := by
  obtain ⟨elements, s, rfl, -, -, hdims, hfold, rfl⟩ := prepare_ok.mp h
  obtain ⟨batch, blocks, hbatch, hexpanding⟩ := foldlM_expands hdims (expanding_nil dimensions) hfold
  rw [List.zipIdx_map_fst] at hbatch
  exact ⟨batch, blocks, by rw [hbatch], hexpanding.toExpansion⟩

theorem prepare_records {records : Json} (h : prepare records dimensions = .ok prepared) :
    prepare (.array prepared.records) dimensions = .ok prepared := by
  obtain ⟨elements, s, rfl, hne, hle, hdims, hfold, rfl⟩ := prepare_ok.mp h
  obtain ⟨canonicals, hcanonicals, hlength, hfold⟩ := foldlM_canonical hdims hfold
  rw [show s.records = canonicals from hcanonicals]
  refine prepare_ok.mpr ⟨canonicals, s, rfl, ?_, hlength.trans_le hle, hdims, hfold, rfl⟩
  intro hnil
  rw [hnil, eq_comm, List.length_nil, List.length_eq_zero_iff] at hlength
  exact hne hlength

theorem Expansion.block_of (h : Expansion dimensions batch blocks prepared) {i : Nat} {a : JsonObject}
    (hi : batch[i]? = some a) : ∃ hlt : i < blocks.length, ∀ p, p ∈ blocks[i] ↔ Covers dimensions a p := by
  obtain ⟨hlength, hget⟩ := List.forall₂_iff_get.mp h.covered
  obtain ⟨hlt, rfl⟩ := List.getElem?_eq_some_iff.mp hi
  exact ⟨hlength ▸ hlt, hget i hlt (hlength ▸ hlt)⟩

/-- Two records of an expansion do not cover one point. -/
theorem Expansion.apart (h : Expansion dimensions batch blocks prepared) {i j : Nat} {a b : JsonObject} {p : Point}
    (hlt : i < j) (hi : batch[i]? = some a) (hj : batch[j]? = some b) (ha : Covers dimensions a p) :
    ¬ Covers dimensions b p := by
  intro hb
  obtain ⟨hilt, hblocki⟩ := h.block_of hi
  obtain ⟨hjlt, hblockj⟩ := h.block_of hj
  have hdisjoint := List.pairwise_iff_getElem.mp (List.nodup_flatten.mp h.once).2 i j hilt hjlt hlt
  exact hdisjoint ((hblocki p).mpr ha) ((hblockj p).mpr hb)

end Batch

/-- **An accepted batch is expanded to the points of its records, each once and with its own record's payload; its
canonical records are prepared to the same; and two records that cover one point are refused.** -/
theorem prepare_expands (records : Json) (dimensions : Nat) :
    (∀ prepared, prepare records dimensions = .ok prepared →
      (∃ batch blocks, records = .array (batch.map .object) ∧ Expansion dimensions batch blocks prepared) ∧
        prepare (.array prepared.records) dimensions = .ok prepared) ∧
    ∀ (elements : List Json) (i j : Nat) (a b : JsonObject) (p : Point), records = .array elements → i ≠ j →
      elements[i]? = some (.object a) → elements[j]? = some (.object b) → Covers dimensions a p → Covers dimensions b p →
      ∃ e, prepare records dimensions = .error e := by
  refine ⟨fun prepared h => ⟨prepare_expansion h, prepare_records h⟩, ?_⟩
  rintro elements i j a b p rfl hne hi hj ha hb
  cases hprepare : prepare (.array elements) dimensions with
  | error e => exact ⟨e, rfl⟩
  | ok prepared =>
    exfalso
    obtain ⟨batch, blocks, hbatch, hexpansion⟩ := prepare_expansion hprepare
    obtain rfl := Json.array.inj hbatch
    have hget {k : Nat} {c : JsonObject} (hk : (batch.map Json.object)[k]? = some (.object c)) : batch[k]? = some c := by
      rw [List.getElem?_map] at hk
      obtain ⟨c', hc', hobject⟩ := Option.map_eq_some_iff.mp hk
      rw [hc', Json.object.inj hobject]
    rcases lt_or_gt_of_ne hne with hlt | hlt
    · exact hexpansion.apart hlt (hget hi) (hget hj) ha hb
    · exact hexpansion.apart hlt (hget hj) (hget hi) hb ha

/-- A rectangle of two cells of the plane, in both spellings. -/
def pair : Json :=
  .array [.object [("erase", .boolean true), ("rect", .object
    [("position", .object [("x", .integer 3), ("y", .integer (-1))]), ("size", .array [.integer 2, .integer 1])])]]

/-- Its canonical record, and its two cells. -/
def preparedPair : PreparedRecords where
  records := [.object [("erase", .boolean true), ("rect", .object
    [("position", .array [.integer 3, .integer (-1)]), ("size", .array [.integer 2, .integer 1])])]]
  expanded := [.object [("coords", .array [.integer 3, .integer (-1)]), ("erase", .boolean true)],
    .object [("coords", .array [.integer 4, .integer (-1)]), ("erase", .boolean true)]]
  ranges := [(0, 2)]

theorem prepare_expands_pair : prepare (.array preparedPair.records) 2 = .ok preparedPair :=
  ((prepare_expands pair 2).1 preparedPair (by rfl)).2

end Didi.Cells
