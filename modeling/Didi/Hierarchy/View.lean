import Didi.Json.Pointer

/-!
# The shaping of a scene hierarchy

* `countByType`, `summarizeBranch` : what is said of a branch that is left out;
* `shape` : the tree cut by a class filter and a budget of nodes, depth first;
* `shapeHierarchy` : the answer of `scene_get_hierarchy`.

An error is the exception that the JSON library throws on a node that is no object.
-/

namespace Didi.Hierarchy
open Json (find)

structure HierarchyViewOptions where
  maxNodes : Nat := 0
  classFilter : List String := []
  summary : Bool := false

structure HierarchyViewStats where
  nodeCount : Nat := 0
  matchedNodes : Nat := 0
  truncated : Bool := false

def childrenOf (node : Json) : List Json :=
  match find node "children" with
  | some (.array children) => children
  | _ => []

def typeOf (node : Json) : String :=
  match find node "type" with
  | some (.string type) => type
  | _ => ""

theorem sizeOf_lookup_lt {members : JsonObject} {key : String} {v : Json} (h : members.lookup key = some v) :
    sizeOf v < sizeOf members := by
  have hmem := List.sizeOf_lt_of_mem (List.mem_of_lookup h)
  simp only [Prod.mk.sizeOf_spec] at hmem
  omega

theorem sizeOf_childrenOf_le (node : Json) : sizeOf (childrenOf node) ≤ sizeOf node := by
  unfold childrenOf
  split
  · rename_i children h
    cases node <;> simp only [find, reduceCtorEq] at h
    have hlt := sizeOf_lookup_lt h
    simp only [Json.array.sizeOf_spec, Json.object.sizeOf_spec] at hlt ⊢
    omega
  · cases node <;> simp
    omega

/-- `node[key] = value` -/
def assign (key : String) (value : Json) : Json → Except JsonException Json
  | .object members => .ok (.object (members.insertKey key value))
  | .null => .ok (.object [(key, value)])
  | node => .error (.typeError 305 ("cannot use operator[] with a string argument with " ++ node.typeName))

/-! ## Counting a branch -/

abbrev TypeCounts := List (String × Nat)

def bump (counts : TypeCounts) (type : String) : TypeCounts :=
  counts.insertKey type ((counts.lookup type).getD 0 + 1)

mutual

def countByType (node : Json) (counts : TypeCounts) (total : Nat) : TypeCounts × Nat :=
  countAllByType (childrenOf node) (bump counts (typeOf node)) (total + 1)
termination_by (sizeOf node, 1)
decreasing_by
  have := sizeOf_childrenOf_le node
  simp only [Prod.lex_def]
  omega

def countAllByType : List Json → TypeCounts → Nat → TypeCounts × Nat
  | [], counts, total => (counts, total)
  | child :: children, counts, total =>
    let (counts, total) := countByType child counts total
    countAllByType children counts total
termination_by children => (sizeOf children, 0)

end

def countsToJson (counts : TypeCounts) : Json := .object (counts.map fun (type, count) => (type, .integer count))

mutual

def subtreeMatches (filter : List String) (node : Json) : Bool :=
  typeOf node ∈ filter || anyMatches filter (childrenOf node)
termination_by (sizeOf node, 1)
decreasing_by
  have := sizeOf_childrenOf_le node
  simp only [Prod.lex_def]
  omega

def anyMatches (filter : List String) : List Json → Bool
  | [] => false
  | child :: children => subtreeMatches filter child || anyMatches filter children
termination_by children => (sizeOf children, 0)

end

def summarizeBranch (node : Json) : Except JsonException Json := do
  let (counts, total) := countByType node [] 0
  let name ← node.valueString "name" ""
  let path ← node.valueString "path" ""
  return .object [("counts_by_type", countsToJson counts), ("name", .string name), ("node_count", .integer total),
    ("path", .string path), ("type", .string (typeOf node))]

/-! ## Shaping -/

/-- The children that are kept go into the copy of the node, and what of them is left out is counted there. -/
def report (result : Json) (kept : List Json) (omittedCounts : TypeCounts) (omittedTotal : Nat) :
    Except JsonException Json := do
  let result ← assign "children" (.array kept) result
  if omittedTotal > 0 then
    let result ← assign "children_omitted" (.integer omittedTotal) result
    assign "children_summary" (countsToJson omittedCounts) result
  else return result

section Shape
variable (options : HierarchyViewOptions)

def filtering : Bool := !options.classFilter.isEmpty

def budgeted : Bool := options.maxNodes > 0

def matchesFilter (node : Json) : Bool := filtering options && typeOf node ∈ options.classFilter

/-- The copy of a node that the filter asks for is marked. -/
def mark (node : Json) : Except JsonException Json :=
  if matchesFilter options node then assign "matched" (.boolean true) node else .ok node

def visit (stats : HierarchyViewStats) (node : Json) : HierarchyViewStats :=
  { stats with
    matchedNodes := if matchesFilter options node then stats.matchedNodes + 1 else stats.matchedNodes
    nodeCount := stats.nodeCount + 1 }

mutual

def shape (node : Json) (stats : HierarchyViewStats) : Except JsonException (Json × HierarchyViewStats) := do
  let result ← mark options node
  let (kept, omittedCounts, omittedTotal, stats) ← shapeChildren (childrenOf node) [] 0 (visit options stats node)
  let result ← report result kept omittedCounts omittedTotal
  return (result, if omittedTotal > 0 then { stats with truncated := true } else stats)
termination_by (sizeOf node, 1)
decreasing_by
  have := sizeOf_childrenOf_le node
  simp only [Prod.lex_def]
  omega

/-- The children kept, what was left out of the others, and the statistics. -/
def shapeChildren : List Json → TypeCounts → Nat → HierarchyViewStats →
    Except JsonException (List Json × TypeCounts × Nat × HierarchyViewStats)
  | [], counts, total, stats => .ok ([], counts, total, stats)
  | child :: children, counts, total, stats =>
    if filtering options && !subtreeMatches options.classFilter child then shapeChildren children counts total stats
    else if budgeted options && stats.nodeCount ≥ options.maxNodes then
      let (counts, total) := countByType child counts total
      shapeChildren children counts total stats
    else do
      let (shaped, stats) ← shape child stats
      let (kept, counts, total, stats) ← shapeChildren children counts total stats
      return (shaped :: kept, counts, total, stats)
termination_by children => (sizeOf children, 0)

end

end Shape

def shapeHierarchy (tree : Json) (options : HierarchyViewOptions) : Except JsonException (Json × HierarchyViewStats) :=
  if !tree.isObject then .ok (tree, {})
  else if options.summary then do
    let (counts, total) := countByType tree [] 0
    let branches ← (childrenOf tree).mapM summarizeBranch
    let name ← tree.valueString "name" ""
    let path ← tree.valueString "path" ""
    return (.object [("branches", .array branches), ("counts_by_type", countsToJson counts), ("name", .string name),
      ("node_count", .integer total), ("path", .string path), ("type", .string (typeOf tree))],
      { nodeCount := total })
  else shape options tree {}

end Didi.Hierarchy
