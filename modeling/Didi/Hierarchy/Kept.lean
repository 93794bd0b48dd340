import Didi.Lib.Rose
import Didi.Hierarchy.View

/-!
# What a shaped hierarchy accounts for

* `treeOf` : the tree that the nodes of a scene make up, and `nodes`, `places` : its nodes depth first;
* `countByType_eq`, `subtreeMatches_eq` : the recursions over a branch, by its nodes;
* `shape_cut` : a shaped tree is the tree cut by the filter and the budget, with `Reported` at each node;
* `shapeHierarchy_accounts` : every node is kept or counted.
-/

namespace Didi.Hierarchy
open Json (find)
variable {out : Json} {children : List Json} {e : Json × List (Rose Json)} {ledger : List (Json × List (Rose Json))}
  {options : HierarchyViewOptions}

mutual

def treeOf (node : Json) : Rose Json := .node node (treesOf (childrenOf node))
termination_by (sizeOf node, 1)
decreasing_by
  have := sizeOf_childrenOf_le node
  simp only [Prod.lex_def]
  omega

def treesOf : List Json → List (Rose Json)
  | [] => []
  | child :: children => treeOf child :: treesOf children
termination_by children => (sizeOf children, 0)

end

/-- The nodes of a scene tree, depth first. -/
def nodes (tree : Json) : List Json := (treeOf tree).labels

def nodesAll (trees : List Json) : List Json := Rose.labelsAll (treesOf trees)

/-- The members of a node that the shaping leaves as they are. -/
def own (node : Json) : JsonObject :=
  match node with
  | .object members => ((members.eraseKey "children").eraseKey "children_omitted").eraseKey "children_summary"
  | _ => []

/-- The nodes depth first, each with the way to it from the root. -/
def places (tree : Json) : List (List Nat × JsonObject) := (treeOf tree).placed.map fun e => (e.1, own e.2)

/-- Every node is an object. -/
def SceneTree (tree : Json) : Prop := ∀ node ∈ nodes tree, node.isObject = true

theorem nodes_eq (node : Json) : nodes node = node :: nodesAll (childrenOf node) := by
  rw [nodes, treeOf, Rose.labels_node]
  rfl

theorem nodesAll_cons (child : Json) (children : List Json) :
    nodesAll (child :: children) = nodes child ++ nodesAll children := by
  rw [nodesAll, treesOf, Rose.labelsAll_cons]
  rfl

theorem nodesAll_nil : nodesAll [] = [] := by
  rw [nodesAll, treesOf]
  rfl

/-- To prove something of every node, prove it of a node whose children have it. -/
theorem nodeInd {P : Json → Prop} (h : ∀ node, (∀ child ∈ childrenOf node, P child) → P node) (node : Json) : P node :=
  h node fun child _ => nodeInd h child
termination_by sizeOf node
decreasing_by
  rename_i hmem
  exact Nat.lt_of_lt_of_le (List.sizeOf_lt_of_mem hmem) (sizeOf_childrenOf_le node)

/-! ## Counting -/

def tally (counts : TypeCounts) (nodes : List Json) : TypeCounts := nodes.foldl (fun c node => bump c (typeOf node)) counts

theorem tally_append (counts : TypeCounts) (l₁ l₂ : List Json) : tally counts (l₁ ++ l₂) = tally (tally counts l₁) l₂ :=
  List.foldl_append

theorem lookup_bump (counts : TypeCounts) (type type' : String) :
    ((bump counts type).lookup type').getD 0 = (counts.lookup type').getD 0 + if type = type' then 1 else 0 := by
  rw [bump, List.lookup_insertKey]
  by_cases h : type = type'
  · rw [if_pos h, if_pos h.symm, h]
    rfl
  · rw [if_neg h, if_neg (Ne.symm h)]
    rfl

theorem lookup_tally (counts : TypeCounts) (nodes : List Json) (type : String) :
    ((tally counts nodes).lookup type).getD 0 = (counts.lookup type).getD 0 + nodes.countP (typeOf · = type) := by
  induction nodes generalizing counts with
  | nil => rfl
  | cons node nodes ih =>
    rw [tally, List.foldl_cons, ← tally, ih, lookup_bump, List.countP_cons]
    simp only [decide_eq_true_eq]
    omega

theorem countAllByType_eq
    (h : ∀ child ∈ children, ∀ counts total, countByType child counts total =
      (tally counts (nodes child), total + (nodes child).length))
    (counts : TypeCounts) (total : Nat) :
    countAllByType children counts total = (tally counts (nodesAll children), total + (nodesAll children).length) := by
  induction children generalizing counts total with
  | nil =>
    rw [countAllByType, nodesAll_nil]
    rfl
  | cons child children ih =>
    rw [countAllByType, h child List.mem_cons_self, nodesAll_cons, tally_append, List.length_append, ← Nat.add_assoc]
    exact ih (fun child hmem => h child (List.mem_cons_of_mem _ hmem)) _ _

theorem countByType_eq (node : Json) (counts : TypeCounts) (total : Nat) :
    countByType node counts total = (tally counts (nodes node), total + (nodes node).length) := by
  induction node using nodeInd generalizing counts total with
  | h node ih =>
    rw [countByType, countAllByType_eq ih, nodes_eq, List.length_cons, tally, tally, List.foldl_cons, Nat.add_assoc,
      Nat.add_comm 1]

theorem anyMatches_eq {filter : List String}
    (h : ∀ child ∈ children, subtreeMatches filter child = (nodes child).any (typeOf · ∈ filter)) :
    anyMatches filter children = (nodesAll children).any (typeOf · ∈ filter) := by
  induction children with
  | nil =>
    rw [anyMatches, nodesAll_nil]
    rfl
  | cons child children ih =>
    rw [anyMatches, h child List.mem_cons_self, ih fun child hmem => h child (List.mem_cons_of_mem _ hmem), nodesAll_cons,
      List.any_append]

/-- A branch matches where a node of it does. -/
theorem subtreeMatches_eq (filter : List String) (node : Json) :
    subtreeMatches filter node = (nodes node).any (typeOf · ∈ filter) := by
  induction node using nodeInd with
  | h node ih => rw [subtreeMatches, anyMatches_eq ih, nodes_eq, List.any_cons]

/-! ## Shaping -/

theorem own_assign {members : JsonObject} {key : String} (value : Json)
    (h : key = "children" ∨ key = "children_omitted" ∨ key = "children_summary") :
    own (.object (members.insertKey key value)) = own (.object members) := by
  rcases h with rfl | rfl | rfl
  · rw [own, own, List.eraseKey_insertKey]
  · rw [own, own, List.eraseKey_comm "children" "children_omitted", List.eraseKey_insertKey,
      List.eraseKey_comm "children_omitted" "children"]
  · rw [own, own, List.eraseKey_comm "children_omitted" "children_summary",
      List.eraseKey_comm "children" "children_summary", List.eraseKey_insertKey,
      List.eraseKey_comm "children_summary" "children", List.eraseKey_comm "children_summary" "children_omitted"]

/-- What the result of a node says, for the node and the children left out of it. -/
structure Reported (options : HierarchyViewOptions) (out : Json) (e : Json × List (Rose Json)) : Prop where
  own : ∃ marked, mark options e.1 = .ok marked ∧ own out = Hierarchy.own marked ∧
    (e.2 = [] → ∀ key, key ≠ "children" → find out key = find marked key)
  kids : filtering options = false → (childrenOf out).length + e.2.length = (childrenOf e.1).length
  cut : e.2 ≠ [] → find out "children_omitted" = some (.integer (Rose.labelsAll e.2).length) ∧
    find out "children_summary" = some (countsToJson (tally [] (Rose.labelsAll e.2)))

theorem mark_object (options : HierarchyViewOptions) (members : JsonObject) :
    ∃ marked, mark options (.object members) = .ok (.object marked) := by
  unfold mark
  split_ifs
  · exact ⟨_, rfl⟩
  · exact ⟨_, rfl⟩

theorem report_reported {node : Json} (hnode : node.isObject = true) (kept : List Json) (noted : List (Rose Json))
    (hkids : filtering options = false → kept.length + noted.length = (childrenOf node).length) :
    ∃ marked out, mark options node = .ok marked ∧
      report marked kept (tally [] (Rose.labelsAll noted)) (Rose.labelsAll noted).length = .ok out ∧
      childrenOf out = kept ∧ Reported options out (node, noted) := by
  obtain ⟨members, rfl⟩ : ∃ members, node = .object members := by
    cases node <;> simp_all [Json.isObject]
  obtain ⟨marked, hmark⟩ := mark_object options members
  by_cases hnoted : noted = []
  · subst hnoted
    have hchildren : childrenOf (.object (marked.insertKey "children" (.array kept))) = kept := by
      simp only [childrenOf, find, List.lookup_insertKey, if_pos]
    refine ⟨_, .object (marked.insertKey "children" (.array kept)), hmark, rfl, hchildren,
      ⟨⟨_, hmark, ?_, ?_⟩, ?_, ?_⟩⟩
    · exact own_assign _ (.inl rfl)
    · intro _ key hkey
      rw [find, List.lookup_insertKey, if_neg hkey]
      rfl
    · rwa [hchildren]
    · exact fun h => absurd rfl h
  · have hpos : (Rose.labelsAll noted).length > 0 :=
      List.length_pos_of_ne_nil fun h => hnoted (Rose.labelsAll_eq_nil.mp h)
    let out : Json := .object (((marked.insertKey "children" (.array kept)).insertKey "children_omitted"
      (.integer (Rose.labelsAll noted).length)).insertKey "children_summary"
        (countsToJson (tally [] (Rose.labelsAll noted))))
    have hchildren : childrenOf out = kept := by simp [out, childrenOf, find, List.lookup_insertKey]
    refine ⟨_, out, hmark, ?_, hchildren, ⟨⟨_, hmark, ?_, ?_⟩, ?_, ?_⟩⟩
    · rw [report]
      dsimp only [assign, bind, Except.bind]
      rw [if_pos hpos]
    · rw [own_assign _ (.inr (.inr rfl)), own_assign _ (.inr (.inl rfl)), own_assign _ (.inl rfl)]
    · exact fun h => absurd h hnoted
    · rwa [hchildren]
    · intro _
      simp [out, find, List.lookup_insertKey]

section Shape
variable (options)

/-- The branches that the filter takes. -/
def keeps (t : Rose Json) : Bool := !filtering options || t.labels.any (typeOf · ∈ options.classFilter)

def room (visited : Nat) : Bool := !(budgeted options && decide (visited ≥ options.maxNodes))

/-- The shaped tree is the cut tree, with its statistics. -/
def Shapes (node : Json) : Prop :=
  ∀ stats, ∃ out stats', shape options node stats = .ok (out, stats') ∧
    let kept := Rose.cut (keeps options) (room options) (treeOf node) stats.nodeCount
    stats'.nodeCount = kept.2 ∧
      stats'.matchedNodes = stats.matchedNodes + (kept.1.labels.map Prod.fst).countP (matchesFilter options) ∧
      Rose.Rel (Reported options) (treeOf out) kept.1

variable {options}

theorem shapeChildren_cut (h : ∀ child ∈ children, Shapes options child) (counts : TypeCounts) (total : Nat)
    (stats : HierarchyViewStats) :
    let kept := Rose.cutAll (keeps options) (room options) (treesOf children) stats.nodeCount
    ∃ outs stats', shapeChildren options children counts total stats =
        .ok (outs, tally counts (Rose.labelsAll kept.2.1), total + (Rose.labelsAll kept.2.1).length, stats') ∧
      stats'.nodeCount = kept.2.2 ∧
      stats'.matchedNodes =
        stats.matchedNodes + ((Rose.labelsAll kept.1).map Prod.fst).countP (matchesFilter options) ∧
      List.Forall₂ (Rose.Rel (Reported options)) (treesOf outs) kept.1 ∧
      (filtering options = false → outs.length + kept.2.1.length = children.length) := by
  induction children generalizing counts total stats with
  | nil =>
    rw [treesOf, shapeChildren]
    exact ⟨[], stats, rfl, rfl, rfl, by rw [treesOf]; exact .nil, fun _ => rfl⟩
  | cons child children ih =>
    have hrest := fun counts total stats => ih (fun child hmem => h child (List.mem_cons_of_mem _ hmem)) counts total stats
    have hkeeps : keeps options (treeOf child) = !(filtering options && !subtreeMatches options.classFilter child) := by
      rw [keeps, subtreeMatches_eq, nodes, Bool.not_and, Bool.not_not]
    rw [shapeChildren, treesOf]
    by_cases hmatch : (filtering options && !subtreeMatches options.classFilter child) = true
    case pos =>
      rw [hmatch, Bool.not_true] at hkeeps
      rw [if_pos hmatch, Rose.cutAll_skip _ hkeeps]
      obtain ⟨outs, stats', hshapes, hcount, hmatched, hrel, -⟩ := hrest counts total stats
      refine ⟨outs, stats', hshapes, hcount, hmatched, hrel, fun hfalse => ?_⟩
      rw [hfalse, Bool.false_and] at hmatch
      exact absurd hmatch Bool.false_ne_true
    case neg =>
      rw [Bool.eq_false_of_not_eq_true hmatch, Bool.not_false] at hkeeps
      rw [if_neg hmatch]
      by_cases hspent : (budgeted options && decide (stats.nodeCount ≥ options.maxNodes)) = true
      case pos =>
        have hroom : room options stats.nodeCount = false := by rw [room, hspent, Bool.not_true]
        rw [if_pos hspent, Rose.cutAll_note _ hkeeps hroom, countByType_eq]
        dsimp only
        rw [Rose.labelsAll_cons, tally_append, List.length_append, ← Nat.add_assoc]
        obtain ⟨outs, stats', hshapes, hcount, hmatched, hrel, hkids⟩ := hrest _ _ stats
        refine ⟨outs, stats', hshapes, hcount, hmatched, hrel, fun hfalse => ?_⟩
        rw [List.length_cons, List.length_cons, ← hkids hfalse, Nat.add_assoc]
      case neg =>
        have hroom : room options stats.nodeCount = true := by
          rw [room, Bool.eq_false_of_not_eq_true hspent, Bool.not_false]
        obtain ⟨out, stats₁, hshape, hcount, hmatched, hrel⟩ := h child List.mem_cons_self stats
        obtain ⟨outs, stats₂, hshapes, hcount', hmatched', hrel', hkids⟩ := hrest counts total stats₁
        rw [if_neg hspent, Rose.cutAll_keep _ hkeeps hroom, hshape, ← hcount]
        refine ⟨out :: outs, stats₂, ?_, hcount', ?_, ?_, fun hfalse => ?_⟩
        · dsimp only [bind, Except.bind]
          rw [hshapes]
          rfl
        · rw [hmatched', hmatched, Rose.labelsAll_cons, List.map_append, List.countP_append, Nat.add_assoc]
        · rw [treesOf]
          exact .cons hrel hrel'
        · rw [List.length_cons, List.length_cons, ← hkids hfalse, Nat.add_right_comm]

theorem mem_nodesAll {child node : Json} (hchild : child ∈ children) (hnode : node ∈ nodes child) :
    node ∈ nodesAll children := by
  induction children with
  | nil => cases hchild
  | cons first rest ih =>
    rw [nodesAll_cons]
    rcases List.mem_cons.mp hchild with rfl | hchild
    · exact List.mem_append_left _ hnode
    · exact List.mem_append_right _ (ih hchild)

theorem SceneTree.child {node child : Json} (hscene : SceneTree node) (hchild : child ∈ childrenOf node) :
    SceneTree child := by
  intro below hbelow
  refine hscene below ?_
  rw [nodes_eq]
  exact List.mem_cons_of_mem _ (mem_nodesAll hchild hbelow)

theorem shape_cut (node : Json) (hscene : SceneTree node) : Shapes options node := by
  induction node using nodeInd with
  | h node ih =>
    intro stats
    have hnode : node.isObject = true := hscene node (by rw [nodes_eq]; exact List.mem_cons_self)
    obtain ⟨outs, stats', hshapes, hcount, hmatched, hrel, hkids⟩ := shapeChildren_cut
      (fun child hchild => ih child hchild (hscene.child hchild)) [] 0 (visit options stats node)
    obtain ⟨marked, out, hmark, hreport, hchildren, hreported⟩ := report_reported hnode outs _ hkids
    have hvisit : (visit options stats node).nodeCount = stats.nodeCount + 1 := rfl
    rw [hvisit] at hshapes hcount hmatched hrel hreport hreported
    rw [Nat.zero_add] at hshapes
    have hshape : ∃ stats₁, shape options node stats = .ok (out, stats₁) ∧ stats₁.nodeCount = stats'.nodeCount ∧
        stats₁.matchedNodes = stats'.matchedNodes := by
      rw [shape, hmark]
      dsimp only [bind, Except.bind]
      rw [hshapes]
      dsimp only
      rw [hreport]
      dsimp only
      split_ifs
      · exact ⟨_, rfl, rfl, rfl⟩
      · exact ⟨_, rfl, rfl, rfl⟩
    obtain ⟨stats₁, hshape, hcount₁, hmatched₁⟩ := hshape
    refine ⟨out, stats₁, hshape, ?_⟩
    rw [treeOf, Rose.cut]
    refine ⟨hcount₁.trans hcount, ?_, ?_⟩
    · rw [hmatched₁, hmatched, Rose.labels_node, List.map_cons, List.countP_cons]
      simp only [visit]
      split_ifs <;> omega
    · rw [treeOf, hchildren]
      exact .node hreported hrel

end Shape

/-! ## A budget -/

def omittedOf (node : Json) : Nat :=
  match find node "children_omitted" with
  | some (.integer i) => i.toNat
  | _ => 0

/-- How many nodes of a type a summary counts. -/
def summaryOf (type : String) (node : Json) : Nat :=
  match find node "children_summary" with
  | some (.object counts) =>
    match counts.lookup type with
    | some (.integer i) => i.toNat
    | _ => 0
  | _ => 0

/-- The result of a node has fewer children than the node. -/
def isCut (e : Json × Json) : Bool := (childrenOf e.2).length < (childrenOf e.1).length

/-- The nodes of a result that do not have all their children. -/
def cutNodes (tree out : Json) : List Json := (((nodes tree).zip (nodes out)).filter isCut).map Prod.snd

def hasType (type : String) (node : Json) : Bool := typeOf node = type

/-- The first nodes are kept, each in its place, and those left out are counted at the nodes that are cut. -/
structure Accounted (tree out : Json) (kept : Nat) : Prop where
  places : places out = (Hierarchy.places tree).take kept
  omitted : kept + ((cutNodes tree out).map omittedOf).sum = (nodes tree).length
  types : ∀ type, (nodes out).countP (hasType type) + ((cutNodes tree out).map (summaryOf type)).sum =
    (nodes tree).countP (hasType type)
  uncut : ∀ e ∈ (nodes tree).zip (nodes out), isCut e = false →
    ∀ key, key ≠ "children" → find e.2 key = find e.1 key

theorem lookup_countsToJson (counts : TypeCounts) (type : String) :
    (counts.map fun e => (e.1, Json.integer e.2)).lookup type = (counts.lookup type).map fun n => .integer n := by
  induction counts with
  | nil => rfl
  | cons e counts ih =>
    rw [List.map_cons, List.lookup_cons_eq, List.lookup_cons_eq, ih]
    split_ifs <;> rfl

theorem summaryOf_tally {noted : List Json} (h : find out "children_summary" = some (countsToJson (tally [] noted)))
    (type : String) :
    summaryOf type out = noted.countP (hasType type) := by
  have htally : ((tally [] noted).lookup type).getD 0 = noted.countP (hasType type) := by
    rw [lookup_tally]
    exact Nat.zero_add _
  rw [summaryOf, h, countsToJson]
  dsimp only
  rw [lookup_countsToJson, ← htally]
  cases (tally [] noted).lookup type <;> rfl

theorem omittedOf_reported (h : Reported options out e)
    (hnoted : e.2 ≠ []) : omittedOf out = (Rose.labelsAll e.2).length := by
  rw [omittedOf, (h.cut hnoted).1]
  rfl

theorem summaryOf_reported (h : Reported options out e) (type : String) (hnoted : e.2 ≠ []) :
    summaryOf type out = (Rose.labelsAll e.2).countP (hasType type) :=
  summaryOf_tally (h.cut hnoted).2 type

section Account
variable {outs : List Json}

theorem Reported.isCut_eq (h : Reported options out e)
    (hfilter : filtering options = false) : isCut (e.1, out) = decide (e.2 ≠ []) := by
  have hkids := h.kids hfilter
  rw [isCut, decide_eq_decide, ← List.length_pos_iff]
  dsimp only
  omega

/-- The nodes that are cut are those at which children are noted. -/
theorem sum_cut (h : List.Forall₂ (Reported options) outs ledger) (hfilter : filtering options = false) (rest : List Json)
    {f : Json → Nat} {g : List Json → Nat} (hnil : g [] = 0)
    (hcut : ∀ out e, Reported options out e → e.2 ≠ [] → f out = g (Rose.labelsAll e.2)) :
    (((((ledger.map Prod.fst ++ rest).zip outs).filter isCut).map Prod.snd).map f).sum =
      (ledger.map fun e => g (Rose.labelsAll e.2)).sum := by
  induction h with
  | nil => simp
  | @cons out e outs ledger hreported _ ih =>
    rw [List.map_cons, List.cons_append, List.zip_cons_cons, List.map_cons, List.sum_cons, ← ih, List.filter_cons,
      hreported.isCut_eq hfilter]
    by_cases hnoted : e.2 = []
    · rw [decide_eq_false (not_not_intro hnoted), if_neg Bool.false_ne_true, hnoted]
      exact (Nat.zero_add _).symm.trans (congrArg (· + _) hnil.symm)
    · rw [decide_eq_true hnoted, if_pos rfl, List.map_cons, List.map_cons, List.sum_cons, hcut out e hreported hnoted]

theorem uncut_member (h : List.Forall₂ (Reported options) outs ledger) (hfilter : filtering options = false)
    (rest : List Json) : ∀ e ∈ (ledger.map Prod.fst ++ rest).zip outs, isCut e = false →
      ∀ key, key ≠ "children" → find e.2 key = find e.1 key := by
  induction h with
  | nil => simp
  | @cons out e outs ledger hreported _ ih =>
    intro e' hmem hcut key hkey
    rw [List.map_cons, List.cons_append, List.zip_cons_cons] at hmem
    rcases List.mem_cons.mp hmem with rfl | hmem
    · rw [hreported.isCut_eq hfilter] at hcut
      obtain ⟨marked, hmark, -, huncut⟩ := hreported.own
      rw [mark, matchesFilter, hfilter, Bool.false_and, if_neg Bool.false_ne_true] at hmark
      cases hmark
      exact huncut (by simpa using hcut) key hkey
    · exact ih e' hmem hcut key hkey

theorem find_own (node : Json) {key : String}
    (h : key ≠ "children" ∧ key ≠ "children_omitted" ∧ key ≠ "children_summary") :
    (own node).lookup key = find node key := by
  cases node with
  | object members =>
    rw [own, List.lookup_eraseKey, if_neg h.2.2, List.lookup_eraseKey, if_neg h.2.1, List.lookup_eraseKey, if_neg h.1]
    rfl
  | _ => rfl

theorem typeOf_own {node node' : Json} (h : own node = own node') : typeOf node = typeOf node' := by
  have hne : "type" ≠ "children" ∧ "type" ≠ "children_omitted" ∧ "type" ≠ "children_summary" := by decide
  rw [typeOf, typeOf, ← find_own node hne, ← find_own node' hne, h]

end Account

/-- A node that no earlier cut has left its count at. -/
def Whole (node : Json) : Prop := find node "children_omitted" = none ∧ find node "children_summary" = none

theorem sum_whole {outs : List Json} (h : List.Forall₂ (Reported options) outs ledger)
    (hfilter : filtering options = false) (hwhole : ∀ e ∈ ledger, Whole e.1) {f : Json → Nat} {g : List Json → Nat}
    (hnil : g [] = 0) (hcut : ∀ out e, Reported options out e → e.2 ≠ [] → f out = g (Rose.labelsAll e.2))
    (hnone : ∀ out, Whole out → f out = 0) :
    (outs.map f).sum = (ledger.map fun e => g (Rose.labelsAll e.2)).sum := by
  induction h with
  | nil => rfl
  | @cons out e outs ledger hreported _ ih =>
    rw [List.map_cons, List.map_cons, List.sum_cons, List.sum_cons,
      ih fun e hmem => hwhole e (List.mem_cons_of_mem _ hmem)]
    congr 1
    by_cases hnoted : e.2 = []
    · obtain ⟨marked, hmark, -, huncut⟩ := hreported.own
      rw [mark, matchesFilter, hfilter, Bool.false_and, if_neg Bool.false_ne_true] at hmark
      cases hmark
      obtain ⟨homitted, hsummary⟩ := hwhole e List.mem_cons_self
      rw [hnone out ⟨(huncut hnoted _ (by decide)).trans homitted, (huncut hnoted _ (by decide)).trans hsummary⟩, hnoted]
      exact hnil.symm
    · exact hcut out e hreported hnoted

theorem keeps_all (hfilter : filtering options = false) :
    keeps options = fun _ => true := by
  funext t
  rw [keeps, hfilter, Bool.not_false, Bool.true_or]

theorem room_budget (hmax : 0 < options.maxNodes) :
    room options = fun visited => decide (visited < options.maxNodes) := by
  funext visited
  rw [room, budgeted, decide_eq_true hmax, Bool.true_and, ← decide_not, decide_eq_decide]
  exact Nat.not_le

/-- What a cut notes, summed over its nodes. -/
theorem sum_noted {all : List Json}
    (hperm : (ledger.map Prod.fst ++ ledger.flatMap fun e => Rose.labelsAll e.2).Perm all) (type : String) :
    ledger.length + (ledger.map fun e => (Rose.labelsAll e.2).length).sum = all.length ∧
      (ledger.map Prod.fst).countP (hasType type) +
          (ledger.map fun e => (Rose.labelsAll e.2).countP (hasType type)).sum = all.countP (hasType type) := by
  refine ⟨?_, ?_⟩
  · rw [← hperm.length_eq, List.length_append, List.length_map, List.length_flatMap]
  · rw [← hperm.countP_eq, List.countP_append, List.countP_flatMap]
    rfl

theorem countP_outs {outs : List Json} (h : List.Forall₂ (fun out e => own out = own e.1) outs ledger) (type : String) :
    outs.countP (hasType type) = (ledger.map Prod.fst).countP (hasType type) := by
  induction h with
  | nil => rfl
  | @cons out e outs ledger hown _ ih =>
    rw [List.map_cons, List.countP_cons, List.countP_cons, ih, hasType, hasType, typeOf_own hown]

theorem Reported.own_eq (h : Reported options out e)
    (hfilter : filtering options = false) : Hierarchy.own out = Hierarchy.own e.1 := by
  obtain ⟨marked, hmark, hown, -⟩ := h.own
  rw [mark, matchesFilter, hfilter, Bool.false_and, if_neg Bool.false_ne_true] at hmark
  cases hmark
  exact hown

theorem shape_budget {tree : Json} (hscene : SceneTree tree) (hfilter : filtering options = false)
    (hmax : 0 < options.maxNodes) :
    ∃ out stats, shape options tree {} = .ok (out, stats) ∧
      stats.nodeCount = min (nodes tree).length options.maxNodes ∧ Accounted tree out stats.nodeCount ∧
      ((∀ node ∈ nodes tree, Whole node) →
        stats.nodeCount + ((nodes out).map omittedOf).sum = (nodes tree).length ∧
          ∀ type, (nodes out).countP (hasType type) + ((nodes out).map (summaryOf type)).sum =
            (nodes tree).countP (hasType type)) := by
  obtain ⟨out, stats, hshape, hcount, -, hrel⟩ := shape_cut tree hscene {}
  rw [keeps_all hfilter, room_budget hmax] at hcount hrel
  change stats.nodeCount = (Rose.cut _ _ (treeOf tree) 0).2 at hcount
  change Rose.Rel _ _ (Rose.cut _ _ (treeOf tree) 0).1 at hrel
  obtain ⟨hkept, hplaces⟩ := Rose.cut_budget (treeOf tree) hmax
  have hperm := @Rose.cut_perm _ (· < options.maxNodes) (treeOf tree) 0
  rw [hkept] at hcount
  generalize (Rose.cut (fun _ => true) (· < options.maxNodes) (treeOf tree) 0).1 = kept at *
  have houts : List.Forall₂ (Reported options) (nodes out) kept.labels := hrel.labels
  have hfirst : kept.labels.map Prod.fst = (nodes tree).take options.maxNodes := by
    rw [nodes, Rose.labels, Rose.labels, ← List.map_take, ← hplaces, List.map_map, List.map_map]
    rfl
  have hsize : (treeOf tree).size = (nodes tree).length := (Rose.length_labels _).symm
  have hlength : stats.nodeCount = kept.labels.length := by
    rw [hcount, ← List.length_map (f := Prod.fst), hfirst, List.length_take, hsize, Nat.min_comm]
  have htree : nodes tree = kept.labels.map Prod.fst ++ (nodes tree).drop options.maxNodes := by
    rw [hfirst, List.take_append_drop]
  have htypes := countP_outs (houts.imp fun _ _ h => h.own_eq hfilter)
  refine ⟨out, stats, hshape, by rw [hcount, hsize], ⟨?_, ?_, ?_, ?_⟩, ?_⟩
  · have hown : places out = (kept.placed.map Rose.unnoted).map fun e => (e.1, own e.2) := by
      rw [← List.forall₂_eq_eq_eq, places, List.map_map, List.forall₂_map_left_iff, List.forall₂_map_right_iff]
      exact hrel.placed.imp fun x y hxy => Prod.ext hxy.1 (hxy.2.own_eq hfilter)
    rw [hown, hplaces, hcount, places, List.map_take, List.take_eq_take_iff, List.length_map, ← Rose.size]
    omega
  · rw [cutNodes, htree, sum_cut houts hfilter _ (g := List.length) rfl fun _ _ => omittedOf_reported, ← htree, hlength]
    exact (sum_noted hperm "").1
  · intro type
    rw [cutNodes, htree, sum_cut houts hfilter _ (g := List.countP (hasType type)) rfl
      fun _ _ h => summaryOf_reported h type, ← htree, htypes]
    exact (sum_noted hperm type).2
  · rw [htree]
    exact uncut_member houts hfilter _
  · intro hwhole
    have hwhole' : ∀ e ∈ kept.labels, Whole e.1 := fun e hmem =>
      hwhole e.1 (htree ▸ List.mem_append_left _ (List.mem_map_of_mem hmem))
    refine ⟨?_, fun type => ?_⟩
    · rw [sum_whole houts hfilter hwhole' (g := List.length) rfl (fun _ _ => omittedOf_reported), hlength]
      · exact (sum_noted hperm "").1
      · intro out hout
        rw [omittedOf, hout.1]
    · rw [sum_whole houts hfilter hwhole' (g := List.countP (hasType type)) rfl (fun _ _ h => summaryOf_reported h type),
        htypes]
      · exact (sum_noted hperm type).2
      · intro out hout
        rw [summaryOf, hout.2]

/-! ## A class filter -/

/-- The subtrees of a scene are the trees of its nodes. -/
theorem mem_nodes_treeOf (node : Json) : ∀ e ∈ (treeOf node).nodes, e.2 = treeOf e.2.label := by
  induction node using nodeInd with
  | h node ih =>
    rw [treeOf, Rose.nodes]
    intro e hmem
    rcases List.mem_cons.mp hmem with rfl | hmem
    · exact (treeOf.eq_1 node).symm
    · generalize childrenOf node = children at ih hmem
      revert hmem
      generalize 0 = i
      induction children generalizing i with
      | nil =>
        rw [treesOf]
        exact fun hmem => absurd hmem List.not_mem_nil
      | cons child children ihs =>
        rw [treesOf, Rose.nodesFrom]
        intro hmem
        rcases List.mem_append.mp hmem with hmem | hmem
        · obtain ⟨e', he', rfl⟩ := List.mem_map.mp hmem
          exact ih child List.mem_cons_self e' he'
        · exact ihs (fun child hmem => ih child (List.mem_cons_of_mem _ hmem)) (i + 1) hmem

/-- The node or one below it has a type of the filter. -/
def holds (filter : List String) (node : Json) : Bool := (nodes node).any (typeOf · ∈ filter)

/-- The root, and every node that holds a type of the filter. -/
def filtered (filter : List String) (tree : Json) : List Json := tree :: (nodes tree).tail.filter (holds filter)

theorem filtering_of_ne_nil (hfilter : options.classFilter ≠ []) :
    filtering options = true := by
  rw [filtering, List.isEmpty_eq_false_iff.mpr hfilter, Bool.not_false]

theorem keeps_upward (options : HierarchyViewOptions) : Rose.Upward (keeps options) := by
  intro node ts t ht hkeeps
  rw [keeps, Bool.or_eq_true] at hkeeps ⊢
  refine hkeeps.imp_right fun hany => ?_
  rw [Rose.labels_node, List.any_cons, Bool.or_eq_true]
  right
  rw [List.any_eq_true] at hany ⊢
  obtain ⟨label, hlabel, hmatch⟩ := hany
  exact ⟨label, List.mem_flatMap.mpr ⟨t, ht, hlabel⟩, hmatch⟩

theorem taken_eq (hfilter : filtering options = true) (node : Json) :
    Rose.taken (keeps options) (Rose.nodesFrom 0 (treesOf (childrenOf node))) =
      (nodes node).tail.filter (holds options.classFilter) := by
  have htrees : ∀ e ∈ Rose.nodesFrom 0 (treesOf (childrenOf node)), e.2 = treeOf e.2.label := by
    intro e hmem
    refine mem_nodes_treeOf node e ?_
    rw [treeOf, Rose.nodes]
    exact List.mem_cons_of_mem _ hmem
  have hnodes : (nodes node).tail = (Rose.nodesFrom 0 (treesOf (childrenOf node))).map fun e => e.2.label := by
    rw [nodes_eq, List.tail_cons, nodesAll, ← Rose.labels_placedFrom _ 0, Rose.placedFrom, List.map_map]
    rfl
  rw [hnodes, List.filter_map, Rose.taken]
  congr 1
  refine List.filter_congr fun e hmem => ?_
  rw [keeps, hfilter, Bool.not_true, Bool.false_or, htrees e hmem]
  rfl

theorem shape_filter {tree : Json} (hscene : SceneTree tree) (hfilter : options.classFilter ≠ [])
    (hmax : options.maxNodes = 0) :
    ∃ out stats, shape options tree {} = .ok (out, stats) ∧
      List.Forall₂ (fun out node => ∃ marked, mark options node = .ok marked ∧ own out = own marked) (nodes out)
        (filtered options.classFilter tree) ∧
      stats.matchedNodes = (filtered options.classFilter tree).countP (typeOf · ∈ options.classFilter) := by
  obtain ⟨out, stats, hshape, -, hmatched, hrel⟩ := shape_cut tree hscene {}
  have hroom : room options = fun _ => true := by
    funext visited
    rw [room, budgeted, hmax]
    rfl
  have hkept := Rose.cut_filter (keeps_upward options) tree (treesOf (childrenOf tree)) 0
  rw [taken_eq (filtering_of_ne_nil hfilter), ← treeOf] at hkept
  rw [hroom] at hmatched hrel
  change List.map Prod.fst _ = filtered options.classFilter tree at hkept
  refine ⟨out, stats, hshape, ?_, ?_⟩
  · rw [← hkept, List.forall₂_map_right_iff]
    refine hrel.labels.imp fun out e hreported => ?_
    obtain ⟨marked, hmark, hown, -⟩ := hreported.own
    exact ⟨marked, hmark, hown⟩
  · rw [hmatched, ← hkept, Nat.zero_add]
    refine List.countP_congr fun node _ => ?_
    rw [matchesFilter, filtering_of_ne_nil hfilter, Bool.true_and]

/-! ## The whole answer -/

/-- With a budget the first nodes are kept and every other node is counted, once, at a node that is cut. With a filter
the root is kept and each node that holds a matching type. -/
theorem shapeHierarchy_accounts {tree : Json} (hscene : SceneTree tree) {options : HierarchyViewOptions}
    (hsummary : options.summary = false) :
    (options.classFilter = [] → 1 ≤ options.maxNodes →
      ∃ out stats, shapeHierarchy tree options = .ok (out, stats) ∧
        stats.nodeCount = min (nodes tree).length options.maxNodes ∧ Accounted tree out stats.nodeCount ∧
        ((∀ node ∈ nodes tree, Whole node) →
          stats.nodeCount + ((nodes out).map omittedOf).sum = (nodes tree).length ∧
            ∀ type, (nodes out).countP (hasType type) + ((nodes out).map (summaryOf type)).sum =
              (nodes tree).countP (hasType type))) ∧
      (options.classFilter ≠ [] → options.maxNodes = 0 →
        ∃ out stats, shapeHierarchy tree options = .ok (out, stats) ∧
          List.Forall₂ (fun out node => ∃ marked, mark options node = .ok marked ∧ own out = own marked) (nodes out)
            (filtered options.classFilter tree) ∧
          stats.matchedNodes = (filtered options.classFilter tree).countP (typeOf · ∈ options.classFilter)) := by
  have hroot : tree.isObject = true := hscene tree (by rw [nodes_eq]; exact List.mem_cons_self)
  have hshape : shapeHierarchy tree options = shape options tree {} := by
    rw [shapeHierarchy, hroot, hsummary]
    rfl
  rw [hshape]
  refine ⟨fun hfilter hmax => ?_, fun hfilter hmax => shape_filter hscene hfilter hmax⟩
  exact shape_budget hscene (by rw [filtering, hfilter]; rfl) hmax

/-- A root with two children. -/
def family : Json :=
  .object [("children", .array [.object [("type", .string "Node")], .object [("type", .string "Timer")]]),
    ("type", .string "Node")]

theorem sceneTree_family : SceneTree family ∧ (nodes family).length = 3 := by
  simp [SceneTree, nodes_eq, nodesAll_cons, nodesAll_nil, family, childrenOf, find, List.lookup_cons, Json.isObject]

theorem shapeHierarchy_accounts_family :
    (∃ out stats, shapeHierarchy family { maxNodes := 2 } = .ok (out, stats) ∧ stats.nodeCount = 2) ∧
      ∃ out stats, shapeHierarchy family { classFilter := ["Timer"] } = .ok (out, stats) ∧ stats.matchedNodes = 1 := by
  refine ⟨?_, ?_⟩
  · obtain ⟨out, stats, hshape, hcount, -⟩ :=
      (@shapeHierarchy_accounts _ sceneTree_family.1 { maxNodes := 2 } rfl).1 rfl (by decide)
    rw [sceneTree_family.2] at hcount
    exact ⟨out, stats, hshape, hcount⟩
  · obtain ⟨out, stats, hshape, -, hmatched⟩ :=
      (@shapeHierarchy_accounts _ sceneTree_family.1 { classFilter := ["Timer"] } rfl).2
        (List.cons_ne_nil _ _) rfl
    refine ⟨out, stats, hshape, hmatched.trans ?_⟩
    simp [filtered, holds, nodes_eq, nodesAll_cons, nodesAll_nil, family, childrenOf, typeOf, find, List.lookup_cons]

/-- A tree that an earlier cut by depth has left its count at: the count is not of this tree's nodes. -/
def cutByDepth : Json := .object [("children", .array []), ("children_omitted", .integer 5)]

theorem cutByDepth_omitted : SceneTree cutByDepth ∧ ∃ out stats,
    shapeHierarchy cutByDepth { maxNodes := 1 } = .ok (out, stats) ∧
      stats.nodeCount + ((nodes out).map omittedOf).sum ≠ (nodes cutByDepth).length := by
  refine ⟨?_, cutByDepth, { nodeCount := 1 }, ?_, ?_⟩
  · simp [SceneTree, nodes_eq, nodesAll_nil, cutByDepth, childrenOf, find, Json.isObject]
  · simp [shapeHierarchy, shape, shapeChildren, cutByDepth, childrenOf, find, Json.isObject, mark,
      matchesFilter, filtering, visit, report, assign, List.insertKey, bind, Except.bind, pure, Except.pure]
  · simp [nodes_eq, nodesAll_nil, cutByDepth, childrenOf, find, List.lookup_cons, omittedOf]

end Didi.Hierarchy
