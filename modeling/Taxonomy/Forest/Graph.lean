/-!
# Graphs with one edge out of each node

At most one edge leaves each node, as a class has at most one parent. `components` groups the nodes
into strongly connected components: two nodes are in one group if the walk from each passes the
other.
-/

namespace Taxonomy

/-- Nodes, and where the edge out of each leads, if there is one. -/
structure Graph where
  nodes : List String
  edge? : String → Option String
  /-- Edges lead to nodes. -/
  closed : ∀ x y, edge? x = some y → y ∈ nodes

/-- Groups a list: each group holds an element and those after it that are related to it. -/
def groupWith {α : Type} (related : α → α → Bool) : List α → List (List α)
  | [] => []
  | a :: as => (a :: as.filter (related a)) :: groupWith related (as.filter fun b => !related a b)
termination_by as => as.length
decreasing_by
  simp only [List.unattach_filter, List.unattach_attach]
  exact Nat.lt_succ_of_le (List.length_filter_le _ _)

namespace Graph

/-- The node and those met on the way from it, up to the given number of steps. -/
def walk (g : Graph) : Nat → String → List String
  | 0, x => [x]
  | steps + 1, x =>
    match g.edge? x with
    | none => [x]
    | some y => x :: g.walk steps y

/-- The strongly connected components. A walk has met all that it can meet after as many steps as
there are nodes. -/
def components (g : Graph) : List (List String) :=
  let walks := g.nodes.map fun x => (x, g.walk g.nodes.length x)
  (groupWith (fun a b => a.2.contains b.1 && b.2.contains a.1) walks).map (·.map Prod.fst)

end Graph

end Taxonomy
