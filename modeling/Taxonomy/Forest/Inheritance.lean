import Taxonomy.Forest.Graph
import Taxonomy.Schema.ClassMap

/-!
# Inheritance between declared classes

Every class has at most one parent, which need not be declared. A root is a name without a declared
parent; a loop is a chain of parents that comes back to its start. Loops are found as the strongly
connected components of the parent graph that hold a loop.
-/

namespace Taxonomy.ClassMap

/-- The parent that the declaration of a name gives it. -/
def parentOf? (m : ClassMap) (name : String) : Option String :=
  (m.get? name).bind (·.parent)

/-- The declared classes with the given parent, in order. -/
def childrenOf (m : ClassMap) (name : String) : List String :=
  (m.entries.filter (·.parent == some name)).map (·.name)

/-- The parent of each class that has one and the name of each other class, in order, each name
once: the candidates for roots, as they are discovered. -/
def referenced (m : ClassMap) : List String :=
  (m.entries.map fun c => c.parent.getD c.name).eraseDups

/-- The names without a declared parent, in order of discovery. -/
def roots (m : ClassMap) : List String :=
  m.referenced.filter fun name => (m.parentOf? name).isNone

theorem mem_names_of_mem_childrenOf {m : ClassMap} {name child : String}
    (h : child ∈ m.childrenOf name) : child ∈ m.names := by
  simp only [childrenOf, List.mem_map, List.mem_filter] at h
  obtain ⟨c, ⟨hc, _⟩, rfl⟩ := h
  exact List.mem_map_of_mem hc

/-- The graph of some names, with an edge from each to its parent where that is one of them. -/
def parentGraph (m : ClassMap) (names : List String) : Graph where
  nodes := names
  edge? name := (m.parentOf? name).filter (· ∈ names)
  closed := by
    intro x y edge
    simp only [Option.filter_eq_some_iff, decide_eq_true_eq] at edge
    exact edge.2

/-- The parents met on the way from `current` up to `start`, or as far as the steps go. -/
def walkUp (m : ClassMap) (start : String) : Nat → String → List String
  | 0, _ => []
  | steps + 1, current =>
    match m.parentOf? current with
    | none => []
    | some parent => if parent = start then [parent] else parent :: m.walkUp start steps parent

/-- Follows parents from a name until it comes around again. No loop is longer than the number of
classes, so the walk is given up after one step more. -/
def walkParents (m : ClassMap) (start : String) : List String :=
  start :: m.walkUp start (m.size + 1) start

/-- A component with more than one node, or with one that has an edge to itself. -/
def isLoop (g : Graph) (component : List String) : Bool :=
  component.length > 1 || component.head?.any fun x => g.edge? x = some x

/-- The loops among some names, each from its first name in the list, in the order of those. The
strongly connected components come in any order. -/
def loops (components : Graph → List (List String)) (m : ClassMap) (names : List String) :
    List (List String) :=
  let g := m.parentGraph names
  let starts := ((components g).filter (isLoop g)).filterMap fun component =>
    names.find? (· ∈ component)
  (starts.mergeSort fun a b => names.idxOf a ≤ names.idxOf b).map m.walkParents

end Taxonomy.ClassMap
