import Taxonomy.Forest.Inheritance
import Taxonomy.Forest.Tree

/-!
# The forest of a class map

Each root is expanded depth first, children in the order of their declarations, on a stack of nodes
under construction. Classes whose chain of parents never ends hang off no root: they are found
afterwards as the ones not placed, and either the first of their loops is an error or all of them
are left out with a warning.
-/

namespace Taxonomy

/-- A loop in the inheritance relation: each member's parent comes next, and the first is repeated
at the end. -/
structure Cycle where
  members : List String
  deriving DecidableEq, Repr, Inhabited

def Cycle.chain (c : Cycle) : String :=
  " -> ".intercalate c.members

/-- What to do about classes in inheritance loops. -/
inductive CycleHandling
  | fail
  | omit
  deriving DecidableEq, Repr, Inhabited

/-- What a build that leaves classes out says about it. -/
inductive Warning
  | cycle (c : Cycle)
  | omitted (count : Nat)
  deriving DecidableEq, Repr

namespace ClassMap

/-- How many declared names are not on the path. -/
def unvisited (m : ClassMap) (path : List String) : Nat :=
  m.names.countP (· ∉ path)

theorem unvisited_cons_le (m : ClassMap) (path : List String) (name : String) :
    m.unvisited (name :: path) ≤ m.unvisited path := by
  apply List.countP_mono_left
  simp only [decide_eq_true_eq, List.mem_cons, not_or]
  exact fun _ _ h => h.2

theorem unvisited_cons_lt {m : ClassMap} {path : List String} {name : String}
    (declared : name ∈ m.names) (fresh : name ∉ path) :
    m.unvisited (name :: path) < m.unvisited path := by
  unfold unvisited
  generalize m.names = names at declared
  induction names with
  | nil => simp at declared
  | cons n ns ih =>
    have hle : ns.countP (· ∉ name :: path) ≤ ns.countP (· ∉ path) := by
      apply List.countP_mono_left
      simp only [decide_eq_true_eq, List.mem_cons, not_or]
      exact fun _ _ h => h.2
    by_cases hn : n = name
    · subst hn
      simp only [List.countP_cons, List.mem_cons, true_or, not_true_eq_false, decide_false,
        Bool.false_eq_true, if_false, fresh, not_false_eq_true, decide_true, if_true] at hle ⊢
      omega
    · have hns : name ∈ ns := by
        rcases List.mem_cons.mp declared with h | h
        · exact absurd h.symm hn
        · exact h
      have := ih hns
      simp only [List.countP_cons, List.mem_cons, hn, false_or] at this ⊢
      omega

/-- The steps that it takes to expand a name below a path: one to start its node, those of its
children, and one to finish it. A name that is on the path is not expanded. -/
def work (m : ClassMap) (path : List String) (name : String) : Nat :=
  if name ∈ path then 1
  else
    2 + (m.childrenOf name).attach.foldr
      (fun child steps => work m (name :: path) child.1 + steps) 0
termination_by m.unvisited path + if name ∈ m.names then 0 else 1
decreasing_by
  rename_i fresh
  have hchild := mem_names_of_mem_childrenOf child.2
  have hle := m.unvisited_cons_le path name
  by_cases declared : name ∈ m.names
  · have hlt := unvisited_cons_lt declared fresh
    simp only [hchild, declared, if_true]
    omega
  · simp only [hchild, declared, if_true, if_false]
    omega

end ClassMap

/-- A node under construction: the children still to be visited, and the trees of those that
were. -/
structure Frame where
  name : String
  pending : List String
  done : List Tree

/-- How far the expansion of a root has come: the nodes under construction, the innermost first, and
the names placed so far by this root and those before it. -/
structure Expansion where
  stack : List Frame
  placed : List String

namespace Expansion

/-- The names from the innermost node under construction to the root. -/
def path (e : Expansion) : List String :=
  e.stack.map (·.name)

/-- Starts a node, unless its name is on the path: then the path from there on is a loop. -/
def enter (m : ClassMap) (e : Expansion) (name : String) : Except Cycle Expansion :=
  if name ∈ e.path then
    .error ⟨name :: ((e.path.takeWhile (· ≠ name)).reverse ++ [name])⟩
  else
    .ok { stack := ⟨name, m.childrenOf name, []⟩ :: e.stack, placed := name :: e.placed }

/-- Visits the next child of the innermost node or, if there is none left, finishes that node: it
goes to the node around it, and the root's own ends the expansion. -/
def step (m : ClassMap) (root : String) (e : Expansion) : Except Cycle (Expansion ⊕ Tree) :=
  match e.stack with
  | [] => .ok (.inr (.named root []))
  | ⟨name, child :: pending, done⟩ :: below =>
    (enter m { e with stack := ⟨name, pending, done⟩ :: below } child).map .inl
  | [⟨name, [], done⟩] => .ok (.inr (.named name done))
  | ⟨name, [], done⟩ :: parent :: below =>
    let finished := { parent with done := parent.done ++ [.named name done] }
    .ok (.inl { e with stack := finished :: below })

/-- The steps that are left. -/
def work (m : ClassMap) : List Frame → Nat
  | [] => 0
  | f :: below =>
    1 + f.pending.foldr
      (fun child steps => m.work (f.name :: below.map (·.name)) child + steps) 0 + work m below

theorem work_enter {m : ClassMap} {e later : Expansion} {name : String}
    (entered : enter m e name = .ok later) :
    work m later.stack + 1 = m.work e.path name + work m e.stack := by
  unfold enter at entered
  split at entered
  · cases entered
  · rename_i fresh
    cases entered
    rw [ClassMap.work, if_neg fresh]
    simp only [work, path, List.foldr_attach (l := m.childrenOf name)
      (f := fun child steps => m.work (name :: e.stack.map (·.name)) child + steps)]
    omega

theorem work_step {m : ClassMap} {root : String} {e later : Expansion}
    (stepped : step m root e = .ok (.inl later)) : work m later.stack < work m e.stack := by
  unfold step at stepped
  split at stepped
  · cases stepped
  · rename_i name child pending done below stack
    cases entered : enter m { e with stack := ⟨name, pending, done⟩ :: below } child with
    | error => rw [entered] at stepped; cases stepped
    | ok next =>
      rw [entered] at stepped
      cases stepped
      have := work_enter entered
      simp only [path, work, stack, List.map_cons, List.foldr_cons] at this ⊢
      omega
  · cases stepped
  · rename_i stack
    cases stepped
    simp only [work, stack, List.foldr_nil, List.map_cons]
    omega

/-- Steps until the root's tree is finished; returns it with all names placed. -/
def run (m : ClassMap) (root : String) (e : Expansion) : Except Cycle (Tree × List String) :=
  match _ : step m root e with
  | .error c => .error c
  | .ok (.inr tree) => .ok (tree, e.placed)
  | .ok (.inl later) => run m root later
termination_by work m e.stack
decreasing_by exact work_step (by assumption)

end Expansion

namespace ClassMap

/-- The tree of a root, and the names placed by then. -/
def expand (m : ClassMap) (root : String) (placed : List String) :
    Except Cycle (Tree × List String) := do
  let start ← Expansion.enter m ⟨[], placed⟩ root
  Expansion.run m root start

/-- The trees of the given roots, and the names placed by then. -/
def expandAll (m : ClassMap) :
    List String → List String → Except Cycle (List Tree × List String)
  | [], placed => .ok ([], placed)
  | root :: roots, placed => do
    let (tree, placed) ← m.expand root placed
    let (forest, placed) ← m.expandAll roots placed
    return (tree :: forest, placed)

/-- The declared classes that are not among the names placed. -/
def unplaced (m : ClassMap) (placed : List String) : List String :=
  m.names.filter (· ∉ placed)

/-- The forest of the classes, or the first loop among those that have no place in it. It matters
for the loops only how components are found. -/
def buildWith (components : Graph → List (List String)) (m : ClassMap)
    (handling : CycleHandling) : Except Cycle (List Tree) := do
  let (forest, placed) ← m.expandAll m.roots []
  let left := m.unplaced placed
  if left.isEmpty then return forest
  else
    match handling with
    | .fail => throw ⟨(m.loops components left).headD []⟩
    | .omit => return forest

def build (m : ClassMap) (handling : CycleHandling) : Except Cycle (List Tree) :=
  m.buildWith Graph.components handling

/-- The forest, which must hold every class. -/
def buildForest (m : ClassMap) : Except Cycle (List Tree) :=
  m.build .fail

/-- What a build has to say about the classes it leaves out: their loops, then their number. -/
def buildWarningsWith (components : Graph → List (List String)) (m : ClassMap)
    (handling : CycleHandling) : List Warning :=
  match handling, m.expandAll m.roots [] with
  | .omit, .ok (_, placed) =>
    let left := m.unplaced placed
    if left.isEmpty then []
    else (m.loops components left).map (.cycle ⟨·⟩) ++ [.omitted left.length]
  | _, _ => []

def buildWarnings (m : ClassMap) (handling : CycleHandling) : List Warning :=
  m.buildWarningsWith Graph.components handling

end ClassMap

end Taxonomy
