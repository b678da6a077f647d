/-!
# Trees of names

A node has an identifier, a label and its children in order. `preorder` lists the nodes depth first,
and what `size` counts and `find?` finds are the members of that list.
-/

namespace Taxonomy

inductive Tree
  | node (id label : String) (children : List Tree)
  deriving Repr, Inhabited

namespace Tree

def id : Tree → String
  | node id _ _ => id

def label : Tree → String
  | node _ label _ => label

def children : Tree → List Tree
  | node _ _ children => children

/-- A node labelled with its identifier. -/
def named (id : String) (children : List Tree) : Tree :=
  .node id id children

def isLeaf (t : Tree) : Bool :=
  t.children.isEmpty

mutual

/-- The nodes of a tree, each before its children. -/
def preorder : Tree → List Tree
  | node id label children => node id label children :: preorderAll children

def preorderAll : List Tree → List Tree
  | [] => []
  | t :: ts => t.preorder ++ preorderAll ts

end

mutual

/-- The number of nodes. -/
def size : Tree → Nat
  | node _ _ children => 1 + sizeAll children

def sizeAll : List Tree → Nat
  | [] => 0
  | t :: ts => t.size + sizeAll ts

end

mutual

/-- The first node with the identifier, searched depth first. -/
def find? (name : String) : Tree → Option Tree
  | node id label children =>
    if id = name then some (node id label children) else findAll? name children

def findAll? (name : String) : List Tree → Option Tree
  | [] => none
  | t :: ts =>
    match t.find? name with
    | some found => some found
    | none => findAll? name ts

end

mutual

/-- The nodes in preorder, each with its distance from the root. -/
def levels (depth : Nat) : Tree → List (Nat × Tree)
  | node id label children => (depth, node id label children) :: levelsAll (depth + 1) children

def levelsAll (depth : Nat) : List Tree → List (Nat × Tree)
  | [] => []
  | t :: ts => t.levels depth ++ levelsAll depth ts

end

/-- The identifiers of a forest, depth first. -/
def ids (forest : List Tree) : List String :=
  (preorderAll forest).map Tree.id

end Tree

end Taxonomy
