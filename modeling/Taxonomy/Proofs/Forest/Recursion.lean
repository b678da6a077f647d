import Taxonomy.Proofs.Forest.Placement

/-!
# The expansion of a root as a recursion

On the stack of an expansion each node under construction is a child of the one below it, and the
lowest is the root (`Expansion.Upright`). A step keeps this, so none of them fails and the loop
stops only where the root's own node is finished (`Expansion.completes_of_upright`). What it returns
is the tree that the recursion over declared children gives (`ClassMap.treeWithin?`).
-/

namespace Taxonomy

namespace ClassMap

variable {m : ClassMap}

/-- The tree of a name by recursion: its children are the trees of its declared children. There is
none if the recursion would have to go deeper than allowed. -/
def treeWithin? (m : ClassMap) : Nat → String → Option Tree
  | 0, _ => none
  | depth + 1, name => do
    let children ← (m.childrenOf name).mapM (m.treeWithin? depth)
    return .named name children

theorem treeWithin?_succ {depth : Nat} {name : String} {ts : List Tree}
    (children : (m.childrenOf name).mapM (m.treeWithin? depth) = some ts) :
    m.treeWithin? (depth + 1) name = some (.named name ts) := by
  rw [treeWithin?, children]
  rfl

/-- A grown forest is the one that the recursion gives for its tops, if it may go as deep as there
are nodes. -/
theorem mapM_treeWithin?_of_grown {ts : List Tree} (grown : Tree.Grown m ts) {depth : Nat}
    (enough : Tree.sizeAll ts ≤ depth) :
    (ts.map Tree.id).mapM (m.treeWithin? depth) = some ts := by
  induction ts using Tree.forest_induction generalizing depth with
  | nil => rfl
  | cons t ts below later =>
    obtain ⟨⟨label, children⟩, grownBelow, grownLater⟩ := Tree.grown_cons.mp grown
    obtain ⟨id, label', children'⟩ := t
    rw [Tree.sizeAll, Tree.size] at enough
    obtain ⟨depth, rfl⟩ := Nat.exists_eq_add_one_of_ne_zero (by omega : depth ≠ 0)
    have first : m.treeWithin? (depth + 1) id = some (.node id label' children') := by
      cases label
      apply treeWithin?_succ
      exact children ▸ below grownBelow
        (Nat.le_of_succ_le_succ (by simp only [Tree.children]; omega))
    have rest : (ts.map Tree.id).mapM (m.treeWithin? (depth + 1)) = some ts :=
      later grownLater (by omega)
    rw [List.map_cons, List.mapM_cons, Tree.id, first, rest]
    rfl

end ClassMap

namespace Expansion

variable {m : ClassMap} {root : String}

/-- The state after a step, unless the step fails or ends the expansion. -/
def next? (m : ClassMap) (root : String) (e : Expansion) : Option Expansion :=
  match step m root e with
  | .ok (.inl later) => some later
  | _ => none

/-- Each node under construction is a child of the one below it, the lowest is the root, and what is
still to be visited are children of the node that it is to be put under. -/
inductive Upright (m : ClassMap) (root : String) : List Frame → Prop
  | root {pending : List String} {done : List Tree}
    (children : ∀ c ∈ pending, m.parentOf? c = some root) :
      Upright m root [⟨root, pending, done⟩]
  | above {name : String} {pending : List String} {done : List Tree} {parent : Frame}
    {below : List Frame} (children : ∀ c ∈ pending, m.parentOf? c = some name)
    (child : m.parentOf? name = some parent.name) (upright : Upright m root (parent :: below)) :
    Upright m root (⟨name, pending, done⟩ :: parent :: below)

namespace Upright

variable {f : Frame} {below : List Frame}

theorem ne_nil {stack : List Frame} (upright : Upright m root stack) : stack ≠ [] := by
  cases upright <;> exact List.cons_ne_nil _ _

theorem children (upright : Upright m root (f :: below)) :
    ∀ c ∈ f.pending, m.parentOf? c = some f.name := by
  cases upright with
  | root children => exact children
  | above children _ _ => exact children

/-- It does not matter how many of its children a node has already. -/
theorem replace (upright : Upright m root (f :: below)) {pending : List String} {done : List Tree}
    (fewer : pending ⊆ f.pending) : Upright m root (⟨f.name, pending, done⟩ :: below) := by
  cases upright with
  | root children => exact .root fun c member => children c (fewer member)
  | above children child upright =>
    exact .above (fun c member => children c (fewer member)) child upright

/-- The innermost node leads to every node around it, the root among them. -/
theorem leads (upright : Upright m root (f :: below)) :
    (∀ b ∈ below.map (·.name), Chain.Leads m.parentOf? f.name b) ∧
      Chain.Leads m.parentOf? f.name root := by
  generalize same : f :: below = stack at upright
  induction upright generalizing f below with
  | root _ =>
    cases same
    exact ⟨by simp, .refl _ _⟩
  | above _ child _ ih =>
    cases same
    obtain ⟨onPath, toRoot⟩ := ih rfl
    refine ⟨?_, (Chain.Leads.of_step child).trans toRoot⟩
    intro b member
    apply (Chain.Leads.of_step child).trans
    rcases List.mem_cons.mp member with rfl | member
    · exact .refl _ _
    · exact onPath b member

end Upright

/-- A step visits a child that is not on the path or finishes a node, and ends the expansion only if
that is the root's. -/
theorem step_of_upright {e : Expansion} (top : m.parentOf? root = none)
    (upright : Upright m root e.stack) :
    (∃ later, step m root e = .ok (.inl later) ∧ Upright m root later.stack) ∨
      ∃ children, e.stack = [⟨root, [], children⟩] ∧
        step m root e = .ok (.inr (.named root children)) := by
  obtain ⟨stack, placed⟩ := e
  match stack, upright with
  | ⟨name, child :: pending, done⟩ :: below, upright =>
    have parent : m.parentOf? child = some name := upright.children child List.mem_cons_self
    obtain ⟨onPath, toRoot⟩ := upright.leads
    have fresh := fresh_child ⟨root, toRoot, top⟩ onPath parent
    refine .inl ⟨⟨⟨child, m.childrenOf child, []⟩ :: ⟨name, pending, done⟩ :: below,
      child :: placed⟩, ?_, ?_⟩
    · exact step_child fresh
    · refine .above ?_ parent (upright.replace (List.subset_cons_self _ _))
      intro c member
      exact ClassMap.mem_childrenOf.mp member
  | [⟨_, [], done⟩], .root _ => exact .inr ⟨done, rfl, rfl⟩
  | ⟨name, [], done⟩ :: parent :: below, .above _ _ upright =>
    refine .inl ⟨_, rfl, ?_⟩
    exact upright.replace (List.Subset.refl _)

theorem upright_of_leads {e later : Expansion} (top : m.parentOf? root = none)
    (upright : Upright m root e.stack) (leads : Chain.Leads (next? m root) e later) :
    Upright m root later.stack := by
  obtain ⟨n, leads⟩ := leads
  induction n generalizing e with
  | zero => exact Option.some.inj leads ▸ upright
  | succ n ih =>
    rcases step_of_upright top upright with ⟨next, stepped, upright⟩ | ⟨_, _, stepped⟩
    · refine ih upright ?_
      simpa [after, next?, stepped] using leads
    · simp [after, next?, stepped] at leads

theorem run_of_leads {e later : Expansion} (leads : Chain.Leads (next? m root) e later) :
    run m root e = run m root later := by
  obtain ⟨n, leads⟩ := leads
  induction n generalizing e with
  | zero => rw [Option.some.inj leads]
  | succ n ih =>
    rw [after, Option.bind_eq_some_iff] at leads
    obtain ⟨next, stepped, leads⟩ := leads
    rw [← ih leads]
    apply run_inl
    unfold next? at stepped
    split at stepped
    · rename_i stepped'
      rw [stepped', Option.some.inj stepped]
    · cases stepped

/-- The loop comes to an end with a tree. On the way to it there is always a node under construction
and no step fails; in the last state only the root's node is left, with all its children. -/
structure Completes (m : ClassMap) (root : String) (start : Expansion) (tree : Tree)
    (placed : List String) : Prop where
  sound : ∀ e, Chain.Leads (next? m root) start e →
    e.stack ≠ [] ∧ ∀ c, step m root e ≠ .error c
  ends : ∃ last children, Chain.Leads (next? m root) start last ∧ next? m root last = none ∧
    last.stack = [⟨root, [], children⟩] ∧ tree = .named root children ∧ last.placed = placed

/-- An upright expansion comes to the end, since each step leaves fewer. -/
theorem exists_last {e : Expansion} (top : m.parentOf? root = none)
    (upright : Upright m root e.stack) :
    ∃ last children, Chain.Leads (next? m root) e last ∧
      last.stack = [⟨root, [], children⟩] ∧
      step m root last = .ok (.inr (.named root children)) := by
  induction left : work m e.stack using Nat.strongRecOn generalizing e with
  | _ n ih =>
    rcases step_of_upright top upright with
      ⟨later, stepped, upright⟩ | ⟨children, own, stepped⟩
    · obtain ⟨last, children, leads, own, ended⟩ :=
        ih _ (left ▸ work_step stepped) upright rfl
      have first : next? m root e = some later := by simp [next?, stepped]
      exact ⟨last, children, (Chain.Leads.of_step first).trans leads, own, ended⟩
    · exact ⟨e, children, .refl _ _, own, stepped⟩

theorem completes_of_upright {e : Expansion} {tree : Tree} {placed : List String}
    (top : m.parentOf? root = none) (upright : Upright m root e.stack)
    (returned : run m root e = .ok (tree, placed)) : Completes m root e tree placed := by
  refine ⟨?_, ?_⟩
  · intro later leads
    have upright := upright_of_leads top upright leads
    refine ⟨upright.ne_nil, ?_⟩
    intro c failed
    rcases step_of_upright top upright with ⟨_, stepped, _⟩ | ⟨_, _, stepped⟩
    · cases failed.symm.trans stepped
    · cases failed.symm.trans stepped
  · obtain ⟨last, children, leads, own, ended⟩ := exists_last top upright
    rw [run_of_leads leads, run_inr ended] at returned
    cases returned
    exact ⟨last, children, leads, by simp [next?, ended], own, rfl, rfl⟩

end Expansion

namespace ClassMap

variable {m : ClassMap} {root other name : String} {tree tree' : Tree}

theorem expand_eq_treeWithin? (top : m.parentOf? root = none) (placed : List String) :
    ∃ ts, Tree.Grown m [.named root ts] ∧
      (∀ depth, (Tree.named root ts).size ≤ depth →
        m.treeWithin? depth root = some (.named root ts)) ∧
      m.expand root placed =
        .ok (.named root ts, (Tree.ids [.named root ts]).reverse ++ placed) := by
  obtain ⟨ts, children, grown, expanded⟩ := expand_root top placed
  have whole : Tree.Grown m [.named root ts] :=
    Tree.grown_cons.mpr ⟨⟨rfl, children⟩, grown, Tree.grown_nil m⟩
  refine ⟨ts, whole, ?_, expanded⟩
  intro depth enough
  have found : [root].mapM (m.treeWithin? depth) = some [.named root ts] :=
    mapM_treeWithin?_of_grown whole (by simpa [Tree.sizeAll] using enough)
  rw [List.mapM_cons, List.mapM_nil] at found
  obtain ⟨t, alone, only⟩ := Option.bind_eq_some_iff.mp found
  cases only
  exact alone

theorem leads_of_mem_expand (top : m.parentOf? root = none) {placed later : List String}
    (expanded : m.expand root placed = .ok (tree, later)) (member : name ∈ Tree.ids [tree]) :
    Chain.Leads m.parentOf? name root := by
  obtain ⟨ts, grown, -, expanded'⟩ := expand_eq_treeWithin? top placed
  cases expanded.symm.trans expanded'
  obtain ⟨t, only, leads⟩ := Tree.leads_of_mem_ids grown member
  rwa [List.mem_singleton.mp only] at leads

/-- Two names without a parent have no name in common in their trees: its chain of parents would
have to end at both. -/
theorem disjoint_expand (top : m.parentOf? root = none) (top' : m.parentOf? other = none)
    (apart : root ≠ other) {placed later placed' later' : List String}
    (expanded : m.expand root placed = .ok (tree, later))
    (expanded' : m.expand other placed' = .ok (tree', later')) :
    List.Disjoint (Tree.ids [tree]) (Tree.ids [tree']) := by
  intro name member member'
  have leads := leads_of_mem_expand top expanded member
  have leads' := leads_of_mem_expand top' expanded' member'
  rcases Chain.leads_total leads leads' with onward | onward
  · exact apart (onward.eq_of_last top)
  · exact apart (onward.eq_of_last top').symm

theorem unplaced_of_error {components : Graph → List (List String)} {handling : CycleHandling}
    {c : Cycle} (failed : m.buildWith components handling = .error c) :
    handling = .fail ∧ ∃ forest placed, m.expandAll m.roots [] = .ok (forest, placed) ∧
      m.unplaced placed ≠ [] ∧ c = ⟨(m.loops components (m.unplaced placed)).headD []⟩ := by
  obtain ⟨forest, -, -, expanded⟩ := m.expandAll_roots
  rw [buildWith, expanded] at failed
  simp only [bind, Except.bind, List.isEmpty_iff] at failed
  by_cases left : m.unplaced (Tree.ids forest).reverse = []
  · rw [if_pos left] at failed
    cases failed
  · rw [if_neg left] at failed
    cases handling
    · cases failed
      exact ⟨rfl, forest, _, expanded, left, rfl⟩
    · cases failed

/-- A root is expanded in a loop that ends without a failure, to the tree that the recursion over
children gives. The names placed are those of the tree, different ones for different roots. So a
build only ever fails for the classes that are left when all roots have been expanded. -/
theorem expand_of_mem_roots (m : ClassMap) :
    (∀ root ∈ m.roots, ∀ placed, ∃ start tree,
      Expansion.enter m ⟨[], placed⟩ root = .ok start ∧
      Expansion.Completes m root start tree ((Tree.ids [tree]).reverse ++ placed) ∧
      m.expand root placed = .ok (tree, (Tree.ids [tree]).reverse ++ placed) ∧
      ∀ depth, tree.size ≤ depth → m.treeWithin? depth root = some tree) ∧
    (∀ root ∈ m.roots, ∀ other ∈ m.roots, root ≠ other →
      ∀ placed tree later placed' tree' later',
      m.expand root placed = .ok (tree, later) → m.expand other placed' = .ok (tree', later') →
        List.Disjoint (Tree.ids [tree]) (Tree.ids [tree'])) ∧
    ∀ components handling c, m.buildWith components handling = .error c →
      handling = .fail ∧ ∃ forest placed, m.expandAll m.roots [] = .ok (forest, placed) ∧
        m.unplaced placed ≠ [] ∧
          c = ⟨(m.loops components (m.unplaced placed)).headD []⟩ := by
  refine ⟨?_, ?_, fun components handling c => unplaced_of_error⟩
  · intro root isRoot placed
    have top := (mem_roots.mp isRoot).2
    obtain ⟨ts, -, recursion, expanded⟩ := expand_eq_treeWithin? top placed
    have upright : Expansion.Upright m root [⟨root, m.childrenOf root, []⟩] :=
      .root fun c member => mem_childrenOf.mp member
    refine ⟨⟨[⟨root, m.childrenOf root, []⟩], root :: placed⟩, _, rfl, ?_,
      expanded, recursion⟩
    exact Expansion.completes_of_upright top upright expanded
  · intro root isRoot other isRoot' apart placed tree later placed' tree' later' expanded expanded'
    exact disjoint_expand (mem_roots.mp isRoot).2 (mem_roots.mp isRoot').2 apart expanded expanded'

/-- The roots of a map with loops are expanded one after the other. -/
theorem tangled_expand :
    let outside := .named "outside" [.named "" [.named "leaf" []]]
    ("outside" ∈ tangled.roots ∧
      (∃ start, Expansion.enter tangled ⟨[], []⟩ "outside" = .ok start ∧
        Expansion.Completes tangled "outside" start outside ["leaf", "", "outside"]) ∧
      outside.size = 3 ∧ tangled.treeWithin? 3 "outside" = some outside) ∧
    ("top" ∈ tangled.roots ∧
      tangled.expand "top" ["leaf", "", "outside"] =
        .ok (.named "top" [], ["top", "leaf", "", "outside"]) ∧
      List.Disjoint (Tree.ids [outside]) (Tree.ids [.named "top" []])) ∧
    ∃ c, tangled.buildWith Graph.components .fail = .error c ∧
      ∃ forest placed, tangled.expandAll tangled.roots [] = .ok (forest, placed) ∧
        tangled.unplaced placed ≠ [] := by
  intro outside
  obtain ⟨expands, apart, failures⟩ := expand_of_mem_roots tangled
  have roots : tangled.roots = ["outside", "top"] := by decide
  have first : "outside" ∈ tangled.roots := by simp [roots]
  have second : "top" ∈ tangled.roots := by simp [roots]
  have expanded : tangled.expand "outside" [] = .ok (outside, ["leaf", "", "outside"]) := by
    with_unfolding_all rfl
  have expanded' : tangled.expand "top" ["leaf", "", "outside"] =
      .ok (.named "top" [], ["top", "leaf", "", "outside"]) := by
    with_unfolding_all rfl
  obtain ⟨start, tree, started, completes, same, recursion⟩ := expands "outside" first []
  cases same.symm.trans expanded
  have disjoint := apart _ first _ second (by decide) _ _ _ _ _ _ expanded expanded'
  have left : tangled.buildWith Graph.components .fail =
      .error ⟨(tangled.loops Graph.components ["tail", "b", "self", "a"]).headD []⟩ := by
    with_unfolding_all rfl
  obtain ⟨-, forest, placed, all, missing, -⟩ := failures _ _ _ left
  exact ⟨⟨first, ⟨start, started, completes⟩, rfl, recursion 3 (Nat.le_refl 3)⟩,
    ⟨second, expanded', disjoint⟩, _, left, forest, placed, all, missing⟩

end ClassMap

end Taxonomy
