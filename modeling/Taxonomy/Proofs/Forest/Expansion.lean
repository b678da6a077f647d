import Taxonomy.Forest.Build
import Taxonomy.Proofs.Forest.Inheritance

/-!
# Expanding roots

An expansion never meets a name that is on its path: every name on the path is one that the chain of
parents from the innermost node leads to, and that chain ends. So the stack of nodes under
construction does what the recursion over declared children would (`run_pending`), and all roots are
expanded (`expandAll_roots`).
-/

namespace Taxonomy

namespace Tree

/-- Each node is labelled with its identifier and has the declared children of it, in their
order. -/
def Grown (m : ClassMap) (ts : List Tree) : Prop :=
  ∀ t ∈ preorderAll ts, t.label = t.id ∧ t.children.map id = m.childrenOf t.id

theorem ids_cons (t : Tree) (ts : List Tree) :
    ids (t :: ts) = t.id :: (ids t.children ++ ids ts) := by
  cases t
  simp [ids, preorderAll, preorder, Tree.id, children]

@[simp] theorem ids_nil : ids [] = [] := rfl

@[simp] theorem grown_nil (m : ClassMap) : Grown m [] := by
  simp [Grown, preorderAll]

theorem grown_cons {m : ClassMap} {t : Tree} {ts : List Tree} :
    Grown m (t :: ts) ↔ (t.label = t.id ∧ t.children.map id = m.childrenOf t.id) ∧
      Grown m t.children ∧ Grown m ts := by
  cases t
  simp only [Grown, preorderAll, preorder, children, List.mem_append, List.mem_cons]
  refine ⟨?_, ?_⟩
  · intro all
    exact ⟨all _ (.inl (.inl rfl)), fun u member => all u (.inl (.inr member)),
      fun u member => all u (.inr member)⟩
  · rintro ⟨first, below, later⟩ u ((rfl | member) | member)
    · exact first
    · exact below u member
    · exact later u member

end Tree

namespace Expansion

variable {m : ClassMap} {root : String}

theorem run_inl {e later : Expansion} (stepped : step m root e = .ok (.inl later)) :
    run m root e = run m root later := by
  rw [run]
  split
  · rename_i error
    rw [stepped] at error
    cases error
  · rename_i finished
    rw [stepped] at finished
    cases finished
  · rename_i next
    rw [stepped] at next
    cases next
    rfl

theorem run_inr {e : Expansion} {tree : Tree} (stepped : step m root e = .ok (.inr tree)) :
    run m root e = .ok (tree, e.placed) := by
  rw [run]
  split
  · rename_i error
    rw [stepped] at error
    cases error
  · rename_i finished
    rw [stepped] at finished
    cases finished
    rfl
  · rename_i next
    rw [stepped] at next
    cases next

theorem work_pos (m : ClassMap) (path : List String) (name : String) : 0 < m.work path name := by
  rw [ClassMap.work]
  split <;> omega

/-- A child of a name from which the chain of parents ends is not on the path above that name. -/
theorem fresh_child {name child : String} {above : List String}
    (ends : Chain.Ends m.parentOf? name)
    (onPath : ∀ b ∈ above, Chain.Leads m.parentOf? name b)
    (parent : m.parentOf? child = some name) : child ∉ name :: above := by
  intro member
  have leads : Chain.Leads m.parentOf? name child := by
    rcases List.mem_cons.mp member with rfl | member
    · exact .refl _ _
    · exact onPath child member
  exact (Chain.Ends.of_leads (.of_step parent) ends).not_returns
    (Chain.returns_iff.mpr ⟨name, parent, leads⟩)

/-- A child that is not on the path is put on it. -/
theorem step_child {name child : String} {pending : List String} {done : List Tree}
    {below : List Frame} {placed : List String} (fresh : child ∉ name :: below.map (·.name)) :
    step m root ⟨⟨name, child :: pending, done⟩ :: below, placed⟩ =
      .ok (.inl ⟨⟨child, m.childrenOf child, []⟩ :: ⟨name, pending, done⟩ :: below,
        child :: placed⟩) := by
  simp only [step, enter, path, List.map_cons, if_neg fresh]
  rfl

/-- The children that are still to be visited are grown, one after another, and all their names are
placed. -/
theorem run_pending (name : String) (pending : List String) (done : List Tree)
    (below : List Frame) (placed : List String) (ends : Chain.Ends m.parentOf? name)
    (onPath : ∀ b ∈ below.map (·.name), Chain.Leads m.parentOf? name b)
    (children : ∀ c ∈ pending, m.parentOf? c = some name) :
    ∃ ts, ts.map Tree.id = pending ∧ Tree.Grown m ts ∧
      run m root ⟨⟨name, pending, done⟩ :: below, placed⟩ =
        run m root ⟨⟨name, [], done ++ ts⟩ :: below, (Tree.ids ts).reverse ++ placed⟩ := by
  -- on the steps that are left: visiting a child and going on after it both leave fewer
  induction left : work m (⟨name, pending, done⟩ :: below) using Nat.strongRecOn
    generalizing name pending done below placed with
  | _ n ih =>
    cases pending with
    | nil => exact ⟨[], rfl, Tree.grown_nil m, by simp⟩
    | cons child pending =>
      have parent := children child List.mem_cons_self
      have fresh := fresh_child ends onPath parent
      have entered : step m root ⟨⟨name, child :: pending, done⟩ :: below, placed⟩ =
          .ok (.inl ⟨⟨child, m.childrenOf child, []⟩ :: ⟨name, pending, done⟩ :: below,
            child :: placed⟩) := step_child fresh
      have childOnPath : ∀ b ∈ (⟨name, pending, done⟩ :: below).map (·.name),
          Chain.Leads m.parentOf? child b := by
        intro b member
        refine (Chain.Leads.of_step parent).trans ?_
        rcases List.mem_cons.mp member with rfl | member
        · exact .refl _ _
        · exact onPath b member
      obtain ⟨ts, names, grown, same⟩ := ih _ (left ▸ work_step entered) child
        (m.childrenOf child) [] (⟨name, pending, done⟩ :: below) (child :: placed)
        (Chain.Ends.of_leads (.of_step parent) ends) childOnPath
        (fun c member => ClassMap.mem_childrenOf.mp member) rfl
      have finished :
          step m root ⟨⟨child, [], [] ++ ts⟩ :: ⟨name, pending, done⟩ :: below,
            (Tree.ids ts).reverse ++ child :: placed⟩ =
          .ok (.inl ⟨⟨name, pending, done ++ [.named child ts]⟩ :: below,
            (Tree.ids ts).reverse ++ child :: placed⟩) := rfl
      have fewer : work m (⟨name, pending, done ++ [.named child ts]⟩ :: below) < n := by
        have := work_pos m (name :: below.map (·.name)) child
        simp only [work, List.foldr_cons] at left ⊢
        omega
      obtain ⟨us, names', grown', same'⟩ := ih _ fewer name pending _ below _ ends onPath
        (fun c member => children c (List.mem_cons_of_mem _ member)) rfl
      refine ⟨.named child ts :: us, ?_, ?_, ?_⟩
      · rw [List.map_cons, names']
        rfl
      · exact Tree.grown_cons.mpr ⟨⟨rfl, names⟩, grown, grown'⟩
      · rw [run_inl entered, same, run_inl finished, same', Tree.ids_cons]
        simp [Tree.named, Tree.id, Tree.children]

end Expansion

namespace ClassMap

variable {m : ClassMap}

/-- A name without a parent is expanded to the tree of all below it, and just these are placed. -/
theorem expand_root {root : String} (top : m.parentOf? root = none) (placed : List String) :
    ∃ ts, ts.map Tree.id = m.childrenOf root ∧ Tree.Grown m ts ∧
      m.expand root placed =
        .ok (.named root ts, (Tree.ids [.named root ts]).reverse ++ placed) := by
  obtain ⟨ts, names, grown, same⟩ := Expansion.run_pending root (m.childrenOf root) [] []
    (root :: placed) ⟨root, .refl _ _, top⟩ (by simp) fun c member => mem_childrenOf.mp member
  refine ⟨ts, names, grown, ?_⟩
  have started : Expansion.enter m ⟨[], placed⟩ root =
      .ok ⟨[⟨root, m.childrenOf root, []⟩], root :: placed⟩ := rfl
  have finished : Expansion.step m root ⟨[⟨root, [], [] ++ ts⟩],
      (Tree.ids ts).reverse ++ root :: placed⟩ = .ok (.inr (.named root ts)) := rfl
  rw [expand, started, Tree.ids_cons]
  simp only [bind, Except.bind]
  rw [same, Expansion.run_inr finished]
  simp [Tree.named, Tree.id, Tree.children]

theorem expandAll_tops {roots : List String} (tops : ∀ r ∈ roots, m.parentOf? r = none)
    (placed : List String) :
    ∃ forest, forest.map Tree.id = roots ∧ Tree.Grown m forest ∧
      m.expandAll roots placed = .ok (forest, (Tree.ids forest).reverse ++ placed) := by
  induction roots generalizing placed with
  | nil => exact ⟨[], rfl, Tree.grown_nil m, rfl⟩
  | cons root roots ih =>
    obtain ⟨ts, names, grown, expanded⟩ := expand_root (tops root List.mem_cons_self) placed
    obtain ⟨forest, roots', grown', all⟩ :=
      ih (fun r member => tops r (List.mem_cons_of_mem _ member))
        ((Tree.ids [.named root ts]).reverse ++ placed)
    refine ⟨.named root ts :: forest, ?_, ?_, ?_⟩
    · rw [List.map_cons, roots']
      rfl
    · exact Tree.grown_cons.mpr ⟨⟨rfl, names⟩, grown, grown'⟩
    · rw [expandAll, expanded]
      simp only [bind, Except.bind, all]
      simp [Tree.ids_cons, Tree.named, Tree.id, Tree.children, pure, Except.pure]

/-- All roots are expanded, whatever loops there are. -/
theorem expandAll_roots (m : ClassMap) :
    ∃ forest, forest.map Tree.id = m.roots ∧ Tree.Grown m forest ∧
      m.expandAll m.roots [] = .ok (forest, (Tree.ids forest).reverse) := by
  have found := expandAll_tops (m := m) (fun r member => (mem_roots.mp member).2) []
  simpa only [List.append_nil] using found

end ClassMap

end Taxonomy
