import Taxonomy.Proofs.Forest.Loops

/-!
# The loops of a map, each once

Each loop among the declared classes lies in the classes that have no place in the forest, and each
is found once: as the round from its earliest class, in the order of these classes
(`ClassMap.listsLoops_unplaced`). A round is as long as its loop, so the bound of a walk is never
met.
-/

namespace Taxonomy.ClassMap

variable {m : ClassMap} {start name : String}

/-- The chain goes once around a loop, from its earliest class along the parents until it is back. A
walk that may go on for longer is the same. -/
structure IsRound (m : ClassMap) (start : String) (chain : List String) : Prop where
  closed : ∃ between, chain = start :: between ++ [start] ∧ (start :: between).Nodup
  parents : chain.IsChain fun a b => m.parentOf? a = some b
  members : ∀ name, name ∈ chain ↔ Chain.Leads m.parentOf? start name
  earliest : ∀ name ∈ chain, m.names.idxOf start ≤ m.names.idxOf name
  bounded : chain.length ≤ m.size + 1
  unguarded : ∀ steps, m.size ≤ steps → start :: m.walkUp start steps start = chain

/-- Each loop has one chain, which is a round, and there are no others; they come in the order of
the classes from which they start. -/
structure ListsLoops (m : ClassMap) (chains : List (List String)) : Prop where
  rounds : ∀ chain ∈ chains, ∃ start, m.OnLoop start ∧ m.IsRound start chain
  complete : ∀ name, m.OnLoop name → ∃! chain, chain ∈ chains ∧ name ∈ chain
  ordered : chains.Pairwise fun a b =>
    ∀ x ∈ a.head?, ∀ y ∈ b.head?, m.names.idxOf x < m.names.idxOf y

/-- No class is met twice on the way around, so a round has at most one more than there are. -/
theorem length_walkParents_le (loop : m.OnLoop start) :
    (m.walkParents start).length ≤ m.size + 1 := by
  obtain ⟨between, around, once, -⟩ := walkParents_of_onLoop loop
  have declared : start :: between ⊆ m.names := by
    intro name member
    have passed : name ∈ m.walkParents start := around ▸ List.mem_append_left [start] member
    exact mem_names_of_onLoop (loop.leads ((mem_walkParents_of_onLoop loop).mp passed)).1
  have short := once.length_le_of_subset declared
  have length : m.names.length = m.size := List.length_map _
  rw [around, List.length_append, List.length_singleton]
  omega

theorem walkUp_of_onLoop (loop : m.OnLoop start) {steps : Nat} (enough : m.size ≤ steps) :
    start :: m.walkUp start steps start = m.walkParents start := by
  obtain ⟨parent, n, -, -, -, walked⟩ := walkUp_eq_orbit_of_onLoop loop
  rw [walkParents, walked steps enough, walked _ (Nat.le_succ _)]

theorem isRound_walkParents (first : m.LoopStart m.names start) :
    m.IsRound start (m.walkParents start) := by
  obtain ⟨loop, earliest⟩ := first
  obtain ⟨between, around, once, parents⟩ := walkParents_of_onLoop loop
  refine ⟨⟨between, around, once⟩, parents, fun name => mem_walkParents_of_onLoop loop, ?_,
    length_walkParents_le loop, fun steps => walkUp_of_onLoop loop⟩
  intro name member
  exact earliest name ((mem_walkParents_of_onLoop loop).mp member)

/-- The classes left out of a forest stand in the order of the map, so the first of them on a loop
is the first on it at all. -/
theorem loopStart_of_omitted {forest : List Tree} (placement : m.Placement forest)
    (first : m.LoopStart (m.omitted forest) start) : m.LoopStart m.names start := by
  obtain ⟨loop, earliest⟩ := first
  have kept : ∀ {x}, m.OnLoop x → decide (x ∉ Tree.ids forest) = true := by
    intro x loop
    exact (List.mem_filter.mp (mem_omitted_of_onLoop placement loop)).2
  refine ⟨loop, ?_⟩
  intro other leads
  have loop' := (loop.leads leads).1
  rcases Nat.lt_or_eq_of_le (earliest other leads) with less | same
  · exact Nat.le_of_lt (idxOf_lt_of_filter (kept loop) (kept loop') less)
  · rw [(List.idxOf_inj (mem_omitted_of_onLoop placement loop)).mp same]

/-- Two classes that are first on the same loop are the same. -/
theorem LoopStart.unique {names : List String} {other : String} (listed : start ∈ names)
    (first : m.LoopStart names start) (second : m.LoopStart names other)
    (leads : Chain.Leads m.parentOf? start name) (leads' : Chain.Leads m.parentOf? other name) :
    start = other := by
  have there := leads.trans (second.1.leads leads').2
  have back := (first.1.leads there).2
  exact (List.idxOf_inj listed).mp (Nat.le_antisymm (first.2 other there) (second.2 start back))

theorem listsLoops_omitted {components : Graph → List (List String)} {forest : List Tree}
    (are : ∀ g : Graph, g.AreComponents (components g)) (placement : m.Placement forest) :
    m.ListsLoops (m.loops components (m.omitted forest)) := by
  classical
  have mem_loops : ∀ {chain}, chain ∈ m.loops components (m.omitted forest) ↔
      ∃ start ∈ m.omitted forest, m.LoopStart (m.omitted forest) start ∧
        m.walkParents start = chain := by
    intro chain
    rw [loops_eq (are _) (m.nodup_omitted forest) (holdsParents_omitted placement)]
    simp only [List.mem_map, List.mem_filter, decide_eq_true_eq, and_assoc]
  refine ⟨?_, ?_, ?_⟩
  · intro chain member
    obtain ⟨start, -, first, rfl⟩ := mem_loops.mp member
    exact ⟨start, first.1, isRound_walkParents (loopStart_of_omitted placement first)⟩
  · intro name loop
    obtain ⟨start, listed, first, there⟩ :=
      exists_loopStart (mem_omitted_of_onLoop placement loop) loop
    have around := (loop.leads there).2
    refine ⟨m.walkParents start, ⟨mem_loops.mpr ⟨start, listed, first, rfl⟩, ?_⟩, ?_⟩
    · exact (mem_walkParents_of_onLoop first.1).mpr around
    · rintro chain ⟨member, passed⟩
      obtain ⟨other, -, second, rfl⟩ := mem_loops.mp member
      rw [first.unique listed second around ((mem_walkParents_of_onLoop second.1).mp passed)]
  · rw [loops_eq (are _) (m.nodup_omitted forest) (holdsParents_omitted placement),
      List.pairwise_map]
    have inMap : (m.omitted forest).Pairwise fun x y => m.names.idxOf x < m.names.idxOf y :=
      (pairwise_idxOf m.nodup_names).sublist List.filter_sublist
    refine (inMap.sublist List.filter_sublist).imp ?_
    intro x y less a first b second
    cases first
    cases second
    exact less

/-- If strongly connected components are what is found, the loops among the classes that no root's
tree holds are all loops of the map, each once, and there is one if there is such a class. -/
theorem listsLoops_unplaced {components : Graph → List (List String)}
    (are : ∀ g : Graph, g.AreComponents (components g)) (m : ClassMap) :
    ∃ forest placed, m.expandAll m.roots [] = .ok (forest, placed) ∧
      m.ListsLoops (m.loops components (m.unplaced placed)) ∧
      (m.unplaced placed ≠ [] → m.loops components (m.unplaced placed) ≠ []) := by
  obtain ⟨forest, roots, grown, expanded⟩ := m.expandAll_roots
  have placement := placement_of_roots roots grown
  have listed := listsLoops_omitted are placement
  refine ⟨forest, _, expanded, ?_⟩
  rw [unplaced_ids]
  refine ⟨listed, ?_⟩
  intro left
  obtain ⟨name, -, loop⟩ := (omitted_ne_nil_iff placement).mp left
  obtain ⟨chain, ⟨member, -⟩, -⟩ := listed.complete name loop
  exact List.ne_nil_of_mem member

/-- A loop of two classes, with another one that descends from it declared before them, and a class
that is its own parent declared between them. -/
theorem tangled_listsLoops :
    (∀ g : Graph, g.AreComponents g.components) ∧
      ∃ forest placed, tangled.expandAll tangled.roots [] = .ok (forest, placed) ∧
        tangled.unplaced placed = ["tail", "b", "self", "a"] ∧
        tangled.loops Graph.components (tangled.unplaced placed) =
          [["b", "a", "b"], ["self", "self"]] ∧
        tangled.ListsLoops [["b", "a", "b"], ["self", "self"]] := by
  obtain ⟨forest, placed, expanded, listed, -⟩ :=
    listsLoops_unplaced Graph.areComponents_components tangled
  have found : tangled.expandAll tangled.roots [] =
      .ok ([.named "outside" [.named "" [.named "leaf" []]], .named "top" []],
        ["top", "leaf", "", "outside"]) := by
    with_unfolding_all rfl
  have left : tangled.unplaced ["top", "leaf", "", "outside"] = ["tail", "b", "self", "a"] := by
    decide
  cases expanded.symm.trans found
  rw [left, tangled_loops] at listed
  exact ⟨Graph.areComponents_components, _, _, expanded,
    left, by rw [left, tangled_loops], listed⟩

end Taxonomy.ClassMap
