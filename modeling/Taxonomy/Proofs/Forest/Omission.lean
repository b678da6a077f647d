import Taxonomy.Proofs.Forest.Loops

/-!
# Leaving loops out

A class whose parents run into a loop is only ever the parent of such classes. So the map without
all of them (`ClassMap.withoutLoops`) has the roots of the whole map and the same children below
them, and a build that must place every class makes of it the forest that is made of the whole map
when loops are left out (`ClassMap.buildWith_withoutLoops`).
-/

namespace Taxonomy

namespace Tree

variable {m : ClassMap}

theorem eq_of_parts {t u : Tree} (ids : t.id = u.id) (labels : t.label = u.label)
    (below : t.children = u.children) : t = u := by
  obtain ⟨id, label, children⟩ := t
  obtain ⟨id', label', children'⟩ := u
  exact (Tree.node.injEq ..).mpr ⟨ids, labels, below⟩

/-- Forests grown from the same tops are the same. -/
theorem eq_of_grown {ts us : List Tree} (first : Grown m ts) (second : Grown m us)
    (tops : ts.map id = us.map id) : ts = us := by
  induction ts using forest_induction generalizing us with
  | nil => exact (List.map_eq_nil_iff.mp tops.symm).symm
  | cons t ts below later =>
    obtain ⟨u, us, rfl⟩ := List.exists_cons_of_ne_nil (l := us) (by rintro rfl; simp at tops)
    rw [List.map_cons, List.map_cons, List.cons_eq_cons] at tops
    obtain ⟨⟨label, children⟩, grownBelow, grownLater⟩ := grown_cons.mp first
    obtain ⟨⟨label', children'⟩, grownBelow', grownLater'⟩ := grown_cons.mp second
    have same : t.children = u.children :=
      below grownBelow grownBelow' (by rw [children, children', tops.1])
    rw [later grownLater grownLater' tops.2]
    congr 1
    exact eq_of_parts tops.1 (by rw [label, label', tops.1]) same

end Tree

namespace ClassMap

/-- The declarations that pass a test, in order. -/
def filter (p : ClassDeclaration → Bool) (m : ClassMap) : ClassMap where
  entries := m.entries.filter p
  distinct := m.distinct.sublist (List.filter_sublist.map _)

variable {m : ClassMap} {name : String}

/-- A chain of parents that is longer than there are classes runs into a loop. -/
theorem runsIntoLoop_iff_after :
    m.RunsIntoLoop name ↔ (after m.parentOf? (m.size + 1) name).isSome := by
  rw [Option.isSome_iff_exists]
  refine ⟨?_, ?_⟩
  · intro runs
    exact Chain.exists_after_of_not_ends (fun ends => ends_iff_not_runsIntoLoop.mp ends runs) _
  · rintro ⟨other, met⟩
    have length : m.names.length = m.size := List.length_map _
    exact Chain.exists_returns_of_after mem_names_of_parentOf?_ne_none (length ▸ met)

instance (m : ClassMap) (name : String) : Decidable (m.RunsIntoLoop name) :=
  decidable_of_iff _ runsIntoLoop_iff_after.symm

/-- The map without the classes on loops and those that descend from them. -/
def withoutLoops (m : ClassMap) : ClassMap :=
  m.filter fun c => ¬ m.RunsIntoLoop c.name

theorem mem_entries_withoutLoops {c : ClassDeclaration} :
    c ∈ m.withoutLoops.entries ↔ c ∈ m.entries ∧ ¬ m.RunsIntoLoop c.name := by
  simp [withoutLoops, filter]

theorem parentOf?_withoutLoops (free : ¬ m.RunsIntoLoop name) :
    m.withoutLoops.parentOf? name = m.parentOf? name := by
  ext parent
  simp only [parentOf?_eq_some_iff, mem_entries_withoutLoops]
  refine exists_congr fun c => ?_
  rw [and_assoc, and_congr_right_iff]
  rintro -
  refine ⟨fun ⟨_, found⟩ => found, ?_⟩
  rintro ⟨rfl, given⟩
  exact ⟨free, rfl, given⟩

/-- The children of a class run into the loops that it runs into itself. -/
theorem childrenOf_withoutLoops (free : ¬ m.RunsIntoLoop name) :
    m.withoutLoops.childrenOf name = m.childrenOf name := by
  rw [childrenOf, childrenOf, withoutLoops, filter, List.filter_filter]
  congr 1
  refine List.filter_congr ?_
  intro c member
  by_cases child : c.parent = some name
  · have step : m.parentOf? c.name = some name := (parentOf?_of_mem_entries member).trans child
    simp [child, runsIntoLoop_iff_of_parentOf? step, free]
  · simp [child]

theorem discoveries_withoutLoops (m : ClassMap) :
    m.withoutLoops.discoveries = m.discoveries.filter fun name => ¬ m.RunsIntoLoop name := by
  rw [discoveries, discoveries, withoutLoops, filter, List.filter_map]
  congr 1
  refine List.filter_congr ?_
  intro c member
  have step := parentOf?_of_mem_entries member
  cases given : c.parent with
  | none => simp [given]
  | some parent => simp [given, runsIntoLoop_iff_of_parentOf? (step.trans given)]

/-- No root runs into a loop, and those that remain are discovered in the same order. -/
theorem roots_withoutLoops (m : ClassMap) : m.withoutLoops.roots = m.roots := by
  refine eq_of_pairwise_idxOf (l := m.discoveries) ?_ m.pairwise_roots fun name => ?_
  · refine m.withoutLoops.pairwise_roots.imp_of_mem ?_
    rw [discoveries_withoutLoops]
    intro x y first second
    have first := (mem_roots.mp first).1
    have second := (mem_roots.mp second).1
    rw [discoveries_withoutLoops, List.mem_filter] at first second
    exact idxOf_lt_of_filter first.2 second.2
  · simp only [mem_roots, discoveries_withoutLoops, List.mem_filter, decide_eq_true_eq, and_assoc,
      and_congr_right_iff]
    rintro -
    refine ⟨?_, ?_⟩
    · rintro ⟨free, top⟩
      rwa [parentOf?_withoutLoops free] at top
    · intro top
      have free := ends_iff_not_runsIntoLoop.mp ⟨name, .refl _ _, top⟩
      exact ⟨free, by rwa [parentOf?_withoutLoops free]⟩

/-- A forest of the whole map has the children that are left, since none of its names runs into a
loop. -/
theorem grown_withoutLoops {forest : List Tree} (placement : m.Placement forest) :
    Tree.Grown m.withoutLoops forest := by
  intro t member
  obtain ⟨label, children⟩ := placement.grown t member
  refine ⟨label, ?_⟩
  rw [childrenOf_withoutLoops, children]
  have placed : t.id ∈ Tree.ids forest := List.mem_map_of_mem member
  rw [← ends_iff_not_runsIntoLoop]
  rcases (placement.mem_ids t.id).mp placed with grounded | implicit
  · exact grounded.2
  · exact ⟨t.id, .refl _ _, parentOf?_of_not_mem_names implicit.1⟩

theorem names_withoutLoops (m : ClassMap) :
    m.withoutLoops.names = m.names.filter fun name => ¬ m.RunsIntoLoop name := by
  simp only [names, withoutLoops, filter, List.filter_map]
  rfl

/-- The classes that a forest leaves out are those that run into loops. -/
theorem omitted_eq {forest : List Tree} (placement : m.Placement forest) :
    m.omitted forest = m.names.filter fun name => m.RunsIntoLoop name := by
  refine List.filter_congr ?_
  intro name declared
  have left := @mem_omitted m forest placement name
  rw [ends_iff_not_runsIntoLoop, not_not, omitted, List.mem_filter] at left
  rw [decide_eq_decide]
  simpa [declared] using left

theorem omitted_withoutLoops {forest : List Tree} (placement : m.Placement forest) :
    m.withoutLoops.omitted forest = [] := by
  rw [omitted, names_withoutLoops, List.filter_eq_nil_iff]
  intro name member
  rw [List.mem_filter, decide_eq_true_eq, ← ends_iff_not_runsIntoLoop] at member
  have placed := (placement.mem_ids name).mpr (.inl member)
  simpa using placed

theorem size_eq_add_omitted {forest : List Tree} (placement : m.Placement forest) :
    m.size = m.withoutLoops.size + (m.omitted forest).length := by
  have split := List.length_eq_length_filter_add (l := m.names) fun name => m.RunsIntoLoop name
  have kept : m.withoutLoops.names.length = m.withoutLoops.size := List.length_map _
  have all : m.names.length = m.size := List.length_map _
  simp only [← decide_not] at split
  rw [omitted_eq placement, ← kept, ← all, names_withoutLoops, split]
  omega

/-- What is built of the map without the classes that run into loops is what is built of the whole
map when loops are left out. The classes left out are counted, if there are any. -/
theorem buildWith_withoutLoops (components : Graph → List (List String)) (m : ClassMap) :
    ∃ forest left,
      m.buildWith components .omit = .ok forest ∧
      m.withoutLoops.buildWith components .fail = .ok forest ∧
      m.size = m.withoutLoops.size + left ∧
      ∃ cycles : List Cycle, m.buildWarningsWith components .omit =
        if left = 0 then [] else cycles.map .cycle ++ [.omitted left] := by
  obtain ⟨forest, placement, results⟩ := m.exists_forest
  obtain ⟨other, placement', results'⟩ := m.withoutLoops.exists_forest
  obtain ⟨built, -⟩ := results components
  obtain ⟨-, failed⟩ := results' components
  have tops : forest.map Tree.id = other.map Tree.id := by
    rw [placement.map_id, placement'.map_id, roots_withoutLoops]
  obtain rfl := Tree.eq_of_grown (grown_withoutLoops placement) placement'.grown tops
  rw [if_pos (omitted_withoutLoops placement)] at failed
  refine ⟨forest, (m.omitted forest).length, built, failed, size_eq_add_omitted placement, ?_⟩
  refine ⟨(m.loops components (m.omitted forest)).map (⟨·⟩), ?_⟩
  rw [buildWarningsWith_omit built, List.map_map]
  simp only [List.length_eq_zero_iff]
  rfl

example : tangled.withoutLoops.names = ["leaf", "", "top"] := by decide

end ClassMap

end Taxonomy
