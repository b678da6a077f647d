import Mathlib.Algebra.Ring.Nat
import Taxonomy.Proofs.Forest.Placement

/-!
# Finding names in a forest

The size of a tree counts its nodes in preorder, and a search for a name finds the first of them
that has it (`Tree.size_eq`, `Tree.find?_eq`). In a forest that was built no name comes twice, so
only one root's search finds a name, and the node found has the children that are declared for it
(`ClassMap.buildWith_answers`).
-/

namespace Taxonomy

namespace Tree

variable {name : String} {t : Tree} {ts : List Tree}

/-! ## The preorder list -/

theorem preorderAll_eq_flatMap (ts : List Tree) : preorderAll ts = ts.flatMap preorder := by
  induction ts with
  | nil => rfl
  | cons t ts ih => rw [preorderAll, ih, List.flatMap_cons]

theorem preorderAll_cons (t : Tree) (ts : List Tree) :
    preorderAll (t :: ts) = t :: (preorderAll t.children ++ preorderAll ts) := by
  cases t
  rw [preorderAll, preorder, children, List.cons_append]

theorem preorderAll_singleton (t : Tree) : preorderAll [t] = t.preorder := by
  rw [preorderAll, preorderAll, List.append_nil]

theorem sizeAll_cons (t : Tree) (ts : List Tree) :
    sizeAll (t :: ts) = 1 + sizeAll t.children + sizeAll ts := by
  cases t
  rw [sizeAll, size, children]

/-- A search looks at the node first, then below it, then at the trees after it. -/
theorem findAll?_cons (name : String) (t : Tree) (ts : List Tree) :
    findAll? name (t :: ts) =
      if t.id = name then some t else (findAll? name t.children).or (findAll? name ts) := by
  cases t with
  | node id label children =>
    rw [findAll?, find?, Tree.id, Tree.children]
    by_cases here : id = name
    · simp only [here, if_true]
    · simp only [here, if_false]
      cases findAll? name children <;> rfl

/-- The nodes of a forest are counted. -/
theorem sizeAll_eq (ts : List Tree) : sizeAll ts = (preorderAll ts).length := by
  induction ts using forest_induction with
  | nil => rfl
  | cons t ts below later =>
    rw [sizeAll_cons, preorderAll_cons, List.length_cons, List.length_append, below, later]
    omega

/-- The first node of a forest with a name is found. -/
theorem findAll?_eq (name : String) (ts : List Tree) :
    findAll? name ts = (preorderAll ts).find? (·.id = name) := by
  induction ts using forest_induction with
  | nil => rfl
  | cons t ts below later =>
    rw [findAll?_cons, preorderAll_cons, List.find?_cons, List.find?_append, ← below, ← later]
    by_cases here : t.id = name <;> simp [here]

theorem size_eq (t : Tree) : t.size = t.preorder.length := by
  have forest := sizeAll_eq [t]
  rwa [sizeAll, sizeAll, Nat.add_zero, preorderAll_singleton] at forest

theorem find?_eq (name : String) (t : Tree) : t.find? name = t.preorder.find? (·.id = name) := by
  have forest := findAll?_eq name [t]
  rw [preorderAll_singleton] at forest
  rw [← forest, findAll?]
  cases t.find? name <;> rfl

theorem find?_eq_none_iff : t.find? name = none ↔ ∀ u ∈ t.preorder, u.id ≠ name := by
  simp only [find?_eq, List.find?_eq_none, decide_eq_true_eq, ne_eq]

theorem sum_size (ts : List Tree) : (ts.map size).sum = (ids ts).length := by
  rw [ids, List.length_map, preorderAll_eq_flatMap, List.length_flatMap]
  exact congrArg List.sum (List.map_congr_left fun t _ => size_eq t)

/-! ## Searching the roots -/

theorem ids_eq_flatMap (ts : List Tree) : ids ts = ts.flatMap fun t => t.preorder.map id := by
  rw [ids, preorderAll_eq_flatMap, List.map_flatMap]

theorem mem_ids_singleton : name ∈ t.preorder.map id ↔ ∃ u, t.find? name = some u := by
  rw [← Option.ne_none_iff_exists', ne_eq, find?_eq_none_iff, List.mem_map]
  push Not
  rfl

/-- What is found is a node with the name. -/
theorem of_find? {u : Tree} (found : t.find? name = some u) : u ∈ t.preorder ∧ u.id = name := by
  rw [find?_eq] at found
  exact ⟨List.mem_of_find?_eq_some found, by simpa using List.find?_some found⟩

/-- A search of a forest is a search of one tree after the other. -/
theorem findAll?_append {before after : List Tree} {u : Tree}
    (missing : ∀ other ∈ before, other.find? name = none) (found : t.find? name = some u) :
    findAll? name (before ++ t :: after) = some u := by
  induction before with
  | nil => rw [List.nil_append, findAll?, found]
  | cons other before ih =>
    rw [List.forall_mem_cons] at missing
    rw [List.cons_append, findAll?, missing.1, ih missing.2]

/-- In a forest in which no name comes twice, a name is found from one tree only. -/
theorem exists_only_root (nodup : (ids ts).Nodup) (member : name ∈ ids ts) :
    ∃ before root after u, ts = before ++ root :: after ∧ root.find? name = some u ∧
      findAll? name ts = some u ∧ ∀ other ∈ before ++ after, other.find? name = none := by
  rw [ids_eq_flatMap, List.nodup_flatMap] at nodup
  rw [ids_eq_flatMap, List.mem_flatMap] at member
  obtain ⟨root, isRoot, here⟩ := member
  obtain ⟨before, after, rfl⟩ := List.append_of_mem isRoot
  obtain ⟨u, found⟩ := mem_ids_singleton.mp here
  have alone : ∀ other ∈ before ++ after, other.find? name = none := by
    intro other member
    by_contra present
    have there := mem_ids_singleton.mpr (Option.ne_none_iff_exists'.mp present)
    obtain ⟨-, later, across⟩ := List.pairwise_append.mp nodup.2
    rcases List.mem_append.mp member with first | second
    · exact across other first root List.mem_cons_self there here
    · exact (List.pairwise_cons.mp later).1 other second here there
  refine ⟨before, root, after, u, rfl, found, ?_, alone⟩
  exact findAll?_append (fun other first => alone other (List.mem_append_left _ first)) found

end Tree

namespace ClassMap

variable {m : ClassMap} {forest : List Tree}

/-- The names that are given as parents and never declared. -/
def implicitNames (m : ClassMap) : List String :=
  (m.entries.filterMap (·.parent)).eraseDups.filter (· ∉ m.names)

theorem mem_implicitNames {name : String} : name ∈ m.implicitNames ↔ m.Implicit name := by
  simp only [implicitNames, List.mem_filter, List.mem_eraseDups, List.mem_filterMap,
    decide_eq_true_eq, Implicit]
  exact and_comm

theorem nodup_implicitNames (m : ClassMap) : m.implicitNames.Nodup := by
  refine ((pairwise_eraseDups _).imp ?_).filter _
  rintro x y lt rfl
  exact Nat.lt_irrefl _ lt

/-- The names of a forest are the classes that it does not leave out and the names that are only
given as parents. -/
theorem Placement.perm (placement : m.Placement forest) :
    (Tree.ids forest).Perm (m.names.filter (· ∉ m.omitted forest) ++ m.implicitNames) := by
  have distinct : (m.names.filter (· ∉ m.omitted forest) ++ m.implicitNames).Nodup := by
    refine (m.nodup_names.filter _).append m.nodup_implicitNames ?_
    intro name declared implicit
    exact (mem_implicitNames.mp implicit).1 (List.mem_filter.mp declared).1
  refine (List.perm_ext_iff_of_nodup placement.nodup distinct).mpr fun name => ?_
  rw [List.mem_append, mem_implicitNames, List.mem_filter, decide_eq_true_eq, omitted,
    List.mem_filter, decide_eq_true_eq, placement.mem_ids]
  constructor
  · rintro (grounded | implicit)
    · exact .inl ⟨grounded.1, fun left => left.2 (.inl grounded)⟩
    · exact .inr implicit
  · rintro (⟨declared, present⟩ | implicit)
    · exact not_not.mp fun missing => present ⟨declared, missing⟩
    · exact .inr implicit

/-- What searches for names in a forest say about the classes: a grounded class and a name that is
only given as a parent are found from one root, with their children, and no other name is found. -/
structure Answers (m : ClassMap) (forest : List Tree) : Prop where
  found : ∀ name, m.Grounded name ∨ m.Implicit name →
    ∃ before root after node, forest = before ++ root :: after ∧ root.find? name = some node ∧
      Tree.findAll? name forest = some node ∧
        ∀ other ∈ before ++ after, other.find? name = none
  missing : ∀ name, ¬ (m.Grounded name ∨ m.Implicit name) →
    Tree.findAll? name forest = none ∧ ∀ root ∈ forest, root.find? name = none
  children : ∀ name, ∀ root ∈ forest, ∀ node, root.find? name = some node →
    node.id = name ∧ node.children.map Tree.id = m.childrenOf name
  omitted : ∀ name, name ∈ m.omitted forest ↔ name ∈ m.names ∧ ¬ m.Grounded name
  sizes : (forest.map Tree.size).sum =
    (m.names.filter (· ∉ m.omitted forest)).length + m.implicitNames.length

theorem Placement.answers (placement : m.Placement forest) : m.Answers forest where
  found name known := Tree.exists_only_root placement.nodup ((placement.mem_ids name).mpr known)
  missing name unknown := by
    have absent := mt (placement.mem_ids name).mp unknown
    rw [Tree.ids, List.mem_map] at absent
    push Not at absent
    refine ⟨?_, fun root isRoot => Tree.find?_eq_none_iff.mpr fun u member => absent u ?_⟩
    · simpa only [Tree.findAll?_eq, List.find?_eq_none, decide_eq_true_eq] using absent
    · rw [Tree.preorderAll_eq_flatMap]
      exact List.mem_flatMap.mpr ⟨root, isRoot, member⟩
  children name root isRoot node found := by
    obtain ⟨member, rfl⟩ := Tree.of_find? found
    refine ⟨rfl, (placement.grown node ?_).2⟩
    rw [Tree.preorderAll_eq_flatMap]
    exact List.mem_flatMap.mpr ⟨root, isRoot, member⟩
  omitted name := by
    rw [ClassMap.omitted, List.mem_filter, decide_eq_true_eq, placement.mem_ids]
    refine and_congr_right fun declared => not_congr (or_iff_left fun implicit => ?_)
    exact implicit.1 declared
  sizes := by rw [Tree.sum_size, placement.perm.length_eq, List.length_append]

/-- The size of a tree is the length of its list of nodes, and searches find the first node of it
with a name, if there is one. Every forest that a build gives answers searches by what is
declared. -/
theorem buildWith_answers (components : Graph → List (List String)) :
    (∀ t : Tree, t.size = t.preorder.length ∧ ∀ name,
      t.find? name = t.preorder.find? (·.id = name) ∧
      (t.find? name = none ↔ ∀ u ∈ t.preorder, u.id ≠ name)) ∧
    ∀ (m : ClassMap) handling forest, m.buildWith components handling = .ok forest →
      m.Answers forest := by
  refine ⟨fun t => ⟨t.size_eq, fun name => ⟨t.find?_eq name, Tree.find?_eq_none_iff⟩⟩,
    ?_⟩
  intro m handling forest built
  exact (placement_of_buildWith built).answers

/-- A name without letters is found below the first root, with its children, and the loops are
not. -/
theorem tangled_answers :
    let forest := [.named "outside" [.named "" [.named "leaf" []]], .named "top" []]
    tangled.buildWith Graph.components .omit = .ok forest ∧ tangled.Answers forest ∧
      Tree.findAll? "" forest = some (.named "" [.named "leaf" []]) ∧
      tangled.childrenOf "" = ["leaf"] ∧
      tangled.omitted forest = ["tail", "b", "self", "a"] ∧
      tangled.implicitNames = ["outside"] ∧ (forest.map Tree.size).sum = 4 := by
  intro forest
  have built : tangled.buildWith Graph.components .omit = .ok forest := by
    with_unfolding_all rfl
  have answers := (buildWith_answers Graph.components).2 tangled .omit forest built
  exact ⟨built, answers, rfl, by decide, by decide, by decide, rfl⟩

end ClassMap

end Taxonomy
