import Taxonomy.Proofs.Forest.Expansion

/-!
# Which classes the forest holds

A grown forest holds the names whose chain of parents reaches one of its tops (`Tree.mem_ids`), each
of them once if the tops are independent (`Tree.nodup_ids`). With the roots for tops, those are the
grounded classes and the implicit names (`ClassMap.buildWith_places`).
-/

namespace Taxonomy

namespace Tree

/-- Induction on a forest: below the first node, and on the trees after it. -/
theorem forest_induction {motive : List Tree → Prop} (nil : motive [])
    (cons : ∀ t ts, motive t.children → motive ts → motive (t :: ts)) :
    (forest : List Tree) → motive forest
  | [] => nil
  | .node id label children :: ts =>
    cons (.node id label children) ts (forest_induction nil cons children)
      (forest_induction nil cons ts)

variable {m : ClassMap} {ts : List Tree}

theorem parentOf?_of_mem_children {t child : Tree} (grown : t.children.map id = m.childrenOf t.id)
    (member : child ∈ t.children) : m.parentOf? child.id = some t.id := by
  apply ClassMap.mem_childrenOf.mp
  rw [← grown]
  exact List.mem_map_of_mem member

theorem leads_of_mem_ids (grown : Grown m ts) {name : String} (member : name ∈ ids ts) :
    ∃ t ∈ ts, Chain.Leads m.parentOf? name t.id := by
  induction ts using forest_induction with
  | nil => simp at member
  | cons t ts below later =>
    obtain ⟨⟨-, children⟩, grownBelow, grownLater⟩ := grown_cons.mp grown
    rw [ids_cons, List.mem_cons, List.mem_append] at member
    rcases member with rfl | member | member
    · exact ⟨t, List.mem_cons_self, .refl _ _⟩
    · obtain ⟨child, isChild, leads⟩ := below grownBelow member
      have parent := parentOf?_of_mem_children children isChild
      exact ⟨t, List.mem_cons_self, leads.trans (.of_step parent)⟩
    · obtain ⟨u, isLater, leads⟩ := later grownLater member
      exact ⟨u, List.mem_cons_of_mem _ isLater, leads⟩

theorem mem_ids_of_leads (grown : Grown m ts) {name : String} {t : Tree} (top : t ∈ ts)
    (leads : Chain.Leads m.parentOf? name t.id) : name ∈ ids ts := by
  induction ts using forest_induction generalizing t with
  | nil => simp at top
  | cons u ts below later =>
    obtain ⟨⟨-, children⟩, grownBelow, grownLater⟩ := grown_cons.mp grown
    rw [ids_cons, List.mem_cons, List.mem_append]
    rcases List.mem_cons.mp top with rfl | top
    · rcases leads.eq_or_last with same | ⟨child, leads, step⟩
      · exact .inl same
      -- the last step leads from a child, which is a top of the forest below
      · have isChild := ClassMap.mem_childrenOf.mpr step
        rw [← children, List.mem_map] at isChild
        obtain ⟨c, isChild, rfl⟩ := isChild
        exact .inr (.inl (below grownBelow isChild leads))
    · exact .inr (.inr (later grownLater top leads))

/-- A grown forest holds the names from which parents lead to one of its tops. -/
theorem mem_ids (grown : Grown m ts) {name : String} :
    name ∈ ids ts ↔ ∃ t ∈ ts, Chain.Leads m.parentOf? name t.id := by
  refine ⟨leads_of_mem_ids grown, ?_⟩
  rintro ⟨t, top, leads⟩
  exact mem_ids_of_leads grown top leads

/-- Siblings do not lead to each other: the way would come back through their parent. -/
theorem eq_of_siblings {parent a b : String} (ends : Chain.Ends m.parentOf? parent)
    (first : m.parentOf? a = some parent) (second : m.parentOf? b = some parent)
    (leads : Chain.Leads m.parentOf? a b) : a = b := by
  rcases leads.eq_or_next first with same | leads
  · exact same
  · have loop := Chain.returns_iff.mpr ⟨parent, second, leads⟩
    exact absurd loop (Chain.Ends.of_leads (.of_step second) ends).not_returns

/-- The chains of the tops of a forest end, and none of them passes another top. -/
structure Independent (m : ClassMap) (ts : List Tree) : Prop where
  ends : ∀ t ∈ ts, Chain.Ends m.parentOf? t.id
  distinct : (ts.map id).Nodup
  apart : ∀ t ∈ ts, ∀ u ∈ ts, Chain.Leads m.parentOf? t.id u.id → t.id = u.id

namespace Independent

variable {t : Tree}

theorem tail (h : Independent m (t :: ts)) : Independent m ts where
  ends u member := h.ends u (List.mem_cons_of_mem t member)
  distinct := (List.nodup_cons.mp h.distinct).2
  apart u first v second :=
    h.apart u (List.mem_cons_of_mem t first) v (List.mem_cons_of_mem t second)

theorem children (h : Independent m (t :: ts)) (grown : t.children.map id = m.childrenOf t.id) :
    Independent m t.children := by
  have here := h.ends t List.mem_cons_self
  refine ⟨?_, ?_, ?_⟩
  · intro c member
    exact .of_leads (.of_step (parentOf?_of_mem_children grown member)) here
  · rw [grown]
    exact m.nodup_childrenOf t.id
  · intro c first d second leads
    exact eq_of_siblings here (parentOf?_of_mem_children grown first)
      (parentOf?_of_mem_children grown second) leads

/-- A top has no chain in common with one after it. -/
theorem alone (h : Independent m (t :: ts)) {u : Tree} (later : u ∈ ts) {name : String}
    (first : Chain.Leads m.parentOf? name t.id) : ¬ Chain.Leads m.parentOf? name u.id := by
  intro second
  have isTop := List.mem_cons_of_mem t later
  have same : t.id = u.id := by
    rcases Chain.leads_total first second with leads | leads
    · exact h.apart t List.mem_cons_self u isTop leads
    · exact (h.apart u isTop t List.mem_cons_self leads).symm
  have distinct := h.distinct
  rw [List.map_cons, List.nodup_cons, same] at distinct
  exact distinct.1 (List.mem_map_of_mem later)

end Independent

/-- No name is met twice in a grown forest of independent trees. -/
theorem nodup_ids (grown : Grown m ts) (independent : Independent m ts) : (ids ts).Nodup := by
  induction ts using forest_induction with
  | nil => exact List.nodup_nil
  | cons t ts below later =>
    obtain ⟨⟨-, children⟩, grownBelow, grownLater⟩ := grown_cons.mp grown
    have here := independent.ends t List.mem_cons_self
    rw [ids_cons, List.nodup_cons, List.nodup_append, List.mem_append, not_or]
    refine ⟨⟨?_, ?_⟩, below grownBelow (independent.children children),
      later grownLater independent.tail, ?_⟩
    · intro member
      obtain ⟨child, isChild, leads⟩ := leads_of_mem_ids grownBelow member
      have step := parentOf?_of_mem_children children isChild
      exact (here.leads leads).not_returns (Chain.returns_iff.mpr ⟨t.id, step, leads⟩)
    · intro member
      obtain ⟨u, isLater, leads⟩ := leads_of_mem_ids grownLater member
      exact independent.alone isLater (.refl _ _) leads
    · rintro a inBelow b inLater rfl
      obtain ⟨child, isChild, leads⟩ := leads_of_mem_ids grownBelow inBelow
      obtain ⟨u, isLater, leadsOther⟩ := leads_of_mem_ids grownLater inLater
      have step := parentOf?_of_mem_children children isChild
      exact independent.alone isLater (leads.trans (.of_step step)) leadsOther

end Tree

namespace ClassMap

variable {m : ClassMap} {forest : List Tree}

/-- What parents lead to is declared or given as a parent. -/
theorem known_of_leads {name top : String} (declared : name ∈ m.names)
    (leads : Chain.Leads m.parentOf? name top) :
    top ∈ m.names ∨ ∃ c ∈ m.entries, c.parent = some top := by
  rcases leads.eq_or_last with rfl | ⟨child, -, step⟩
  · exact .inl declared
  · obtain ⟨c, member, -, given⟩ := parentOf?_eq_some_iff.mp step
    exact .inr ⟨c, member, given⟩

/-- The names below roots are the grounded classes and the names that are only given as parents. -/
theorem leads_root_iff {name : String} :
    (∃ root ∈ m.roots, Chain.Leads m.parentOf? name root) ↔
      m.Grounded name ∨ m.Implicit name := by
  refine ⟨?_, ?_⟩
  · rintro ⟨root, isRoot, leads⟩
    obtain ⟨top, known⟩ := mem_roots_iff.mp isRoot
    by_cases declared : name ∈ m.names
    · exact .inl ⟨declared, root, leads, top⟩
    · refine .inr ⟨declared, ?_⟩
      rcases leads.eq_or_step with rfl | ⟨parent, step, -⟩
      · exact known.resolve_left declared
      · exact absurd (mem_names_of_parentOf? step) declared
  · rintro (⟨declared, root, leads, top⟩ | ⟨missing, given⟩)
    · exact ⟨root, mem_roots_iff.mpr ⟨top, known_of_leads declared leads⟩, leads⟩
    · exact ⟨name,
        mem_roots_iff.mpr ⟨parentOf?_of_not_mem_names missing, .inr given⟩, .refl _ _⟩

/-- The forest holds each grounded class and each name that is only given as a parent, once, with
the classes that are declared with it as their parent below it; the other names are left out. -/
structure Placement (m : ClassMap) (forest : List Tree) : Prop where
  nodup : (Tree.ids forest).Nodup
  mem_ids : ∀ name, name ∈ Tree.ids forest ↔ m.Grounded name ∨ m.Implicit name
  label : ∀ t ∈ Tree.preorderAll forest, t.label = t.id
  children : ∀ t ∈ Tree.preorderAll forest,
    t.children.map Tree.id = (m.entries.filter (·.parent == some t.id)).map (·.name)
  roots : ∀ name, name ∈ forest.map Tree.id ↔
    m.parentOf? name = none ∧ (name ∈ m.names ∨ ∃ c ∈ m.entries, c.parent = some name)
  discovered : (forest.map Tree.id).Pairwise fun a b =>
    m.discoveries.idxOf a < m.discoveries.idxOf b

theorem independent_roots (roots : forest.map Tree.id = m.roots) : Tree.Independent m forest := by
  have isRoot : ∀ t ∈ forest, m.parentOf? t.id = none := by
    intro t member
    exact (mem_roots.mp (roots ▸ List.mem_map_of_mem member)).2
  refine ⟨fun t member => ⟨t.id, .refl _ _, isRoot t member⟩, ?_, ?_⟩
  · rw [roots]
    exact m.nodup_roots
  · intro t member u _ leads
    exact leads.eq_of_last (isRoot t member)

theorem placement_of_roots (roots : forest.map Tree.id = m.roots) (grown : Tree.Grown m forest) :
    m.Placement forest where
  nodup := Tree.nodup_ids grown (independent_roots roots)
  mem_ids name := by
    rw [Tree.mem_ids grown, ← leads_root_iff, ← roots]
    simp only [List.mem_map, exists_exists_and_eq_and]
  label t member := (grown t member).1
  children t member := (grown t member).2
  roots name := by rw [roots, mem_roots_iff]
  discovered := roots ▸ m.pairwise_roots

theorem Placement.grown (placement : m.Placement forest) : Tree.Grown m forest :=
  fun t member => ⟨placement.label t member, placement.children t member⟩

theorem Placement.map_id (placement : m.Placement forest) : forest.map Tree.id = m.roots := by
  refine eq_of_pairwise_idxOf placement.discovered m.pairwise_roots fun name => ?_
  rw [placement.roots, mem_roots_iff]

/-- The declared classes that a forest leaves out. -/
def omitted (m : ClassMap) (forest : List Tree) : List String :=
  m.names.filter (· ∉ Tree.ids forest)

theorem unplaced_ids (m : ClassMap) (forest : List Tree) :
    m.unplaced (Tree.ids forest).reverse = m.omitted forest := by
  simp only [unplaced, omitted, List.mem_reverse]

/-- The forest is built before it is seen which classes it leaves out, and these are left out of it
or are what is wrong. -/
theorem exists_forest (m : ClassMap) :
    ∃ forest, m.Placement forest ∧ ∀ components,
      m.buildWith components .omit = .ok forest ∧
      m.buildWith components .fail =
        if m.omitted forest = [] then .ok forest
        else .error ⟨(m.loops components (m.omitted forest)).headD []⟩ := by
  obtain ⟨forest, roots, grown, expanded⟩ := m.expandAll_roots
  refine ⟨forest, placement_of_roots roots grown, fun components => ⟨?_, ?_⟩⟩
  · rw [buildWith, expanded]
    simp only [bind, Except.bind, ite_self]
    rfl
  · rw [buildWith, expanded]
    simp only [bind, Except.bind, unplaced_ids, List.isEmpty_iff]
    rfl

/-- A build that leaves classes out names their loops, then their number, if there are any. -/
theorem buildWarningsWith_omit {components : Graph → List (List String)}
    (built : m.buildWith components .omit = .ok forest) :
    m.buildWarningsWith components .omit =
      if m.omitted forest = [] then []
      else (m.loops components (m.omitted forest)).map (.cycle ⟨·⟩) ++
        [.omitted (m.omitted forest).length] := by
  obtain ⟨other, -, -, expanded⟩ := m.expandAll_roots
  have same : other = forest := by
    rw [buildWith, expanded] at built
    simp only [bind, Except.bind, ite_self] at built
    exact Except.ok.inj built
  simp only [buildWarningsWith, expanded, unplaced_ids, same, List.isEmpty_iff]

theorem placement_of_buildWith {components : Graph → List (List String)}
    {handling : CycleHandling} (built : m.buildWith components handling = .ok forest) :
    m.Placement forest := by
  obtain ⟨other, placement, results⟩ := m.exists_forest
  obtain ⟨omitted, failed⟩ := results components
  suffices other = forest from this ▸ placement
  match handling with
  | .omit => exact Except.ok.inj (omitted.symm.trans built)
  | .fail =>
    rw [failed] at built
    split at built
    · exact Except.ok.inj built
    · cases built

/-- A build that succeeds, as one that leaves classes out always does, places every class that it
can, however the components of a graph are found. -/
theorem buildWith_places (components : Graph → List (List String)) (m : ClassMap) :
    (∃ forest, m.buildWith components .omit = .ok forest) ∧
      ∀ handling forest, m.buildWith components handling = .ok forest → m.Placement forest := by
  obtain ⟨forest, -, results⟩ := m.exists_forest
  exact ⟨⟨forest, (results components).1⟩, fun _ _ => placement_of_buildWith⟩

/-- Two loops, a class that descends from one of them, a name without letters, and classes declared
before their parents. -/
def tangled : ClassMap where
  entries :=
    [{ name := "tail", parent := some "b" }, { name := "leaf", parent := some "" },
      { name := "b", parent := some "a" }, { name := "self", parent := some "self" },
      { name := "a", parent := some "b" }, { name := "", parent := some "outside" },
      { name := "top" }]
  distinct := by decide

theorem tangled_places :
    let forest := [.named "outside" [.named "" [.named "leaf" []]], .named "top" []]
    tangled.buildWith Graph.components .omit = .ok forest ∧ tangled.Placement forest ∧
      "tail" ∈ tangled.names ∧ ¬ tangled.Grounded "tail" := by
  intro forest
  have built : tangled.buildWith Graph.components .omit = .ok forest := by
    with_unfolding_all rfl
  have placement := (buildWith_places Graph.components tangled).2 .omit forest built
  refine ⟨built, placement, by decide, ?_⟩
  intro grounded
  have member := (placement.mem_ids "tail").mpr (.inl grounded)
  revert member
  decide

end ClassMap

end Taxonomy
