import Mathlib.Data.Finset.Dedup
import Mathlib.Data.Finset.Insert
import Taxonomy.Proofs.Forest.Loops

/-!
# Maps that differ in order only

Two maps that declare the same names with the same parents have the same chains of parents, and for
each name the same children in some order. So they have the same forest up to the order of siblings
(`Tree.reordered_of_grown`) and the same loops up to where each is entered
(`ClassMap.mem_reportedLoops`).
-/

namespace Taxonomy

namespace Tree

/-- Equal up to the order of the trees, and of the children of each of their nodes. -/
inductive Reordered : List Tree → List Tree → Prop
  | nil : Reordered [] []
  | cons {id label : String} {below below' ts us : List Tree} :
    Reordered below below' → Reordered ts us →
      Reordered (.node id label below :: ts) (.node id label below' :: us)
  | swap (t u : Tree) (ts : List Tree) : Reordered (t :: u :: ts) (u :: t :: ts)
  | trans {ts us vs : List Tree} : Reordered ts us → Reordered us vs → Reordered ts vs

namespace Reordered

theorem of_parts {t u : Tree} {ts us : List Tree} (ids : t.id = u.id) (labels : t.label = u.label)
    (below : Reordered t.children u.children) (later : Reordered ts us) :
    Reordered (t :: ts) (u :: us) := by
  obtain ⟨id, label, children⟩ := t
  obtain ⟨id', label', children'⟩ := u
  cases ids
  cases labels
  exact .cons below later

theorem refl (ts : List Tree) : Reordered ts ts := by
  induction ts using forest_induction with
  | nil => exact .nil
  | cons t ts below later => exact .of_parts rfl rfl below later

theorem of_perm {ts us : List Tree} (perm : ts.Perm us) : Reordered ts us := by
  induction perm with
  | nil => exact .nil
  | cons t _ later => exact .of_parts rfl rfl (.refl t.children) later
  | swap t u ts => exact .swap u t ts
  | trans _ _ first second => exact .trans first second

end Reordered

variable {m other : ClassMap}

theorem grown_iff_forall {ts : List Tree} : Grown m ts ↔ ∀ t ∈ ts,
    (t.label = t.id ∧ t.children.map id = m.childrenOf t.id) ∧ Grown m t.children := by
  induction ts with
  | nil => simp
  | cons t ts ih => simp only [grown_cons, List.forall_mem_cons, ih, and_assoc]

/-- Forests that grow from the same tops, with the same children everywhere, differ in order
only. -/
theorem reordered_of_grown {ts us : List Tree} (first : Grown m ts) (second : Grown other us)
    (tops : (ts.map id).Perm (us.map id))
    (siblings : ∀ name, (m.childrenOf name).Perm (other.childrenOf name)) : Reordered ts us := by
  induction ts using forest_induction generalizing us with
  | nil =>
    rw [List.map_nil, List.nil_perm, List.map_eq_nil_iff] at tops
    exact tops ▸ .nil
  | cons t ts below later =>
    obtain ⟨⟨label, children⟩, grownBelow, grownLater⟩ := grown_cons.mp first
    -- the counterpart of the first tree is moved to the front
    obtain ⟨u, member, same⟩ : ∃ u ∈ us, u.id = t.id := by
      rw [← List.mem_map, ← tops.mem_iff]
      exact List.mem_cons_self
    obtain ⟨others, front⟩ : ∃ others, (u :: others).Perm us := by
      obtain ⟨before, behind, rfl⟩ := List.append_of_mem member
      exact ⟨before ++ behind, List.perm_middle.symm⟩
    refine .trans ?_ (.of_perm front)
    have grown : Grown other (u :: others) := by
      rw [grown_iff_forall] at second ⊢
      exact fun v inside => second v (front.subset inside)
    obtain ⟨⟨label', children'⟩, grownBelow', grownLater'⟩ := grown_cons.mp grown
    have childTops : (t.children.map id).Perm (u.children.map id) := by
      rw [children, children', same]
      exact siblings t.id
    have laterTops : (ts.map id).Perm (others.map id) := by
      have all := tops.trans (front.map id).symm
      rw [List.map_cons, List.map_cons, same] at all
      exact all.cons_inv
    have reordered := below grownBelow grownBelow' childTops
    have behind := later grownLater grownLater' laterTops
    exact .of_parts same.symm (by rw [label, label', same]) reordered behind

end Tree

/-- The loop that a warning names. -/
def Warning.cycle? : Warning → Option Cycle
  | .cycle c => some c
  | .omitted _ => none

namespace ClassMap

/-- The names, each with its parent. -/
def parents (m : ClassMap) : List (String × Option String) :=
  m.entries.map fun c => (c.name, c.parent)

/-- Both maps declare the same names with the same parents, each in an order of its own. -/
def SameParents (m other : ClassMap) : Prop :=
  ∀ declared, declared ∈ m.parents ↔ declared ∈ other.parents

/-- The loops that a build warns about when it leaves them out, each as the set of its names. -/
def reportedLoops (components : Graph → List (List String)) (m : ClassMap) :
    Finset (Finset String) :=
  (((m.buildWarningsWith components .omit).filterMap Warning.cycle?).map
    (·.members.toFinset)).toFinset

variable {m other : ClassMap} {name : String}

/-! ## What follows from the parents -/

theorem names_eq_parents (m : ClassMap) : m.names = m.parents.map Prod.fst := by
  simp [names, parents]

theorem childrenOf_eq_parents (m : ClassMap) (name : String) :
    m.childrenOf name = (m.parents.filter (·.2 == some name)).map Prod.fst := by
  simp [childrenOf, parents, List.filter_map, Function.comp_def]

theorem discoveries_eq_parents (m : ClassMap) :
    m.discoveries = m.parents.map fun declared => declared.2.getD declared.1 := by
  simp [discoveries, parents]

theorem parentOf?_eq_some_iff_mem {parent : String} :
    m.parentOf? name = some parent ↔ (name, some parent) ∈ m.parents := by
  rw [parentOf?_eq_some_iff, parents, List.mem_map]
  simp only [Prod.mk.injEq]

namespace SameParents

variable (same : m.SameParents other)

include same

theorem perm : m.parents.Perm other.parents := by
  have nodup : ∀ m : ClassMap, m.parents.Nodup := by
    intro m
    exact .of_map Prod.fst (names_eq_parents m ▸ m.nodup_names)
  exact (List.perm_ext_iff_of_nodup (nodup m) (nodup other)).mpr same

theorem parentOf?_eq : m.parentOf? = other.parentOf? := by
  funext name
  ext parent
  rw [parentOf?_eq_some_iff_mem, parentOf?_eq_some_iff_mem, same]

theorem mem_names : name ∈ m.names ↔ name ∈ other.names := by
  rw [names_eq_parents, names_eq_parents]
  exact (same.perm.map _).mem_iff

theorem childrenOf_perm (name : String) : (m.childrenOf name).Perm (other.childrenOf name) := by
  rw [childrenOf_eq_parents, childrenOf_eq_parents]
  exact (same.perm.filter _).map _

theorem roots_perm : m.roots.Perm other.roots := by
  rw [List.perm_ext_iff_of_nodup m.nodup_roots other.nodup_roots]
  intro name
  rw [mem_roots, mem_roots, discoveries_eq_parents, discoveries_eq_parents, same.parentOf?_eq,
    (same.perm.map _).mem_iff]

theorem omitted_perm {forest forest' : List Tree} (placement : m.Placement forest)
    (placement' : other.Placement forest') :
    (m.omitted forest).Perm (other.omitted forest') := by
  rw [List.perm_ext_iff_of_nodup (m.nodup_omitted forest) (other.nodup_omitted forest')]
  intro name
  rw [mem_omitted placement, mem_omitted placement', same.mem_names, same.parentOf?_eq]

end SameParents

/-! ## What is reported -/

section Reports

variable {components : Graph → List (List String)} {forest : List Tree}

theorem cycles_buildWarningsWith (built : m.buildWith components .omit = .ok forest)
    (are : ∀ g : Graph, g.AreComponents (components g)) :
    (m.buildWarningsWith components .omit).filterMap Warning.cycle? =
      (m.loops components (m.omitted forest)).map (⟨·⟩) := by
  classical
  rw [buildWarningsWith_omit built]
  split
  · rename_i none
    have closed : m.HoldsParents [] := fun name member => absurd member List.not_mem_nil
    rw [none, loops_eq (are _) List.nodup_nil closed]
    rfl
  · simp [Warning.cycle?, List.filterMap_map, Function.comp_def]

/-- The loops reported are all that there are, whatever the order of the classes. -/
theorem mem_reportedLoops (are : ∀ g : Graph, g.AreComponents (components g))
    {members : Finset String} :
    members ∈ m.reportedLoops components ↔
      ∃ start, m.OnLoop start ∧ ∀ name, name ∈ members ↔
        Chain.Leads m.parentOf? start name := by
  classical
  obtain ⟨forest, placement, results⟩ := m.exists_forest
  have distinct := m.nodup_omitted forest
  have closed := holdsParents_omitted placement
  rw [reportedLoops, cycles_buildWarningsWith (results components).1 are,
    loops_eq (are _) distinct closed]
  simp only [List.map_map, List.mem_toFinset, List.mem_map, List.mem_filter, decide_eq_true_eq,
    Function.comp_apply]
  refine ⟨?_, ?_⟩
  · rintro ⟨start, ⟨-, first⟩, rfl⟩
    refine ⟨start, first.1, fun name => ?_⟩
    rw [List.mem_toFinset, mem_walkParents_of_onLoop first.1]
  · rintro ⟨start, loop, around⟩
    -- the loop is reported from the first of its classes
    have listed := mem_omitted_of_onLoop placement loop
    obtain ⟨first, listed', isStart, there⟩ := exists_loopStart listed loop
    refine ⟨first, ⟨listed', isStart⟩, ?_⟩
    ext name
    rw [List.mem_toFinset, mem_walkParents_of_onLoop isStart.1, around]
    exact ⟨there.trans, (loop.leads there).2.trans⟩

theorem omitted_mem_buildWarningsWith (built : m.buildWith components .omit = .ok forest)
    {count : Nat} :
    .omitted count ∈ m.buildWarningsWith components .omit ↔
      m.omitted forest ≠ [] ∧ count = (m.omitted forest).length := by
  rw [buildWarningsWith_omit built]
  split
  · rename_i none
    simp [none]
  · rename_i some
    simp [some]

/-- The loop for which a build fails is among those that are reported when loops are left out. -/
theorem mem_reportedLoops_of_error (are : ∀ g : Graph, g.AreComponents (components g)) {c : Cycle}
    (failed : m.buildWith components .fail = .error c) :
    c.members.toFinset ∈ m.reportedLoops components := by
  classical
  obtain ⟨start, found, walked⟩ := exists_start_of_error are failed
  have loop : m.OnLoop start := by simpa using List.find?_some found
  refine (mem_reportedLoops are).mpr ⟨start, loop, fun name => ?_⟩
  rw [List.mem_toFinset, walked, mem_walkParents_of_onLoop loop]

end Reports

/-- Of two maps that declare the same names with the same parents, a build fails for both or for
neither, and then for a loop that both have. Forests are the same up to the order of siblings, and
the same loops and the same number of classes are reported to be left out. -/
theorem buildWith_of_sameParents {components : Graph → List (List String)}
    (are : ∀ g : Graph, g.AreComponents (components g)) (same : m.SameParents other) :
    ((∃ c, m.buildWith components .fail = .error c) ↔
        ∃ c, other.buildWith components .fail = .error c) ∧
      (∀ c, m.buildWith components .fail = .error c →
        c.members.toFinset ∈ other.reportedLoops components) ∧
      (∀ handling forest forest', m.buildWith components handling = .ok forest →
        other.buildWith components handling = .ok forest' → Tree.Reordered forest forest') ∧
      m.reportedLoops components = other.reportedLoops components ∧
      ∀ count, .omitted count ∈ m.buildWarningsWith components .omit ↔
        .omitted count ∈ other.buildWarningsWith components .omit := by
  have reported : m.reportedLoops components = other.reportedLoops components := by
    ext members
    simp only [mem_reportedLoops are, OnLoop, same.parentOf?_eq]
  refine ⟨?_, ?_, ?_, reported, ?_⟩
  · rw [exists_error_iff, exists_error_iff]
    simp only [same.mem_names, OnLoop, same.parentOf?_eq]
  · intro c failed
    exact reported ▸ mem_reportedLoops_of_error are failed
  · intro handling forest forest' built built'
    have placement := placement_of_buildWith built
    have placement' := placement_of_buildWith built'
    refine Tree.reordered_of_grown placement.grown placement'.grown ?_ same.childrenOf_perm
    rw [placement.map_id, placement'.map_id]
    exact same.roots_perm
  · intro count
    obtain ⟨forest, placement, results⟩ := m.exists_forest
    obtain ⟨forest', placement', results'⟩ := other.exists_forest
    have omitted := same.omitted_perm placement placement'
    rw [omitted_mem_buildWarningsWith (results components).1,
      omitted_mem_buildWarningsWith (results' components).1, omitted.length_eq, ne_eq, ne_eq,
      ← List.length_eq_zero_iff, omitted.length_eq, List.length_eq_zero_iff]

/-- The classes of `tangled`, the last declared first. -/
def backwards : ClassMap where
  entries := tangled.entries.reverse
  distinct := by decide

/-- The roots change places, and each map reports the loop for which the other fails. -/
theorem tangled_backwards :
    (∀ g : Graph, g.AreComponents g.components) ∧ tangled.SameParents backwards ∧
      (∃ c, backwards.buildWith Graph.components .fail = .error c) ∧
      {"a", "b"} ∈ backwards.reportedLoops Graph.components ∧
      Tree.Reordered [.named "outside" [.named "" [.named "leaf" []]], .named "top" []]
        [.named "top" [], .named "outside" [.named "" [.named "leaf" []]]] ∧
      tangled.reportedLoops Graph.components = backwards.reportedLoops Graph.components ∧
      .omitted 4 ∈ backwards.buildWarningsWith Graph.components .omit := by
  have same : tangled.SameParents backwards := by
    intro declared
    simp only [parents, backwards, List.map_reverse, List.mem_reverse]
  obtain ⟨fails, found, forests, loops, counts⟩ :=
    buildWith_of_sameParents Graph.areComponents_components same
  have left : tangled.buildWith Graph.components .fail =
      .error ⟨(tangled.loops Graph.components ["tail", "b", "self", "a"]).headD []⟩ := by
    with_unfolding_all rfl
  have failed : tangled.buildWith Graph.components .fail = .error ⟨["b", "a", "b"]⟩ := by
    rw [left, tangled_loops]
    rfl
  have built : tangled.buildWith Graph.components .omit =
      .ok [.named "outside" [.named "" [.named "leaf" []]], .named "top" []] := by
    with_unfolding_all rfl
  have built' : backwards.buildWith Graph.components .omit =
      .ok [.named "top" [], .named "outside" [.named "" [.named "leaf" []]]] := by
    with_unfolding_all rfl
  have reported : {"a", "b"} ∈ backwards.reportedLoops Graph.components := by
    have members : ["b", "a", "b"].toFinset = {"a", "b"} := by decide
    exact members ▸ found _ failed
  have omitted : .omitted 4 ∈ tangled.buildWarningsWith Graph.components .omit :=
    (omitted_mem_buildWarningsWith built).mpr ⟨by decide, by decide⟩
  exact ⟨Graph.areComponents_components, same, fails.mp ⟨_, failed⟩, reported,
    forests .omit _ _ built built', loops, (counts 4).mp omitted⟩

end ClassMap

end Taxonomy
