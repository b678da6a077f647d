import Taxonomy.Proofs.Forest.Omission
import Taxonomy.Proofs.Schema.ClassMap

/-!
# One more declaration

What a build makes of a map with one more class, told from the forest of the map before: the new
class is put below its parent (`Tree.under`), with the tree that it was the root of if it had been
given as a parent, or it closes a loop (`ClassMap.buildWith_insert`).
-/

namespace Taxonomy

theorem Chain.Leads.mono {α : Type} {f g : α → Option α} {x y : α} (leads : Leads f x y)
    (more : ∀ a b, f a = some b → g a = some b) : Leads g x y := by
  obtain ⟨n, met⟩ := leads
  refine ⟨n, ?_⟩
  induction n generalizing x with
  | zero => exact met
  | succ n ih =>
    rw [after, Option.bind_eq_some_iff] at met
    obtain ⟨z, step, met⟩ := met
    rw [after, more x z step, Option.bind_some]
    exact ih met

namespace Tree

mutual

/-- The tree with one more child, the last, at each node with the identifier of the parent. -/
def adopt (parent : String) (child : Tree) : Tree → Tree
  | node id label children =>
    node id label (adoptAll parent child children ++ if id = parent then [child] else [])

def adoptAll (parent : String) (child : Tree) : List Tree → List Tree
  | [] => []
  | t :: ts => adopt parent child t :: adoptAll parent child ts

end

/-- The forest with a tree below a parent: as its last child or, if the forest does not hold the
parent, as the only child of one more root. -/
def under (parent : String) (child : Tree) (forest : List Tree) : List Tree :=
  if parent ∈ ids forest then adoptAll parent child forest
  else forest ++ [.named parent [child]]

theorem preorderAll_append (ts us : List Tree) :
    preorderAll (ts ++ us) = preorderAll ts ++ preorderAll us := by
  induction ts with
  | nil => rfl
  | cons t ts ih => rw [List.cons_append, preorderAll, preorderAll, ih, List.append_assoc]

theorem ids_append (ts us : List Tree) : ids (ts ++ us) = ids ts ++ ids us := by
  rw [ids, preorderAll_append, List.map_append, ids, ids]

variable {m other : ClassMap} {parent : String} {child t : Tree} {ts us : List Tree}

theorem grown_append : Grown m (ts ++ us) ↔ Grown m ts ∧ Grown m us := by
  simp only [Grown, preorderAll_append, List.forall_mem_append]

@[simp] theorem id_adopt (t : Tree) : (adopt parent child t).id = t.id := by
  cases t
  rfl

@[simp] theorem label_adopt (t : Tree) : (adopt parent child t).label = t.label := by
  cases t
  rfl

theorem children_adopt (t : Tree) : (adopt parent child t).children =
    adoptAll parent child t.children ++ if t.id = parent then [child] else [] := by
  cases t
  rfl

@[simp] theorem map_id_adoptAll (ts : List Tree) :
    (adoptAll parent child ts).map id = ts.map id := by
  induction ts with
  | nil => rfl
  | cons t ts ih => rw [adoptAll, List.map_cons, List.map_cons, id_adopt, ih]

theorem mem_ids_adoptAll {name : String} :
    name ∈ ids (adoptAll parent child ts) ↔
      name ∈ ids ts ∨ parent ∈ ids ts ∧ name ∈ ids [child] := by
  induction ts using forest_induction with
  | nil => simp [adoptAll]
  | cons t ts below later =>
    rw [adoptAll, ids_cons, children_adopt, ids_append, ids_cons, id_adopt]
    by_cases here : t.id = parent
    · simp only [here, if_true, List.mem_cons, List.mem_append, below, later]
      grind
    · simp only [here, if_false, List.mem_cons, List.mem_append, below, later, ids_nil]
      grind

/-- A forest grows in another map as well, if its names have the same children there. -/
theorem Grown.congr (grown : Grown m ts)
    (same : ∀ name ∈ ids ts, other.childrenOf name = m.childrenOf name) : Grown other ts := by
  intro t member
  obtain ⟨label, children⟩ := grown t member
  exact ⟨label, children.trans (same t.id (List.mem_map_of_mem member)).symm⟩

/-- Adopting a tree is what a forest does where the parent has one more child. -/
theorem Grown.adoptAll (grown : Grown m ts) (grownChild : Grown other [child])
    (children : ∀ name ∈ ids ts, other.childrenOf name =
      m.childrenOf name ++ if name = parent then [child.id] else []) :
    Grown other (adoptAll parent child ts) := by
  induction ts using forest_induction with
  | nil => exact grown_nil other
  | cons t ts below later =>
    obtain ⟨⟨label, names⟩, grownBelow, grownLater⟩ := grown_cons.mp grown
    rw [ids_cons, List.forall_mem_cons, List.forall_mem_append] at children
    obtain ⟨here, childrenBelow, childrenLater⟩ := children
    rw [Tree.adoptAll, grown_cons, id_adopt, label_adopt, children_adopt, grown_append]
    refine ⟨⟨label, ?_⟩, ⟨below grownBelow childrenBelow, ?_⟩,
      later grownLater childrenLater⟩
    · rw [List.map_append, map_id_adoptAll, names, here]
      split <;> rfl
    · split
      · exact grownChild
      · exact grown_nil other

end Tree

namespace ClassMap

variable {m : ClassMap} {d : ClassDeclaration}

/-! ## The map with one more class -/

section Insert

variable (fresh : d.name ∉ m.names)

include fresh

theorem entries_insert : (m.insert d).2.entries = m.entries ++ [d] :=
  put_of_fresh fresh

theorem names_insert : (m.insert d).2.names = m.names ++ [d.name] := by
  rw [names, entries_insert fresh, List.map_append]
  rfl

theorem childrenOf_insert (name : String) : (m.insert d).2.childrenOf name =
    m.childrenOf name ++ if d.parent = some name then [d.name] else [] := by
  rw [childrenOf, entries_insert fresh, List.filter_append, List.map_append, ← childrenOf]
  by_cases child : d.parent = some name <;> simp [child]

end Insert

theorem parentOf?_insert (m : ClassMap) (d : ClassDeclaration) (name : String) :
    (m.insert d).2.parentOf? name = if d.name = name then d.parent else m.parentOf? name := by
  rw [parentOf?, get?_insert]
  split <;> rfl

/-! ## Its roots -/

section Roots

variable (fresh : d.name ∉ m.names)

include fresh

/-- The declaration is the last one to give a name that may be a root. -/
theorem referenced_insert : (m.insert d).2.referenced = m.referenced ++
    if d.parent.getD d.name ∈ m.discoveries then [] else [d.parent.getD d.name] := by
  rw [referenced, entries_insert fresh, List.map_append, List.map_singleton,
    List.eraseDups_append, ← referenced, List.removeAll, List.filter_singleton, ← discoveries]
  by_cases known : d.parent.getD d.name ∈ m.discoveries <;> simp [known, List.eraseDups_cons]

theorem roots_insert_of_none (alone : d.parent = none) : (m.insert d).2.roots =
    m.roots ++ if d.name ∈ m.discoveries then [] else [d.name] := by
  rw [roots, referenced_insert fresh, List.filter_append, alone, Option.getD_none]
  congr 1
  · refine List.filter_congr fun name _ => ?_
    rw [parentOf?_insert]
    split
    · rename_i same
      rw [alone, ← same, parentOf?_of_not_mem_names fresh]
    · rfl
  · split <;> simp [parentOf?_insert, alone]

theorem roots_insert_of_some {parent : String} (given : d.parent = some parent)
    (other : parent ≠ d.name) : (m.insert d).2.roots =
      m.roots.filter (· ≠ d.name) ++
        if parent ∈ m.discoveries ∨ m.parentOf? parent ≠ none then [] else [parent] := by
  rw [roots, referenced_insert fresh, List.filter_append, given, Option.getD_some, roots,
    List.filter_filter]
  congr 1
  · refine List.filter_congr fun name _ => ?_
    rw [parentOf?_insert]
    by_cases same : d.name = name
    · simp [same, given]
    · simp [same, Ne.symm same]
  · by_cases known : parent ∈ m.discoveries
    · simp [known]
    · cases top : m.parentOf? parent <;> simp [known, parentOf?_insert, other.symm, top]

end Roots

/-! ## Forests that hold every class -/

section Complete

variable {components : Graph → List (List String)} {forest : List Tree}

/-- What grows from the roots and holds every class is what is built. -/
theorem buildWith_of_grown (tops : forest.map Tree.id = m.roots) (grown : Tree.Grown m forest)
    (all : ∀ name ∈ m.names, name ∈ Tree.ids forest) :
    m.buildWith components .fail = .ok forest := by
  obtain ⟨other, placement, results⟩ := m.exists_forest
  obtain rfl := Tree.eq_of_grown placement.grown grown (placement.map_id.trans tops.symm)
  have none : m.omitted other = [] := by
    simpa [omitted, List.filter_eq_nil_iff] using all
  rw [(results components).2, if_pos none]

/-- Where no class is its own ancestor, a forest is built that holds every class. -/
theorem exists_complete_forest (free : ∀ name ∈ m.names, ¬ m.OnLoop name) :
    ∃ forest, m.Placement forest ∧ (∀ name ∈ m.names, name ∈ Tree.ids forest) ∧
      ∀ components, m.buildWith components .fail = .ok forest := by
  obtain ⟨forest, placement, results⟩ := m.exists_forest
  have none : m.omitted forest = [] := by
    by_contra left
    obtain ⟨name, declared, loop⟩ := (omitted_ne_nil_iff placement).mp left
    exact free name declared loop
  refine ⟨forest, placement, by simpa [omitted, List.filter_eq_nil_iff] using none, ?_⟩
  intro components
  rw [(results components).2, if_pos none]

variable (placement : m.Placement forest) (all : ∀ name ∈ m.names, name ∈ Tree.ids forest)

include placement

theorem mem_ids_of_mem_roots {name : String} (root : name ∈ m.roots) :
    name ∈ Tree.ids forest := by
  rw [← placement.map_id, List.mem_map] at root
  obtain ⟨t, top, rfl⟩ := root
  exact Tree.mem_ids_of_leads placement.grown top (.refl _ _)

/-- A name that is not declared is in the forest as a root, if at all. -/
theorem mem_ids_iff_mem_roots {name : String} (missing : name ∉ m.names) :
    name ∈ Tree.ids forest ↔ name ∈ m.roots := by
  refine ⟨?_, mem_ids_of_mem_roots placement⟩
  intro placed
  rcases (placement.mem_ids name).mp placed with grounded | implicit
  · exact absurd grounded.1 missing
  · exact mem_roots_iff.mpr ⟨parentOf?_of_not_mem_names missing, .inr implicit.2⟩

include all

/-- The forest holds what is a parent's name or has a parent itself. -/
theorem mem_ids_iff_discovered {name : String} :
    name ∈ Tree.ids forest ↔ name ∈ m.discoveries ∨ m.parentOf? name ≠ none := by
  by_cases top : m.parentOf? name = none
  · simp only [top, ne_eq, not_true_eq_false, or_false]
    refine ⟨?_,
      fun discovered => mem_ids_of_mem_roots placement (mem_roots.mpr ⟨discovered, top⟩)⟩
    intro placed
    refine (mem_roots.mp (mem_roots_iff.mpr ⟨top, ?_⟩)).1
    exact ((placement.mem_ids name).mp placed).imp And.left And.right
  · simp only [top, ne_eq, not_false_eq_true, or_true, iff_true]
    exact all name (mem_names_of_parentOf?_ne_none name top)

theorem childrenOf_of_not_mem_ids {name : String} (missing : name ∉ Tree.ids forest) :
    m.childrenOf name = [] := by
  refine List.eq_nil_iff_forall_not_mem.mpr fun child member => ?_
  obtain ⟨c, isEntry, -, given⟩ := parentOf?_eq_some_iff.mp (mem_childrenOf.mp member)
  refine missing ((placement.mem_ids name).mpr (.inr ⟨?_, c, isEntry, given⟩))
  exact fun declared => missing (all name declared)

end Complete

/-! ## What is built of it -/

/-- A forest in two parts: the tree of a class that is about to be declared, which is a leaf if the
forest does not hold it, and the other trees. -/
structure Parts (m : ClassMap) (name : String) (forest rest : List Tree) (child : Tree) : Prop where
  same : child.id = name
  tops : rest.map Tree.id = m.roots.filter (· ≠ name)
  grown : Tree.Grown m rest
  grownChild : Tree.Grown m [child]
  held : ∀ other ∈ Tree.ids forest, other ∈ Tree.ids rest ∨ other ∈ Tree.ids [child]
  kept : ∀ other ∈ Tree.ids rest, other ∈ Tree.ids forest

section Parts

variable {components : Graph → List (List String)} {forest rest : List Tree} {child : Tree}
  {name parent : String} (placement : m.Placement forest)

include placement

theorem parts_of_fresh (all : ∀ name ∈ m.names, name ∈ Tree.ids forest)
    (absent : name ∉ Tree.ids forest) : m.Parts name forest forest (.named name []) := by
  have notRoot : name ∉ m.roots := fun root => absent (mem_ids_of_mem_roots placement root)
  refine ⟨rfl, ?_, placement.grown, ?_, fun _ => .inl, fun _ placed => placed⟩
  · rw [placement.map_id, List.filter_eq_self.mpr]
    intro root member
    simpa using fun same : root = name => notRoot (same ▸ member)
  · have none := childrenOf_of_not_mem_ids placement all absent
    exact Tree.grown_cons.mpr ⟨⟨rfl, none.symm⟩, Tree.grown_nil m, Tree.grown_nil m⟩

theorem parts_of_root {before after : List Tree} (split : forest = before ++ child :: after)
    (same : child.id = name) : m.Parts name forest (before ++ after) child := by
  have grown := placement.grown
  rw [split, Tree.grown_append, ← List.singleton_append, Tree.grown_append] at grown
  have roots : m.roots = before.map Tree.id ++ name :: after.map Tree.id := by
    rw [← placement.map_id, split, List.map_append, List.map_cons, same]
  have once := m.nodup_roots
  rw [roots, List.nodup_middle, List.nodup_cons] at once
  have ids : ∀ other, other ∈ Tree.ids forest ↔
      other ∈ Tree.ids (before ++ after) ∨ other ∈ Tree.ids [child] := by
    intro other
    rw [split, ← List.singleton_append]
    simp only [Tree.ids_append, List.mem_append]
    tauto
  refine ⟨same, ?_, Tree.grown_append.mpr ⟨grown.1, grown.2.2⟩, grown.2.1,
    fun other => (ids other).mp, fun other placed => (ids other).mpr (.inl placed)⟩
  rw [roots, List.map_append, List.filter_append, List.filter_cons_of_neg (by simp),
    ← List.filter_append, List.filter_eq_self.mpr]
  intro root member
  simpa using fun other : root = name => once.1 (other ▸ member)

variable (all : ∀ name ∈ m.names, name ∈ Tree.ids forest) (fresh : d.name ∉ m.names)
  (given : d.parent = some parent) (parts : m.Parts d.name forest rest child)
  (apart : parent ∉ Tree.ids [child])

include all fresh given parts apart

/-- The class goes below its parent, with the tree that it was the root of. -/
theorem buildWith_insert_under :
    (m.insert d).2.buildWith components .fail = .ok (Tree.under parent child rest) := by
  have own : child.id ∈ Tree.ids [child] := by simp [Tree.ids_cons]
  have other : parent ≠ d.name := by
    rintro rfl
    exact apart (parts.same ▸ own)
  have children : ∀ name, (m.insert d).2.childrenOf name =
      m.childrenOf name ++ if name = parent then [child.id] else [] := by
    intro name
    rw [childrenOf_insert fresh, given, parts.same]
    simp only [Option.some.injEq, eq_comm]
  have unchanged : ∀ {ts}, parent ∉ Tree.ids ts → Tree.Grown m ts →
      Tree.Grown (m.insert d).2 ts := by
    intro ts outside grown
    refine grown.congr fun name member => ?_
    have away : name ≠ parent := fun h => outside (h ▸ member)
    rw [children, if_neg away, List.append_nil]
  have inside : parent ∈ m.discoveries ∨ m.parentOf? parent ≠ none ↔
      parent ∈ Tree.ids rest := by
    rw [← mem_ids_iff_discovered placement all]
    exact ⟨fun placed => (parts.held parent placed).resolve_right apart, parts.kept parent⟩
  have roots := roots_insert_of_some fresh given other
  rw [← parts.tops] at roots
  simp only [inside] at roots
  have held : ∀ name ∈ (m.insert d).2.names, name ∈ Tree.ids rest ∨
      name ∈ Tree.ids [child] := by
    intro name declared
    rw [names_insert fresh, List.mem_append, List.mem_singleton] at declared
    rcases declared with declared | rfl
    · exact parts.held name (all name declared)
    · exact .inr (parts.same ▸ own)
  rw [Tree.under]
  by_cases known : parent ∈ Tree.ids rest
  · rw [if_pos known] at roots ⊢
    have grown :=
      parts.grown.adoptAll (unchanged apart parts.grownChild) fun name _ => children name
    refine buildWith_of_grown ?_ grown fun name declared => ?_
    · rw [Tree.map_id_adoptAll, roots, List.append_nil]
    · rw [Tree.mem_ids_adoptAll]
      exact (held name declared).imp_right fun below => ⟨known, below⟩
  · rw [if_neg known] at roots ⊢
    have grownRoot : Tree.Grown (m.insert d).2 [.named parent [child]] := by
      refine Tree.grown_cons.mpr
        ⟨⟨rfl, ?_⟩, unchanged apart parts.grownChild, Tree.grown_nil _⟩
      have absent : parent ∉ Tree.ids forest := fun placed =>
        known ((parts.held parent placed).resolve_right apart)
      have names := children parent
      rw [childrenOf_of_not_mem_ids placement all absent, if_pos rfl] at names
      exact names.symm
    refine buildWith_of_grown ?_
      (Tree.grown_append.mpr ⟨unchanged known parts.grown, grownRoot⟩) fun name declared => ?_
    · rw [List.map_append, roots]
      rfl
    · rw [Tree.ids_append, List.mem_append, Tree.ids_cons]
      exact (held name declared).imp_right fun below =>
        List.mem_cons_of_mem _ (List.mem_append_left _ below)

end Parts

section Build

variable {components : Graph → List (List String)} {forest : List Tree}
  (placement : m.Placement forest) (all : ∀ name ∈ m.names, name ∈ Tree.ids forest)
  (fresh : d.name ∉ m.names)

include placement all fresh

/-- A class without a parent becomes a root, unless it has been given as a parent. -/
theorem buildWith_insert_alone (alone : d.parent = none) :
    (m.insert d).2.buildWith components .fail =
      .ok (if d.name ∈ Tree.ids forest then forest else forest ++ [.named d.name []]) := by
  have children : ∀ name, (m.insert d).2.childrenOf name = m.childrenOf name := by
    intro name
    simp [childrenOf_insert fresh, alone]
  have grown : Tree.Grown (m.insert d).2 forest :=
    placement.grown.congr fun name _ => children name
  have roots := roots_insert_of_none fresh alone
  have known : d.name ∈ m.discoveries ↔ d.name ∈ Tree.ids forest := by
    simp [mem_ids_iff_discovered placement all, parentOf?_of_not_mem_names fresh]
  simp only [known, ← placement.map_id] at roots
  by_cases placed : d.name ∈ Tree.ids forest
  · rw [if_pos placed] at roots ⊢
    refine buildWith_of_grown (by rw [roots, List.append_nil]) grown fun name declared => ?_
    rw [names_insert fresh, List.mem_append, List.mem_singleton] at declared
    exact declared.elim (all name) (· ▸ placed)
  · rw [if_neg placed] at roots ⊢
    have leaf : Tree.Grown (m.insert d).2 [.named d.name []] := by
      refine Tree.grown_cons.mpr ⟨⟨rfl, ?_⟩, Tree.grown_nil _, Tree.grown_nil _⟩
      exact ((children d.name).trans (childrenOf_of_not_mem_ids placement all placed)).symm
    refine buildWith_of_grown (by rw [roots, List.map_append]; rfl)
      (Tree.grown_append.mpr ⟨grown, leaf⟩) fun name declared => ?_
    rw [names_insert fresh, List.mem_append] at declared
    rw [Tree.ids_append, List.mem_append]
    exact declared.imp_left (all name)

end Build

/-- A class whose new parent is below it is its own ancestor. -/
theorem buildWith_insert_loop {components : Graph → List (List String)} {t : Tree}
    {parent : String} (fresh : d.name ∉ m.names) (given : d.parent = some parent)
    (grown : Tree.Grown m [t]) (same : t.id = d.name) (below : parent ∈ Tree.ids [t]) :
    ∃ c, (m.insert d).2.buildWith components .fail = .error c := by
  obtain ⟨u, top, leads⟩ := Tree.leads_of_mem_ids grown below
  rw [List.mem_singleton.mp top, same] at leads
  have step : (m.insert d).2.parentOf? d.name = some parent := by
    rw [parentOf?_insert, if_pos rfl, given]
  refine (exists_error_iff components _).mpr ⟨d.name, mem_names_of_parentOf? step, ?_⟩
  refine Chain.returns_iff.mpr ⟨parent, step, leads.mono fun a b found => ?_⟩
  have declared : d.name ≠ a := fun h => fresh (h ▸ mem_names_of_parentOf? found)
  rw [parentOf?_insert, if_neg declared, found]

/-- One more class in a map without loops: alone it is a new root, unless it was one already; with a
parent it goes below that, and the tree that it was the root of with it; and if that tree holds the
parent, or the class is its own parent, there is a loop. -/
theorem buildWith_insert (components : Graph → List (List String))
    (free : ∀ name ∈ m.names, ¬ m.OnLoop name) (fresh : d.name ∉ m.names) :
    ∃ forest, m.buildWith components .fail = .ok forest ∧
      (d.name ∈ Tree.ids forest →
        ∃ before t after, forest = before ++ t :: after ∧ t.id = d.name) ∧
      (d.parent = none → (m.insert d).2.buildWith components .fail =
        .ok (if d.name ∈ Tree.ids forest then forest else forest ++ [.named d.name []])) ∧
      ∀ parent, d.parent = some parent →
        (parent = d.name → ∃ c, (m.insert d).2.buildWith components .fail = .error c) ∧
        (parent ≠ d.name → d.name ∉ Tree.ids forest →
          (m.insert d).2.buildWith components .fail =
            .ok (Tree.under parent (.named d.name []) forest)) ∧
        ∀ before t after, forest = before ++ t :: after → t.id = d.name →
          (parent ∉ Tree.ids [t] → (m.insert d).2.buildWith components .fail =
            .ok (Tree.under parent t (before ++ after))) ∧
          (parent ∈ Tree.ids [t] →
            ∃ c, (m.insert d).2.buildWith components .fail = .error c) := by
  obtain ⟨forest, placement, all, built⟩ := exists_complete_forest free
  refine ⟨forest, built components, ?_, buildWith_insert_alone placement all fresh, ?_⟩
  · intro placed
    have root := (mem_ids_iff_mem_roots placement fresh).mp placed
    rw [← placement.map_id, List.mem_map] at root
    obtain ⟨t, top, same⟩ := root
    obtain ⟨before, after, split⟩ := List.append_of_mem top
    exact ⟨before, t, after, split, same⟩
  · intro parent given
    refine ⟨?_, ?_, ?_⟩
    · rintro rfl
      have step : (m.insert d).2.parentOf? d.name = some d.name := by
        rw [parentOf?_insert, if_pos rfl, given]
      refine (exists_error_iff components _).mpr ⟨d.name, mem_names_of_parentOf? step, ?_⟩
      exact Chain.returns_iff.mpr ⟨d.name, step, .refl _ _⟩
    · intro other absent
      have parts := parts_of_fresh placement all absent
      have apart : parent ∉ Tree.ids [.named d.name []] := by
        simpa [Tree.ids_cons, Tree.named, Tree.id, Tree.children] using other
      exact buildWith_insert_under placement all fresh given parts apart
    · intro before t after split same
      have parts := parts_of_root placement split same
      exact ⟨buildWith_insert_under placement all fresh given parts,
        buildWith_insert_loop fresh given parts.grownChild same⟩

/-- A class whose parent is not declared, and another root with a class below it. -/
def scattered : ClassMap where
  entries := [{ name := "leaf", parent := some "x" }, { name := "q", parent := some "top" }]
  distinct := by decide

/-- The tree that is waiting for the class moves below its parent, or holds it. -/
theorem scattered_insert :
    (∀ name ∈ scattered.names, ¬ scattered.OnLoop name) ∧ "x" ∉ scattered.names ∧
      scattered.buildWith Graph.components .fail =
        .ok [.named "x" [.named "leaf" []], .named "top" [.named "q" []]] ∧
      (scattered.insert { name := "x", parent := some "q" }).2.buildWith Graph.components .fail =
        .ok [.named "top" [.named "q" [.named "x" [.named "leaf" []]]]] ∧
      ∃ c, (scattered.insert { name := "x", parent := some "leaf" }).2.buildWith Graph.components
        .fail = .error c := by
  have free : ∀ name ∈ scattered.names, ¬ scattered.OnLoop name := by
    intro name declared loop
    have apart : ∀ name ∈ scattered.names, ¬ scattered.RunsIntoLoop name := by decide
    exact apart name declared ⟨name, .refl _ _, loop⟩
  have fresh : "x" ∉ scattered.names := by decide
  have built : scattered.buildWith Graph.components .fail =
      .ok [.named "x" [.named "leaf" []], .named "top" [.named "q" []]] := by
    with_unfolding_all rfl
  refine ⟨free, fresh, built, ?_, ?_⟩
  · obtain ⟨forest, built', -, -, moved⟩ :=
      buildWith_insert (d := { name := "x", parent := some "q" }) Graph.components free fresh
    obtain rfl := Except.ok.inj (built.symm.trans built')
    exact ((moved "q" rfl).2.2 [] _ _ rfl rfl).1 (by decide)
  · obtain ⟨forest, built', -, -, moved⟩ :=
      buildWith_insert (d := { name := "x", parent := some "leaf" }) Graph.components free fresh
    obtain rfl := Except.ok.inj (built.symm.trans built')
    exact ((moved "leaf" rfl).2.2 [] _ _ rfl rfl).2 (by decide)

end ClassMap

end Taxonomy
