import Mathlib.Data.List.Nodup
import Taxonomy.Forest.Graph
import Taxonomy.Proofs.Forest.Chain

/-!
# Strongly connected components

What is asked of strongly connected components is `Graph.AreComponents`: each node is in one of
them, and two nodes share one if each is reached from the other. `Graph.components` finds such
groups.
-/

namespace Taxonomy

section Groups

variable {α : Type} {related : α → α → Bool} {as : List α}

/-- Induction as the groups are split off: on what is left when those related to the first are
gone. -/
theorem groupWith_induction (related : α → α → Bool) {motive : List α → Prop}
    (nil : motive [])
    (cons : ∀ a as, motive (as.filter fun b => !related a b) → motive (a :: as))
    (as : List α) : motive as := by
  induction length : as.length using Nat.strongRecOn generalizing as with
  | _ n ih =>
    cases as with
    | nil => exact nil
    | cons a as =>
      have shorter := List.length_filter_le (fun b => !related a b) as
      rw [List.length_cons] at length
      exact cons a as (ih _ (by omega) _ rfl)

theorem flatten_groupWith (related : α → α → Bool) (as : List α) :
    (groupWith related as).flatten.Perm as := by
  induction as using groupWith_induction related with
  | nil => simp [groupWith]
  | cons a as ih =>
    rw [groupWith, List.flatten_cons, List.cons_append]
    refine .cons a (((List.perm_append_left_iff _).mpr ih).trans ?_)
    exact List.filter_append_perm (related a) as

theorem ne_nil_of_mem_groupWith {group : List α} (member : group ∈ groupWith related as) :
    group ≠ [] := by
  induction as using groupWith_induction related with
  | nil => simp [groupWith] at member
  | cons a as ih =>
    rw [groupWith] at member
    rcases List.mem_cons.mp member with rfl | later
    · exact List.cons_ne_nil _ _
    · exact ih later

/-- With an equivalence relation, the group of an element holds all that are related to it. -/
theorem mem_groupWith (equiv : Equivalence fun a b => related a b = true) {group : List α}
    (member : group ∈ groupWith related as) {x y : α} (inside : x ∈ group)
    (listed : y ∈ as) : y ∈ group ↔ related x y := by
  induction as using groupWith_induction related with
  | nil => simp [groupWith] at member
  | cons a as ih =>
    rw [groupWith] at member
    rcases List.mem_cons.mp member with rfl | later
    · have own : ∀ z ∈ a :: as, z ∈ a :: as.filter (related a) ↔ related a z := by
        intro z listed
        rcases List.mem_cons.mp listed with rfl | listed
        · simp [equiv.refl z]
        · rw [List.mem_cons, List.mem_filter]
          refine ⟨?_, fun close => .inr ⟨listed, close⟩⟩
          rintro (rfl | ⟨-, close⟩)
          · exact equiv.refl z
          · exact close
      have first : related a x := by
        apply (own x ?_).mp inside
        exact List.cons_subset_cons a (List.filter_subset_self as) inside
      rw [own y listed]
      exact ⟨equiv.trans (equiv.symm first), equiv.trans first⟩
    · have apart : ∀ z ∈ group, related a z = false := by
        intro z within
        have left := (flatten_groupWith related _).mem_iff.mp
          (List.mem_flatten.mpr ⟨group, later, within⟩)
        simpa using (List.mem_filter.mp left).2
      by_cases close : related a y
      · refine ⟨?_, ?_⟩
        · intro within
          rw [apart y within] at close
          cases close
        · intro near
          have := equiv.trans close (equiv.symm near)
          rw [apart x inside] at this
          cases this
      · apply ih later
        rcases List.mem_cons.mp listed with rfl | listed
        · exact absurd (equiv.refl y) close
        · exact List.mem_filter.mpr ⟨listed, by simpa using close⟩

theorem groupWith_map {β : Type} (f : β → α) (bs : List β) :
    groupWith related (bs.map f) =
      (groupWith (fun a b => related (f a) (f b)) bs).map (·.map f) := by
  induction bs using groupWith_induction fun a b => related (f a) (f b) with
  | nil => simp [groupWith]
  | cons b bs ih =>
    rw [List.map_cons, groupWith, groupWith, List.filter_map, List.filter_map, List.map_cons,
      List.map_cons, ← ih]
    rfl

end Groups

namespace Graph

variable {g : Graph}

/-- The groups are the strongly connected components of the graph, in any order. -/
structure AreComponents (g : Graph) (groups : List (List String)) : Prop where
  covers : groups.flatten.Perm g.nodes
  nonempty : ∀ group ∈ groups, group ≠ []
  connected : ∀ group ∈ groups, ∀ x ∈ group, ∀ y ∈ g.nodes,
    y ∈ group ↔ Chain.Leads g.edge? x y ∧ Chain.Leads g.edge? y x

theorem walk_eq_orbit (g : Graph) (steps : Nat) (x : String) :
    g.walk steps x = Chain.orbit g.edge? (steps + 1) x := by
  induction steps generalizing x with
  | zero => cases edge : g.edge? x <;> simp [walk, Chain.orbit, edge]
  | succ steps ih => cases edge : g.edge? x <;> simp [walk, Chain.orbit, edge, ih]

theorem mem_nodes_of_leads {x y : String} (leads : Chain.Leads g.edge? x y) :
    x = y ∨ y ∈ g.nodes := by
  rcases leads.eq_or_last with same | ⟨z, -, edge⟩
  · exact .inl same
  · exact .inr (g.closed z y edge)

/-- A walk of as many steps as there are nodes meets everything that is reached. -/
theorem mem_walk {x y : String} :
    y ∈ g.walk g.nodes.length x ↔ Chain.Leads g.edge? x y := by
  rw [walk_eq_orbit, Chain.mem_orbit]
  refine ⟨fun ⟨n, _, met⟩ => ⟨n, met⟩, ?_⟩
  intro leads
  have inside : ∀ z, Chain.Leads g.edge? x z → z ∈ x :: g.nodes := by
    intro z leads
    rcases mem_nodes_of_leads leads with rfl | node
    · exact List.mem_cons_self
    · exact List.mem_cons_of_mem x node
  obtain ⟨n, bound, met, -⟩ := Chain.exists_first_lt inside leads
  exact ⟨n, bound, met⟩

/-- The table of walks saves them from being repeated for each pair of nodes. -/
theorem components_eq (g : Graph) :
    g.components = groupWith (fun x y => (g.walk g.nodes.length x).contains y &&
      (g.walk g.nodes.length y).contains x) g.nodes := by
  rw [components]
  simp only [groupWith_map, List.map_map]
  simp [Function.comp_def]

theorem areComponents_components (g : Graph) : g.AreComponents g.components := by
  have related : ∀ x y, ((g.walk g.nodes.length x).contains y &&
      (g.walk g.nodes.length y).contains x) = true ↔
        Chain.Leads g.edge? x y ∧ Chain.Leads g.edge? y x := by
    intro x y
    rw [Bool.and_eq_true, List.contains_iff_mem, List.contains_iff_mem, mem_walk, mem_walk]
  rw [components_eq]
  refine ⟨flatten_groupWith _ g.nodes, fun _ => ne_nil_of_mem_groupWith, ?_⟩
  intro group member x inside y node
  rw [← related]
  apply mem_groupWith ?_ member inside node
  simp only [related]
  refine ⟨fun x => ⟨.refl _ x, .refl _ x⟩, And.symm, ?_⟩
  intro x y z first second
  exact ⟨first.1.trans second.1, second.2.trans first.2⟩

end Graph

end Taxonomy
