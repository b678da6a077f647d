import Mathlib.Data.List.Find
import Taxonomy.Proofs.Forest.Components
import Taxonomy.Proofs.Forest.Placement

/-!
# Loops of parents

Among names that hold the parents of their classes, the loops are found in the order of their first
names, each of them walked from there (`ClassMap.loops_eq`). The classes that the forest leaves out
are such names, and all loops are among them: a build that fails reports the first loop of the map
(`ClassMap.buildWith_fail`).
-/

namespace Taxonomy

/-! ## Sorting by first places -/

theorem idxOf_le_of_find? {α : Type} [DecidableEq α] {p : α → Bool} {l : List α} {x y : α}
    (found : l.find? p = some x) (other : p y) : l.idxOf x ≤ l.idxOf y := by
  obtain ⟨own, before, later, rfl, earlier⟩ := List.find?_eq_some_iff_append.mp found
  have notBefore : ∀ z, p z → z ∉ before := by
    intro z holds member
    have := earlier z member
    rw [holds] at this
    cases this
  rw [List.idxOf_append, if_neg (notBefore x own), List.idxOf_append, if_neg (notBefore y other),
    List.idxOf_cons_self]
  omega

/-- The elements of a list without repetitions stand in the order of their places. -/
theorem pairwise_idxOf {α : Type} [DecidableEq α] {l : List α} (distinct : l.Nodup) :
    l.Pairwise fun a b => l.idxOf a < l.idxOf b := by
  rw [List.pairwise_iff_getElem]
  intro i j first second before
  rwa [distinct.idxOf_getElem, distinct.idxOf_getElem]

/-- Sorting some elements of a list by their places picks them from the list in order. -/
theorem mergeSort_idxOf {α : Type} [DecidableEq α] {p : α → Bool} {l picked : List α}
    (distinct : l.Nodup) (once : picked.Nodup) (same : ∀ x, x ∈ picked ↔ x ∈ l ∧ p x) :
    (picked.mergeSort fun a b => l.idxOf a ≤ l.idxOf b) = l.filter p := by
  have ordered : l.Pairwise fun a b => l.idxOf a ≤ l.idxOf b :=
    (pairwise_idxOf distinct).imp Nat.le_of_lt
  have perm : (picked.mergeSort fun a b => l.idxOf a ≤ l.idxOf b).Perm (l.filter p) := by
    refine (List.mergeSort_perm _ _).trans ?_
    rw [List.perm_ext_iff_of_nodup once (distinct.filter p)]
    simpa only [List.mem_filter] using same
  have sorted : (picked.mergeSort fun a b => l.idxOf a ≤ l.idxOf b).Pairwise
      fun a b => l.idxOf a ≤ l.idxOf b := by
    have := @List.pairwise_mergeSort α (fun a b => decide (l.idxOf a ≤ l.idxOf b))
      (by simp only [decide_eq_true_eq]; exact fun a b c => Nat.le_trans)
      (by simp only [Bool.or_eq_true, decide_eq_true_eq]; exact fun a b => Nat.le_total _ _) picked
    simpa only [decide_eq_true_eq] using this
  refine perm.eq_of_pairwise ?_ sorted (ordered.sublist List.filter_sublist)
  intro a b first _ before after
  have member := (List.mem_filter.mp (perm.subset first)).1
  exact (List.idxOf_inj member).mp (Nat.le_antisymm before after)

namespace Graph

variable {g : Graph} {groups : List (List String)} {group : List String} {x : String}

theorem AreComponents.mem_nodes (are : g.AreComponents groups) (member : group ∈ groups)
    (inside : x ∈ group) : x ∈ g.nodes :=
  are.covers.subset (List.mem_flatten.mpr ⟨group, member, inside⟩)

/-- Each node of a component that counts as a loop comes back to itself. -/
theorem AreComponents.returns (are : g.AreComponents groups) (member : group ∈ groups)
    (once : group.Nodup) (loop : ClassMap.isLoop g group) (inside : x ∈ group) :
    Chain.Returns g.edge? x := by
  rw [ClassMap.isLoop, Bool.or_eq_true, decide_eq_true_eq] at loop
  rcases loop with long | self
  · have another : ∃ y ∈ group, x ≠ y := by
      by_contra all
      have subset : group ⊆ [x] := by
        intro y within
        by_contra other
        exact all ⟨y, within, fun same => other (List.mem_singleton.mpr same.symm)⟩
      have := once.length_le_of_subset subset
      rw [List.length_singleton] at this
      omega
    obtain ⟨y, within, other⟩ := another
    obtain ⟨there, back⟩ :=
      (are.connected group member x inside y (are.mem_nodes member within)).mp within
    exact .of_both there back other
  · rw [Option.any_eq_true] at self
    obtain ⟨y, head, edge⟩ := self
    have edge : g.edge? y = some y := of_decide_eq_true edge
    have loop : Chain.Returns g.edge? y := ⟨0, by rw [Chain.after_one, edge]⟩
    have within := List.mem_of_mem_head? (Option.mem_def.mpr head)
    obtain ⟨there, -⟩ :=
      (are.connected group member y within x (are.mem_nodes member inside)).mp inside
    exact (loop.leads there).1

theorem AreComponents.isLoop (are : g.AreComponents groups) (member : group ∈ groups)
    (inside : x ∈ group) (returns : Chain.Returns g.edge? x) : ClassMap.isLoop g group := by
  rw [ClassMap.isLoop, Bool.or_eq_true, decide_eq_true_eq]
  by_cases long : group.length > 1
  · exact .inl long
  · refine .inr ?_
    have alone : group = [x] := by
      obtain ⟨y, rfl⟩ : ∃ y, group = [y] := by
        rw [← List.length_eq_one_iff]
        have := List.length_pos_of_mem inside
        omega
      rw [List.mem_singleton.mp inside]
    obtain ⟨y, edge, back⟩ := Chain.returns_iff.mp returns
    have within : y ∈ group :=
      (are.connected group member x inside y (g.closed x y edge)).mpr ⟨.of_step edge, back⟩
    rw [alone, List.mem_singleton] at within
    subst within
    simp [alone, edge]

end Graph

namespace ClassMap

variable {m : ClassMap} {names : List String}

/-! ## The graph of names that hold the parents of their classes -/

/-- The parents of the classes in a list are in it as well. -/
def HoldsParents (m : ClassMap) (names : List String) : Prop :=
  ∀ name ∈ names, ∀ parent, m.parentOf? name = some parent → parent ∈ names

theorem after_parentGraph (closed : m.HoldsParents names) {name : String} (listed : name ∈ names)
    (n : Nat) :
    after (m.parentGraph names).edge? n name = after m.parentOf? n name := by
  refine Chain.after_congr (· ∈ names) (fun x y listed => closed x listed y) ?_ listed n
  intro x listed
  cases step : m.parentOf? x with
  | none => simp [parentGraph, step]
  | some parent => simp [parentGraph, step, closed x listed parent step]

theorem leads_parentGraph (closed : m.HoldsParents names) {name : String} (listed : name ∈ names)
    (other : String) :
    Chain.Leads (m.parentGraph names).edge? name other ↔ Chain.Leads m.parentOf? name other := by
  simp only [Chain.Leads, after_parentGraph closed listed]

theorem returns_parentGraph (closed : m.HoldsParents names) {name : String}
    (listed : name ∈ names) :
    Chain.Returns (m.parentGraph names).edge? name ↔ m.OnLoop name := by
  simp only [Chain.Returns, OnLoop, after_parentGraph closed listed]

/-! ## Which loops are found -/

/-- The name is the first of a list on its loop. -/
def LoopStart (m : ClassMap) (names : List String) (name : String) : Prop :=
  m.OnLoop name ∧
    ∀ other, Chain.Leads m.parentOf? name other → names.idxOf name ≤ names.idxOf other

/-- The first of a list on a loop, for a class that is listed and on it. -/
theorem exists_loopStart {name : String} (listed : name ∈ names) (loop : m.OnLoop name) :
    ∃ start ∈ names, m.LoopStart names start ∧ Chain.Leads m.parentOf? name start := by
  classical
  cases found : names.find? fun other => Chain.Leads m.parentOf? name other with
  | none =>
    have passed := List.find?_eq_none.mp found name listed
    exact absurd (decide_eq_true (Chain.Leads.refl _ name)) passed
  | some start =>
    have there : Chain.Leads m.parentOf? name start := by simpa using List.find?_some found
    refine ⟨start, List.mem_of_find?_eq_some found, ⟨(loop.leads there).1, ?_⟩, there⟩
    intro other leads
    exact idxOf_le_of_find? found (decide_eq_true (there.trans leads))

theorem loopStart_of_component {groups : List (List String)} {group : List String} {start : String}
    (closed : m.HoldsParents names) (are : (m.parentGraph names).AreComponents groups)
    (member : group ∈ groups) (once : group.Nodup) (loop : isLoop (m.parentGraph names) group)
    (found : names.find? (· ∈ group) = some start) :
    start ∈ names ∧ m.LoopStart names start := by
  have listed := List.mem_of_find?_eq_some found
  have inside : start ∈ group := by simpa using List.find?_some found
  have returns := are.returns member once loop inside
  refine ⟨listed, (returns_parentGraph closed listed).mp returns, ?_⟩
  intro other leads
  apply idxOf_le_of_find? found
  have there := (leads_parentGraph closed listed other).mpr leads
  have node : other ∈ (m.parentGraph names).nodes := by
    rcases Graph.mem_nodes_of_leads there with rfl | node
    · exact listed
    · exact node
  have within := (are.connected group member start inside other node).mpr
    ⟨there, (returns.leads there).2⟩
  exact decide_eq_true within

theorem exists_component_of_loopStart {groups : List (List String)} {start : String}
    (closed : m.HoldsParents names) (are : (m.parentGraph names).AreComponents groups)
    (listed : start ∈ names) (first : m.LoopStart names start) :
    ∃ group ∈ groups, isLoop (m.parentGraph names) group ∧
      names.find? (· ∈ group) = some start := by
  obtain ⟨group, member, inside⟩ := List.mem_flatten.mp (are.covers.mem_iff.mpr listed)
  have returns := (returns_parentGraph closed listed).mpr first.1
  refine ⟨group, member, are.isLoop member inside returns, ?_⟩
  cases found : names.find? (· ∈ group) with
  | none => exact absurd (decide_eq_true inside) (List.find?_eq_none.mp found start listed)
  | some other =>
    have within : other ∈ group := by simpa using List.find?_some found
    have node := are.mem_nodes member within
    obtain ⟨there, -⟩ := (are.connected group member start inside other node).mp within
    have before := first.2 other ((leads_parentGraph closed listed other).mp there)
    have after := idxOf_le_of_find? found (y := start) (decide_eq_true inside)
    rw [(List.idxOf_inj listed).mp (Nat.le_antisymm before after)]

/-- The loops are found in the order of their first names, whatever the order of the components. -/
theorem loops_eq {components : Graph → List (List String)}
    (are : (m.parentGraph names).AreComponents (components (m.parentGraph names)))
    (distinct : names.Nodup) (closed : m.HoldsParents names)
    [DecidablePred (m.LoopStart names)] :
    m.loops components names = (names.filter fun x => m.LoopStart names x).map m.walkParents := by
  obtain ⟨once, apart⟩ := List.nodup_flatten.mp (are.covers.nodup_iff.mpr distinct)
  rw [loops]
  congr 1
  apply mergeSort_idxOf distinct
  · rw [List.Nodup, List.pairwise_filterMap]
    refine (apart.sublist List.filter_sublist).imp ?_
    rintro a b disjoint x first y second rfl
    exact disjoint (by simpa using List.find?_some first) (by simpa using List.find?_some second)
  · intro start
    simp only [List.mem_filterMap, List.mem_filter, decide_eq_true_eq]
    refine ⟨?_, ?_⟩
    · rintro ⟨group, ⟨member, loop⟩, found⟩
      exact loopStart_of_component closed are member (once group member) loop found
    · rintro ⟨listed, first⟩
      obtain ⟨group, member, loop, found⟩ :=
        exists_component_of_loopStart closed are listed first
      exact ⟨group, ⟨member, loop⟩, found⟩

/-- The first loop found is walked from the first name that is on any. -/
theorem head?_loops {components : Graph → List (List String)}
    (are : (m.parentGraph names).AreComponents (components (m.parentGraph names)))
    (distinct : names.Nodup) (closed : m.HoldsParents names)
    [DecidablePred m.OnLoop] :
    (m.loops components names).head? = (names.find? fun x => m.OnLoop x).map m.walkParents := by
  classical
  rw [loops_eq are distinct closed, List.head?_map, List.head?_filter]
  congr 1
  cases found : names.find? fun x => decide (m.OnLoop x) with
  | none =>
    rw [List.find?_eq_none] at found ⊢
    intro x listed first
    exact found x listed (decide_eq_true (of_decide_eq_true first).1)
  | some start =>
    have first : m.LoopStart names start := by
      have loop : m.OnLoop start := by simpa using List.find?_some found
      refine ⟨loop, fun other leads => ?_⟩
      exact idxOf_le_of_find? found (decide_eq_true (loop.leads leads).1)
    obtain ⟨-, before, later, split, earlier⟩ := List.find?_eq_some_iff_append.mp found
    rw [List.find?_eq_some_iff_append]
    refine ⟨decide_eq_true first, before, later, split, ?_⟩
    intro x member
    have off : ¬ m.OnLoop x := by simpa using earlier x member
    simpa using fun other : m.LoopStart names x => off other.1

/-! ## Walking a loop -/

/-- Parents are walked until the start is met. -/
theorem walkUp_eq_orbit {start current parent : String} {n steps : Nat}
    (step : m.parentOf? current = some parent) (met : after m.parentOf? n parent = some start)
    (first : ∀ i < n, after m.parentOf? i parent ≠ some start) (enough : n < steps) :
    m.walkUp start steps current = Chain.orbit m.parentOf? (n + 1) parent := by
  induction n generalizing current parent steps with
  | zero =>
    obtain ⟨steps, rfl⟩ := Nat.exists_eq_succ_of_ne_zero (by omega : steps ≠ 0)
    obtain rfl : parent = start := Option.some.inj met
    cases step' : m.parentOf? parent <;> simp [walkUp, step, Chain.orbit, step']
  | succ n ih =>
    obtain ⟨steps, rfl⟩ := Nat.exists_eq_succ_of_ne_zero (by omega : steps ≠ 0)
    have other : parent ≠ start := by
      intro same
      exact first 0 (by omega) (by rw [after, same])
    cases step' : m.parentOf? parent with
    | none => simp [after, step'] at met
    | some next =>
      have later : m.walkUp start steps parent = Chain.orbit m.parentOf? (n + 1) next := by
        apply ih step'
        · simpa [after, step'] using met
        · intro i lt
          have := first (i + 1) (by omega)
          simpa [after, step'] using this
        · omega
      rw [Chain.orbit_cons step', ← later, walkUp, step]
      simp only [if_neg other]

/-- From a class on a loop parents are walked until it is met for the first time: no loop is longer
than there are classes, so as many steps are enough and more make no difference. -/
theorem walkUp_eq_orbit_of_onLoop {start : String} (loop : m.OnLoop start) :
    ∃ parent n, m.parentOf? start = some parent ∧ after m.parentOf? n parent = some start ∧
      (∀ i < n, after m.parentOf? i parent ≠ some start) ∧
        ∀ steps, m.size ≤ steps →
          start :: m.walkUp start steps start = Chain.orbit m.parentOf? (n + 1 + 1) start := by
  obtain ⟨parent, step, back⟩ := Chain.returns_iff.mp loop
  have inside : ∀ z, Chain.Leads m.parentOf? parent z → z ∈ m.names := by
    intro z leads
    exact mem_names_of_onLoop (loop.leads ((Chain.Leads.of_step step).trans leads)).1
  obtain ⟨n, bound, met, first⟩ := Chain.exists_first_lt inside back
  have length : m.names.length = m.size := List.length_map _
  refine ⟨parent, n, step, met, first, ?_⟩
  intro steps enough
  rw [walkUp_eq_orbit step met first (by omega), Chain.orbit_cons step]

theorem walkParents_eq_orbit {start : String} (loop : m.OnLoop start) :
    ∃ parent n, m.parentOf? start = some parent ∧ after m.parentOf? n parent = some start ∧
      (∀ i < n, after m.parentOf? i parent ≠ some start) ∧
        m.walkParents start = Chain.orbit m.parentOf? (n + 1 + 1) start := by
  obtain ⟨parent, n, step, met, first, walked⟩ := walkUp_eq_orbit_of_onLoop loop
  exact ⟨parent, n, step, met, first, walked _ (Nat.le_succ _)⟩

/-- A class on a loop is walked around it once. -/
theorem walkParents_of_onLoop {start : String} (loop : m.OnLoop start) :
    ∃ between, m.walkParents start = start :: between ++ [start] ∧ (start :: between).Nodup ∧
      (m.walkParents start).IsChain fun a b => m.parentOf? a = some b := by
  obtain ⟨parent, n, step, met, first, walked⟩ := walkParents_eq_orbit loop
  have around : after m.parentOf? (n + 1) start = some start := by
    rw [after, step, Option.bind_some, met]
  refine ⟨Chain.orbit m.parentOf? n parent, ?_, ?_, ?_⟩
  · rw [walked, Chain.orbit_cons step, Chain.orbit_succ met, List.cons_append]
  · have once := Chain.nodup_orbit met first
    rw [Chain.orbit_succ met] at once
    exact (List.perm_append_singleton start _).nodup_iff.mp once
  · rw [walked]
    exact Chain.isChain_orbit around

/-- The walk around a loop meets all of it and nothing else. -/
theorem mem_walkParents_of_onLoop {start name : String} (loop : m.OnLoop start) :
    name ∈ m.walkParents start ↔ Chain.Leads m.parentOf? start name := by
  obtain ⟨parent, n, step, met, -, walked⟩ := walkParents_eq_orbit loop
  have around : after m.parentOf? (n + 1) start = some start := by
    rw [after, step, Option.bind_some, met]
  rw [walked, Chain.mem_orbit]
  constructor
  · rintro ⟨i, -, met⟩
    exact ⟨i, met⟩
  · intro leads
    obtain ⟨i, lt, met⟩ := (Chain.leads_iff_lt around).mp leads
    exact ⟨i, by omega, met⟩

/-! ## Failing builds -/

theorem nodup_omitted (m : ClassMap) (forest : List Tree) : (m.omitted forest).Nodup :=
  m.nodup_names.filter _

section Omitted

variable {forest : List Tree} (placement : m.Placement forest)

include placement

/-- The classes that the forest leaves out are those whose parents never end. -/
theorem mem_omitted {name : String} :
    name ∈ m.omitted forest ↔ name ∈ m.names ∧ ¬ Chain.Ends m.parentOf? name := by
  rw [omitted, List.mem_filter, decide_eq_true_eq, placement.mem_ids, and_congr_right_iff]
  intro declared
  refine not_congr ⟨?_, fun ends => .inl ⟨declared, ends⟩⟩
  rintro (grounded | implicit)
  · exact grounded.2
  · exact absurd declared implicit.1

theorem holdsParents_omitted : m.HoldsParents (m.omitted forest) := by
  intro name member parent step
  obtain ⟨-, endless⟩ := (mem_omitted placement).mp member
  have later : ¬ Chain.Ends m.parentOf? parent := by
    intro ends
    exact endless (.of_leads (.of_step step) ends)
  refine (mem_omitted placement).mpr ⟨?_, later⟩
  by_contra missing
  exact later ⟨parent, .refl _ _, parentOf?_of_not_mem_names missing⟩

theorem mem_omitted_of_onLoop {name : String} (loop : m.OnLoop name) : name ∈ m.omitted forest :=
  (mem_omitted placement).mpr ⟨mem_names_of_onLoop loop, fun ends => ends.not_returns loop⟩

/-- Classes are left out only where there are loops. -/
theorem omitted_ne_nil_iff : m.omitted forest ≠ [] ↔ ∃ name ∈ m.names, m.OnLoop name := by
  refine ⟨?_, ?_⟩
  · intro left
    obtain ⟨name, member⟩ := List.exists_mem_of_ne_nil _ left
    obtain ⟨-, endless⟩ := (mem_omitted placement).mp member
    obtain ⟨other, -, loop⟩ := not_not.mp (mt ends_iff_not_runsIntoLoop.mpr endless)
    exact ⟨other, mem_names_of_onLoop loop, loop⟩
  · rintro ⟨name, -, loop⟩
    exact List.ne_nil_of_mem (mem_omitted_of_onLoop placement loop)

/-- The first class on a loop is the first that is left out and on one. -/
theorem find?_omitted [DecidablePred m.OnLoop] :
    ((m.omitted forest).find? fun x => m.OnLoop x) = m.names.find? fun x => m.OnLoop x := by
  rw [omitted, List.find?_filter]
  refine List.find?_congr ?_
  intro x _
  simp only [decide_eq_true_eq, decide_eq_decide, and_iff_right_iff_imp]
  intro loop
  simpa using (List.mem_filter.mp (mem_omitted_of_onLoop placement loop)).2

end Omitted

/-- The cycle starts at the first class that is on a loop, goes on from each class to its parent,
and is back at its end. -/
def IsFirstLoop (m : ClassMap) (c : Cycle) : Prop :=
  ∃ start between before later,
    c.members = start :: between ++ [start] ∧ (start :: between).Nodup ∧
      c.members.IsChain (fun a b => m.parentOf? a = some b) ∧
      m.names = before ++ start :: later ∧ m.OnLoop start ∧
        ∀ name ∈ before, ¬ m.OnLoop name

theorem exists_error_iff (components : Graph → List (List String)) (m : ClassMap) :
    (∃ c, m.buildWith components .fail = .error c) ↔ ∃ name ∈ m.names, m.OnLoop name := by
  obtain ⟨forest, placement, results⟩ := m.exists_forest
  rw [(results components).2, ← omitted_ne_nil_iff placement]
  by_cases all : m.omitted forest = [] <;> simp [all]

section Error

variable {components : Graph → List (List String)} {c : Cycle}
  (are : ∀ g : Graph, g.AreComponents (components g))
  (failed : m.buildWith components .fail = .error c)

include are failed

/-- The loop of a build that fails is walked from the first class that is on any. -/
theorem exists_start_of_error [DecidablePred m.OnLoop] :
    ∃ start, m.names.find? (fun x => m.OnLoop x) = some start ∧
      c.members = m.walkParents start := by
  obtain ⟨forest, placement, results⟩ := m.exists_forest
  have looping := (exists_error_iff components m).mp ⟨c, failed⟩
  rw [(results components).2, if_neg ((omitted_ne_nil_iff placement).mpr looping)] at failed
  cases failed
  have first := head?_loops (are _) (m.nodup_omitted forest) (holdsParents_omitted placement)
  rw [find?_omitted placement] at first
  cases found : m.names.find? fun x => decide (m.OnLoop x) with
  | none =>
    obtain ⟨name, declared, loop⟩ := looping
    exact absurd (decide_eq_true loop) (List.find?_eq_none.mp found name declared)
  | some start =>
    rw [found, Option.map_some] at first
    exact ⟨start, rfl, by rw [List.headD_eq_head?_getD, first, Option.getD_some]⟩

theorem isFirstLoop_of_error : m.IsFirstLoop c := by
  classical
  obtain ⟨start, found, walked⟩ := exists_start_of_error are failed
  obtain ⟨loop, before, later, split, earlier⟩ := List.find?_eq_some_iff_append.mp found
  have onLoop : m.OnLoop start := of_decide_eq_true loop
  obtain ⟨between, around, once, chain⟩ := walkParents_of_onLoop onLoop
  rw [← walked] at around chain
  refine ⟨start, between, before, later, around, once, chain, split, onLoop, ?_⟩
  intro name member
  simpa using earlier name member

end Error

/-- If strongly connected components are what is found, a build that must place every class fails
exactly when a class is its own ancestor, and then with the first loop; otherwise it builds what one
that leaves classes out does. -/
theorem buildWith_fail {components : Graph → List (List String)}
    (are : ∀ g : Graph, g.AreComponents (components g)) (m : ClassMap) :
    ((∃ c, m.buildWith components .fail = .error c) ↔ ∃ name ∈ m.names, m.OnLoop name) ∧
      (∀ c, m.buildWith components .fail = .error c → m.IsFirstLoop c) ∧
      ((∀ name ∈ m.names, ¬ m.OnLoop name) →
        ∃ forest, m.buildWith components .fail = .ok forest ∧
          m.buildWith components .omit = .ok forest) := by
  refine ⟨exists_error_iff components m, fun c => isFirstLoop_of_error are, ?_⟩
  intro free
  obtain ⟨forest, placement, results⟩ := m.exists_forest
  obtain ⟨omitted, built⟩ := results components
  have all : m.omitted forest = [] := by
    by_contra left
    obtain ⟨name, declared, loop⟩ := (omitted_ne_nil_iff placement).mp left
    exact free name declared loop
  rw [if_pos all] at built
  exact ⟨forest, built, omitted⟩

theorem tangled_loops :
    tangled.loops Graph.components ["tail", "b", "self", "a"] =
      [["b", "a", "b"], ["self", "self"]] := by
  have starts : ((Graph.components (tangled.parentGraph ["tail", "b", "self", "a"])).filter
      (isLoop (tangled.parentGraph ["tail", "b", "self", "a"]))).filterMap
        (fun component => ["tail", "b", "self", "a"].find? (· ∈ component)) = ["b", "self"] := by
    with_unfolding_all rfl
  rw [loops]
  simp only [starts]
  rw [List.mergeSort_of_pairwise (by simp)]
  with_unfolding_all rfl

/-- The class that only descends from a loop is declared before those that are on one. -/
theorem tangled_fails :
    (∀ g : Graph, g.AreComponents g.components) ∧
      tangled.buildWith Graph.components .fail = .error ⟨["b", "a", "b"]⟩ ∧
      tangled.IsFirstLoop ⟨["b", "a", "b"]⟩ ∧
        ∃ name ∈ tangled.names, tangled.OnLoop name := by
  obtain ⟨fails, first, -⟩ := buildWith_fail Graph.areComponents_components tangled
  have left : tangled.buildWith Graph.components .fail =
      .error ⟨(tangled.loops Graph.components ["tail", "b", "self", "a"]).headD []⟩ := by
    with_unfolding_all rfl
  have built : tangled.buildWith Graph.components .fail = .error ⟨["b", "a", "b"]⟩ := by
    rw [left, tangled_loops]
    rfl
  exact ⟨Graph.areComponents_components, built, first _ built, fails.mp ⟨_, built⟩⟩

end ClassMap

end Taxonomy
