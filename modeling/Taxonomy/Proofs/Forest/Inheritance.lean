import Taxonomy.Forest.Inheritance
import Taxonomy.Proofs.Forest.Chain
import Taxonomy.Proofs.Schema.ClassMap

/-!
# Parents and declarations

What `parentOf?`, `childrenOf` and `roots` find, in terms of the declarations of a map: `parentOf?`
is the partial function whose chains the forest and its loops are made of.
-/

namespace Taxonomy

/-! ## First places in a list -/

/-- Elements that a filter keeps stay in the order of their first places. -/
theorem idxOf_lt_of_filter {α : Type} [DecidableEq α] {p : α → Bool} {l : List α} {x y : α}
    (first : p x) (second : p y) (lt : (l.filter p).idxOf x < (l.filter p).idxOf y) :
    l.idxOf x < l.idxOf y := by
  induction l with
  | nil => simp at lt
  | cons b l ih =>
    by_cases kept : p b
    · rw [List.filter_cons_of_pos kept] at lt
      by_cases hx : b = x
      · subst hx
        by_cases hy : b = y
        · subst hy
          exact absurd lt (Nat.lt_irrefl _)
        · rw [List.idxOf_cons_self, List.idxOf_cons_ne _ hy]
          omega
      · by_cases hy : b = y
        · subst hy
          rw [List.idxOf_cons_self] at lt
          omega
        · simp only [List.idxOf_cons_ne _ hx, List.idxOf_cons_ne _ hy] at lt ⊢
          have := ih (by omega)
          omega
    · rw [List.filter_cons_of_neg kept] at lt
      have hx : b ≠ x := fun same => kept (same ▸ first)
      have hy : b ≠ y := fun same => kept (same ▸ second)
      rw [List.idxOf_cons_ne _ hx, List.idxOf_cons_ne _ hy]
      have := ih lt
      omega

/-- Elements stay in the order of their first places when repetitions go. -/
theorem pairwise_eraseDups {α : Type} [DecidableEq α] (l : List α) :
    l.eraseDups.Pairwise fun x y => l.idxOf x < l.idxOf y := by
  induction length : l.length using Nat.strongRecOn generalizing l with
  | _ n ih =>
    cases l with
    | nil => simp
    | cons a l =>
      rw [List.eraseDups_cons, List.pairwise_cons]
      have others : ∀ x ∈ (l.filter fun b => !b == a).eraseDups, x ≠ a := by
        intro x member
        simpa using (List.mem_filter.mp (List.mem_eraseDups.mp member)).2
      have shorter : (l.filter fun b => !b == a).length < n := by
        have := List.length_filter_le (fun b => !b == a) l
        simp only [List.length_cons] at length
        omega
      refine ⟨?_, ?_⟩
      · intro x member
        rw [List.idxOf_cons_self, List.idxOf_cons_ne _ (others x member).symm]
        omega
      · refine (ih _ shorter _ rfl).imp_of_mem ?_
        intro x y hx hy lt
        have := idxOf_lt_of_filter (by simpa using others x hx) (by simpa using others y hy) lt
        rw [List.idxOf_cons_ne _ (others x hx).symm, List.idxOf_cons_ne _ (others y hy).symm]
        omega

/-- Elements in the order of their first places are known from which they are. -/
theorem eq_of_pairwise_idxOf {α : Type} [DecidableEq α] {l xs ys : List α}
    (first : xs.Pairwise fun x y => l.idxOf x < l.idxOf y)
    (second : ys.Pairwise fun x y => l.idxOf x < l.idxOf y) (same : ∀ x, x ∈ xs ↔ x ∈ ys) :
    xs = ys := by
  have nodup : ∀ zs : List α, zs.Pairwise (fun x y => l.idxOf x < l.idxOf y) → zs.Nodup := by
    intro zs ordered
    refine ordered.imp ?_
    rintro x y lt rfl
    exact Nat.lt_irrefl _ lt
  have perm := (List.perm_ext_iff_of_nodup (nodup xs first) (nodup ys second)).mpr same
  refine perm.eq_of_pairwise ?_ first second
  intro x y _ _ before after
  exact absurd before (Nat.lt_asymm after)

namespace ClassMap

/-- Following parents from the class reaches a class without a parent or a name that is not
declared. -/
def Grounded (m : ClassMap) (name : String) : Prop :=
  name ∈ m.names ∧ Chain.Ends m.parentOf? name

/-- The name is given as a parent and never declared. -/
def Implicit (m : ClassMap) (name : String) : Prop :=
  name ∉ m.names ∧ ∃ c ∈ m.entries, c.parent = some name

/-- The class is its own ancestor. -/
def OnLoop (m : ClassMap) (name : String) : Prop :=
  Chain.Returns m.parentOf? name

/-- Following parents from the class comes to one that is its own ancestor. -/
def RunsIntoLoop (m : ClassMap) (name : String) : Prop :=
  ∃ other, Chain.Leads m.parentOf? name other ∧ m.OnLoop other

theorem parentOf?_eq_some_iff {m : ClassMap} {name parent : String} :
    m.parentOf? name = some parent ↔
      ∃ c ∈ m.entries, c.name = name ∧ c.parent = some parent := by
  simp only [parentOf?, Option.bind_eq_some_iff, get?_eq_some_iff, and_assoc]

theorem parentOf?_of_mem_entries {m : ClassMap} {c : ClassDeclaration} (member : c ∈ m.entries) :
    m.parentOf? c.name = c.parent := by
  rw [parentOf?, get?_eq_some_iff.mpr ⟨member, rfl⟩, Option.bind_some]

theorem mem_names_of_parentOf? {m : ClassMap} {name parent : String}
    (h : m.parentOf? name = some parent) : name ∈ m.names := by
  obtain ⟨c, member, rfl, -⟩ := parentOf?_eq_some_iff.mp h
  exact List.mem_map_of_mem member

theorem parentOf?_of_not_mem_names {m : ClassMap} {name : String} (missing : name ∉ m.names) :
    m.parentOf? name = none := by
  cases step : m.parentOf? name with
  | none => rfl
  | some parent => exact absurd (mem_names_of_parentOf? step) missing

theorem mem_names_of_parentOf?_ne_none {m : ClassMap} (name : String)
    (step : m.parentOf? name ≠ none) : name ∈ m.names := by
  by_contra missing
  exact step (parentOf?_of_not_mem_names missing)

theorem mem_names_of_onLoop {m : ClassMap} {name : String} (loop : m.OnLoop name) :
    name ∈ m.names := by
  obtain ⟨parent, step, -⟩ := Chain.returns_iff.mp loop
  exact mem_names_of_parentOf? step

/-- Parents end, or they run into a loop: there are only finitely many classes. -/
theorem ends_iff_not_runsIntoLoop {m : ClassMap} {name : String} :
    Chain.Ends m.parentOf? name ↔ ¬ m.RunsIntoLoop name := by
  refine ⟨?_, ?_⟩
  · rintro ends ⟨other, leads, loop⟩
    exact (ends.leads leads).not_returns loop
  · exact (Chain.ends_or_returns mem_names_of_parentOf?_ne_none name).resolve_right

/-- A class runs into a loop if its parent does, and only then. -/
theorem runsIntoLoop_iff_of_parentOf? {m : ClassMap} {name parent : String}
    (step : m.parentOf? name = some parent) : m.RunsIntoLoop name ↔ m.RunsIntoLoop parent := by
  refine ⟨?_, ?_⟩
  · rintro ⟨other, leads, loop⟩
    rcases leads.eq_or_next step with rfl | leads
    · exact ⟨parent, .refl _ _, loop.step step⟩
    · exact ⟨other, leads, loop⟩
  · rintro ⟨other, leads, loop⟩
    exact ⟨other, (Chain.Leads.of_step step).trans leads, loop⟩

theorem mem_childrenOf {m : ClassMap} {name child : String} :
    child ∈ m.childrenOf name ↔ m.parentOf? child = some name := by
  rw [parentOf?_eq_some_iff, childrenOf, List.mem_map]
  simp only [List.mem_filter, beq_iff_eq]
  refine exists_congr fun c => ?_
  rw [and_assoc, and_congr_right_iff]
  exact fun _ => and_comm

theorem nodup_childrenOf (m : ClassMap) (name : String) : (m.childrenOf name).Nodup :=
  m.nodup_names.sublist (List.filter_sublist.map _)

/-- Each class's parent, or its own name if it has none: the order in which roots are discovered. -/
def discoveries (m : ClassMap) : List String :=
  m.entries.map fun c => c.parent.getD c.name

theorem mem_discoveries_of_mem_names {m : ClassMap} {name : String} (declared : name ∈ m.names)
    (top : m.parentOf? name = none) : name ∈ m.discoveries := by
  obtain ⟨c, member, rfl⟩ := List.mem_map.mp declared
  have alone : c.parent = none := (parentOf?_of_mem_entries member).symm.trans top
  exact List.mem_map.mpr ⟨c, member, by simp [alone]⟩

theorem mem_roots {m : ClassMap} {name : String} :
    name ∈ m.roots ↔ name ∈ m.discoveries ∧ m.parentOf? name = none := by
  simp [roots, referenced, discoveries, List.mem_filter, List.mem_eraseDups]

/-- Roots are the names without a parent that are declared or given as a parent. -/
theorem mem_roots_iff {m : ClassMap} {name : String} :
    name ∈ m.roots ↔ m.parentOf? name = none ∧
      (name ∈ m.names ∨ ∃ c ∈ m.entries, c.parent = some name) := by
  rw [mem_roots, and_comm, and_congr_right_iff]
  intro top
  refine ⟨?_, ?_⟩
  · intro discovered
    obtain ⟨c, member, same⟩ := List.mem_map.mp discovered
    cases given : c.parent with
    | none => exact .inl (List.mem_map.mpr ⟨c, member, by simpa [given] using same⟩)
    | some parent => exact .inr ⟨c, member, by simpa [given] using same⟩
  · rintro (declared | ⟨c, member, given⟩)
    · exact mem_discoveries_of_mem_names declared top
    · exact List.mem_map.mpr ⟨c, member, by simp [given]⟩

/-- Roots come in the order of their discovery. -/
theorem pairwise_roots (m : ClassMap) :
    m.roots.Pairwise fun x y => m.discoveries.idxOf x < m.discoveries.idxOf y :=
  (pairwise_eraseDups m.discoveries).sublist List.filter_sublist

theorem nodup_roots (m : ClassMap) : m.roots.Nodup := by
  refine m.pairwise_roots.imp ?_
  rintro x y lt rfl
  exact Nat.lt_irrefl _ lt

end ClassMap

end Taxonomy
