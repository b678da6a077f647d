import Mathlib.Data.List.Nodup
import Mathlib.Data.Nat.Find
import Mathlib.Data.List.Basic

/-!
# Chains of steps

A partial function leads from each point along one chain, which may end, or come back to where it
started. Two points that one chain passes lie on it in some order (`leads_total`), a chain that ends
never comes back (`Ends.not_returns`), and a chain that has only finitely many points to pass ends
or runs into a loop (`ends_or_returns`).
-/

namespace Taxonomy

/-- Where the given number of steps leads. -/
def after {α : Type} (f : α → Option α) : Nat → α → Option α
  | 0, x => some x
  | n + 1, x => (f x).bind (after f n)

namespace Chain

variable {α : Type} {f : α → Option α} {x y z : α}

/-- Some number of steps leads from one point to the other. -/
def Leads (f : α → Option α) (x y : α) : Prop :=
  ∃ n, after f n x = some y

/-- After finitely many steps there is no further one. -/
def Ends (f : α → Option α) (x : α) : Prop :=
  ∃ y, Leads f x y ∧ f y = none

/-- One or more steps lead back to the start. -/
def Returns (f : α → Option α) (x : α) : Prop :=
  ∃ n, after f (n + 1) x = some x

/-- The first points of the chain, at most the given number. -/
def orbit (f : α → Option α) : Nat → α → List α
  | 0, _ => []
  | n + 1, x => x :: (f x).elim [] (orbit f n)

theorem after_add (f : α → Option α) (m n : Nat) (x : α) :
    after f (m + n) x = (after f m x).bind (after f n) := by
  induction m generalizing x with
  | zero => simp [after]
  | succ m ih =>
    rw [Nat.succ_add]
    cases step : f x with
    | none => simp [after, step]
    | some y => simp [after, step, ih]

theorem after_one (f : α → Option α) (x : α) : after f 1 x = f x := by
  cases step : f x <;> simp [after, step]

theorem after_succ (f : α → Option α) (n : Nat) (x : α) :
    after f (n + 1) x = (after f n x).bind f := by
  rw [after_add]
  congr 1
  exact funext (after_one f)

/-- Two functions that agree on all points of a chain lead along the same one. -/
theorem after_congr {g : α → Option α} (inside : α → Prop)
    (closed : ∀ x y, inside x → f x = some y → inside y)
    (agree : ∀ x, inside x → g x = f x) (h : inside x) (n : Nat) :
    after g n x = after f n x := by
  induction n generalizing x with
  | zero => rfl
  | succ n ih =>
    rw [after, after, agree x h]
    cases step : f x with
    | none => rfl
    | some y => exact ih (closed x y h step)

/-! ## Points on one chain -/

theorem Leads.refl (f : α → Option α) (x : α) : Leads f x x :=
  ⟨0, rfl⟩

theorem Leads.trans (first : Leads f x y) (second : Leads f y z) : Leads f x z := by
  obtain ⟨m, first⟩ := first
  obtain ⟨n, second⟩ := second
  exact ⟨m + n, by rw [after_add, first, Option.bind_some, second]⟩

theorem Leads.of_step (step : f x = some y) : Leads f x y :=
  ⟨1, by rw [after_one, step]⟩

theorem Leads.eq_or_step (h : Leads f x y) : x = y ∨ ∃ z, f x = some z ∧ Leads f z y := by
  obtain ⟨n, h⟩ := h
  cases n with
  | zero => exact .inl (Option.some.inj h)
  | succ n =>
    cases step : f x with
    | none => simp [after, step] at h
    | some z => exact .inr ⟨z, rfl, n, by simpa [after, step] using h⟩

theorem Leads.eq_of_last (h : Leads f x y) (last : f x = none) : x = y := by
  rcases h.eq_or_step with same | ⟨z, step, -⟩
  · exact same
  · cases last.symm.trans step

theorem Leads.eq_or_next (h : Leads f x y) (step : f x = some z) : x = y ∨ Leads f z y := by
  rcases h.eq_or_step with same | ⟨w, step', leads⟩
  · exact .inl same
  · cases step.symm.trans step'
    exact .inr leads

theorem Leads.eq_or_last (h : Leads f x y) : x = y ∨ ∃ z, Leads f x z ∧ f z = some y := by
  obtain ⟨n, h⟩ := h
  cases n with
  | zero => exact .inl (Option.some.inj h)
  | succ n =>
    rw [after_succ, Option.bind_eq_some_iff] at h
    obtain ⟨z, before, last⟩ := h
    exact .inr ⟨z, ⟨n, before⟩, last⟩

/-- Of two points on one chain, one leads to the other. -/
theorem leads_total (first : Leads f x y) (second : Leads f x z) : Leads f y z ∨ Leads f z y := by
  obtain ⟨m, first⟩ := first
  obtain ⟨n, second⟩ := second
  rcases Nat.le_total m n with le | le
  · refine .inl ⟨n - m, ?_⟩
    rw [← Nat.add_sub_cancel' le, after_add, first, Option.bind_some] at second
    exact second
  · refine .inr ⟨m - n, ?_⟩
    rw [← Nat.add_sub_cancel' le, after_add, second, Option.bind_some] at first
    exact first

theorem Ends.of_leads (h : Leads f x y) (ends : Ends f y) : Ends f x := by
  obtain ⟨z, leads, last⟩ := ends
  exact ⟨z, h.trans leads, last⟩

theorem Ends.leads (ends : Ends f x) (h : Leads f x y) : Ends f y := by
  obtain ⟨z, leads, last⟩ := ends
  rcases leads_total h leads with leads | leads
  · exact ⟨z, leads, last⟩
  · exact leads.eq_of_last last ▸ ⟨z, .refl f z, last⟩

/-! ## Loops -/

theorem returns_iff : Returns f x ↔ ∃ y, f x = some y ∧ Leads f y x := by
  refine ⟨?_, ?_⟩
  · rintro ⟨n, back⟩
    cases step : f x with
    | none => simp [after, step] at back
    | some y => exact ⟨y, rfl, n, by simpa [after, step] using back⟩
  · rintro ⟨y, step, n, back⟩
    exact ⟨n, by simp [after, step, back]⟩

theorem Returns.step (returns : Returns f x) (step : f x = some y) : Returns f y := by
  obtain ⟨z, step', back⟩ := returns_iff.mp returns
  obtain rfl : y = z := Option.some.inj (step.symm.trans step')
  obtain ⟨n, back⟩ := back
  exact ⟨n, by rw [after_succ, back, Option.bind_some, step]⟩

/-- A loop comes back from each of its points, and all that it leads to is one of them. -/
theorem Returns.leads (returns : Returns f x) (h : Leads f x y) : Returns f y ∧ Leads f y x := by
  obtain ⟨n, h⟩ := h
  induction n generalizing x with
  | zero =>
    obtain rfl := Option.some.inj h
    exact ⟨returns, .refl f x⟩
  | succ n ih =>
    obtain ⟨z, step, back⟩ := returns_iff.mp returns
    obtain ⟨loop, leads⟩ := ih (returns.step step) (by simpa [after, step] using h)
    exact ⟨loop, leads.trans back⟩

theorem Returns.of_both (there : Leads f x y) (back : Leads f y x) (other : x ≠ y) :
    Returns f x := by
  rcases there.eq_or_step with same | ⟨z, step, there⟩
  · exact absurd same other
  · exact returns_iff.mpr ⟨z, step, there.trans back⟩

/-- A chain that ends never comes back. -/
theorem Ends.not_returns (ends : Ends f x) : ¬ Returns f x := by
  intro returns
  obtain ⟨y, leads, last⟩ := ends
  obtain ⟨z, step, -⟩ := returns_iff.mp (returns.leads leads).1
  rw [last] at step
  cases step

/-- All that a loop leads to is met before it comes back. -/
theorem leads_iff_lt {p : Nat} (back : after f (p + 1) x = some x) :
    Leads f x y ↔ ∃ i < p + 1, after f i x = some y := by
  refine ⟨?_, fun ⟨i, _, met⟩ => ⟨i, met⟩⟩
  rintro ⟨n, met⟩
  induction n using Nat.strongRecOn with
  | _ n ih =>
    by_cases short : n < p + 1
    · exact ⟨n, short, met⟩
    · have rest : n = p + 1 + (n - (p + 1)) := by omega
      rw [rest, after_add, back, Option.bind_some] at met
      exact ih _ (by omega) met

/-! ## The points of a chain in order -/

theorem orbit_cons (step : f x = some y) (n : Nat) : orbit f (n + 1) x = x :: orbit f n y := by
  rw [orbit, step, Option.elim_some]

theorem getElem?_orbit (f : α → Option α) (n i : Nat) (x : α) :
    (orbit f n x)[i]? = if i < n then after f i x else none := by
  induction n generalizing x i with
  | zero => simp [orbit]
  | succ n ih =>
    cases i with
    | zero => simp [orbit, after]
    | succ i =>
      cases step : f x with
      | none => simp [orbit, after, step]
      | some y => simp [orbit, after, step, ih]

theorem mem_orbit {n : Nat} : y ∈ orbit f n x ↔ ∃ i < n, after f i x = some y := by
  rw [List.mem_iff_getElem?]
  simp only [getElem?_orbit]
  refine exists_congr fun i => ?_
  by_cases bound : i < n <;> simp [bound]

theorem length_orbit {n : Nat} (more : after f n x = some y) : (orbit f n x).length = n := by
  induction n generalizing x with
  | zero => rfl
  | succ n ih =>
    cases step : f x with
    | none => simp [after, step] at more
    | some z => simp [orbit, step, ih (x := z) (by simpa [after, step] using more)]

theorem orbit_succ {n : Nat} (more : after f n x = some y) :
    orbit f (n + 1) x = orbit f n x ++ [y] := by
  induction n generalizing x with
  | zero =>
    obtain rfl := Option.some.inj more
    cases step : f x <;> simp [orbit, step]
  | succ n ih =>
    cases step : f x with
    | none => simp [after, step] at more
    | some z =>
      have later := ih (x := z) (by simpa [after, step] using more)
      rw [orbit_cons step, orbit_cons step, later, List.cons_append]

theorem isChain_orbit {n : Nat} (more : after f n x = some y) :
    (orbit f (n + 1) x).IsChain fun a b => f a = some b := by
  rw [List.isChain_iff_getElem]
  intro i bound
  have before := getElem?_orbit f (n + 1) i x
  have next := getElem?_orbit f (n + 1) (i + 1) x
  rw [orbit_succ more, List.length_append, length_orbit more, List.length_singleton] at bound
  rw [if_pos (by omega), List.getElem?_eq_some_iff.mpr ⟨_, rfl⟩] at before
  rw [if_pos (by omega), List.getElem?_eq_some_iff.mpr ⟨_, rfl⟩, after_succ, ← before] at next
  exact next.symm

/-- On the way to where a point is met first, no point is met twice. -/
theorem nodup_orbit {n : Nat} (met : after f n x = some y)
    (first : ∀ i < n, after f i x ≠ some y) : (orbit f (n + 1) x).Nodup := by
  rw [List.nodup_iff_getElem?_ne_getElem?]
  intro i j before bound
  rw [orbit_succ met, List.length_append, length_orbit met, List.length_singleton] at bound
  rw [getElem?_orbit, getElem?_orbit, if_pos (by omega), if_pos bound]
  intro same
  -- the way from the second visit on would have led to `y` earlier
  apply first (i + (n - j)) (by omega)
  have rest : n = j + (n - j) := by omega
  rw [rest, after_add] at met
  rw [after_add, same, met]

theorem exists_first (h : Leads f x y) :
    ∃ n, after f n x = some y ∧ ∀ i < n, after f i x ≠ some y := by
  classical
  exact ⟨Nat.find h, Nat.find_spec h, fun i lt => Nat.find_min h lt⟩

/-- A chain inside a list meets each point that it meets within the length of the list. -/
theorem exists_first_lt {l : List α} (inside : ∀ z, Leads f x z → z ∈ l) (h : Leads f x y) :
    ∃ n < l.length, after f n x = some y ∧ ∀ i < n, after f i x ≠ some y := by
  obtain ⟨n, met, first⟩ := exists_first h
  have subset : orbit f (n + 1) x ⊆ l := by
    intro z member
    obtain ⟨i, -, leads⟩ := mem_orbit.mp member
    exact inside z ⟨i, leads⟩
  have length := (nodup_orbit met first).length_le_of_subset subset
  rw [orbit_succ met, List.length_append, length_orbit met, List.length_singleton] at length
  exact ⟨n, length, met, first⟩

theorem exists_after_of_not_ends (endless : ¬ Ends f x) (n : Nat) :
    ∃ y, after f n x = some y := by
  induction n with
  | zero => exact ⟨x, rfl⟩
  | succ n ih =>
    obtain ⟨y, met⟩ := ih
    cases step : f y with
    | none => exact absurd ⟨y, ⟨n, met⟩, step⟩ endless
    | some z => exact ⟨z, by rw [after_succ, met, Option.bind_some, step]⟩

/-- Where only points of a list have a step, a chain of more steps than the list is long runs into a
loop. -/
theorem exists_returns_of_after {l : List α} (inside : ∀ z, f z ≠ none → z ∈ l)
    (met : after f (l.length + 1) x = some y) : ∃ z, Leads f x z ∧ Returns f z := by
  have subset : orbit f (l.length + 1) x ⊆ l := by
    intro z member
    obtain ⟨i, bound, there⟩ := mem_orbit.mp member
    refine inside z fun last => ?_
    have rest : l.length + 1 = i + (l.length - i + 1) := by omega
    rw [rest, after_add, there, Option.bind_some, after, last] at met
    cases met
  have long : ¬ (orbit f (l.length + 1) x).Nodup := by
    intro nodup
    have length := nodup.length_le_of_subset subset
    rw [length_orbit met] at length
    omega
  rw [List.nodup_iff_getElem?_ne_getElem?] at long
  simp only [not_forall, not_not] at long
  obtain ⟨i, j, before, bound, same⟩ := long
  rw [length_orbit met] at bound
  obtain ⟨z, there⟩ : ∃ z, after f i x = some z := by
    have rest : l.length + 1 = i + (l.length + 1 - i) := by omega
    rw [rest, after_add, Option.bind_eq_some_iff] at met
    exact ⟨met.choose, met.choose_spec.1⟩
  rw [getElem?_orbit, getElem?_orbit, if_pos (by omega), if_pos bound, there] at same
  refine ⟨z, ⟨i, there⟩, j - i - 1, ?_⟩
  have rest : j = i + (j - i - 1 + 1) := by omega
  rw [rest, after_add, there, Option.bind_some] at same
  exact same.symm

/-- Where only points of a list have a step, each chain ends or runs into a loop. -/
theorem ends_or_returns {l : List α} (inside : ∀ z, f z ≠ none → z ∈ l) (x : α) :
    Ends f x ∨ ∃ y, Leads f x y ∧ Returns f y := by
  by_cases ends : Ends f x
  · exact .inl ends
  · obtain ⟨y, met⟩ := exists_after_of_not_ends ends (l.length + 1)
    exact .inr (exists_returns_of_after inside met)

end Chain

end Taxonomy
