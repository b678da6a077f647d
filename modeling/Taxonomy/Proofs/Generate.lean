import Taxonomy.Generate
import Taxonomy.Proofs.Forest.Omission

/-!
# What is generated, and when

A strict run refuses a text for its errors, then a run that leaves nothing out refuses it for its
loops, and otherwise there are artifacts (`generateWith_decided`). The forest and the index speak of
the same classes: they differ by the names that are only given as parents and by the classes that
run into loops. Options decide which texts are refused and what the entries hold, not which forest
is built.
-/

namespace Taxonomy

theorem Report.hasErrors_iff {r : Report} : r.hasErrors ↔ 0 < r.errorCount := by
  rw [hasErrors, List.any_eq_true, errorCount, List.length_pos_iff_exists_mem]
  simp only [errors, List.mem_filter]

namespace SearchEntry

/-- An entry as it is when no properties are wanted. -/
def withoutProperties (e : SearchEntry) : SearchEntry :=
  { e with properties := none }

/-- The entry of a class is named after it, and holds its properties if they are wanted. -/
def Describes (includeProperties : Bool) (e : SearchEntry) (c : ClassDeclaration) : Prop :=
  e.id = c.name ∧ e.name = c.name ∧
    e.properties = if includeProperties then some c.properties else none

end SearchEntry

namespace ClassMap

variable {m : ClassMap} {forest : List Tree}

/-- The classes are described one by one, in their order. -/
theorem describes_searchIndex (m : ClassMap) (includeProperties : Bool) :
    List.Forall₂ (SearchEntry.Describes includeProperties) (m.searchIndex includeProperties)
      m.entries := by
  rw [searchIndex, List.forall₂_map_left_iff, List.forall₂_same]
  exact fun c _ => ⟨rfl, rfl, rfl⟩

theorem ids_searchIndex (m : ClassMap) (includeProperties : Bool) :
    (m.searchIndex includeProperties).map (·.id) = m.names := by
  rw [searchIndex, List.map_map]
  rfl

theorem withoutProperties_searchIndex (m : ClassMap) (includeProperties : Bool) :
    (m.searchIndex includeProperties).map SearchEntry.withoutProperties = m.searchIndex false := by
  rw [searchIndex, List.map_map]
  rfl

/-- A build fails for loops only, and makes the same forest however it treats them. -/
theorem exists_forest_of_handling (m : ClassMap) :
    ∃ forest, m.Placement forest ∧ ∀ components handling,
      ((∃ c, m.buildWith components handling = .error c) ↔
        handling = .fail ∧ ∃ name ∈ m.names, m.OnLoop name) ∧
      ∀ other, m.buildWith components handling = .ok other → other = forest := by
  obtain ⟨forest, placement, results⟩ := m.exists_forest
  refine ⟨forest, placement, fun components handling => ?_⟩
  obtain ⟨omitted, failed⟩ := results components
  match handling with
  | .fail =>
    refine ⟨by simpa using exists_error_iff components m, fun other built => ?_⟩
    rw [failed] at built
    split at built
    · exact (Except.ok.inj built).symm
    · cases built
  | .omit =>
    refine ⟨by simp [omitted], fun other built => ?_⟩
    exact (Except.ok.inj (omitted.symm.trans built)).symm

/-- In the forest and not declared are the names that are only given as parents. -/
theorem Placement.mem_ids_and_not_mem_names (placement : m.Placement forest) {name : String} :
    name ∈ Tree.ids forest ∧ name ∉ m.names ↔ m.Implicit name := by
  rw [placement.mem_ids]
  refine ⟨fun ⟨placed, missing⟩ => placed.resolve_left fun grounded => missing grounded.1,
    ?_⟩
  exact fun implicit => ⟨.inr implicit, implicit.1⟩

/-- Declared and not in the forest are the classes that run into loops. -/
theorem Placement.mem_names_and_not_mem_ids (placement : m.Placement forest) {name : String} :
    name ∈ m.names ∧ name ∉ Tree.ids forest ↔ name ∈ m.names ∧ m.RunsIntoLoop name := by
  have left : name ∈ m.omitted forest ↔ _ := mem_omitted placement
  rw [ends_iff_not_runsIntoLoop, not_not] at left
  rw [← left, omitted, List.mem_filter, decide_eq_true_eq]

end ClassMap

/-- The three things that can become of a text. -/
theorem generateWith_cases (components : Graph → List (List String)) (text : String)
    (options : GenerateOptions) :
    let outcome := parse text
    let built := outcome.classes.buildWith components options.cycles
    let rejected := options.strict ∧ 0 < outcome.report.errorCount
    (rejected ∧ generateWith components text options =
      .error (.rejected outcome.report.errorCount)) ∨
    (¬ rejected ∧ ∃ c, built = .error c ∧
      generateWith components text options = .error (.cycle c)) ∨
    ¬ rejected ∧ ∃ forest, built = .ok forest ∧ generateWith components text options =
      .ok { forest
            index := outcome.classes.searchIndex options.includeProperties
            report := outcome.report
            warnings := outcome.classes.buildWarningsWith components options.cycles } := by
  intro outcome built rejected
  have strict : (options.strict && outcome.report.hasErrors) = true ↔ rejected := by
    rw [Bool.and_eq_true, Report.hasErrors_iff]
  rw [← strict, generateWith]
  by_cases refused : (options.strict && outcome.report.hasErrors) = true
  · exact .inl ⟨refused, if_pos refused⟩
  · refine .inr ?_
    rw [if_neg refused]
    cases result : built with
    | error c =>
      exact .inl ⟨refused, c, rfl, by simp only [outcome, built] at result; rw [result]⟩
    | ok forest =>
      exact .inr ⟨refused, forest, rfl, by simp only [outcome, built] at result; rw [result]⟩

section Verdicts

variable {components : Graph → List (List String)} {text : String} {options : GenerateOptions}

theorem generateWith_eq_rejected_iff {errors : Nat} :
    generateWith components text options = .error (.rejected errors) ↔
      (options.strict ∧ 0 < (parse text).report.errorCount) ∧
        errors = (parse text).report.errorCount := by
  rcases generateWith_cases components text options with
    ⟨strict, refused⟩ | ⟨lenient, c, -, failed⟩ | ⟨lenient, forest, -, made⟩
  · simp [refused, strict, eq_comm]
  · simp [failed, lenient]
  · simp [made, lenient]

theorem exists_generateWith_eq_cycle_iff :
    (∃ c, generateWith components text options = .error (.cycle c)) ↔
      ¬ (options.strict ∧ 0 < (parse text).report.errorCount) ∧
        ∃ c, (parse text).classes.buildWith components options.cycles = .error c := by
  rcases generateWith_cases components text options with
    ⟨strict, refused⟩ | ⟨lenient, c, built, failed⟩ | ⟨lenient, forest, built, made⟩
  · simp [refused, strict]
  · simp [failed, lenient, built]
  · simp [made, lenient, built]

theorem exists_generateWith_eq_ok_iff :
    (∃ a, generateWith components text options = .ok a) ↔
      ¬ (options.strict ∧ 0 < (parse text).report.errorCount) ∧
        ¬ ∃ c, (parse text).classes.buildWith components options.cycles = .error c := by
  rcases generateWith_cases components text options with
    ⟨strict, refused⟩ | ⟨lenient, c, built, failed⟩ | ⟨lenient, forest, built, made⟩
  · simp [refused, strict]
  · simp [failed, lenient, built]
  · simp [made, lenient, built]

/-- What artifacts hold comes from the parsed text. -/
theorem parts_of_generateWith {a : Artifacts}
    (generated : generateWith components text options = .ok a) :
    (parse text).classes.buildWith components options.cycles = .ok a.forest ∧
      a.index = (parse text).classes.searchIndex options.includeProperties ∧
      a.report = (parse text).report := by
  rcases generateWith_cases components text options with
    ⟨-, refused⟩ | ⟨-, c, -, failed⟩ | ⟨-, forest, built, made⟩
  · cases refused.symm.trans generated
  · cases failed.symm.trans generated
  · cases made.symm.trans generated
    exact ⟨built, rfl, rfl⟩

end Verdicts

/-- The artifacts of a parsed text under some options. -/
structure Artifacts.Match (outcome : Outcome) (options : GenerateOptions) (a : Artifacts) :
    Prop where
  index : List.Forall₂ (SearchEntry.Describes options.includeProperties) a.index
    outcome.classes.entries
  report : a.report = outcome.report
  forestOnly : ∀ name, name ∈ Tree.ids a.forest ∧ name ∉ a.index.map (·.id) ↔
    outcome.classes.Implicit name
  indexOnly : ∀ name, name ∈ a.index.map (·.id) ∧ name ∉ Tree.ids a.forest ↔
    name ∈ outcome.classes.names ∧ outcome.classes.RunsIntoLoop name

/-- What decides about a text: its errors if the run is strict, then its loops if none may be left
out. Artifacts match the text, and those under other options have the same forest and report, and an
index that differs in the properties alone. -/
theorem generateWith_decided (components : Graph → List (List String)) (text : String)
    (options : GenerateOptions) :
    let outcome := parse text
    let rejected := options.strict ∧ 0 < outcome.report.errorCount
    let looping := options.cycles = .fail ∧
      ∃ name ∈ outcome.classes.names, outcome.classes.OnLoop name
    (∀ errors, generateWith components text options = .error (.rejected errors) ↔
      rejected ∧ errors = outcome.report.errorCount) ∧
    ((∃ c, generateWith components text options = .error (.cycle c)) ↔
      ¬ rejected ∧ looping) ∧
    ((∃ a, generateWith components text options = .ok a) ↔ ¬ rejected ∧ ¬ looping) ∧
    (∀ a, generateWith components text options = .ok a → a.Match outcome options) ∧
    ∀ options' a b, generateWith components text options = .ok a →
      generateWith components text options' = .ok b →
      a.forest = b.forest ∧ a.report = b.report ∧
        a.index.map SearchEntry.withoutProperties = b.index.map SearchEntry.withoutProperties := by
  intro outcome rejected looping
  obtain ⟨forest, placement, results⟩ := outcome.classes.exists_forest_of_handling
  have sameForest : ∀ options a, generateWith components text options = .ok a →
      a.forest = forest :=
    fun options a generated =>
      (results components options.cycles).2 _ (parts_of_generateWith generated).1
  have loops : looping ↔ ∃ c, outcome.classes.buildWith components options.cycles = .error c :=
    (results components options.cycles).1.symm
  refine ⟨fun errors => generateWith_eq_rejected_iff, ?_, ?_, ?_, ?_⟩
  · rw [loops]
    exact exists_generateWith_eq_cycle_iff
  · rw [loops]
    exact exists_generateWith_eq_ok_iff
  · intro a generated
    obtain ⟨-, index, report⟩ := parts_of_generateWith generated
    cases sameForest options a generated
    refine ⟨?_, report, fun name => ?_, fun name => ?_⟩
    · rw [index]
      exact outcome.classes.describes_searchIndex _
    · rw [index, ClassMap.ids_searchIndex, placement.mem_ids_and_not_mem_names]
    · rw [index, ClassMap.ids_searchIndex, placement.mem_names_and_not_mem_ids]
  · intro options' a b first second
    obtain ⟨-, index, report⟩ := parts_of_generateWith first
    obtain ⟨-, index', report'⟩ := parts_of_generateWith second
    refine ⟨(sameForest _ a first).trans (sameForest _ b second).symm,
      report.trans report'.symm, ?_⟩
    rw [index, index', ClassMap.withoutProperties_searchIndex,
      ClassMap.withoutProperties_searchIndex]

/-- A class that is its own parent and one below it, and a parent that is not declared. -/
def brokenOff : ClassMap where
  entries :=
    [{ name := "a", parent := some "a", span := ⟨0, 19⟩ },
      { name := "b", parent := some "a", span := ⟨20, 39⟩ },
      { name := "c", parent := some "d", span := ⟨40, 59⟩ }]
  distinct := by decide

/-- The text of these classes ends in a declaration that breaks off. -/
theorem generateWith_decides_brokenOff :
    let text := "class a extends a . class b extends a . class c extends d . class"
    generateWith Graph.components text { strict := true } = .error (.rejected 1) ∧
      (∃ c, generateWith Graph.components text {} = .error (.cycle c)) ∧
      ∃ a b, generateWith Graph.components text { cycles := .omit } = .ok a ∧
        generateWith Graph.components text { cycles := .omit, includeProperties := true } =
          .ok b ∧
        a.forest = b.forest ∧
        ("d" ∈ Tree.ids a.forest ∧ "d" ∉ a.index.map (·.id)) ∧
        ("b" ∈ a.index.map (·.id) ∧ "b" ∉ Tree.ids a.forest) := by
  intro text
  have parsed : (parse text).report.errorCount = 1 ∧
      (parse text).classes.entries = brokenOff.entries := by decide +kernel
  obtain ⟨errors, entries⟩ := parsed
  have classes : (parse text).classes = brokenOff := by
    rw [ClassMap.mk.injEq]
    exact entries
  have loop : ∃ name ∈ brokenOff.names, brokenOff.OnLoop name :=
    ⟨"a", by decide, 0, by decide⟩
  have implicit : brokenOff.Implicit "d" := ⟨by decide, by decide⟩
  have below : "b" ∈ brokenOff.names ∧ brokenOff.RunsIntoLoop "b" := by decide
  obtain ⟨refused, -⟩ := generateWith_decided Graph.components text { strict := true }
  obtain ⟨-, looped, -⟩ := generateWith_decided Graph.components text {}
  obtain ⟨-, -, made, fits, same⟩ :=
    generateWith_decided Graph.components text { cycles := .omit }
  obtain ⟨-, -, made', -⟩ :=
    generateWith_decided Graph.components text { cycles := .omit, includeProperties := true }
  obtain ⟨a, first⟩ := made.mpr ⟨by simp, by simp⟩
  obtain ⟨b, second⟩ := made'.mpr ⟨by simp, by simp⟩
  have whole := fits a first
  exact ⟨(refused 1).mpr ⟨⟨rfl, by omega⟩, errors.symm⟩,
    looped.mpr ⟨by simp, rfl, classes ▸ loop⟩, a, b, first, second,
    (same _ a b first second).1, (whole.forestOnly "d").mpr (classes ▸ implicit),
    (whole.indexOnly "b").mpr (classes ▸ below)⟩

end Taxonomy
