import Mathlib.Data.Finset.Card
import Taxonomy.Proofs.Schema.ClassMap

/-!
# Histories of insertions

Whatever declarations are inserted one after another, a map lists each of their names in the order
of its first declaration and holds under it the last one (`Records`). One insertion keeps this
(`Records.insert`), so it holds after any history, and what a map lists, looks up and counts follows
from it (`ofList_last_wins`).
-/

namespace Taxonomy.ClassMap

/-- The map holds what the declarations leave: their names in the order in which they first occur,
and under each name the last declaration of it. -/
structure Records (ds : List ClassDeclaration) (m : ClassMap) : Prop where
  names : m.names = (ds.map (·.name)).eraseDups
  last : ∀ name, m.get? name = (ds.filter (·.name == name)).getLast?

theorem eraseDups_concat {α : Type} [DecidableEq α] (l : List α) (a : α) :
    (l ++ [a]).eraseDups = if a ∈ l.eraseDups then l.eraseDups else l.eraseDups ++ [a] := by
  rw [List.eraseDups_append, List.removeAll, List.filter_singleton]
  by_cases known : a ∈ l
  · simp [known]
  · simp [known, List.eraseDups_cons]

theorem records_empty : Records [] empty :=
  ⟨rfl, fun _ => rfl⟩

/-- What a map records after one more insertion. -/
theorem Records.insert {ds : List ClassDeclaration} {m : ClassMap} (records : Records ds m)
    (d : ClassDeclaration) : Records (ds ++ [d]) (m.insert d).2 := by
  constructor
  · rw [names_insert_eq, records.names, List.map_append, List.map_singleton, eraseDups_concat]
  · intro name
    rw [get?_insert, records.last, List.filter_append]
    by_cases same : d.name = name
    · simp [same]
    · simp [same]

/-- Any history of insertions is recorded. -/
theorem records_ofList (ds : List ClassDeclaration) : Records ds (ofList ds) := by
  induction ds using List.reverseRecOn with
  | nil => exact records_empty
  | append_singleton ds d ih =>
    have next : ofList (ds ++ [d]) = ((ofList ds).insert d).2 := by
      rw [ofList, List.foldl_append]
      rfl
    rw [next]
    exact ih.insert d

section

variable {ds : List ClassDeclaration} {m : ClassMap} (records : Records ds m)

include records

/-- The listed declarations are, name by name, the last ones. -/
theorem Records.entries :
    m.entries.map some = m.names.map fun name => (ds.filter (·.name == name)).getLast? := by
  rw [ClassMap.names, List.map_map]
  apply List.map_congr_left
  intro c member
  rw [Function.comp_apply, ← records.last]
  exact (get?_eq_some_iff.mpr ⟨member, rfl⟩).symm

/-- A map has as many declarations as there are different names. -/
theorem Records.size : m.size = (ds.map (·.name)).toFinset.card := by
  have same : (ds.map (·.name)).toFinset = m.names.toFinset := by
    ext name
    rw [List.mem_toFinset, List.mem_toFinset, records.names, List.mem_eraseDups]
  rw [same, List.toFinset_card_of_nodup m.nodup_names]
  exact (List.length_map _).symm

end

theorem map_name_get? (m : ClassMap) (name : String) :
    (m.get? name).map (·.name) = if name ∈ m.names then some name else none := by
  by_cases known : name ∈ m.names
  · obtain ⟨c, member, rfl⟩ := List.mem_map.mp known
    rw [if_pos known, get?_eq_some_iff.mpr ⟨member, rfl⟩]
    rfl
  · rw [if_neg known, Option.map_eq_none_iff]
    cases found : m.get? name with
    | none => rfl
    | some c =>
      obtain ⟨member, rfl⟩ := get?_eq_some_iff.mp found
      exact absurd (List.mem_map_of_mem member) known

theorem contains_eq (m : ClassMap) (name : String) :
    m.contains name = decide (name ∈ m.names) := by
  rw [contains, ← Option.isSome_map, map_name_get?]
  by_cases known : name ∈ m.names <;> simp [known]

/-- The declarations of other names stay as and where they are. -/
theorem filter_put (d : ClassDeclaration) (es : List ClassDeclaration) :
    (put d es).2.filter (·.name ≠ d.name) = es.filter (·.name ≠ d.name) := by
  induction es with
  | nil => simp [put]
  | cons e es ih =>
    by_cases same : e.name = d.name
    · simp [put, same]
    · simp only [put, if_neg same, List.filter_cons, ih]

/-- A map after any history of insertions, made one by one or all at once: it lists the different
names in the order of their first declarations and under each of them the last declaration, lookups
agree with the list, and a further insertion returns what a lookup would have found and leaves other
names as they are. -/
theorem ofList_last_wins (ds : List ClassDeclaration) :
    let m := ds.foldl (fun m d => (m.insert d).2) empty
    m = ofList ds ∧
      m.names = (ds.map (·.name)).eraseDups ∧
      m.entries.map some = m.names.map (fun name => (ds.filter (·.name == name)).getLast?) ∧
      (∀ name, m.get? name = (ds.filter (·.name == name)).getLast? ∧
        m.contains name = decide (name ∈ m.names) ∧
        (m.get? name).map (·.name) = if name ∈ m.names then some name else none) ∧
      m.size = (ds.map (·.name)).toFinset.card ∧
      ∀ d, (m.insert d).1 = m.get? d.name ∧
        (m.insert d).2 = ofList (ds ++ [d]) ∧
        (m.insert d).2.names = (if d.name ∈ m.names then m.names else m.names ++ [d.name]) ∧
        (m.insert d).2.entries.filter (·.name ≠ d.name) =
          m.entries.filter (·.name ≠ d.name) := by
  intro m
  have records : Records ds m := records_ofList ds
  refine ⟨rfl, records.names, records.entries, ?_, records.size, ?_⟩
  · intro name
    exact ⟨records.last name, m.contains_eq name, m.map_name_get? name⟩
  · intro d
    refine ⟨m.insert_fst d, ?_, m.names_insert_eq d, filter_put d m.entries⟩
    rw [ofList, List.foldl_append]
    rfl

end Taxonomy.ClassMap
