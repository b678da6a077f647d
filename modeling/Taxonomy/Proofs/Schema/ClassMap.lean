import Mathlib.Data.List.Basic
import Mathlib.Data.List.Induction
import Mathlib.Data.List.Nodup
import Taxonomy.Schema.ClassMap

/-!
# Looking up what was inserted

An insertion returns what a lookup of the name would have found before, and changes what is found
under that name only. Declarations of different names are listed as they were inserted. To insert
what a list of insertions leaves comes to the same as to make all these insertions
(`foldl_insert_ofList`).
-/

namespace Taxonomy.ClassMap

theorem put_fst (d : ClassDeclaration) (es : List ClassDeclaration) :
    (put d es).1 = es.find? (·.name == d.name) := by
  induction es with
  | nil => rfl
  | cons e es ih =>
    by_cases same : e.name = d.name
    · simp [put, same]
    · simp [put, same, ih]

theorem find?_put (d : ClassDeclaration) (es : List ClassDeclaration) (name : String) :
    (put d es).2.find? (·.name == name) =
      if d.name = name then some d else es.find? (·.name == name) := by
  induction es with
  | nil => simp [put, List.find?_singleton]
  | cons e es ih =>
    by_cases same : e.name = d.name
    · by_cases wanted : d.name = name
      · simp [put, same, wanted]
      · simp [put, same, wanted]
    · have kept : (put d (e :: es)).2 = e :: (put d es).2 := by simp [put, same]
      rw [kept]
      by_cases found : e.name = name
      · have other : d.name ≠ name := fun h => same (found.trans h.symm)
        simp [found, other]
      · simp [found, ih]

theorem insert_fst (m : ClassMap) (d : ClassDeclaration) : (m.insert d).1 = m.get? d.name :=
  put_fst d m.entries

theorem get?_insert (m : ClassMap) (d : ClassDeclaration) (name : String) :
    (m.insert d).2.get? name = if d.name = name then some d else m.get? name :=
  find?_put d m.entries name

theorem nodup_names (m : ClassMap) : m.names.Nodup :=
  m.distinct

theorem get?_eq_some_iff {m : ClassMap} {name : String} {c : ClassDeclaration} :
    m.get? name = some c ↔ c ∈ m.entries ∧ c.name = name := by
  refine ⟨?_, ?_⟩
  · intro found
    exact ⟨List.mem_of_find?_eq_some found, by simpa using List.find?_some found⟩
  · rintro ⟨member, same⟩
    cases found : m.get? name with
    | none => exact absurd same (by simpa using List.find?_eq_none.mp found c member)
    | some d =>
      have other := List.mem_of_find?_eq_some found
      have name' : d.name = name := by simpa using List.find?_some found
      rw [List.inj_on_of_nodup_map m.distinct other member (name'.trans same.symm)]

/-- Insertions of other names leave what is found under a name. -/
theorem get?_foldl_insert {ds : List ClassDeclaration} {name : String}
    (others : ∀ d ∈ ds, d.name ≠ name) (m : ClassMap) :
    (ds.foldl (fun m d => (m.insert d).2) m).get? name = m.get? name := by
  induction ds generalizing m with
  | nil => rfl
  | cons d ds ih =>
    rw [List.foldl_cons, ih fun e member => others e (List.mem_cons_of_mem _ member), get?_insert,
      if_neg (others d List.mem_cons_self)]

/-! ## What is listed -/

theorem mem_put {d e : ClassDeclaration} {es : List ClassDeclaration}
    (member : e ∈ (put d es).2) : e = d ∨ e ∈ es := by
  induction es with
  | nil => exact .inl (List.mem_singleton.mp member)
  | cons c es ih =>
    rw [put] at member
    split at member
    · exact (List.mem_cons.mp member).imp_right (List.mem_cons_of_mem c)
    · rcases List.mem_cons.mp member with rfl | later
      · exact .inr List.mem_cons_self
      · exact (ih later).imp_right (List.mem_cons_of_mem c)

/-- Only what was inserted is listed. -/
theorem mem_foldl_insert {ds : List ClassDeclaration} {m : ClassMap} {e : ClassDeclaration}
    (member : e ∈ (ds.foldl (fun m d => (m.insert d).2) m).entries) :
    e ∈ ds ∨ e ∈ m.entries := by
  induction ds generalizing m with
  | nil => exact .inr member
  | cons d ds ih =>
    rcases ih member with later | before
    · exact .inl (List.mem_cons_of_mem d later)
    · rcases mem_put before with rfl | before
      · exact .inl List.mem_cons_self
      · exact .inr before

theorem put_of_fresh {d : ClassDeclaration} {es : List ClassDeclaration}
    (fresh : d.name ∉ es.map (·.name)) : (put d es).2 = es ++ [d] := by
  induction es with
  | nil => rfl
  | cons e es ih =>
    rw [List.map_cons, List.mem_cons, not_or] at fresh
    rw [put, if_neg (Ne.symm fresh.1), ih fresh.2, List.cons_append]

theorem entries_foldl_insert {ds : List ClassDeclaration} {m : ClassMap}
    (distinct : ((m.entries ++ ds).map (·.name)).Nodup) :
    (ds.foldl (fun m d => (m.insert d).2) m).entries = m.entries ++ ds := by
  induction ds generalizing m with
  | nil => simp
  | cons d ds ih =>
    have fresh : d.name ∉ m.entries.map (·.name) := by
      rw [List.map_append, List.nodup_append] at distinct
      intro member
      exact distinct.2.2 _ member d.name (by simp) rfl
    have inserted : (m.insert d).2.entries = m.entries ++ [d] := put_of_fresh fresh
    rw [List.foldl_cons, ih (by simpa [inserted] using distinct), inserted, List.append_assoc,
      List.singleton_append]

/-! ## Insertions one after another -/

theorem eq_of_entries {m m' : ClassMap} (same : m.entries = m'.entries) : m = m' := by
  cases m
  cases m'
  cases same
  rfl

/-- The later of two declarations of a name is listed in the place of the earlier one. -/
theorem put_put {d e : ClassDeclaration} (same : e.name = d.name) (es : List ClassDeclaration) :
    (put d (put e es).2).2 = (put d es).2 := by
  induction es with
  | nil => simp [put, same]
  | cons c es ih =>
    by_cases here : c.name = d.name
    · simp [put, same, here]
    · have other : c.name ≠ e.name := fun h => here (h.trans same)
      simp [put, here, other, ih]

/-- A declaration of a name that is listed may be put in its place before or after another one is
put. -/
theorem put_comm {d e : ClassDeclaration} (other : d.name ≠ e.name) {es : List ClassDeclaration}
    (known : d.name ∈ es.map (·.name)) :
    (put d (put e es).2).2 = (put e (put d es).2).2 := by
  induction es with
  | nil => cases known
  | cons c es ih =>
    by_cases here : c.name = d.name
    · have apart : c.name ≠ e.name := fun h => other (here.symm.trans h)
      simp [put, here, other]
    · by_cases there : c.name = e.name
      · simp [put, there, Ne.symm other]
      · have later : d.name ∈ es.map (·.name) := by
          rcases List.mem_cons.mp known with first | later
          · exact absurd first.symm here
          · exact later
        simp [put, here, there, ih later]

theorem names_insert_eq (m : ClassMap) (d : ClassDeclaration) :
    (m.insert d).2.names = if d.name ∈ m.names then m.names else m.names ++ [d.name] :=
  names_put d m.entries

theorem mem_names_insert_iff {m : ClassMap} {d : ClassDeclaration} {name : String} :
    name ∈ (m.insert d).2.names ↔ name ∈ m.names ∨ name = d.name := by
  rw [names_insert_eq]
  split
  · next known =>
    constructor
    · exact .inl
    · rintro (before | rfl)
      · exact before
      · exact known
  · exact List.mem_append.trans (or_congr_right List.mem_singleton)

/-- A declaration of a name that is listed may be inserted before or after others. -/
theorem foldl_insert_comm {ds : List ClassDeclaration} {m : ClassMap} {d : ClassDeclaration}
    (known : d.name ∈ m.names) (others : ∀ e ∈ ds, e.name ≠ d.name) :
    ds.foldl (fun m d => (m.insert d).2) (m.insert d).2 =
      ((ds.foldl (fun m d => (m.insert d).2) m).insert d).2 := by
  induction ds generalizing m with
  | nil => rfl
  | cons e ds ih =>
    have swapped : ((m.insert d).2.insert e).2 = ((m.insert e).2.insert d).2 := by
      apply eq_of_entries
      exact (put_comm (others e List.mem_cons_self).symm known).symm
    rw [List.foldl_cons, List.foldl_cons, swapped]
    exact ih (mem_names_insert_iff.mpr (.inl known)) fun c member =>
      others c (List.mem_cons_of_mem _ member)

/-- To insert a declaration into a list and then insert what is listed comes to the same as to
insert what was listed and then the declaration. -/
theorem foldl_insert_put {es : List ClassDeclaration} (distinct : (es.map (·.name)).Nodup)
    (d : ClassDeclaration) (m : ClassMap) :
    (put d es).2.foldl (fun m d => (m.insert d).2) m =
      ((es.foldl (fun m d => (m.insert d).2) m).insert d).2 := by
  induction es generalizing m with
  | nil => rfl
  | cons e es ih =>
    rw [List.map_cons, List.nodup_cons] at distinct
    by_cases same : e.name = d.name
    · have known : d.name ∈ (m.insert e).2.names := mem_names_insert_iff.mpr (.inr same.symm)
      have others : ∀ c ∈ es, c.name ≠ d.name := by
        intro c member equal
        apply distinct.1
        rw [same, ← equal]
        exact List.mem_map_of_mem member
      have replaced : ((m.insert e).2.insert d).2 = (m.insert d).2 :=
        eq_of_entries (put_put same m.entries)
      rw [put, if_pos same, List.foldl_cons, List.foldl_cons, ← foldl_insert_comm known others,
        replaced]
    · rw [put, if_neg same, List.foldl_cons, List.foldl_cons]
      exact ih distinct.2 (m.insert e).2

/-- To insert what insertions leave comes to the same as to make the insertions. -/
theorem foldl_insert_ofList (ds : List ClassDeclaration) (m : ClassMap) :
    (ofList ds).entries.foldl (fun m d => (m.insert d).2) m =
      ds.foldl (fun m d => (m.insert d).2) m := by
  induction ds using List.reverseRecOn with
  | nil => rfl
  | append_singleton ds d ih =>
    have entries : (ofList (ds ++ [d])).entries = (put d (ofList ds).entries).2 := by
      rw [ofList, List.foldl_append]
      rfl
    rw [entries, foldl_insert_put (ofList ds).distinct, ih, List.foldl_append]
    rfl

section

variable {g : ClassDeclaration → ClassDeclaration} (keeps : ∀ d, (g d).name = d.name)

include keeps

theorem put_map (d : ClassDeclaration) (es : List ClassDeclaration) :
    (put (g d) (es.map g)).2 = (put d es).2.map g := by
  induction es with
  | nil => rfl
  | cons e es ih =>
    rw [List.map_cons, put, put, keeps, keeps]
    split
    · rfl
    · rw [ih, List.map_cons]

/-- Declarations with other contents are listed in the same order. -/
theorem entries_foldl_insert_map (ds : List ClassDeclaration) {m m' : ClassMap}
    (same : m'.entries = m.entries.map g) :
    ((ds.map g).foldl (fun m d => (m.insert d).2) m').entries =
      (ds.foldl (fun m d => (m.insert d).2) m).entries.map g := by
  induction ds generalizing m m' with
  | nil => exact same
  | cons d ds ih =>
    apply ih
    show (put (g d) m'.entries).2 = (put d m.entries).2.map g
    rw [same, put_map keeps]

end

/-! ## How many there are -/

/-- An insertion adds one to the list or replaces one. -/
theorem size_insert (m : ClassMap) (d : ClassDeclaration) :
    (m.insert d).1.toList.length + (m.insert d).2.size = m.size + 1 := by
  show (put d m.entries).1.toList.length + (put d m.entries).2.length = m.entries.length + 1
  induction m.entries with
  | nil => rfl
  | cons e es ih =>
    rw [put]
    split
    · simp [Nat.add_comm]
    · simp only [List.length_cons]
      omega

/-- Insertions of different names add the new ones. -/
theorem names_foldl_insert {es : List ClassDeclaration} (distinct : (es.map (·.name)).Nodup)
    (m : ClassMap) :
    (es.foldl (fun m d => (m.insert d).2) m).names =
      m.names ++ (es.map (·.name)).filter (· ∉ m.names) := by
  induction es generalizing m with
  | nil => simp
  | cons e es ih =>
    rw [List.map_cons, List.nodup_cons] at distinct
    rw [List.foldl_cons, ih distinct.2, List.map_cons]
    by_cases known : e.name ∈ m.names
    · rw [names_insert_eq, if_pos known, List.filter_cons_of_neg (by simpa using known)]
    · have same : (es.map (·.name)).filter (· ∉ m.names ++ [e.name]) =
          (es.map (·.name)).filter (· ∉ m.names) := by
        apply List.filter_congr
        intro name member
        have other : name ≠ e.name := by
          rintro rfl
          exact distinct.1 member
        simp [other]
      rw [names_insert_eq, if_neg known, same, List.filter_cons_of_pos (by simpa using known),
        List.append_assoc, List.singleton_append]

/-- As many names as were listed before are not added. -/
theorem size_foldl_insert {es : List ClassDeclaration} (distinct : (es.map (·.name)).Nodup)
    (m : ClassMap) :
    (es.foldl (fun m d => (m.insert d).2) m).size +
        ((es.map (·.name)).filter (· ∈ m.names)).length =
      m.size + es.length := by
  have all := congrArg List.length (names_foldl_insert distinct m)
  have split := List.length_eq_length_filter_add (l := es.map (·.name)) (· ∈ m.names)
  have size_eq : ∀ m : ClassMap, m.names.length = m.size := fun m => List.length_map _
  rw [List.length_append, size_eq, size_eq] at all
  rw [List.length_map] at split
  simp only [← decide_not] at split
  omega

end Taxonomy.ClassMap
