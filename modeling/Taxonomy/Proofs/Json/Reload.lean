import Taxonomy.Forest.Json
import Taxonomy.Proofs.Forest.Placement
import Taxonomy.Proofs.Json.Reader
import Taxonomy.Search.Json

/-!
# What is written loads again

Properties and search entries are records of texts and are read back whatever they hold. A node of a
forest takes two levels of nesting, so a forest is read back exactly if no node is too deep for the
reader (`mapM_ofJson?_listToJson`); what has been read is never too deep
(`fits_of_mapM_ofJson?`).
-/

namespace Taxonomy

namespace Json

/-! ## Fields of records -/

theorem valuesOf_record (key : String) (members : List (String × Json)) :
    valuesOf key (members.map memberOf) = (members.filter (·.1 == key)).map (·.2) := by
  have same (m : String × Json) : (unescape? (memberOf m).1 == some key.toList) =
      (m.1 == key) := by
    rw [memberOf, unescape?_escape, Option.some_beq_some, Bool.eq_iff_iff, beq_iff_eq, beq_iff_eq,
      String.toList_inj]
  rw [valuesOf, List.filter_map, List.map_map]
  exact congrArg _ (List.filter_congr fun m _ => same m)

/-- Each field of a record has the value of the members with its name. -/
theorem fields?_record (names : List String) (members : List (String × Json)) :
    (record members).fields? names = names.mapM fun name =>
      match (members.filter (·.1 == name)).map (·.2) with
      | [] => some none
      | [value] => some (some value)
      | _ => none := by
  have texts : ((members.map memberOf).all fun m => (unescape? m.1).isSome) = true := by
    rw [List.all_map, List.all_eq_true]
    intro m _
    rw [Function.comp_apply, memberOf, unescape?_escape, Option.isSome_some]
  change (object (members.map memberOf)).fields? names = _
  rw [fields?, if_pos texts]
  exact congrArg names.mapM (funext fun name => valuesOf_record name members ▸ rfl)

variable {α : Type}

/-- Items that are decoded to the values they come from make up the list of these. -/
theorem mapM_map {encode : α → Json} {decode : Json → Option α}
    (reads : ∀ a, decode (encode a) = some a) (as : List α) :
    (as.map encode).mapM decode = some as := by
  induction as with
  | nil => rfl
  | cons a as ih => simp [reads, ih]

end Json

open Json

/-! ## Search entries -/

namespace Property

theorem written_toJson (p : Property) : p.toJson.Written := by
  refine .record ?_
  simp only [List.forall_mem_cons, List.not_mem_nil, false_implies, implies_true, and_true]
  exact ⟨.ofString _, .ofString _⟩

theorem ofJson?_toJson (depth : Nat) (p : Property) : ofJson? (depth + 1) p.toJson = some p := by
  simp [ofJson?, toJson, fields?_record]

end Property

namespace SearchEntry

theorem written_toJson (e : SearchEntry) : e.toJson.Written := by
  refine .record fun m member => ?_
  rcases List.mem_append.mp member with text | list
  · revert m
    simp [Written.ofString]
  · obtain ⟨ps, -, rfl⟩ := List.mem_map.mp list
    refine .array fun item member => ?_
    obtain ⟨p, -, rfl⟩ := List.mem_map.mp member
    exact p.written_toJson

theorem ofJson?_toJson (depth : Nat) (e : SearchEntry) : ofJson? (depth + 3) e.toJson = some e := by
  obtain ⟨id, name, description, kind, properties⟩ := e
  cases properties with
  | none => simp [ofJson?, toJson, fields?_record, propertiesOfJson?]
  | some ps =>
    have list := mapM_map (Property.ofJson?_toJson depth) ps
    simp [ofJson?, toJson, fields?_record, propertiesOfJson?, list?, list]

end SearchEntry

/-! ## Trees -/

namespace Tree

mutual

theorem written_toJson : ∀ t : Tree, t.toJson.Written
  | node id label children => by
    refine .record ?_
    simp [Written.ofString, Written.array (written_listToJson children)]

theorem written_listToJson : ∀ (ts : List Tree), ∀ j ∈ listToJson ts, j.Written
  | [] => by simp [listToJson]
  | t :: ts => by
    simp only [listToJson, List.forall_mem_cons]
    exact ⟨written_toJson t, written_listToJson ts⟩

end

/-- A node is decoded if there are two levels of nesting and its children are decoded below them. -/
theorem ofJson?_toJson (t : Tree) (depth : Nat) :
    ofJson? (depth + 2) t.toJson =
      ((listToJson t.children).mapM (ofJson? depth)).map (.node t.id t.label) := by
  obtain ⟨id, label, children⟩ := t
  change _ = ((listToJson children).mapM (ofJson? depth)).map (node id label)
  cases decoded : (listToJson children).mapM (ofJson? depth) <;>
    simp [ofJson?, toJson, fields?_record, fieldNames, items?, decoded]

theorem ofJson?_of_lt {depth : Nat} (shallow : depth < 2) (j : Json) : ofJson? depth j = none := by
  interval_cases depth <;> rfl

theorem levels_eq (t : Tree) (level : Nat) :
    t.levels level = (level, t) :: levelsAll (level + 1) t.children := by
  cases t
  rfl

/-- The nodes of a forest whose roots are at a level fit into a depth of nesting. -/
def Fits (depth level : Nat) (ts : List Tree) : Prop :=
  ∀ p ∈ levelsAll level ts, 2 * p.1 + 2 ≤ depth + 2 * level

instance (depth level : Nat) (ts : List Tree) : Decidable (Fits depth level ts) :=
  inferInstanceAs (Decidable (∀ p ∈ levelsAll level ts, _))

theorem fits_cons {depth level : Nat} {t : Tree} {ts : List Tree} :
    Fits depth level (t :: ts) ↔
      2 ≤ depth ∧ Fits (depth - 2) (level + 1) t.children ∧ Fits depth level ts := by
  rw [Fits, levelsAll, levels_eq, List.forall_mem_append, List.forall_mem_cons]
  refine ⟨fun ⟨⟨here, below⟩, later⟩ => ⟨by omega, fun p member => ?_, later⟩,
    fun ⟨here, below, later⟩ => ⟨⟨by omega, fun p member => ?_⟩, later⟩⟩
  · have := below p member
    omega
  · have := below p member
    omega

/-- A forest is decoded exactly if it fits. -/
theorem mapM_ofJson?_listToJson (ts : List Tree) : ∀ depth level,
    (listToJson ts).mapM (ofJson? depth) = if Fits depth level ts then some ts else none := by
  induction ts using forest_induction with
  | nil => exact fun depth level => (if_pos (by simp [Fits, levelsAll])).symm
  | cons t ts below later =>
    intro depth level
    rw [listToJson, List.mapM_cons, later depth level]
    rcases Nat.lt_or_ge depth 2 with shallow | deep
    · rw [ofJson?_of_lt shallow, if_neg fun fits => absurd (fits_cons.mp fits).1 (by omega)]
      rfl
    · obtain ⟨depth, rfl⟩ : ∃ n, depth = n + 2 := ⟨depth - 2, by omega⟩
      rw [ofJson?_toJson, below depth (level + 1)]
      have whole : node t.id t.label t.children = t := by cases t; rfl
      simp only [fits_cons, Nat.add_sub_cancel, Nat.le_add_left, true_and]
      by_cases fitsBelow : Fits depth (level + 1) t.children <;>
        by_cases fitsLater : Fits (depth + 2) level ts <;> simp [fitsBelow, fitsLater, whole]

/-- The children of what has been decoded were decoded two levels below. -/
theorem exists_children {depth : Nat} {j : Json} {t : Tree} (decoded : ofJson? depth j = some t) :
    2 ≤ depth ∧ ∃ items : List Json, items.mapM (ofJson? (depth - 2)) = some t.children := by
  unfold ofJson? at decoded
  split at decoded
  · split at decoded
    · split at decoded
      · next children _ _ found =>
        obtain ⟨items, -, decodedItems⟩ := Option.bind_eq_some_iff.mp found
        cases decoded
        exact ⟨by omega, items, decodedItems⟩
      · cases decoded
    · cases decoded
  · cases decoded

/-- What has been decoded fits. -/
theorem fits_of_mapM_ofJson? (ts : List Tree) : ∀ (depth level : Nat) (items : List Json),
    items.mapM (ofJson? depth) = some ts → Fits depth level ts := by
  induction ts using forest_induction with
  | nil => exact fun depth level items _ => by simp [Fits, levelsAll]
  | cons t ts below later =>
    intro depth level items decoded
    cases items with
    | nil => cases decoded
    | cons j items =>
      rw [List.mapM_cons] at decoded
      obtain ⟨t, first, decoded⟩ := Option.bind_eq_some_iff.mp decoded
      obtain ⟨ts, others, same⟩ := Option.bind_eq_some_iff.mp decoded
      cases same
      obtain ⟨deep, children, decodedBelow⟩ := exists_children first
      exact fits_cons.mpr ⟨deep, below _ _ children decodedBelow, later _ _ items others⟩

end Tree

/-! ## Whole texts -/

theorem SearchEntry.indexOfText?_indexText (layout : Layout) (entries : List SearchEntry) :
    indexOfText? (indexText layout entries) = some entries := by
  have written : ∀ j ∈ entries.map toJson, j.Written := by
    intro j member
    obtain ⟨e, -, rfl⟩ := List.mem_map.mp member
    exact e.written_toJson
  rw [indexOfText?, indexText, (Written.array written).ofText?_toText, Option.bind_some]
  exact mapM_map (ofJson?_toJson 123) entries

theorem Property.listOfText?_listText (layout : Layout) (ps : List Property) :
    listOfText? (listText layout ps) = some ps := by
  have written : ∀ j ∈ ps.map toJson, j.Written := by
    intro j member
    obtain ⟨p, -, rfl⟩ := List.mem_map.mp member
    exact p.written_toJson
  rw [listOfText?, listText, (Written.array written).ofText?_toText, Option.bind_some]
  exact mapM_map (ofJson?_toJson 125) ps

theorem Tree.forestOfText?_forestText (layout : Layout) (forest : List Tree) :
    forestOfText? (forestText layout forest) =
      if ∀ p ∈ levelsAll 1 forest, p.1 ≤ 63 then some forest else none := by
  rw [forestOfText?, forestText, (Written.array (written_listToJson forest)).ofText?_toText,
    Option.bind_some]
  refine (mapM_ofJson?_listToJson forest 126 1).trans (if_congr ?_ rfl rfl)
  exact forall₂_congr fun p _ => by omega

/-- A forest that has been read has no node too deep. -/
theorem Tree.level_le_of_forestOfText? {text : String} {forest : List Tree}
    (read : forestOfText? text = some forest) : ∀ p ∈ levelsAll 1 forest, p.1 ≤ 63 := by
  obtain ⟨j, -, decoded⟩ := Option.bind_eq_some_iff.mp read
  cases j with
  | array items =>
    intro p member
    have := fits_of_mapM_ofJson? forest 126 1 items decoded p member
    omega
  | _ => cases decoded

/-- Search entries and properties are read back from their text in either layout. A forest is if no
node is more than 63 levels deep, and is refused otherwise. Loading any text, writing what it holds
and loading that is the same as loading it once. -/
theorem written_reloads (layout : Layout) :
    (∀ entries, SearchEntry.indexOfText? (SearchEntry.indexText layout entries) =
      some entries) ∧
    (∀ ps, Property.listOfText? (Property.listText layout ps) = some ps) ∧
    (∀ forest, Tree.forestOfText? (Tree.forestText layout forest) =
      if ∀ p ∈ Tree.levelsAll 1 forest, p.1 ≤ 63 then some forest else none) ∧
    ∀ text,
      ((SearchEntry.indexOfText? text).bind fun entries =>
        SearchEntry.indexOfText? (SearchEntry.indexText layout entries)) =
          SearchEntry.indexOfText? text ∧
      ((Property.listOfText? text).bind fun ps =>
        Property.listOfText? (Property.listText layout ps)) = Property.listOfText? text ∧
      ((Tree.forestOfText? text).bind fun forest =>
        Tree.forestOfText? (Tree.forestText layout forest)) = Tree.forestOfText? text := by
  refine ⟨SearchEntry.indexOfText?_indexText layout, Property.listOfText?_listText layout,
    Tree.forestOfText?_forestText layout, fun text => ⟨?_, ?_, ?_⟩⟩
  · simp only [SearchEntry.indexOfText?_indexText, Option.bind_fun_some]
  · simp only [Property.listOfText?_listText, Option.bind_fun_some]
  · cases read : Tree.forestOfText? text with
    | none => rfl
    | some forest =>
      rw [Option.bind_some, Tree.forestOfText?_forestText,
        if_pos (Tree.level_le_of_forestOfText? read)]

end Taxonomy
