import Taxonomy.Proofs.Toml.Text
import Taxonomy.Toml.Reader

/-!
# Documents are read as they were written

A document of tables is read line by line (`Holds`): a header for each table and an assignment for
each of its keys. If the tables have different names, and so have the keys of each, the lines make
up the tables that were written (`ofText?_documentText`).
-/

namespace Taxonomy.Toml

/-- What a scalar is read as. -/
def Scalar.toToml : Scalar → Toml
  | text s => .string s
  | switch b => .boolean b

/-- A key that needs no quotes. -/
def IsBare (key : String) : Prop :=
  key.toList ≠ [] ∧ ∀ c ∈ key.toList, isBareKeyChar c = true

instance (key : String) : Decidable (IsBare key) :=
  have := List.decidableBAll (fun c : Char => isBareKeyChar c = true) key.toList
  inferInstanceAs (Decidable (_ ∧ _))

/-- A table of which neither the name nor a key needs quotes. -/
def Section.IsBare (s : Section) : Prop :=
  Toml.IsBare s.name ∧ ∀ entry ∈ s.entries, Toml.IsBare entry.1

/-- The lines that a table is written on. -/
def Section.statements (s : Section) : List Statement :=
  .header [s.name] :: s.entries.map fun entry => .assignment [entry.1] entry.2.toToml

/-- The table that a section is read as. -/
def Section.toToml (s : Section) : String × Toml :=
  (s.name, .table (s.entries.map fun entry => (entry.1, entry.2.toToml)))

/-! ## Keys and values -/

/-- Characters of a key are none of those that mean something else at its place. -/
theorem IsBare.exists_front {key : String} (bare : IsBare key) :
    ∃ c more, key.toList = c :: more ∧ isBlank c = false ∧ c ≠ '"' ∧
      c ≠ '\'' ∧ c ≠ '[' ∧ c ≠ '#' ∧ c ≠ '\n' ∧ c ≠ '\r' := by
  obtain ⟨c, more, front⟩ := List.exists_cons_of_ne_nil bare.1
  have own : isBareKeyChar c = true := bare.2 c (by rw [front]; exact List.mem_cons_self)
  refine ⟨c, more, front, ?_, ?_, ?_, ?_, ?_, ?_, ?_⟩
  · rw [Bool.eq_false_iff]
    intro blank
    rw [isBlank, Bool.or_eq_true, beq_iff_eq, beq_iff_eq] at blank
    rcases blank with rfl | rfl <;> revert own <;> decide
  all_goals
    rintro rfl
    revert own
    decide

theorem skipBlanks_cons {c : Char} (visible : isBlank c = false) (rest : List Char) :
    skipBlanks (c :: rest) = c :: rest :=
  List.dropWhile_cons_of_neg (by simp [visible])

/-- A key is read up to a character that cannot belong to it. -/
theorem readSimpleKey_bare {key : String} (bare : IsBare key) {c : Char}
    (other : isBareKeyChar c = false) (rest : List Char) :
    readSimpleKey (key.toList ++ c :: rest) = some (key, c :: rest) := by
  obtain ⟨d, more, front, -, notDouble, notSingle, -⟩ := bare.exists_front
  have name : (key.toList ++ c :: rest).takeWhile isBareKeyChar = d :: more := by
    rw [List.takeWhile_append_of_pos bare.2, List.takeWhile_cons_of_neg (by simp [other]),
      List.append_nil, front]
  have after : (key.toList ++ c :: rest).dropWhile isBareKeyChar = c :: rest := by
    rw [List.dropWhile_append_of_pos bare.2, List.dropWhile_cons_of_neg (by simp [other])]
  have unquoted (quote : Char) (ne : d ≠ quote) (more : List Char) :
      key.toList ++ c :: rest ≠ quote :: more := by
    rw [front]
    exact fun same => ne (List.cons.inj same).1
  rw [readSimpleKey.eq_3 _ (unquoted '"' notDouble) (unquoted '\'' notSingle), name, after]
  change some (String.ofList (d :: more), c :: rest) = _
  rw [← front, String.ofList_toList]

/-- A key of one part is read together with the blanks after it. -/
theorem readKey_bare {key : String} (bare : IsBare key) {c d : Char} {rest after : List Char}
    (other : isBareKeyChar c = false) (next : skipBlanks (c :: rest) = d :: after)
    (single : d ≠ '.') (parts : Nat) :
    readKey (parts + 1) (key.toList ++ c :: rest) = some ([key], d :: after) := by
  obtain ⟨e, more, front, visible, -⟩ := bare.exists_front
  have start : skipBlanks (key.toList ++ c :: rest) = key.toList ++ c :: rest := by
    rw [front, List.cons_append, skipBlanks_cons visible]
  rw [readKey, start, readSimpleKey_bare bare other]
  dsimp only
  rw [next]
  split
  · next dotted => exact absurd (List.cons.inj dotted).1 single
  · rfl

theorem exists_quote_renderString (cs : List Char) :
    ∃ c more, renderString cs = c :: more ∧ (c = '"' ∨ c = '\'') := by
  unfold renderString
  simp only
  split_ifs
  exacts [⟨'"', _, rfl, .inl rfl⟩, ⟨'\'', _, rfl, .inr rfl⟩, ⟨'"', _, rfl, .inl rfl⟩,
    ⟨'\'', _, rfl, .inr rfl⟩, ⟨'"', _, rfl, .inl rfl⟩, ⟨'"', _, rfl, .inl rfl⟩]

theorem Scalar.exists_front (value : Scalar) :
    ∃ c more, value.render = c :: more ∧ isBlank c = false := by
  cases value with
  | text s =>
    obtain ⟨c, more, front, quote⟩ := exists_quote_renderString s.toList
    exact ⟨c, more, front, by rcases quote with rfl | rfl <;> rfl⟩
  | switch b => cases b <;> exact ⟨_, _, rfl, rfl⟩

/-- The value at the end of a line. -/
theorem readValue_render (value : Scalar) (steps nesting : Nat) (rest : List Char) :
    readValue (steps + 1) nesting (value.render ++ '\n' :: rest) =
      some (value.toToml, '\n' :: rest) := by
  cases value with
  | text s =>
    obtain ⟨c, more, front, quote⟩ := exists_quote_renderString s.toList
    have read : readString (renderString s.toList ++ '\n' :: rest) =
        some (s.toList, '\n' :: rest) :=
      readString_renderString s.toList (by simp) (by simp)
    rw [front, List.cons_append] at read
    rw [Scalar.render, front, List.cons_append, readValue.eq_def]
    dsimp only
    rw [if_pos (by simpa using quote), read, Option.map_some, String.ofList_toList]
    rfl
  | switch b => cases b <;> rfl

/-! ## Lines -/

/-- The lines that the characters hold, read in as many steps as there are characters and one
more. -/
def Holds (cs : List Char) (lines : List Statement) : Prop :=
  ∀ steps, cs.length < steps → readStatements steps cs = some lines

theorem holds_nil : Holds [] [] := by
  intro steps enough
  obtain ⟨steps, rfl⟩ : ∃ n, steps = n + 1 := ⟨steps - 1, by omega⟩
  rfl

theorem holds_newline {rest : List Char} {lines : List Statement} (later : Holds rest lines) :
    Holds ('\n' :: rest) lines := by
  intro steps enough
  rw [List.length_cons] at enough
  obtain ⟨steps, rfl⟩ : ∃ n, steps = n + 1 := ⟨steps - 1, by omega⟩
  exact later steps (by omega)

/-- A line that starts with neither a blank nor a comment nor a break is a statement. -/
theorem holds_cons {c : Char} {cs rest : List Char} {line : Statement} {lines : List Statement}
    (visible : isBlank c = false) (statement : c ≠ '#' ∧ c ≠ '\n' ∧ c ≠ '\r')
    (shorter : rest.length < cs.length)
    (read : ∀ steps, readStatement (steps + 1) (c :: cs) = some (line, rest))
    (later : Holds rest lines) : Holds (c :: cs) (line :: lines) := by
  intro steps enough
  rw [List.length_cons] at enough
  obtain ⟨steps, rfl⟩ : ∃ n, steps = n + 2 := ⟨steps - 2, by omega⟩
  rw [readStatements, skipBlanks_cons visible]
  simp only [statement, decide_false, Bool.or_false, Bool.false_eq_true, if_false, read,
    later (steps + 1) (by omega), Option.map_some]

theorem holds_header {name : String} (bare : IsBare name) {rest : List Char}
    {lines : List Statement} (later : Holds rest lines) :
    Holds ('[' :: (name.toList ++ ']' :: '\n' :: rest)) (.header [name] :: lines) := by
  refine holds_cons rfl (by decide) (by simp; omega) (fun steps => ?_) later
  obtain ⟨c, more, front, -, -, -, notBracket, -⟩ := bare.exists_front
  have single (more : List Char) : name.toList ++ ']' :: '\n' :: rest ≠ '[' :: more := by
    rw [front]
    exact fun same => notBracket (List.cons.inj same).1
  rw [readStatement.eq_2 _ _ single, readHeader]
  have key : readKey (nestingLimit - 1) (name.toList ++ ']' :: '\n' :: rest) =
      some ([name], ']' :: '\n' :: rest) :=
    readKey_bare bare rfl (skipBlanks_cons rfl _) (by decide) 78
  rw [key]
  rfl

theorem holds_entry {entry : String × Scalar} (bare : IsBare entry.1) {rest : List Char}
    {lines : List Statement} (later : Holds rest lines) :
    Holds (renderEntry entry ++ rest) (.assignment [entry.1] entry.2.toToml :: lines) := by
  obtain ⟨c, more, front, visible, -, -, notBracket, statement⟩ := bare.exists_front
  have text : renderEntry entry ++ rest =
      entry.1.toList ++ ' ' :: '=' :: ' ' :: (entry.2.render ++ '\n' :: rest) := by
    simp [renderEntry]
  have key : readKey (nestingLimit - 1)
      (entry.1.toList ++ ' ' :: '=' :: ' ' :: (entry.2.render ++ '\n' :: rest)) =
        some ([entry.1], '=' :: ' ' :: (entry.2.render ++ '\n' :: rest)) :=
    readKey_bare bare rfl rfl (by decide) 78
  have start : skipBlanks (' ' :: (entry.2.render ++ '\n' :: rest)) =
      entry.2.render ++ '\n' :: rest := by
    obtain ⟨d, more, front, visible⟩ := entry.2.exists_front
    rw [front]
    exact skipBlanks_cons visible _
  have read (steps : Nat) : readStatement (steps + 1) (renderEntry entry ++ rest) =
      some (.assignment [entry.1] entry.2.toToml, rest) := by
    rw [text, readStatement.eq_3, key]
    · simp only [start, readValue_render]
      rfl
    all_goals
      intro more same
      rw [front, List.cons_append, List.cons.injEq] at same
      exact notBracket same.1
  rw [text, front, List.cons_append] at read ⊢
  exact holds_cons visible statement (by simp; omega) read later

theorem holds_section {s : Section} (bare : s.IsBare) {rest : List Char}
    {lines : List Statement} (later : Holds rest lines) :
    Holds (s.render ++ rest) (s.statements ++ lines) := by
  have entries : ∀ entries : List (String × Scalar), (∀ entry ∈ entries, IsBare entry.1) →
      Holds (entries.flatMap renderEntry ++ rest)
        ((entries.map fun entry => .assignment [entry.1] entry.2.toToml) ++ lines) := by
    intro entries
    induction entries with
    | nil => exact fun _ => later
    | cons entry entries ih =>
      intro bare
      rw [List.forall_mem_cons] at bare
      rw [List.flatMap_cons, List.append_assoc]
      exact holds_entry bare.1 (ih bare.2)
  have text : s.render ++ rest =
      '[' :: (s.name.toList ++ ']' :: '\n' :: (s.entries.flatMap renderEntry ++ rest)) := by
    simp [Section.render]
  rw [text]
  exact holds_header bare.1 (entries s.entries bare.2)

/-- A document holds the lines of its tables. -/
theorem holds_document {sections : List Section} (bare : ∀ s ∈ sections, s.IsBare) :
    Holds (['\n'].intercalate (sections.map Section.render))
      (sections.flatMap Section.statements) := by
  induction sections with
  | nil => exact holds_nil
  | cons s sections ih =>
    rw [List.forall_mem_cons] at bare
    have later := ih bare.2
    cases sections with
    | nil =>
      have only := holds_section bare.1 holds_nil
      simpa using only
    | cons t sections =>
      rw [List.map_cons, List.map_cons, List.intercalate_cons_cons, List.append_assoc,
        List.flatMap_cons]
      exact holds_section bare.1 (holds_newline later)

/-! ## Tables -/

/-- A table under construction that is done. -/
def Section.toItem (s : Section) : String × Item :=
  (s.name, .table .defined (s.entries.map fun entry => (entry.1, .value entry.2.toToml)))

theorem update_fresh {key : String} {members : Members} (fresh : key ∉ members.map Prod.fst)
    (f : Option Item → Option Item) :
    members.update key f = (f none).map fun item => members ++ [(key, item)] := by
  induction members with
  | nil => rfl
  | cons member members ih =>
    rw [List.map_cons, List.mem_cons, not_or] at fresh
    rw [Members.update, if_neg (Ne.symm fresh.1), ih fresh.2, Option.map_map]
    rfl

theorem update_last {key : String} {members : Members} (fresh : key ∉ members.map Prod.fst)
    (item : Item) (f : Option Item → Option Item) :
    Members.update key f (members ++ [(key, item)]) =
      (f (some item)).map fun item => members ++ [(key, item)] := by
  induction members with
  | nil =>
    rw [List.nil_append, Members.update, if_pos rfl]
    rfl
  | cons member members ih =>
    rw [List.map_cons, List.mem_cons, not_or] at fresh
    rw [List.cons_append, Members.update, if_neg (Ne.symm fresh.1), ih fresh.2, Option.map_map]
    rfl

theorem startTable_fresh {name : String} {members : Members}
    (fresh : name ∉ members.map Prod.fst) :
    members.startTable [name] = some (members ++ [(name, .table .defined [])]) := by
  change members.update name _ = _
  rw [update_fresh fresh]
  rfl

/-- A key with its value goes to the end of the table that was started last. -/
theorem add_assignment {name key : String} {done filled : Members} (v : Toml)
    (last : name ∉ done.map Prod.fst) (fresh : key ∉ filled.map Prod.fst) :
    Draft.add ⟨[name], done ++ [(name, .table .defined filled)]⟩ (.assignment [key] v) =
      some ⟨[name], done ++ [(name, .table .defined (filled ++ [(key, .value v)]))]⟩ := by
  have assigned : Members.assign [key] v .defined filled = some (filled ++ [(key, .value v)]) := by
    change filled.update key _ = _
    rw [update_fresh fresh]
    rfl
  change (Members.update name _ _).map _ = _
  rw [update_last last]
  change ((((Members.assign [key] v .defined filled).map _).map _).map _) = _
  rw [assigned]
  rfl

theorem foldlM_assignments {name : String} {done : Members} (last : name ∉ done.map Prod.fst)
    (entries : List (String × Scalar)) : ∀ filled : Members,
      (filled.map Prod.fst ++ entries.map Prod.fst).Nodup →
      (entries.map fun entry => Statement.assignment [entry.1] entry.2.toToml).foldlM Draft.add
        ⟨[name], done ++ [(name, .table .defined filled)]⟩ =
      some ⟨[name], done ++ [(name, .table .defined
        (filled ++ entries.map fun entry => (entry.1, .value entry.2.toToml)))]⟩ := by
  induction entries with
  | nil =>
    intro filled _
    rw [List.map_nil, List.map_nil, List.append_nil]
    rfl
  | cons entry entries ih =>
    intro filled distinct
    rw [List.map_cons] at distinct
    have fresh : entry.1 ∉ filled.map Prod.fst := fun member =>
      (List.nodup_append.mp distinct).2.2 _ member _ List.mem_cons_self rfl
    rw [List.map_cons, List.foldlM_cons, add_assignment _ last fresh]
    refine (ih (filled ++ [(entry.1, .value entry.2.toToml)]) ?_).trans ?_
    · simpa using distinct
    · rw [List.map_cons, List.append_assoc, List.singleton_append]

/-- The lines of a table add it to those that are done. -/
theorem foldlM_statements {s : Section} {done : Members} (current : List String)
    (fresh : s.name ∉ done.map Prod.fst) (distinct : (s.entries.map Prod.fst).Nodup) :
    s.statements.foldlM Draft.add ⟨current, done⟩ =
      some ⟨[s.name], done ++ [s.toItem]⟩ := by
  rw [Section.statements, List.foldlM_cons]
  change ((done.startTable [s.name]).map _).bind _ = _
  rw [startTable_fresh fresh]
  exact foldlM_assignments fresh s.entries [] distinct

theorem foldlM_sections (sections : List Section)
    (keys : ∀ s ∈ sections, (s.entries.map Prod.fst).Nodup) :
    ∀ (current : List String) (done : Members),
      (done.map Prod.fst ++ sections.map Section.name).Nodup →
      ∃ last, (sections.flatMap Section.statements).foldlM Draft.add ⟨current, done⟩ =
        some ⟨last, done ++ sections.map Section.toItem⟩ := by
  induction sections with
  | nil =>
    intro current done _
    exact ⟨current, by rw [List.map_nil, List.append_nil]; rfl⟩
  | cons s sections ih =>
    intro current done distinct
    rw [List.forall_mem_cons] at keys
    rw [List.map_cons] at distinct
    have fresh : s.name ∉ done.map Prod.fst := fun member =>
      (List.nodup_append.mp distinct).2.2 _ member _ List.mem_cons_self rfl
    obtain ⟨last, folded⟩ := ih keys.2 [s.name] (done ++ [s.toItem])
      (by simpa [Section.toItem] using distinct)
    refine ⟨last, ?_⟩
    rw [List.flatMap_cons, List.foldlM_append, foldlM_statements current fresh keys.1]
    refine folded.trans ?_
    rw [List.map_cons, List.append_assoc, List.singleton_append]

theorem membersToToml_sections (sections : List Section) :
    membersToToml (sections.map Section.toItem) = sections.map Section.toToml := by
  have entries : ∀ entries : List (String × Scalar),
      membersToToml (entries.map fun entry => (entry.1, .value entry.2.toToml)) =
        entries.map fun entry => (entry.1, entry.2.toToml) := by
    intro entries
    induction entries with
    | nil => rfl
    | cons entry entries ih => rw [List.map_cons, membersToToml, ih]; rfl
  induction sections with
  | nil => rfl
  | cons s sections ih =>
    rw [List.map_cons, List.map_cons, Section.toItem, membersToToml, ih, Item.toToml, entries]
    rfl

/-- Tables with different names, each with different keys, are what the document that is written for
them holds. -/
theorem ofText?_documentText {sections : List Section} (bare : ∀ s ∈ sections, s.IsBare)
    (names : (sections.map Section.name).Nodup)
    (keys : ∀ s ∈ sections, (s.entries.map Prod.fst).Nodup) :
    ofText? (documentText sections) = some (sections.map Section.toToml) := by
  have lines := holds_document bare
  have unmarked (more : List Char) :
      ['\n'].intercalate (sections.map Section.render) ≠ '\uFEFF' :: more := by
    intro same
    rcases sections with _ | ⟨s, _ | ⟨t, sections⟩⟩
    · cases same
    · simp [Section.render] at same
    · rw [List.map_cons, List.map_cons, List.intercalate_cons_cons] at same
      simp [Section.render] at same
  obtain ⟨last, folded⟩ := foldlM_sections sections keys [] [] (by simpa using names)
  rw [ofText?, documentText, String.toList_ofList]
  split
  · next same => exact absurd same (unmarked _)
  · rw [lines _ (by omega), Option.bind_some, ofStatements?]
    change (List.foldlM Draft.add ⟨[], []⟩ _).map _ = _
    rw [folded, Option.map_some, List.nil_append, membersToToml_sections]

end Taxonomy.Toml
