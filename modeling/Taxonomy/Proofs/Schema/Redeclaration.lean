import Taxonomy.Proofs.Schema.Concatenation
import Taxonomy.Proofs.Schema.History

/-!
# Classes declared again

Each declaration but the first one of a name takes the place of the one before it, and one warning
says so (`Diagnostic.Announces`). Taking a block into account adds the warning about its class and
the last one of that name (`redeclares_add`), so the warnings about a name go through its
declarations two by two (`redeclares_foldl`), whatever is declared or given up between them.
-/

namespace Taxonomy

/-! ## Which class a warning is about -/

namespace Diagnostic

/-- The warning says that a class of the name is declared again. -/
def Redeclares (name : String) (d : Diagnostic) : Prop :=
  d.code = .duplicateClass ∧ s!"class `{name}` redeclared; ".toList <+: d.message.toList

instance (name : String) (d : Diagnostic) : Decidable (d.Redeclares name) :=
  inferInstanceAs (Decidable (_ ∧ _))

/-- The warning that the later declaration takes the place of the earlier one: it stands where the
later one does, and names the line on which the earlier one starts. -/
structure Announces (text : String) (earlier later : ClassDeclaration) (d : Diagnostic) : Prop where
  code : d.code = .duplicateClass
  span : d.span = later.span
  position : d.position = .after (Text.takeBytes later.span.start text.toList)
  message : d.message =
    s!"class `{later.name}` redeclared; replaces the declaration on line " ++
      toString (Position.after (Text.takeBytes earlier.span.start text.toList)).line

end Diagnostic

/-- A quoted name that has no blanks is told from what follows: a quote and a blank, and no quote
after that. -/
theorem eq_of_quoted {name other more rest : List Char}
    (visible : ∀ c ∈ other, Text.isBlank c = false) (last : '`' ∉ rest)
    (same : name ++ '`' :: ' ' :: more <+: other ++ '`' :: ' ' :: rest) : name = other := by
  obtain ⟨tail, same⟩ := same
  rw [List.append_assoc] at same
  rcases List.append_eq_append_iff.mp same with ⟨e, rfl, after⟩ | ⟨e, rfl, after⟩
  -- the other name is longer: the quote and the blank would be in it
  · cases e with
    | nil => rw [List.append_nil]
    | cons c e =>
      simp only [List.cons_append, List.cons.injEq] at after
      cases e with
      | nil => simp at after
      | cons d e =>
        simp only [List.cons_append, List.cons.injEq] at after
        have blank := visible d (by simp)
        rw [← after.2.1] at blank
        cases blank
  -- this name is longer: its quote would come after the other one's
  · cases e with
    | nil => rw [List.append_nil]
    | cons c e =>
      simp only [List.cons_append, List.cons.injEq] at after
      have quoted : '`' ∈ ' ' :: rest := by simp [after.2]
      rcases List.mem_cons.mp quoted with blank | quoted
      · cases blank
      · exact absurd quoted last

/-- A number is written without quotes. -/
theorem not_mem_toString_nat (n : Nat) : '`' ∉ (toString n).toList := by
  intro member
  have digit := Nat.isDigit_of_mem_toDigits (by decide) (by decide) (Nat.toList_repr ▸ member)
  cases digit

namespace Source

theorem toList_message_redeclared (s : Source) (earlier later : ClassDeclaration) :
    (s.redeclared earlier later).message.toList =
      "class `".toList ++ (later.name.toList ++ '`' :: ' ' ::
        ("redeclared; ".toList ++ ("replaces the declaration on line ".toList ++
          (toString (s.position earlier.span.start).line).toList))) := by
  have message : (s.redeclared earlier later).message =
      "class `" ++ later.name ++ "` redeclared; replaces the declaration on line " ++
        toString (s.position earlier.span.start).line := rfl
  rw [message]
  simp

/-- A warning names the class that it is about and no other one. -/
theorem redeclares_redeclared_iff (s : Source) (earlier : ClassDeclaration)
    {later : ClassDeclaration} (visible : ∀ c ∈ later.name.toList, Text.isBlank c = false)
    {name : String} : (s.redeclared earlier later).Redeclares name ↔ later.name = name := by
  have quoted : s!"class `{name}` redeclared; ".toList =
      "class `".toList ++ (name.toList ++ '`' :: ' ' :: "redeclared; ".toList) := by
    show ("class `" ++ name ++ "` redeclared; ").toList = _
    simp
  rw [Diagnostic.Redeclares, quoted, toList_message_redeclared, List.prefix_append_right_inj]
  constructor
  · rintro ⟨-, named⟩
    have last : '`' ∉ "redeclared; ".toList ++ ("replaces the declaration on line ".toList ++
        (toString (s.position earlier.span.start).line).toList) := by
      rw [List.mem_append, List.mem_append]
      rintro (first | middle | number)
      · revert first
        decide
      · revert middle
        decide
      · exact not_mem_toString_nat _ number
    exact (String.toList_inj.mp (eq_of_quoted visible last named)).symm
  · rintro rfl
    refine ⟨rfl, ?_⟩
    rw [List.prefix_append_right_inj, List.cons_prefix_cons, List.cons_prefix_cons]
    exact ⟨rfl, rfl, List.prefix_append _ _⟩

/-- The warnings about declarations of which each takes the place of the one before it. -/
def successions (s : Source) (ds : List ClassDeclaration) : List Diagnostic :=
  (ds.zip ds.tail).map fun p => s.redeclared p.1 p.2

end Source

/-! ## What is warned of -/

namespace Outcome

variable {s : Source} {name : String}

/-- A block adds the warning about a name if it declares the name again. -/
theorem redeclares_add (o : Outcome) (b : Block) :
    (add s o b).report.items.filter (·.Redeclares name) =
      o.report.items.filter (·.Redeclares name) ++
        (s.redeclarations o.classes b).filter (·.Redeclares name) := by
  have none : (s.ofBlock b).filter (·.Redeclares name) = [] := by
    apply List.filter_eq_nil_iff.mpr
    intro d member named
    exact code_of_mem_ofBlock member (of_decide_eq_true named).1
  rw [items_add, List.filter_append, List.filter_append, none, List.nil_append]

/-- The class of a block comes between the last one of the name and those that are declared
later. -/
theorem successions_add (o : Outcome) {b : Block}
    (visible : ∀ c ∈ Block.classes [b], ∀ x ∈ c.name.toList, Text.isBlank x = false)
    (later : List ClassDeclaration) :
    s.successions ((o.classes.get? name).toList ++
        ((Block.classes [b]).filter (·.name == name) ++ later)) =
      (s.redeclarations o.classes b).filter (·.Redeclares name) ++
        s.successions (((add s o b).classes.get? name).toList ++ later) := by
  cases b with
  | abandoned => rfl
  | stray => rfl
  | declared d =>
    have visible : ∀ x ∈ d.toClass.name.toList, Text.isBlank x = false :=
      visible d.toClass List.mem_cons_self
    have found : (add s o (.declared d)).classes.get? name =
        if d.toClass.name = name then some d.toClass else o.classes.get? name :=
      ClassMap.get?_insert o.classes d.toClass name
    have classes : Block.classes [.declared d] = [d.toClass] := rfl
    rw [found, classes, Source.redeclarations, ClassMap.insert_fst, List.filter_singleton]
    by_cases same : d.toClass.name = name
    · rw [if_pos same, same, beq_self_eq_true, cond_true]
      cases o.classes.get? name with
      | none => rfl
      | some earlier =>
        have about : (s.redeclared earlier d.toClass).Redeclares name :=
          (s.redeclares_redeclared_iff earlier visible).mpr same
        simp [Source.successions, about]
    · have other : ((o.classes.get? d.toClass.name).toList.map (s.redeclared · d.toClass)).filter
          (·.Redeclares name) = [] := by
        apply List.filter_eq_nil_iff.mpr
        intro w member named
        obtain ⟨earlier, -, rfl⟩ := List.mem_map.mp member
        exact same ((s.redeclares_redeclared_iff earlier visible).mp (of_decide_eq_true named))
      rw [if_neg same, other, beq_false_of_ne same, cond_false, List.nil_append, List.nil_append]

/-- The warnings about a name are those about its declarations, two by two. -/
theorem redeclares_foldl {bs : List Block}
    (visible : ∀ c ∈ Block.classes bs, ∀ x ∈ c.name.toList, Text.isBlank x = false)
    (o : Outcome) : (bs.foldl (add s) o).report.items.filter (·.Redeclares name) =
      o.report.items.filter (·.Redeclares name) ++
        s.successions ((o.classes.get? name).toList ++
          (Block.classes bs).filter (·.name == name)) := by
  induction bs generalizing o with
  | nil =>
    rw [List.foldl_nil]
    cases o.classes.get? name <;> exact (List.append_nil _).symm
  | cons b bs ih =>
    have split : Block.classes (b :: bs) = Block.classes [b] ++ Block.classes bs :=
      Block.classes_append [b] bs
    rw [split] at visible ⊢
    obtain ⟨own, rest⟩ := List.forall_mem_append.mp visible
    rw [List.foldl_cons, ih rest, redeclares_add, List.filter_append, successions_add o own,
      List.append_assoc]

end Outcome

section

variable {text : String}

theorem visible_of_mem_classes {c : ClassDeclaration}
    (member : c ∈ Block.classes (Block.ofTokens (tokenize text))) :
    ∀ x ∈ c.name.toList, Text.isBlank x = false := by
  obtain ⟨d, block, rfl⟩ := Outcome.exists_declared member
  apply visible_of_mem_tokenize
  apply (Block.infix_of_mem_ofTokens block).subset
  simp [Block.tokens, Declaration.tokens, Header.tokens]

theorem position_of_mem_classes {c : ClassDeclaration}
    (member : c ∈ Block.classes (Block.ofTokens (tokenize text))) :
    (Source.ofText text).position c.span.start =
      .after (Text.takeBytes c.span.start text.toList) := by
  obtain ⟨d, block, rfl⟩ := Outcome.exists_declared member
  obtain ⟨first, rest, run, span⟩ := Block.exists_run block
  have span : d.toClass.span = Token.coverAll first rest := span
  rw [span]
  exact Source.position_of_run run

/-- A warning about declarations of a text says where both of them are. -/
theorem announces_redeclared {earlier later : ClassDeclaration}
    (first : earlier ∈ Block.classes (Block.ofTokens (tokenize text)))
    (second : later ∈ Block.classes (Block.ofTokens (tokenize text))) :
    ((Source.ofText text).redeclared earlier later).Announces text earlier later := by
  refine ⟨rfl, rfl, position_of_mem_classes second, ?_⟩
  rw [← position_of_mem_classes first]
  rfl

/-- So do the warnings about declarations of which each takes the place of the one before it. -/
theorem announces_successions {ds : List ClassDeclaration}
    (part : ds ⊆ Block.classes (Block.ofTokens (tokenize text))) :
    List.Forall₂ (fun p w => w.Announces text p.1 p.2) (ds.zip ds.tail)
      ((Source.ofText text).successions ds) := by
  rw [Source.successions, List.forall₂_map_right_iff, List.forall₂_same]
  intro p pair
  obtain ⟨first, second⟩ := List.of_mem_zip pair
  exact announces_redeclared (part first) (part (List.mem_of_mem_tail second))

/-- Only classes that are declared are warned of, each warning being about one name. -/
theorem exists_name_of_duplicate {w : Diagnostic} (member : w ∈ (parse text).report.items)
    (code : w.code = .duplicateClass) :
    ∃ c ∈ Block.classes (Block.ofTokens (tokenize text)),
      ∀ name, w.Redeclares name ↔ c.name = name := by
  rcases Outcome.exists_block_of_mem_foldl member with
    none | ⟨b, block, own | ⟨m, replaced⟩⟩
  · cases none
  · exact absurd code (Outcome.code_of_mem_ofBlock own)
  · obtain ⟨d, earlier, rfl, rfl⟩ := Outcome.exists_redeclared replaced
    have declared : d.toClass ∈ Block.classes (Block.ofTokens (tokenize text)) :=
      List.mem_filterMap.mpr ⟨_, block, rfl⟩
    refine ⟨d.toClass, declared, fun name => ?_⟩
    exact Source.redeclares_redeclared_iff _ earlier (visible_of_mem_classes declared)

end

/-- Of a name that a text declares several times, each declaration but the first is warned of, in
order, with its place and the line of the one before it, which it replaces: the last one is found
under the name, and names are listed in the order of their first declarations. Nothing else is
warned of as declared again. -/
theorem parse_warns_of_redeclarations (text : String) :
    let classes := (parse text).classes
    let report := (parse text).report.items
    let declared := Block.classes (Block.ofTokens (tokenize text))
    (∀ name,
      let same := declared.filter (·.name == name)
      let warnings := report.filter (·.Redeclares name)
      warnings.length = same.length - 1 ∧
        List.Forall₂ (fun p w => w.Announces text p.1 p.2) (same.zip same.tail) warnings ∧
        classes.get? name = same.getLast?) ∧
      classes.names = (declared.map (·.name)).eraseDups ∧
      (∀ w ∈ report.filter (·.code = .duplicateClass),
        ∃ name ∈ classes.names, ∀ other, w.Redeclares other ↔ name = other) ∧
      (report.filter (·.code = .duplicateClass)).length + classes.size = declared.length := by
  intro classes report declared
  have records : ClassMap.Records declared classes := by
    show ClassMap.Records _ (parse text).classes
    rw [classes_parse]
    exact ClassMap.records_ofList declared
  refine ⟨?_, records.names, ?_, duplicates_parse text⟩
  · intro name same warnings
    have listed : warnings = (Source.ofText text).successions same :=
      Outcome.redeclares_foldl (fun c => visible_of_mem_classes) {}
    have part : same ⊆ declared := List.filter_sublist.subset
    have announced := announces_successions part
    rw [← listed] at announced
    refine ⟨?_, announced, records.last name⟩
    rw [← announced.length_eq, List.length_zip, List.length_tail]
    exact Nat.min_eq_right (Nat.sub_le _ _)
  · intro w member
    obtain ⟨reported, code⟩ := List.mem_filter.mp member
    obtain ⟨c, known, about⟩ := exists_name_of_duplicate reported (of_decide_eq_true code)
    refine ⟨c.name, ?_, about⟩
    rw [records.names, List.mem_eraseDups]
    exact List.mem_map_of_mem known

/-- Three declarations of a name, of which the second one comes after one that is given up. The last
one is found. -/
theorem parse_warns_twice_of_three_declarations :
    let text := "class A .\nclass A extends .\nclass B .\nclass A extends T .\n" ++
      "class A extends U \x7b *a X; *b Y; \x7d ."
    let report := (parse text).report.items
    let declared := Block.classes (Block.ofTokens (tokenize text))
    (declared.filter (·.name == "A")).length = 3 ∧
      (report.filter (·.Redeclares "A")).length = 2 ∧
      (report.filter (·.Redeclares "A")).map (·.position) = [⟨4, 1⟩, ⟨5, 1⟩] ∧
      (parse text).classes.get? "A" =
        some { name := "A", parent := some "U", properties := [⟨"a", "X"⟩, ⟨"b", "Y"⟩],
               span := ⟨58, 93⟩ } ∧
      ∃ w ∈ report.filter (·.code = .duplicateClass),
        ∃ name ∈ (parse text).classes.names,
          ∀ other, w.Redeclares other ↔ name = other := by
  intro text report declared
  obtain ⟨named, -, others, -⟩ := parse_warns_of_redeclarations text
  obtain ⟨twice, -, last⟩ := named "A"
  have three : (declared.filter (·.name == "A")).length = 3 := by decide +kernel
  have reported : report.filter (·.code = .duplicateClass) ≠ [] := by decide +kernel
  obtain ⟨w, member⟩ := List.exists_mem_of_ne_nil _ reported
  refine ⟨three, ?_, by decide +kernel, last.trans (by decide +kernel), w, member,
    others w member⟩
  rw [twice, three]

end Taxonomy
