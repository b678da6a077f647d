import Taxonomy.Proofs.Schema.Part
import Taxonomy.Proofs.Schema.Seam

/-!
# One schema after another

If a text ends with a declaration and a gap follows it, nothing at its end is read otherwise because
of what comes next. So the text of two schemas has the blocks of both, and says what both say: the
classes of the second are inserted into those of the first, and the only new diagnostics are about
names that both declare (`parse_append`).
-/

namespace Taxonomy

/-- The text has no tokens, or the last one is the dot of a declaration that is accepted. -/
def EndsInDeclaration (text : String) : Prop :=
  ∀ t ∈ (tokenize text).getLast?, ∃ d, .declared d ∈ Block.ofTokens (tokenize text) ∧
    d.dot = t

namespace Block

/-- The classes declared in blocks, in order. -/
def classes (bs : List Block) : List ClassDeclaration :=
  bs.filterMap fun b => b.declaration?.map Declaration.toClass

theorem classes_append (bs cs : List Block) : classes (bs ++ cs) = classes bs ++ classes cs :=
  List.filterMap_append

theorem length_classes (bs : List Block) :
    (bs.filterMap declaration?).length = (classes bs).length := by
  rw [classes, ← List.map_filterMap, List.length_map]

/-- The blocks of a text that stands further on declare the same classes there. -/
theorem classes_shift (offset : Nat) (bs : List Block) :
    classes (bs.map (map (Token.shift offset))) =
      (classes bs).map (ClassDeclaration.shift offset) := by
  rw [classes, classes, List.filterMap_map, List.map_filterMap]
  apply List.filterMap_congr
  intro b _
  cases b with
  | declared d => exact congrArg some (Declaration.toClass_shift offset d)
  | abandoned => rfl
  | stray => rfl

/-- The last token of a text is in its last block. -/
theorem endsDeclared_of_endsInDeclaration {text : String} (closed : EndsInDeclaration text) :
    EndsDeclared (ofTokens (tokenize text)) := by
  intro b last
  have block : b ∈ ofTokens (tokenize text) := List.mem_of_getLast? last
  have cut := ofTokens_append (tokenize text)
  obtain ⟨front, split⟩ := List.getLast?_eq_some_iff.mp last
  have final : (tokenize text).getLast? = some (b.tokens.getLast b.tokens_ne_nil) := by
    rw [← cut, split, List.flatMap_append, List.flatMap_singleton,
      List.getLast?_append_of_ne_nil _ b.tokens_ne_nil, List.getLast?_eq_some_getLast]
  obtain ⟨d, declared, dot⟩ := closed _ final
  refine ⟨d, ?_⟩
  have distinct : ((ofTokens (tokenize text)).flatMap tokens).Nodup := by
    rw [cut]
    exact (inOrder_tokenize text).nodup
  have here : d.dot ∈ b.tokens := by
    rw [dot]
    exact List.getLast_mem _
  have there : d.dot ∈ (Block.declared d).tokens := by simp [tokens, Declaration.tokens]
  exact Token.eq_of_mem_flatMap distinct block declared here there

/-- The blocks of two texts with a gap between them are the blocks of both. -/
theorem ofTokens_append_gap {first gap : String} (isGap : Text.IsGap gap)
    (closed : EndsInDeclaration first) (second : String) :
    ofTokens (tokenize (first ++ gap ++ second)) = ofTokens (tokenize first) ++
      (ofTokens (tokenize second)).map
        (map (Token.shift (Text.byteLength (first ++ gap).toList))) := by
  rw [tokenize_append_gap first second isGap,
    ofTokens_append_left (endsDeclared_of_endsInDeclaration closed),
    ofTokens_map (Token.text_shift _)]

end Block

theorem classes_parse (text : String) :
    (parse text).classes = .ofList (Block.classes (Block.ofTokens (tokenize text))) :=
  Outcome.classes_foldl (Source.ofText text) _ {}

/-- Each declaration adds a class to the list or is reported to replace one. -/
theorem duplicates_parse (text : String) :
    ((parse text).report.items.filter (·.code = .duplicateClass)).length +
        (parse text).classes.size =
      (Block.classes (Block.ofTokens (tokenize text))).length := by
  have counts := Outcome.duplicates_foldl (s := Source.ofText text)
    (Block.ofTokens (tokenize text)) {}
  rw [Block.length_classes] at counts
  exact counts.trans (Nat.zero_add _)

/-- A schema that ends with a declaration and another one after a gap have the classes of the first
with those of the second inserted, are reported on as each of them is, and each name that both
declare is reported to be declared again. -/
theorem parse_append {first gap : String} (isGap : Text.IsGap gap)
    (closed : EndsInDeclaration first) (second : String) :
    let whole := first ++ gap ++ second
    let offset := Text.byteLength (first ++ gap).toList
    (parse whole).classes =
        ((parse second).classes.entries.map (ClassDeclaration.shift offset)).foldl
          (fun m d => (m.insert d).2) (parse first).classes ∧
      (parse whole).report.items.filter (·.code ≠ .duplicateClass) =
        (parse first).report.items.filter (·.code ≠ .duplicateClass) ++
          ((parse second).report.items.filter (·.code ≠ .duplicateClass)).map
            (Diagnostic.shift (Source.ofText whole) offset) ∧
      ((parse whole).report.items.filter (·.code = .duplicateClass)).length =
        ((parse first).report.items.filter (·.code = .duplicateClass)).length +
          ((parse second).report.items.filter (·.code = .duplicateClass)).length +
          ((parse second).classes.names.filter (· ∈ (parse first).classes.names)).length := by
  intro whole offset
  have blocks : Block.ofTokens (tokenize whole) = _ := Block.ofTokens_append_gap isGap closed second
  have listed : Block.classes (Block.ofTokens (tokenize whole)) =
      Block.classes (Block.ofTokens (tokenize first)) ++
        (Block.classes (Block.ofTokens (tokenize second))).map (ClassDeclaration.shift offset) := by
    rw [blocks, Block.classes_append, Block.classes_shift]
  have moved : (ClassMap.ofList ((Block.classes (Block.ofTokens (tokenize second))).map
      (ClassDeclaration.shift offset))).entries =
        (parse second).classes.entries.map (ClassDeclaration.shift offset) := by
    have keeps : ∀ d, (ClassDeclaration.shift offset d).name = d.name := fun _ => rfl
    rw [classes_parse]
    exact ClassMap.entries_foldl_insert_map keeps _ rfl
  have classes : (parse whole).classes =
      ((parse second).classes.entries.map (ClassDeclaration.shift offset)).foldl
        (fun m d => (m.insert d).2) (parse first).classes := by
    rw [← moved, ClassMap.foldl_insert_ofList, classes_parse, classes_parse, listed,
      ClassMap.ofList, List.foldl_append]
    rfl
  refine ⟨classes, ?_, ?_⟩
  · have front : whole.toList = first.toList ++ (gap.toList ++ second.toList) := by
      simp only [whole, String.toList_append, List.append_assoc]
    have middle : whole.toList = (first ++ gap).toList ++ (second.toList ++ []) := by
      simp only [whole, String.toList_append, List.append_nil]
    rw [others_parse, others_parse, others_parse, blocks, List.flatMap_append,
      Source.flatMap_ofBlock_front front, Source.flatMap_ofBlock_shift middle]
  · have all := duplicates_parse whole
    have before := duplicates_parse first
    have after := duplicates_parse second
    have distinct : (((parse second).classes.entries.map (ClassDeclaration.shift offset)).map
        (·.name)).Nodup := by
      rw [List.map_map]
      exact (parse second).classes.distinct
    have sizes := ClassMap.size_foldl_insert distinct (parse first).classes
    rw [← classes, List.map_map, List.length_map] at sizes
    rw [listed, List.length_append, List.length_map] at all
    have names : ((parse second).classes.entries.map
        ((·.name) ∘ ClassDeclaration.shift offset)) = (parse second).classes.names := rfl
    have size : (parse second).classes.entries.length = (parse second).classes.size := rfl
    rw [names, size] at sizes
    omega

/-- The first text has errors before its last declaration, and the second one declares a class
again. -/
theorem parse_append_redeclared :
    let first := "x class A \x7b no \x7d . class B ."
    let second := "class A extends B . class C . y"
    let whole := first ++ "\n" ++ second
    Text.IsGap "\n" ∧ EndsInDeclaration first ∧
      (parse whole).classes.entries =
        [{ name := "A", parent := some "B", span := ⟨29, 48⟩ },
          { name := "B", span := ⟨19, 28⟩ }, { name := "C", span := ⟨49, 58⟩ }] ∧
      ((parse whole).report.items.filter (·.code ≠ .duplicateClass)).map
          (fun d => (d.code, d.span)) =
        [(.strayText, ⟨0, 1⟩), (.malformedProperty, ⟨12, 14⟩),
          (.strayText, ⟨59, 60⟩)] ∧
      ((parse whole).report.items.filter (·.code = .duplicateClass)).length = 1 := by
  intro first second whole
  have gap : Text.IsGap "\n" := ⟨by decide, by simp [Text.isBlank]⟩
  have closed : EndsInDeclaration first := by
    intro t last
    let d : Declaration := ⟨⟨⟨"class", ⟨19, 24⟩⟩, ⟨"B", ⟨25, 26⟩⟩, none⟩,
      none, ⟨".", ⟨27, 28⟩⟩⟩
    have final : (tokenize first).getLast? = some d.dot := by decide +kernel
    refine ⟨d, by decide +kernel, ?_⟩
    exact Option.some.inj (final.symm.trans last)
  obtain ⟨classes, others, duplicates⟩ := parse_append gap closed second
  refine ⟨gap, closed, ?_, ?_, ?_⟩
  · rw [classes]
    decide +kernel
  · rw [others]
    decide +kernel
  · rw [duplicates]
    decide +kernel

end Taxonomy
