import Taxonomy.Proofs.Schema.ClassMap
import Taxonomy.Proofs.Schema.Extent
import Taxonomy.Proofs.Schema.Reader

/-!
# Parsing and the grammar

A text parses without errors exactly if its tokens have a reading, and then the reading is the only
one and says all that `parse` returns. Blocks carry both directions: a valid reading is cut into the
blocks of its own parts (`ofTokens_reading`), and blocks without errors make up a reading
(`exists_reading`).
-/

namespace Taxonomy

/-! ## The class of a phrase -/

/-- Properties with nothing between them list themselves. -/
theorem listsProperties_of_isItem {es : List Entry} (items : ∀ e ∈ es, e.IsItem) :
    ListsProperties (es.flatMap Entry.tokens) (es.filterMap Entry.property?) := by
  induction es with
  | nil => exact .nil
  | cons e es ih =>
    rw [List.forall_mem_cons] at items
    cases e with
    | property star name range semicolon =>
      obtain ⟨isStar, isName, isRange, isSemicolon⟩ := items.1
      exact .cons isStar isName isRange isSemicolon (ih items.2)
    | junk => exact items.1.elim

namespace Declaration

variable {d : Declaration}

theorem namesParent_of_isPhrase (phrase : d.IsPhrase) :
    NamesParent (d.header.parent.elim [] fun p => [p.1, p.2])
      (d.header.parent.map (·.2.text)) := by
  cases clause : d.header.parent with
  | none => exact .none
  | some p =>
    obtain ⟨keyword, parent⟩ := phrase.parent p clause
    exact .some keyword parent

theorem holdsProperties_of_isPhrase (phrase : d.IsPhrase) :
    HoldsProperties (d.body.elim [] Body.tokens) (d.entries.filterMap Entry.property?) := by
  rw [entries]
  cases present : d.body with
  | none => exact .none
  | some b =>
    obtain ⟨opening, items, closing⟩ := phrase.body b present
    exact .block opening (listsProperties_of_isItem items) closing

/-- The class of a phrase is the one that its tokens declare. -/
theorem declaresClass_of_isPhrase (phrase : d.IsPhrase) (order : Token.InOrder d.tokens) :
    DeclaresClass d.tokens d.toClass := by
  have declares := DeclaresClass.intro phrase.keyword phrase.name (namesParent_of_isPhrase phrase)
    (holdsProperties_of_isPhrase phrase) phrase.dot
  rw [← span_eq order] at declares
  exact declares

end Declaration

namespace Block

/-- Nothing in the block is an error. -/
def clean : Block → Bool
  | declared d => d.entries.all (·.property?.isSome)
  | abandoned .. => false
  | stray .. => true

/-- The block of a stretch of stray text, if that is not empty. -/
def ofStray : List Token → List Block
  | [] => []
  | t :: ts => [.stray t ts]

/-- A stray run ends where `class` comes next or nothing does. -/
theorem ofTokens_stray {ss rest : List Token} (stray : ∀ t ∈ ss, t.kind ≠ .classKeyword)
    (stops : ∀ t ∈ rest.head?, t.kind = .classKeyword) :
    ofTokens (ss ++ rest) = ofStray ss ++ ofTokens rest := by
  cases ss with
  | nil => rfl
  | cons s ss =>
    have first : s.kind ≠ .classKeyword := stray s List.mem_cons_self
    have run : ∀ t ∈ ss, (t.kind != .classKeyword) = true := by
      intro t member
      simpa using stray t (List.mem_cons_of_mem _ member)
    have none : rest.takeWhile (·.kind != .classKeyword) = [] ∧
        rest.dropWhile (·.kind != .classKeyword) = rest := by
      cases rest with
      | nil => exact ⟨rfl, rfl⟩
      | cons t ts => simp [stops t rfl]
    rw [List.cons_append, ofTokens, if_neg first, List.takeWhile_append_of_pos run,
      List.dropWhile_append_of_pos run, none.1, none.2, List.append_nil]
    rfl

theorem ofTokens_phrase {d : Declaration} (phrase : d.IsPhrase) (rest : List Token) :
    ofTokens (d.tokens ++ rest) = .declared d :: ofTokens rest := by
  have tokens : d.tokens ++ rest = d.header.keyword :: (d.tokens.tail ++ rest) := rfl
  rw [tokens, ofTokens, if_pos phrase.keyword, readDeclaration, Declaration.read_phrase phrase]

end Block

namespace Reading

/-- The blocks of phrases and of what stands after each. -/
def partsBlocks (ps : List (Declaration × List Token)) : List Block :=
  ps.flatMap fun p => .declared p.1 :: Block.ofStray p.2

/-- The blocks of a reading. -/
def blocks (r : Reading) : List Block :=
  Block.ofStray r.lead ++ partsBlocks r.parts

theorem head?_parts {ps : List (Declaration × List Token)} (phrase : ∀ p ∈ ps, p.1.IsPhrase) :
    ∀ t ∈ (ps.flatMap fun p => p.1.tokens ++ p.2).head?, t.kind = .classKeyword := by
  cases ps with
  | nil => simp
  | cons p ps =>
    intro t head
    cases head
    exact (phrase p List.mem_cons_self).keyword

theorem ofTokens_parts {ps : List (Declaration × List Token)}
    (phrase : ∀ p ∈ ps, p.1.IsPhrase)
    (stray : ∀ p ∈ ps, ∀ t ∈ p.2, t.kind ≠ .classKeyword) :
    Block.ofTokens (ps.flatMap fun p => p.1.tokens ++ p.2) = partsBlocks ps := by
  induction ps with
  | nil => simp [Block.ofTokens, partsBlocks]
  | cons p ps ih =>
    have later := ih (fun q member => phrase q (List.mem_cons_of_mem _ member))
      (fun q member => stray q (List.mem_cons_of_mem _ member))
    have stops := head?_parts fun q member => phrase q (List.mem_cons_of_mem _ member)
    rw [List.flatMap_cons, List.append_assoc,
      Block.ofTokens_phrase (phrase p List.mem_cons_self),
      Block.ofTokens_stray (stray p List.mem_cons_self) stops, later]
    simp [partsBlocks]

/-- The tokens of a valid reading are cut into its own blocks. -/
theorem ofTokens_reading {r : Reading} (valid : r.Valid) : Block.ofTokens r.tokens = r.blocks := by
  rw [tokens, Block.ofTokens_stray valid.lead (head?_parts valid.phrase),
    ofTokens_parts valid.phrase valid.stray]
  rfl

/-- The blocks of a stretch of stray text end where a declaration's block begins. -/
theorem ofStray_append_inj {ss us : List Token} {ps qs : List (Declaration × List Token)}
    (same : Block.ofStray ss ++ partsBlocks ps = Block.ofStray us ++ partsBlocks qs) :
    ss = us ∧ partsBlocks ps = partsBlocks qs := by
  cases ss <;> cases us <;> cases ps <;> cases qs <;> simp_all [Block.ofStray, partsBlocks]

theorem partsBlocks_inj {ps qs : List (Declaration × List Token)}
    (same : partsBlocks ps = partsBlocks qs) : ps = qs := by
  induction ps generalizing qs with
  | nil =>
    cases qs with
    | nil => rfl
    | cons q qs => simp [partsBlocks] at same
  | cons p ps ih =>
    cases qs with
    | nil => simp [partsBlocks] at same
    | cons q qs =>
      simp only [partsBlocks, List.flatMap_cons, List.cons_append, List.cons.injEq,
        Block.declared.injEq] at same
      obtain ⟨declaration, rest⟩ := same
      obtain ⟨after, later⟩ := ofStray_append_inj rest
      rw [Prod.ext declaration after, ih later]

/-- A token list has at most one valid reading. -/
theorem valid_unique {r q : Reading} (valid : r.Valid) (other : q.Valid)
    (same : r.tokens = q.tokens) : r = q := by
  have blocks : r.blocks = q.blocks := by
    rw [← ofTokens_reading valid, ← ofTokens_reading other, same]
  obtain ⟨lead, parts⟩ := ofStray_append_inj blocks
  have parts := partsBlocks_inj parts
  cases r
  cases q
  simp_all

theorem clean_ofStray (ss : List Token) : ∀ b ∈ Block.ofStray ss, b.clean := by
  cases ss <;> simp [Block.ofStray, Block.clean]

theorem isItem_of_mem_entries {d : Declaration} (phrase : d.IsPhrase) :
    ∀ e ∈ d.entries, e.IsItem := by
  intro e member
  cases present : d.body with
  | none => simp [Declaration.entries, present] at member
  | some b =>
    rw [Declaration.entries, present] at member
    exact (phrase.body b present).2.1 e member

/-- There are no errors in the blocks of a valid reading. -/
theorem clean_blocks {r : Reading} (valid : r.Valid) : ∀ b ∈ r.blocks, b.clean := by
  intro b member
  rcases List.mem_append.mp member with member | member
  · exact clean_ofStray _ b member
  · obtain ⟨p, part, member⟩ := List.mem_flatMap.mp member
    rcases List.mem_cons.mp member with rfl | member
    · refine List.all_eq_true.mpr fun e entry => ?_
      have item := isItem_of_mem_entries (valid.phrase p part) e entry
      cases e with
      | property => rfl
      | junk => exact item.elim
    · exact clean_ofStray _ b member

/-- Blocks without errors make up a reading. -/
theorem exists_reading (ts : List Token) (clean : ∀ b ∈ Block.ofTokens ts, b.clean) :
    ∃ r : Reading, r.Valid ∧ r.tokens = ts := by
  fun_induction Block.ofTokens ts with
  | case1 => exact ⟨⟨[], []⟩, ⟨by simp, by simp, by simp⟩, rfl⟩
  | case2 t ts kind ih =>
    obtain ⟨r, valid, same⟩ := ih fun b member => clean b (List.mem_cons_of_mem _ member)
    have first := clean _ List.mem_cons_self
    have append := Block.readDeclaration_append t ts
    cases read : Declaration.read t ts with
    | error dropped =>
      cases cause : dropped.cause <;>
        simp [Block.readDeclaration, read, Block.ofDropped, cause, Block.clean] at first
    | ok result =>
      obtain ⟨d, rest⟩ := result
      simp only [Block.readDeclaration, read, Block.clean, Block.tokens, List.all_eq_true]
        at first append same
      have phrase : d.IsPhrase := by
        refine Declaration.shaped_mono (Declaration.shaped_of_read kind read) ?_
        intro e member formed
        refine formed.resolve_right fun junk => ?_
        simpa [junk] using first e member
      refine ⟨⟨[], (d, r.lead) :: r.parts⟩, ⟨by simp, ?_, ?_⟩, ?_⟩
      · intro p member
        rcases List.mem_cons.mp member with rfl | member
        · exact phrase
        · exact valid.phrase p member
      · intro p member
        rcases List.mem_cons.mp member with rfl | member
        · exact valid.lead
        · exact valid.stray p member
      · rw [← append, ← same]
        simp [tokens]
  | case3 t ts kind ih =>
    obtain ⟨r, valid, same⟩ := ih fun b member => clean b (List.mem_cons_of_mem _ member)
    refine ⟨⟨t :: ts.takeWhile (·.kind != .classKeyword) ++ r.lead, r.parts⟩,
      ⟨?_, valid.phrase, valid.stray⟩, ?_⟩
    · intro u member
      rcases List.mem_append.mp member with member | member
      · rcases List.mem_cons.mp member with rfl | member
        · exact kind
        · simpa using List.all_eq_true.mp List.all_takeWhile u member
      · exact valid.lead u member
    · have run := List.takeWhile_append_dropWhile (p := (·.kind != .classKeyword)) (l := ts)
      rw [← same, tokens] at run
      simpa [tokens] using run

end Reading

/-! ## Errors -/

namespace Outcome

theorem any_isError_ofEntries (s : Source) (name : String) (es : List Entry) :
    (s.ofEntries name es).any Diagnostic.isError = !es.all (·.property?.isSome) := by
  induction es with
  | nil => rfl
  | cons e es ih =>
    cases e with
    | property => simpa [Source.ofEntries, Entry.property?] using ih
    | junk => rfl

/-- A block adds an error if there is one in it. -/
theorem hasErrors_add (s : Source) (o : Outcome) (b : Block) :
    (add s o b).report.hasErrors = (o.report.hasErrors || !b.clean) := by
  cases b with
  | declared d =>
    have replaced : ∀ e : Option ClassDeclaration,
        (e.toList.map (s.redeclared · d.toClass)).any Diagnostic.isError = false := by
      intro e
      cases e <;> rfl
    simp only [add, Report.append, Report.hasErrors, List.any_append, any_isError_ofEntries,
      replaced, Block.clean, Bool.or_false]
  | abandoned keyword rest entries cause =>
    have error : (s.diagnose cause.code
        (Block.abandoned keyword rest entries cause).span cause.message).isError = true := by
      cases cause <;> rfl
    simp [add, Report.push, Report.append, Report.hasErrors, error, Block.clean]
  | stray first rest =>
    have warning : (s.stray (Block.stray first rest).span).isError = false := rfl
    simp [add, Report.push, Report.hasErrors, warning, Block.clean]

theorem hasErrors_foldl (s : Source) (bs : List Block) (o : Outcome) :
    (bs.foldl (add s) o).report.hasErrors = (o.report.hasErrors || !bs.all Block.clean) := by
  induction bs generalizing o with
  | nil => simp
  | cons b bs ih =>
    rw [List.foldl_cons, ih, hasErrors_add, List.all_cons, Bool.not_and, Bool.or_assoc]

end Outcome

theorem hasErrors_parse (text : String) :
    (parse text).report.hasErrors = !(Block.ofTokens (tokenize text)).all Block.clean := by
  rw [parse, Outcome.hasErrors_foldl]
  rfl

/-! ## What a reading says -/

theorem Report.append_append (r : Report) (ds es : List Diagnostic) :
    (r.append ds).append es = r.append (ds ++ es) := by
  simp [Report.append]

namespace Reading

/-- The map finds under each name the last of the declarations with it. -/
def Known (m : ClassMap) (earlier : List Declaration) : Prop :=
  ∀ name, m.get? name =
    (earlier.find? fun e => e.header.name.text == name).map Declaration.toClass

theorem known_insert {m : ClassMap} {earlier : List Declaration} (known : Known m earlier)
    (d : Declaration) : Known (m.insert d.toClass).2 (d :: earlier) := by
  intro name
  rw [ClassMap.get?_insert, known name, List.find?_cons]
  by_cases same : d.header.name.text = name
  · simp [Declaration.toClass, same]
  · have other : (d.header.name.text == name) = false := beq_false_of_ne same
    simp [Declaration.toClass, same, other]

theorem ofEntries_items (s : Source) (name : String) {es : List Entry}
    (items : ∀ e ∈ es, e.IsItem) : s.ofEntries name es = [] := by
  rw [Source.ofEntries, List.filterMap_eq_nil_iff]
  intro e member
  cases e with
  | property => rfl
  | junk => exact (items _ member).elim

theorem add_phrase {s : Source} {o : Outcome} {earlier : List Declaration} {d : Declaration}
    (phrase : d.IsPhrase) (known : Known o.classes earlier) :
    Outcome.add s o (.declared d) =
      ⟨(o.classes.insert d.toClass).2, o.report.append (duplicateReport s earlier d)⟩ := by
  have replaced : (o.classes.insert d.toClass).1 =
      (earlier.find? fun e => e.header.name.text == d.header.name.text).map
        Declaration.toClass := by
    rw [ClassMap.insert_fst]
    exact known d.header.name.text
  have items := ofEntries_items s d.header.name.text (isItem_of_mem_entries phrase)
  rw [Outcome.add, replaced, items, Report.append_append, duplicateReport]
  cases earlier.find? fun e => e.header.name.text == d.header.name.text <;> rfl

theorem foldl_ofStray (s : Source) (o : Outcome) (ss : List Token) :
    (Block.ofStray ss).foldl (Outcome.add s) o =
      ⟨o.classes, o.report.append (strayReport s ss)⟩ := by
  cases ss with
  | nil => simp [Block.ofStray, strayReport, Report.append]
  | cons t ts => rfl

/-- Phrases are inserted in order, and the warnings about them come in their order. -/
theorem foldl_partsBlocks (s : Source) {ps : List (Declaration × List Token)}
    (phrase : ∀ p ∈ ps, p.1.IsPhrase) (o : Outcome) (earlier : List Declaration)
    (known : Known o.classes earlier) :
    (partsBlocks ps).foldl (Outcome.add s) o =
      ⟨(ps.map fun p => p.1.toClass).foldl (fun m d => (m.insert d).2) o.classes,
        o.report.append (partsReport s earlier ps)⟩ := by
  induction ps generalizing o earlier with
  | nil => simp [partsBlocks, partsReport, Report.append]
  | cons p ps ih =>
    have blocks : partsBlocks (p :: ps) =
        .declared p.1 :: (Block.ofStray p.2 ++ partsBlocks ps) := by
      simp [partsBlocks]
    rw [blocks, List.foldl_cons, add_phrase (phrase p List.mem_cons_self) known,
      List.foldl_append, foldl_ofStray,
      ih (fun q member => phrase q (List.mem_cons_of_mem _ member)) _ (p.1 :: earlier)
        (known_insert known p.1)]
    simp only [List.map_cons, List.foldl_cons, Report.append_append, partsReport,
      List.append_assoc]

/-- What a valid reading of a text says is what the text parses to. -/
theorem parse_reading {text : String} {r : Reading} (valid : r.Valid)
    (same : r.tokens = tokenize text) :
    parse text = ⟨r.classes, ⟨r.report (Source.ofText text)⟩⟩ := by
  have known : Known ClassMap.empty [] := fun name => rfl
  rw [parse, ← same, ofTokens_reading valid, blocks, List.foldl_append, foldl_ofStray,
    foldl_partsBlocks _ valid.phrase _ [] known]
  rfl

/-- Each phrase of a reading declares its class. -/
theorem declaresClass_of_mem_parts {text : String} {r : Reading} (valid : r.Valid)
    (same : r.tokens = tokenize text) {p : Declaration × List Token} (member : p ∈ r.parts) :
    DeclaresClass p.1.tokens p.1.toClass := by
  have part := (Block.infix_flatMap (fun p => p.1.tokens ++ p.2) member).sublist
  have whole : p.1.tokens.Sublist r.tokens :=
    ((List.sublist_append_left _ _).trans part).trans (List.sublist_append_right _ _)
  rw [same] at whole
  exact Declaration.declaresClass_of_isPhrase (valid.phrase p member)
    ((inOrder_tokenize text).sublist whole)

end Reading

/-- A text parses without errors exactly if its tokens can be read as declaration phrases with text
without `class` between them. The reading is then the only one; the classes that its phrases
declare, inserted in order, are those of the text, and the report consists of the warnings about the
stray text and the repeated names of the reading. -/
theorem parse_accepts_iff_reading (text : String) :
    ((parse text).report.hasErrors = false ↔
      ∃ r : Reading, r.Valid ∧ r.tokens = tokenize text) ∧
    ∀ r : Reading, r.Valid → r.tokens = tokenize text →
      (∀ q : Reading, q.Valid → q.tokens = tokenize text → q = r) ∧
      (parse text).classes = r.classes ∧
      (parse text).report.items = r.report (Source.ofText text) ∧
      ∀ p ∈ r.parts, DeclaresClass p.1.tokens p.1.toClass := by
  refine ⟨⟨?_, ?_⟩, ?_⟩
  · intro accepted
    apply Reading.exists_reading
    rw [hasErrors_parse, Bool.not_eq_false'] at accepted
    exact List.all_eq_true.mp accepted
  · rintro ⟨r, valid, same⟩
    rw [hasErrors_parse, ← same, Reading.ofTokens_reading valid, Bool.not_eq_false',
      List.all_eq_true]
    exact Reading.clean_blocks valid
  · intro r valid same
    have parsed := Reading.parse_reading valid same
    refine ⟨?_, by rw [parsed], by rw [parsed],
      fun p => Reading.declaresClass_of_mem_parts valid same⟩
    intro q other equal
    exact Reading.valid_unique other valid (equal.trans same.symm)

/-- Keywords as the names of a class, a parent and a property, a name twice, a property twice, and
stray text. -/
def Reading.keywordNames : Reading where
  lead := [⟨"x", ⟨0, 1⟩⟩]
  parts :=
    [(⟨⟨⟨"class", ⟨2, 7⟩⟩, ⟨"extends", ⟨8, 15⟩⟩, none⟩,
        none,
        ⟨".", ⟨16, 17⟩⟩⟩, []),
      (⟨⟨⟨"class", ⟨18, 23⟩⟩, ⟨"extends", ⟨24, 31⟩⟩,
          some (⟨"extends", ⟨32, 39⟩⟩, ⟨"class", ⟨40, 45⟩⟩)⟩,
        some ⟨⟨"\x7b", ⟨46, 47⟩⟩,
          [.property ⟨"*", ⟨48, 49⟩⟩ ⟨"class", ⟨49, 54⟩⟩
              ⟨"extends", ⟨55, 62⟩⟩ ⟨";", ⟨62, 63⟩⟩,
            .property ⟨"*", ⟨64, 65⟩⟩ ⟨"b", ⟨65, 66⟩⟩
              ⟨"C", ⟨67, 68⟩⟩ ⟨";", ⟨68, 69⟩⟩,
            .property ⟨"*", ⟨70, 71⟩⟩ ⟨"class", ⟨71, 76⟩⟩
              ⟨"extends", ⟨77, 84⟩⟩ ⟨";", ⟨84, 85⟩⟩],
          ⟨"\x7d", ⟨86, 87⟩⟩⟩,
        ⟨".", ⟨88, 89⟩⟩⟩, [])]

theorem parse_accepts_keyword_names :
    let text := "x class extends . class extends extends class \x7b *class extends; *b C; " ++
      "*class extends; \x7d ."
    Reading.keywordNames.Valid ∧ Reading.keywordNames.tokens = tokenize text ∧
      (parse text).report.hasErrors = false ∧
      (parse text).classes.entries =
        [{ name := "extends", parent := some "class",
           properties := [⟨"class", "extends"⟩, ⟨"b", "C"⟩, ⟨"class", "extends"⟩],
           span := ⟨18, 89⟩ }] ∧
      (parse text).report.items.map (·.code) = [.strayText, .duplicateClass] := by
  intro text
  have item : ∀ e ∈ Reading.keywordNames.parts.flatMap (·.1.entries), e.IsItem := by
    simp [Reading.keywordNames, Declaration.entries, Entry.IsItem, Token.kind, TokenKind.ofText,
      Token.isText, TokenKind.isText]
  have valid : Reading.keywordNames.Valid := by
    refine ⟨by decide, ?_, by decide⟩
    intro p member
    simp only [Reading.keywordNames, List.mem_cons, List.not_mem_nil, or_false] at member
    rcases member with rfl | rfl
    · exact ⟨by decide, by decide, by decide, by simp, by decide⟩
    · refine ⟨by decide, by decide, by decide, ?_, by decide⟩
      rintro b ⟨⟩
      exact ⟨by decide, item, by decide⟩
  have same : Reading.keywordNames.tokens = tokenize text := by decide +kernel
  obtain ⟨accepts, determines⟩ := parse_accepts_iff_reading text
  obtain ⟨-, classes, items, -⟩ := determines _ valid same
  refine ⟨valid, same, accepts.mpr ⟨_, valid, same⟩, ?_, ?_⟩
  · rw [classes]
    decide +kernel
  · rw [items]
    decide +kernel

end Taxonomy
