import Taxonomy.Proofs.Schema.Account
import Taxonomy.Proofs.Schema.Grammar
import Taxonomy.Proofs.Schema.Move

/-!
# Recovery

Wherever a reader of declarations stands when it comes to where a declaration begins, it leaves all
of that declaration: each step that starts in front of the place ends in front of it (the `suffix_`
lemmas). A dangling `class` is the one exception, since it takes the `class` of a declaration of the
name `extends` for its own name. So a good declaration is read whatever comes before and after it
(`parse_recovers`).
-/

namespace Taxonomy

/-- A place among tokens where a declaration begins: the keyword, a name, and what can come after a
name. -/
structure Opening where
  keyword : Token
  name : Token
  next : Token
  rest : List Token
  isClass : keyword.kind = .classKeyword
  isName : name.isText
  follows : next.kind ∈ [TokenKind.extendsKeyword, .leftBrace, .dot]

namespace Opening

variable (o : Opening)

/-- The tokens from the place on. -/
def tokens : List Token :=
  o.keyword :: o.name :: o.next :: o.rest

/-- What stands before the place does not run into it: the class is not named `extends`, or no
`class` stands right before it. -/
def Free (ts : List Token) : Prop :=
  o.name.kind ≠ .extendsKeyword ∨ ∀ t, t :: o.tokens <:+ ts → t.kind ≠ .classKeyword

variable {o} {t : Token} {ts us : List Token}

theorem Free.of_suffix (free : o.Free ts) (part : us <:+ ts) : o.Free us :=
  free.imp_right fun clear t before => clear t (before.trans part)

theorem Free.not_follows (free : o.Free (t :: ts)) (kind : t.kind = .classKeyword) :
    o.name.kind ≠ .extendsKeyword ∨ ts ≠ o.tokens := by
  refine free.imp_right ?_
  rintro clear rfl
  exact clear t (List.suffix_refl _) kind

theorem not_suffix_nil : ¬ o.tokens <:+ [] := by
  simp [tokens]

/-- The place is not at a token that is not `class`. -/
theorem suffix_of_cons (within : o.tokens <:+ t :: ts) (kind : t.kind ≠ .classKeyword) :
    o.tokens <:+ ts := by
  rcases List.suffix_cons_iff.mp within with here | later
  · obtain ⟨rfl, -⟩ := List.cons.inj here
    exact absurd o.isClass kind
  · exact later

theorem suffix_dropWhile (within : o.tokens <:+ ts) :
    o.tokens <:+ ts.dropWhile (·.kind != .classKeyword) := by
  induction ts with
  | nil => exact absurd within not_suffix_nil
  | cons t ts ih =>
    by_cases kind : t.kind = .classKeyword
    · simpa [kind] using within
    · simpa [kind] using ih (suffix_of_cons within kind)

/-! ## Property blocks -/

theorem suffix_skipEntry (within : o.tokens <:+ ts) : o.tokens <:+ (Entry.skip ts).2 := by
  fun_induction Entry.skip ts with
  | case1 => exact within
  | case2 => exact within
  | case3 => exact within
  | case4 => exact within
  | case5 t ts kind => exact suffix_of_cons within (by simp [kind])
  | case6 t ts _ _ other _ ih => exact ih (suffix_of_cons within other)

/-- The beginning of a declaration is no part of a property: neither its name nor what follows that
is a semicolon. -/
theorem suffix_readProperty {star : Token} {e : Entry} (within : o.tokens <:+ ts)
    (read : Entry.readProperty star ts = some (e, us)) : o.tokens <:+ us := by
  have isClass := o.isClass
  have isName := o.isName
  have follows := o.follows
  unfold Entry.readProperty at read
  split at read
  · rename_i name range semicolon rest
    split at read
    · rename_i kinds
      cases read
      have last : semicolon.kind = .semicolon := by
        simp only [Bool.and_eq_true, beq_iff_eq] at kinds
        exact kinds.2
      simp only [List.suffix_cons_iff, tokens, List.cons.injEq] at within
      rcases within with ⟨-, -, rfl, -⟩ | ⟨-, rfl, -⟩ | ⟨rfl, -⟩ | within
      · simp [last] at follows
      · simp [Token.isText, last, TokenKind.isText] at isName
      · simp [last] at isClass
      · exact within
    · cases read
  · cases read

theorem suffix_readEntry (within : o.tokens <:+ ts) : o.tokens <:+ (Entry.read t ts).2 := by
  unfold Entry.read
  split
  · exact within
  · split
    · rename_i found
      split at found
      · exact suffix_readProperty within found
      · cases found
    · exact suffix_skipEntry within

/-- A property block that was not closed before a declaration begins is left open there. -/
theorem suffix_readAll (within : o.tokens <:+ ts) : o.tokens <:+ (Entry.readAll ts).2.2 := by
  fun_induction Entry.readAll ts with
  | case1 => exact within
  | case2 t ts kind => exact suffix_of_cons within (by simp [kind])
  | case3 => exact within
  | case4 t ts _ other ih => exact ih (suffix_readEntry (suffix_of_cons within other))

/-! ## Declarations -/

/-- The tokens left by a step of reading, whether it succeeded or not. -/
def left {α : Type} : Except Dropped (α × List Token) → List Token
  | .ok result => result.2
  | .error dropped => dropped.rest

@[simp] theorem left_ok {α : Type} (a : α) : left (.ok (a, ts)) = ts := rfl

theorem suffix_skip (within : o.tokens <:+ ts) : o.tokens <:+ (Declaration.skip ts).2 := by
  fun_induction Declaration.skip ts with
  | case1 => exact within
  | case2 => exact within
  | case3 t ts kind => exact suffix_of_cons within (by simp [kind])
  | case4 t ts other _ ih => exact ih (suffix_of_cons within other)

/-- The keyword of a declaration is taken for a name only where the declaration's name can follow a
name. -/
theorem suffix_readName {followers : List TokenKind} {name : Token} (within : o.tokens <:+ ts)
    (read : Token.readName followers ts = some (name, us))
    (free : o.name.kind ∉ followers ∨ ts ≠ o.tokens) : o.tokens <:+ us := by
  obtain rfl := Token.readName_eq_some read
  rcases List.suffix_cons_iff.mp within with here | later
  · have other := free.resolve_right (· here.symm)
    rw [← here] at read
    simp [tokens, Token.readName, o.isClass, other] at read
  · exact later

theorem name_not_mem {followers : List TokenKind} (marks : ∀ k ∈ followers, k.isText = false) :
    o.name.kind ∉ followers := by
  intro member
  have isName : o.name.kind.isText = true := o.isName
  rw [marks _ member] at isName
  cases isName

theorem suffix_readHeader (keyword : Token) (within : o.tokens <:+ ts)
    (free : o.name.kind ≠ .extendsKeyword ∨ ts ≠ o.tokens) :
    o.tokens <:+ left (Declaration.readHeader keyword ts) := by
  have marks : o.name.kind ∉ [TokenKind.leftBrace, .dot] := name_not_mem (by decide)
  have free : o.name.kind ∉ [TokenKind.extendsKeyword, .leftBrace, .dot] ∨ ts ≠ o.tokens :=
    free.imp_left fun other => List.not_mem_cons_of_ne_of_not_mem other marks
  unfold Declaration.readHeader
  split
  · exact within
  · rename_i read
    exact suffix_readName within read free
  · rename_i read
    have after := suffix_readName within read free
    split
    · rename_i kind
      have after := suffix_of_cons after (by simp [kind])
      split
      · exact after
      · rename_i parent
        exact suffix_readName after parent (.inl marks)
    · exact after

theorem suffix_readBody (h : Header) (within : o.tokens <:+ ts) :
    o.tokens <:+ left (Declaration.readBody h ts) := by
  unfold Declaration.readBody
  split
  · exact within
  · rename_i t ts
    split
    · rename_i kind
      have all := suffix_readAll (suffix_of_cons within (by simp [kind]))
      split
      · rename_i read
        simpa [read] using all
      · rename_i read
        simpa [left, read] using all
    · exact within

theorem suffix_readDot {h : Header} {body : Option Body} (within : o.tokens <:+ ts) :
    o.tokens <:+ left (Declaration.readDot h body ts) := by
  unfold Declaration.readDot
  cases ts with
  | nil => exact within
  | cons t ts =>
    by_cases kind : t.kind = .dot
    · simpa [kind] using suffix_of_cons within (by simp [kind])
    · simpa [left, kind] using within

theorem suffix_read (keyword : Token) (within : o.tokens <:+ ts)
    (free : o.name.kind ≠ .extendsKeyword ∨ ts ≠ o.tokens) :
    o.tokens <:+ left (Declaration.read keyword ts) := by
  have header := suffix_readHeader keyword within free
  unfold Declaration.read
  split
  · rename_i read
    simpa [left, read] using header
  · rename_i h us read
    rw [read, left_ok] at header
    have body := suffix_readBody h header
    split
    · rename_i read
      simpa [left, read] using body
    · rename_i read
      rw [read, left_ok] at body
      exact suffix_readDot body

/-- A declaration that was begun before another begins leaves that one alone. -/
theorem suffix_readDeclaration (within : o.tokens <:+ ts) (free : o.Free (t :: ts))
    (kind : t.kind = .classKeyword) : o.tokens <:+ (Block.readDeclaration t ts).2 := by
  have rest := suffix_read t within (free.not_follows kind)
  unfold Block.readDeclaration
  split
  · rename_i read
    simpa [read] using rest
  · rename_i read
    rw [read] at rest
    unfold Block.ofDropped
    split
    · exact rest
    · exact suffix_skip rest

/-- Blocks end where a declaration begins. -/
theorem exists_ofTokens (within : o.tokens <:+ ts) (free : o.Free ts) :
    ∃ earlier, Block.ofTokens ts = earlier ++ Block.ofTokens o.tokens := by
  fun_induction Block.ofTokens ts with
  | case1 => exact absurd within not_suffix_nil
  | case2 t ts kind ih =>
    rcases List.suffix_cons_iff.mp within with here | later
    · exact ⟨[], by rw [here, Block.ofTokens, if_pos kind, List.nil_append]⟩
    · have part : (Block.readDeclaration t ts).2 <:+ t :: ts :=
        ⟨_, Block.readDeclaration_append t ts⟩
      obtain ⟨earlier, same⟩ :=
        ih (suffix_readDeclaration later free kind) (free.of_suffix part)
      exact ⟨_ :: earlier, by rw [same, List.cons_append]⟩
  | case3 t ts kind ih =>
    have part : ts.dropWhile (·.kind != .classKeyword) <:+ t :: ts :=
      (List.dropWhile_suffix _).trans (List.suffix_cons t ts)
    obtain ⟨earlier, same⟩ :=
      ih (suffix_dropWhile (suffix_of_cons within kind)) (free.of_suffix part)
    exact ⟨_ :: earlier, by rw [same, List.cons_append]⟩

end Opening

/-- A declaration phrase begins as a declaration does. -/
theorem Declaration.exists_opening {d : Declaration} (phrase : d.IsPhrase) (rest : List Token) :
    ∃ o : Opening, o.name = d.header.name ∧ o.tokens = d.tokens ++ rest := by
  obtain ⟨next, ts, same, follows⟩ := exists_after_header phrase rest
  rcases header : d.header with ⟨keyword, name, parent⟩
  have isClass : keyword.kind = .classKeyword := by simpa [header] using phrase.keyword
  have isName : name.isText := by simpa [header] using phrase.name
  cases parent with
  | none =>
    refine ⟨⟨keyword, name, next, ts, isClass, isName, List.mem_cons_of_mem _ follows⟩, rfl,
      ?_⟩
    simp [Opening.tokens, tokens, header, Header.tokens, same]
  | some p =>
    have kind := (phrase.parent p (by simp [header])).1
    refine ⟨⟨keyword, name, p.1, p.2 :: next :: ts, isClass, isName, by simp [kind]⟩, rfl,
      ?_⟩
    simp [Opening.tokens, tokens, header, Header.tokens, same]

/-- Blocks that end with a declaration phrase and what follows it, whatever stands before. -/
theorem Block.exists_ofTokens_phrase {d : Declaration} (phrase : d.IsPhrase)
    (before rest : List Token)
    (free : d.header.name.kind ≠ .extendsKeyword ∨
      ∀ t ∈ before.getLast?, t.kind ≠ .classKeyword) :
    ∃ earlier, ofTokens (before ++ (d.tokens ++ rest)) =
        earlier ++ .declared d :: ofTokens rest ∧ earlier.flatMap tokens = before := by
  obtain ⟨o, name, opening⟩ := Declaration.exists_opening phrase rest
  have free : o.Free (before ++ (d.tokens ++ rest)) := by
    rw [Opening.Free, name, opening]
    refine free.imp_right fun last t within => ?_
    obtain ⟨more, same⟩ := within
    have split : more ++ [t] = before := by
      rw [List.append_cons] at same
      exact List.append_cancel_right same
    exact last t (by simp [← split])
  obtain ⟨earlier, blocks⟩ := Opening.exists_ofTokens ⟨before, by rw [opening]⟩ free
  rw [opening, ofTokens_phrase phrase] at blocks
  refine ⟨earlier, blocks, ?_⟩
  have all := ofTokens_append (before ++ (d.tokens ++ rest))
  rw [blocks, List.flatMap_append, List.flatMap_cons, ofTokens_append] at all
  exact List.append_cancel_right all

/-- The last of the declarations of a name is found under it. -/
theorem get?_parse_of_last {text : String} {earlier later : List Block} {d : Declaration}
    (blocks : Block.ofTokens (tokenize text) = earlier ++ .declared d :: later)
    (last : ∀ e, .declared e ∈ later → e.header.name.text ≠ d.header.name.text) :
    (parse text).classes.get? d.header.name.text = some d.toClass := by
  have others : ∀ c ∈ later.filterMap fun b => b.declaration?.map Declaration.toClass,
      c.name ≠ d.header.name.text := by
    intro c member
    obtain ⟨e, block, rfl⟩ := Outcome.exists_declared member
    exact last e block
  rw [parse, Outcome.classes_foldl, blocks, List.filterMap_append, List.filterMap_cons,
    List.foldl_append]
  exact (ClassMap.get?_foldl_insert others _).trans
    ((ClassMap.get?_insert _ _ _).trans (if_pos rfl))

/-- A good declaration with a gap on each side is declared, whatever text stands before it and after
it, unless a dangling `class` takes its keyword for a name, which only a class named `extends`
allows. The class is the one that its tokens declare where they stand in the whole text. It is found
under its name if that is not declared again. -/
theorem parse_recovers (before after : String) {gap₁ gap₂ text : String} {d : Declaration}
    (isGap₁ : Text.IsGap gap₁) (isGap₂ : Text.IsGap gap₂) (phrase : d.IsPhrase)
    (tokens : d.tokens = tokenize text)
    (free : d.header.name.kind ≠ .extendsKeyword ∨
      ∀ t ∈ (tokenize before).getLast?, t.kind ≠ .classKeyword) :
    let whole := before ++ gap₁ ++ text ++ gap₂ ++ after
    let offset := Text.byteLength (before ++ gap₁).toList
    let found := d.map (Token.shift offset)
    let later := Block.ofTokens ((tokenize after).map
      (Token.shift (Text.byteLength (before ++ gap₁ ++ text ++ gap₂).toList)))
    (∃ earlier, Block.ofTokens (tokenize whole) = earlier ++ .declared found :: later ∧
      earlier.flatMap Block.tokens = tokenize before) ∧
    found.tokens = (tokenize text).map (Token.shift offset) ∧
    DeclaresClass found.tokens found.toClass ∧
    found.toClass = { d.toClass with
      span := ⟨offset + d.header.keyword.span.start, offset + d.dot.span.stop⟩ } ∧
    ((∀ e, .declared e ∈ later → e.header.name.text ≠ d.header.name.text) →
      (parse whole).classes.get? d.header.name.text = some found.toClass) := by
  intro whole offset found later
  have keeps : ∀ t, (Token.shift offset t).text = t.text := fun t => rfl
  have phrase' : found.IsPhrase := Declaration.isPhrase_map keeps phrase
  have moved : found.tokens = (tokenize text).map (Token.shift offset) := by
    rw [Declaration.tokens_map, tokens]
  have cut : tokenize whole = tokenize before ++ (found.tokens ++ (tokenize after).map
      (Token.shift (Text.byteLength (before ++ gap₁ ++ text ++ gap₂).toList))) := by
    rw [tokenize_append_gap _ _ isGap₂, tokenize_append_gap _ _ isGap₁, moved,
      List.append_assoc]
  have order : Token.InOrder found.tokens := by
    refine (inOrder_tokenize whole).sublist ?_
    rw [cut]
    exact (List.sublist_append_left _ _).trans (List.sublist_append_right _ _)
  have span : found.span = ⟨offset + d.header.keyword.span.start, offset + d.dot.span.stop⟩ :=
    Declaration.span_eq order
  obtain ⟨earlier, blocks, own⟩ :=
    Block.exists_ofTokens_phrase phrase' (tokenize before) _ free
  rw [← cut] at blocks
  refine ⟨⟨earlier, blocks, own⟩, moved,
    Declaration.declaresClass_of_isPhrase phrase' order, ?_,
    fun last => get?_parse_of_last blocks last⟩
  rw [Declaration.toClass_map keeps, span]

/-- The text before it ends inside a property of a block that is never closed. The class is named by
a keyword and has a property twice. -/
theorem parse_recovers_in_open_block :
    let text := "class class extends T \x7b *a X; *a X; \x7d ."
    let d : Declaration :=
      ⟨⟨⟨"class", ⟨0, 5⟩⟩, ⟨"class", ⟨6, 11⟩⟩,
        some (⟨"extends", ⟨12, 19⟩⟩, ⟨"T", ⟨20, 21⟩⟩)⟩,
        some ⟨⟨"\x7b", ⟨22, 23⟩⟩,
          [.property ⟨"*", ⟨24, 25⟩⟩ ⟨"a", ⟨25, 26⟩⟩
              ⟨"X", ⟨27, 28⟩⟩ ⟨";", ⟨28, 29⟩⟩,
            .property ⟨"*", ⟨30, 31⟩⟩ ⟨"a", ⟨31, 32⟩⟩
              ⟨"X", ⟨33, 34⟩⟩ ⟨";", ⟨34, 35⟩⟩],
          ⟨"\x7d", ⟨36, 37⟩⟩⟩,
        ⟨".", ⟨38, 39⟩⟩⟩
    Text.IsGap "\n" ∧ d.IsPhrase ∧ d.tokens = tokenize text ∧
      d.header.name.kind ≠ .extendsKeyword ∧
      (parse ("x class B \x7b *c" ++ "\n" ++ text ++ "\n" ++ "\x7d")).classes.get? "class" =
        some { name := "class", parent := some "T", properties := [⟨"a", "X"⟩, ⟨"a", "X"⟩],
               span := ⟨15, 54⟩ } := by
  intro text d
  have gap : Text.IsGap "\n" := ⟨by decide, by simp [Text.isBlank]⟩
  have phrase : d.IsPhrase := by
    refine ⟨by decide, by decide, by decide, ?_, by decide⟩
    rintro b ⟨⟩
    refine ⟨by decide, ?_, by decide⟩
    rw [List.forall_mem_cons, List.forall_mem_singleton]
    exact ⟨⟨by decide, by decide, by decide, by decide⟩,
      ⟨by decide, by decide, by decide, by decide⟩⟩
  have tokens : d.tokens = tokenize text := by decide +kernel
  have name : d.header.name.kind ≠ .extendsKeyword := by decide
  obtain ⟨-, -, -, found, get?⟩ :=
    parse_recovers "x class B \x7b *c" "\x7d" gap gap phrase tokens (.inl name)
  refine ⟨gap, phrase, tokens, name, ?_⟩
  refine (get? ?_).trans ?_
  · intro e member
    have none := (by decide +kernel : ∀ b ∈ Block.ofTokens _, b.declaration? = none) _ member
    cases none
  · rw [found]
    decide +kernel

/-- A dangling `class` takes the keyword of a class named `extends` for a name. -/
example : (parse "class class extends .").classes.isEmpty := by decide +kernel

end Taxonomy
