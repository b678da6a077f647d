import Mathlib.Tactic.SplitIfs
import Taxonomy.Files.Path

/-!
# Joined paths

A path seen from a directory ends in the pieces that it has itself (`exists_pieces_join`), so it has
the same extension, and in front of its names are those of the directory. A text that is put after a
path belongs to its last piece (`exists_pieces_append`).
-/

namespace Taxonomy.Path

theorem pieces_ne_nil (cs : List Char) : pieces cs ≠ [] := by
  cases cs with
  | nil => exact List.cons_ne_nil _ _
  | cons c cs =>
    rw [pieces]
    split
    · exact List.cons_ne_nil _ _
    · split <;> exact List.cons_ne_nil _ _

/-- A slash separates the pieces before it from those after it. -/
theorem pieces_append_slash (xs ys : List Char) :
    pieces (xs ++ '/' :: ys) = pieces xs ++ pieces ys := by
  induction xs with
  | nil => rfl
  | cons c xs ih =>
    rw [List.cons_append, pieces, pieces]
    split
    · rw [ih, List.cons_append]
    · obtain ⟨piece, more, front⟩ := List.exists_cons_of_ne_nil (pieces_ne_nil xs)
      rw [ih, front, List.cons_append]
      rfl

/-- The names that pieces are. -/
def namesOf (pieces : List (List Char)) : List String :=
  (pieces.filter (!·.isEmpty)).map String.ofList

theorem namesOf_append (ps qs : List (List Char)) :
    namesOf (ps ++ qs) = namesOf ps ++ namesOf qs := by
  rw [namesOf, List.filter_append, List.map_append]
  rfl

theorem chars_append (xs ys : String) : (Path.mk (xs ++ ys)).chars = xs.toList ++ ys.toList :=
  String.toList_append

/-- The pieces of a path stay at the end when it is seen from a directory. -/
theorem exists_pieces_join (first : Path) (second : String) :
    ∃ front, pieces (first.join second).chars = front ++ pieces second.toList ∧
      ((Path.mk second).isAbsolute = false → first.isEmpty = false →
        namesOf front = first.names) := by
  rw [join]
  split_ifs with whole slash
  · rw [Bool.or_eq_true] at whole
    exact ⟨[], rfl, fun relative filled => by simp [relative, filled] at whole⟩
  · obtain ⟨front, text⟩ : ∃ front, first.chars = front ++ ['/'] :=
      List.getLast?_eq_some_iff.mp (beq_iff_eq.mp slash)
    refine ⟨pieces front, ?_, fun _ _ => ?_⟩
    · rw [chars_append]
      change pieces (first.chars ++ _) = _
      rw [text, List.append_assoc, List.singleton_append, pieces_append_slash]
    · change _ = namesOf (pieces first.chars)
      rw [text, pieces_append_slash, namesOf_append]
      exact (List.append_nil _).symm
  · refine ⟨pieces first.chars, ?_, fun _ _ => rfl⟩
    rw [chars_append, String.toList_append, List.append_assoc]
    exact pieces_append_slash _ _

/-- A relative path is followed after the directory that it is seen from. -/
theorem names_join {first p : Path} (relative : p.isAbsolute = false)
    (filled : first.isEmpty = false) : (first.join p.text).names = first.names ++ p.names := by
  obtain ⟨front, pieces, names⟩ := exists_pieces_join first p.text
  change namesOf _ = _
  rw [pieces, namesOf_append, names relative filled]
  rfl

theorem join_of_relative {first p : Path} (relative : p.isAbsolute = false)
    (filled : first.isEmpty = false) (unslashed : first.endsInSlash = false) :
    first.join p.text = ⟨first.text ++ "/" ++ p.text⟩ := by
  have partly : ¬((Path.mk p.text).isAbsolute || first.isEmpty) = true := by
    rw [Bool.not_eq_true, Bool.or_eq_false_iff]
    exact ⟨relative, filled⟩
  rw [join, if_neg partly, if_neg (by simp [unslashed])]

theorem join_of_isAbsolute {p : Path} (whole : p.isAbsolute = true) (first : Path) :
    first.join p.text = p := by
  rw [join, if_pos (by simp [whole])]

/-- The characters of a path seen from a directory are its own, and in front of them those of the
directory and a slash, if anything. -/
theorem exists_chars_join (first p : Path) :
    ∃ front, (first.join p.text).chars = front ++ p.chars ∧
      ∀ c ∈ front, c ∈ first.chars ∨ c = '/' := by
  rw [join]
  split_ifs
  · exact ⟨[], rfl, by simp⟩
  · exact ⟨first.chars, chars_append _ _, fun _ member => .inl member⟩
  · refine ⟨first.chars ++ ['/'], by rw [chars_append, String.toList_append]; rfl,
      fun c member => ?_⟩
    simpa using member

theorem chars_ne_nil {p : Path} (filled : p.isEmpty = false) : p.chars ≠ [] := fun none => by
  simp [isEmpty, none] at filled

theorem endsInSlash_join {p : Path} (filled : p.isEmpty = false) (first : Path) :
    (first.join p.text).endsInSlash = p.endsInSlash := by
  obtain ⟨front, text, -⟩ := exists_chars_join first p
  have last := List.getLast?_eq_some_getLast (chars_ne_nil filled)
  rw [endsInSlash, endsInSlash, text, List.getLast?_append, last, Option.some_or]

theorem isEmpty_join {p : Path} (filled : p.isEmpty = false) (first : Path) :
    (first.join p.text).isEmpty = false := by
  obtain ⟨front, text, -⟩ := exists_chars_join first p
  rw [isEmpty, text]
  simp [chars_ne_nil filled]

/-- Two steps from a directory are one step along both. -/
theorem join_join {second third : Path} (relative : third.isAbsolute = false)
    (filled : second.isEmpty = false) (unslashed : second.endsInSlash = false) (first : Path) :
    (first.join second.text).join third.text = first.join (second.text ++ "/" ++ third.text) := by
  have front : (Path.mk (second.text ++ "/" ++ third.text)).isAbsolute = second.isAbsolute := by
    have first? := List.head?_eq_some_head (chars_ne_nil filled)
    rw [isAbsolute, isAbsolute, chars_append, String.toList_append, List.append_assoc,
      List.head?_append, ← chars, first?, Option.some_or]
  rw [join_of_relative relative (isEmpty_join filled first)
    ((endsInSlash_join filled first).trans unslashed), join, join, front]
  split_ifs <;> simp [String.append_assoc]

theorem isEmpty_of_isAbsolute {p : Path} (whole : p.isAbsolute = true) : p.isEmpty = false := by
  rw [isAbsolute, beq_iff_eq] at whole
  rw [isEmpty]
  cases front : p.chars with
  | nil => rw [front] at whole; cases whole
  | cons c cs => rfl

theorem isAbsolute_join {first : Path} (whole : first.isAbsolute = true) (p : Path) :
    (first.join p.text).isAbsolute = true := by
  have first? : first.chars.head? = some '/' := beq_iff_eq.mp whole
  rw [join]
  split_ifs with own
  · simpa [isEmpty_of_isAbsolute whole] using own
  · rw [isAbsolute, chars_append, List.head?_append]
    change (first.chars.head?.or _ == _) = true
    rw [first?]
    rfl
  · rw [isAbsolute, chars_append, String.toList_append, List.append_assoc, List.head?_append]
    change (first.chars.head?.or _ == _) = true
    rw [first?]
    rfl

theorem getLast?_pieces_join (first : Path) (second : String) :
    (pieces (first.join second).chars).getLast? = (pieces second.toList).getLast? := by
  obtain ⟨front, joined, -⟩ := exists_pieces_join first second
  have last := List.getLast?_eq_some_getLast (pieces_ne_nil second.toList)
  rw [joined, List.getLast?_append, last, Option.some_or]

/-! ## Extensions -/

/-- More pieces in front leave the last piece that stands for a step as it is. -/
theorem trim_append {name : List Char} (named : isIdle name = false) (front : List (List Char)) :
    ∀ {ps rest : List (List Char)}, trim ps = name :: rest →
      trim (ps ++ front) = name :: (rest ++ front)
  | [], _, trimmed => by cases trimmed
  | [piece], _, trimmed => by
    cases trimmed
    cases front with
    | nil => rfl
    | cons next front => exact if_neg (by simp [named])
  | piece :: next :: ps, rest, trimmed => by
    change (if isIdle piece then trim (next :: ps) else piece :: next :: ps) = _ at trimmed
    change (if isIdle piece then trim (next :: ps ++ front) else piece :: (next :: ps ++ front)) = _
    split_ifs at trimmed ⊢
    · exact trim_append named front trimmed
    · cases trimmed
      rfl

theorem fileName?_eq_some {p : Path} {name : List Char} {rest : List (List Char)} :
    p.fileName? = some (name, rest) ↔
      trim (pieces p.chars).reverse = name :: rest ∧ isIdle name = false ∧
        name ≠ ['.', '.'] := by
  rw [fileName?]
  cases trim (pieces p.chars).reverse with
  | nil => simp
  | cons first more =>
    dsimp only
    by_cases idle : isIdle first || first == ['.', '.']
    · rw [if_pos idle]
      rw [Bool.or_eq_true, beq_iff_eq] at idle
      simp only [reduceCtorEq, List.cons.injEq, false_iff]
      rintro ⟨⟨rfl, rfl⟩, named, notParent⟩
      exact idle.elim (by simp [named]) notParent
    · rw [if_neg idle]
      rw [Bool.or_eq_true, beq_iff_eq, not_or, Bool.not_eq_true] at idle
      simp only [Option.some.injEq, Prod.mk.injEq, List.cons.injEq]
      refine ⟨fun ⟨same, others⟩ => ⟨⟨same, others⟩, same ▸ idle⟩,
        fun ⟨same, _⟩ => same⟩

/-- A path has the same file name wherever it is seen from. -/
theorem exists_fileName?_join {p : Path} {name : List Char} {rest : List (List Char)}
    (given : p.fileName? = some (name, rest)) (first : Path) :
    ∃ rest, (first.join p.text).fileName? = some (name, rest) := by
  obtain ⟨trimmed, named, notParent⟩ := fileName?_eq_some.mp given
  obtain ⟨front, joined, -⟩ := exists_pieces_join first p.text
  refine ⟨rest ++ front.reverse, fileName?_eq_some.mpr ⟨?_, named, notParent⟩⟩
  rw [joined, List.reverse_append]
  exact trim_append named _ trimmed

/-- So it has the same extension. -/
theorem extension?_join {p : Path} {extension : String} (given : p.extension? = some extension)
    (first : Path) : (first.join p.text).extension? = some extension := by
  rw [extension?] at given ⊢
  cases named : p.fileName? with
  | none => rw [named] at given; cases given
  | some found =>
    obtain ⟨rest, joined⟩ := exists_fileName?_join named first
    rw [named] at given
    rw [joined]
    exact given

/-! ## Extensions that are put after a name -/

theorem intercalate_cons (piece : List Char) {pieces : List (List Char)} (filled : pieces ≠ []) :
    ['/'].intercalate (piece :: pieces) = piece ++ '/' :: ['/'].intercalate pieces := by
  obtain ⟨next, more, rfl⟩ := List.exists_cons_of_ne_nil filled
  rw [List.intercalate_cons_cons, List.append_assoc]
  rfl

/-- The pieces of a text with slashes between them are the text. -/
theorem intercalate_pieces (cs : List Char) : ['/'].intercalate (pieces cs) = cs := by
  induction cs with
  | nil => rfl
  | cons c cs ih =>
    rw [pieces]
    split
    · next slash => rw [intercalate_cons _ (pieces_ne_nil cs), ih, slash, List.nil_append]
    · obtain ⟨piece, more, front⟩ := List.exists_cons_of_ne_nil (pieces_ne_nil cs)
      rw [front] at ih ⊢
      cases more with
      | nil => simpa using ih
      | cons next more =>
        rw [intercalate_cons _ (List.cons_ne_nil _ _)] at ih ⊢
        rw [List.cons_append, ih]

theorem intercalate_concat (front : List (List Char)) (last suffix : List Char) :
    ['/'].intercalate (front ++ [last ++ suffix]) =
      ['/'].intercalate (front ++ [last]) ++ suffix := by
  induction front with
  | nil => simp
  | cons piece front ih =>
    rw [List.cons_append, List.cons_append, intercalate_cons _ (by simp),
      intercalate_cons _ (by simp), ih, List.append_assoc, List.cons_append]

/-- An extension is put at the end of a path that ends in a name. -/
theorem withExtension?_eq {p : Path} {name : List Char}
    (last : (pieces p.chars).getLast? = some name) (named : isIdle name = false)
    (notParent : name ≠ ['.', '.']) (extension : String) :
    p.withExtension? extension = some ⟨p.text ++ "." ++ extension⟩ := by
  obtain ⟨front, parts⟩ := List.getLast?_eq_some_iff.mp last
  have trimmed : trim (pieces p.chars).reverse = name :: front.reverse := by
    have alone : trim [name] = [name] := rfl
    rw [parts, List.reverse_append]
    exact trim_append named _ alone
  have text : ['/'].intercalate (front ++ [name ++ '.' :: extension.toList]) =
      (p.text ++ "." ++ extension).toList := by
    rw [intercalate_concat, ← parts, intercalate_pieces, String.toList_append,
      String.toList_append, List.append_assoc]
    rfl
  rw [withExtension?, fileName?_eq_some.mpr ⟨trimmed, named, notParent⟩, Option.map_some]
  dsimp only
  rw [ofReversed, if_neg (by simp), List.reverse_cons, List.reverse_reverse, text,
    String.ofList_toList]

/-! ## Texts that are put after a path -/

theorem pieces_eq_singleton {cs : List Char} (flat : '/' ∉ cs) : pieces cs = [cs] := by
  induction cs with
  | nil => rfl
  | cons c cs ih =>
    rw [List.mem_cons, not_or] at flat
    rw [pieces, if_neg (Ne.symm flat.1), ih flat.2]

/-- What is put after a path belongs to its last piece up to the next slash. -/
theorem exists_pieces_append {suffix : List Char} (flat : '/' ∉ suffix) (cs : List Char) :
    ∃ front last, pieces cs = front ++ [last] ∧
      pieces (cs ++ suffix) = front ++ [last ++ suffix] := by
  induction cs with
  | nil => exact ⟨[], [], rfl, pieces_eq_singleton flat⟩
  | cons c cs ih =>
    obtain ⟨front, last, parts, extended⟩ := ih
    rw [List.cons_append, pieces, pieces, parts, extended]
    split_ifs
    · exact ⟨[] :: front, last, rfl, rfl⟩
    · cases front with
      | nil => exact ⟨[], c :: last, rfl, rfl⟩
      | cons piece front => exact ⟨(c :: piece) :: front, last, rfl, rfl⟩

theorem getLast?_pieces_append {suffix : List Char} (flat : '/' ∉ suffix) (cs : List Char) :
    (pieces (cs ++ suffix)).getLast? = (pieces cs).getLast?.map (· ++ suffix) := by
  obtain ⟨front, last, parts, extended⟩ := exists_pieces_append flat cs
  rw [parts, extended, List.getLast?_concat, List.getLast?_concat, Option.map_some]

/-- A path that ends in a name leads to it. -/
theorem getLast?_names {p : Path} {name : List Char} (last : (pieces p.chars).getLast? = some name)
    (filled : name ≠ []) : p.names.getLast? = some (String.ofList name) := by
  obtain ⟨front, parts⟩ := List.getLast?_eq_some_iff.mp last
  change (namesOf _).getLast? = _
  have alone : namesOf [name] = [String.ofList name] := by simp [namesOf, filled]
  rw [parts, namesOf_append, alone, List.getLast?_concat]

end Taxonomy.Path
