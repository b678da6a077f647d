import Taxonomy.Proofs.Json.Escape

/-!
# Values are read as they were written

What the program writes is made of texts, lists and records (`Written`). Such a value is read back
from its text in either layout (`ofText?_toText`). The steps that the reader may take are twice the
characters that it has, and the lemmas count them: opening a bracket and going on to the next item
take two steps and pass over a character at least.
-/

namespace Taxonomy

variable (layout : Layout)

namespace Json

/-- A value made of texts, lists and records. -/
inductive Written : Json → Prop
  | ofString (s : String) : Written (.ofString s)
  | array {items : List Json} (each : ∀ item ∈ items, Written item) : Written (.array items)
  | record {members : List (String × Json)} (each : ∀ m ∈ members, Written m.2) :
      Written (.record members)

/-! ## Blanks -/

@[simp] theorem skipSpace_newline (depth : Nat) (cs : List Char) :
    skipSpace (layout.newline depth ++ cs) = skipSpace cs := by
  cases layout with
  | compact => rfl
  | pretty =>
    have blank : ∀ n, skipSpace (List.replicate n ' ' ++ cs) = skipSpace cs := by
      intro n
      induction n with
      | zero => rfl
      | succ n ih => exact ih
    exact blank (2 * depth)

theorem readValue_congr {cs ds : List Char} (same : skipSpace cs = skipSpace ds) (steps : Nat) :
    readValue steps cs = readValue steps ds := by
  cases steps with
  | zero => rfl
  | succ steps => simp only [readValue, same]

theorem readItems_newline (depth : Nat) (cs : List Char) (steps : Nat) :
    readItems steps (layout.newline depth ++ cs) = readItems steps cs := by
  cases steps with
  | zero => rfl
  | succ steps => simp only [readItems, readValue_congr (skipSpace_newline layout depth cs)]

theorem readMembers_newline (depth : Nat) (cs : List Char) (steps : Nat) :
    readMembers steps (layout.newline depth ++ cs) = readMembers steps cs := by
  cases steps with
  | zero => rfl
  | succ steps => simp only [readMembers, skipSpace_newline]

theorem skipSpace_cons {c : Char} (visible : isSpace c = false) (cs : List Char) :
    skipSpace (c :: cs) = c :: cs :=
  List.dropWhile_cons_of_neg (by simp [visible])

/-- A colon is passed over, and so is the blank after it. -/
theorem exists_colon (cs : List Char) :
    ∃ ds, layout.colon ++ cs = ':' :: ds ∧ skipSpace ds = skipSpace cs := by
  cases layout with
  | compact => exact ⟨cs, rfl, rfl⟩
  | pretty => exact ⟨' ' :: cs, rfl, rfl⟩

/-! ## The front of a value -/

/-- What is written starts with a quote or a bracket that opens. -/
theorem Written.exists_front {j : Json} (written : Written j) (depth : Nat) :
    ∃ c cs, j.render layout depth = c :: cs ∧ isSpace c = false ∧ c ≠ ']' := by
  cases written with
  | ofString s => exact ⟨'"', _, rfl, rfl, by decide⟩
  | @array items _ => cases items <;> exact ⟨'[', _, rfl, rfl, by decide⟩
  | @record members _ => cases members <;> exact ⟨'{', _, rfl, rfl, by decide⟩

/-- A value is read back from its text at a depth, in two steps for each character, whatever
follows. -/
def Reads (depth : Nat) (j : Json) : Prop :=
  ∀ steps rest, 2 * (j.render layout depth).length ≤ steps →
    readValue steps (j.render layout depth ++ rest) = some (j, rest)

variable {layout} {depth : Nat}

theorem reads_ofString (s : String) : Reads layout depth (.ofString s) := by
  intro steps rest enough
  obtain ⟨steps, rfl⟩ : ∃ n, steps = n + 1 :=
    ⟨steps - 1, by simp [ofString, render, quote] at enough; omega⟩
  have text : (ofString s).render layout depth ++ rest =
      '"' :: (escape s.toList ++ '"' :: rest) := by
    simp [ofString, render, quote]
  rw [text, readValue, skipSpace_cons rfl]
  simp only [readString_escape, Option.map_some]
  rfl

/-! ## Lists -/

/-- The items of a list are read up to the bracket that closes it. -/
theorem readItems_render (outer : Nat) (items : List Json) :
    ∀ (item : Json) (steps : Nat) (rest : List Char),
      (∀ i ∈ item :: items, Reads layout depth i) →
      2 * ((item.render layout depth).length + (renderItems layout depth items).length + 1)
        ≤ steps →
      readItems steps (item.render layout depth ++ (renderItems layout depth items ++
        (layout.newline outer ++ ']' :: rest))) = some (item :: items, rest) := by
  induction items with
  | nil =>
    intro item steps rest each enough
    obtain ⟨steps, rfl⟩ : ∃ n, steps = n + 1 := ⟨steps - 1, by omega⟩
    rw [readItems, each item List.mem_cons_self _ _ (by omega)]
    simp only [renderItems, List.nil_append, skipSpace_newline, skipSpace_cons (c := ']') rfl]
  | cons next items ih =>
    intro item steps rest each enough
    obtain ⟨steps, rfl⟩ : ∃ n, steps = n + 1 := ⟨steps - 1, by omega⟩
    simp only [renderItems, List.length_append, List.length_cons] at enough
    have later :=
      ih next steps rest (fun i member => each i (List.mem_cons_of_mem _ member)) (by omega)
    rw [readItems, each item List.mem_cons_self _ _ (by omega)]
    simp only [renderItems, List.cons_append, List.append_assoc, skipSpace_cons (c := ',') rfl,
      readItems_newline, later, Option.map_some]

theorem reads_array {items : List Json} (written : ∀ item ∈ items, Written item)
    (each : ∀ item ∈ items, Reads layout (depth + 1) item) :
    Reads layout depth (.array items) := by
  intro steps rest enough
  cases items with
  | nil =>
    obtain ⟨steps, rfl⟩ : ∃ n, steps = n + 1 :=
      ⟨steps - 1, by simp [render] at enough; omega⟩
    rfl
  | cons item items =>
    obtain ⟨c, cs, front, visible, notClosing⟩ :=
      (written item List.mem_cons_self).exists_front layout (depth + 1)
    simp only [render, List.length_append, List.length_cons, List.length_nil] at enough
    obtain ⟨steps, rfl⟩ : ∃ n, steps = n + 1 := ⟨steps - 1, by omega⟩
    have read := readItems_render depth items item steps rest each (by omega)
    have text : (array (item :: items)).render layout depth ++ rest =
        '[' :: (layout.newline (depth + 1) ++ (item.render layout (depth + 1) ++
          (renderItems layout (depth + 1) items ++ (layout.newline depth ++ ']' :: rest)))) := by
      simp [render]
    rw [text, readValue, skipSpace_cons rfl]
    simp only [skipSpace_newline]
    rw [front, List.cons_append] at read ⊢
    rw [skipSpace_cons visible]
    split
    · next closed => exact absurd (List.cons.inj closed).1 notClosing
    · rw [read, Option.map_some]

/-! ## Records -/

/-- A member as it is kept. -/
def memberOf (m : String × Json) : List Char × Json :=
  (escape m.1.toList, m.2)

/-- One member is read, and what follows its value decides how it goes on. -/
theorem readMembers_member {member : String × Json} (value : Reads layout depth member.2)
    {steps : Nat} (enough : 2 * (renderMember layout depth (memberOf member)).length ≤ steps + 2)
    (after : List Char) :
    readMembers (steps + 1) (renderMember layout depth (memberOf member) ++ after) =
      match skipSpace after with
      | ',' :: rest => (readMembers steps rest).map fun r => (memberOf member :: r.1, r.2)
      | '}' :: rest => some ([memberOf member], rest)
      | _ => none := by
  simp only [memberOf, renderMember, quote, List.length_append, List.length_cons] at enough
  obtain ⟨ds, colon, skipped⟩ := exists_colon layout (member.2.render layout depth ++ after)
  have text : renderMember layout depth (memberOf member) ++ after =
      '"' :: (escape member.1.toList ++ '"' :: ':' :: ds) := by
    simp [memberOf, renderMember, quote, ← colon]
  have read := (readValue_congr skipped steps).trans (value steps after (by omega))
  rw [text, readMembers, skipSpace_cons rfl]
  simp only [readString_escape, skipSpace_cons (c := ':') rfl, read]
  rfl

/-- The members of a record are read up to the brace that closes it. -/
theorem readMembers_render (outer : Nat) (members : List (String × Json)) :
    ∀ (member : String × Json) (steps : Nat) (rest : List Char),
      (∀ m ∈ member :: members, Reads layout depth m.2) →
      2 * ((renderMember layout depth (memberOf member)).length +
        (renderMembers layout depth (members.map memberOf)).length + 1) ≤ steps →
      readMembers steps (renderMember layout depth (memberOf member) ++
        (renderMembers layout depth (members.map memberOf) ++
          (layout.newline outer ++ '}' :: rest))) =
        some (memberOf member :: members.map memberOf, rest) := by
  induction members with
  | nil =>
    intro member steps rest each enough
    obtain ⟨steps, rfl⟩ : ∃ n, steps = n + 1 := ⟨steps - 1, by omega⟩
    rw [readMembers_member (each member List.mem_cons_self) (by omega)]
    simp only [List.map_nil, renderMembers, List.nil_append, skipSpace_newline,
      skipSpace_cons (c := '}') rfl]
  | cons next members ih =>
    intro member steps rest each enough
    obtain ⟨steps, rfl⟩ : ∃ n, steps = n + 1 := ⟨steps - 1, by omega⟩
    simp only [List.map_cons, renderMembers, List.length_append, List.length_cons] at enough
    have later := ih next steps rest (fun m member => each m (List.mem_cons_of_mem _ member))
      (by omega)
    rw [readMembers_member (each member List.mem_cons_self) (by omega)]
    simp only [List.map_cons, renderMembers, List.cons_append, List.append_assoc,
      skipSpace_cons (c := ',') rfl, readMembers_newline, later, Option.map_some]

theorem reads_record {members : List (String × Json)}
    (each : ∀ m ∈ members, Reads layout (depth + 1) m.2) :
    Reads layout depth (.record members) := by
  intro steps rest enough
  change 2 * ((object (members.map memberOf)).render layout depth).length ≤ steps at enough
  change readValue steps ((object (members.map memberOf)).render layout depth ++ rest) =
    some (object (members.map memberOf), rest)
  cases members with
  | nil =>
    obtain ⟨steps, rfl⟩ : ∃ n, steps = n + 1 :=
      ⟨steps - 1, by simp [render] at enough; omega⟩
    rfl
  | cons member members =>
    simp only [List.map_cons, render, List.length_append, List.length_cons, List.length_nil]
      at enough
    obtain ⟨steps, rfl⟩ : ∃ n, steps = n + 1 := ⟨steps - 1, by omega⟩
    have read := readMembers_render depth members member steps rest each (by omega)
    have text : (object ((member :: members).map memberOf)).render layout depth ++ rest =
        '{' :: (layout.newline (depth + 1) ++ (renderMember layout (depth + 1) (memberOf member) ++
          (renderMembers layout (depth + 1) (members.map memberOf) ++
            (layout.newline depth ++ '}' :: rest)))) := by
      simp [render]
    obtain ⟨ds, front⟩ : ∃ ds, renderMember layout (depth + 1) (memberOf member) ++
        (renderMembers layout (depth + 1) (members.map memberOf) ++
          (layout.newline depth ++ '}' :: rest)) = '"' :: ds := ⟨_, rfl⟩
    rw [text, readValue, skipSpace_cons rfl]
    simp only [skipSpace_newline]
    rw [front] at read ⊢
    rw [skipSpace_cons rfl]
    split
    · next closed => exact absurd (List.cons.inj closed).1 (by decide)
    · rw [read]
      rfl

/-! ## Whole texts -/

theorem Written.reads {j : Json} (written : Written j) :
    ∀ depth, Reads layout depth j := by
  induction written with
  | ofString s => exact fun _ => reads_ofString s
  | array each ih =>
    exact fun depth => reads_array each fun item member => ih item member (depth + 1)
  | record each ih => exact fun depth => reads_record fun m member => ih m member (depth + 1)

/-- A value is what its text holds. -/
theorem Written.ofText?_toText {j : Json} (written : Written j) (layout : Layout) :
    ofText? (j.toText layout) = some j := by
  have reads : Reads layout 0 j := written.reads 0
  have read := reads (2 * (j.render layout 0).length + 2) [] (by omega)
  rw [List.append_nil] at read
  simp only [ofText?, toText, String.toList_ofList, String.length_ofList, read]
  rfl

end Json

end Taxonomy
