import Mathlib.Tactic.IntervalCases
import Taxonomy.Toml.Printer
import Taxonomy.Toml.Text

/-!
# Strings of a TOML document are read as they were written

The text that is written for a string is read back as that string, whichever of the five forms it
has been given (`readString_renderString`). Where a form goes over several lines, what has to be
shown is that the first three quotes in a row close it: no more than two are written in a row, and
if they stand at the end, the reader takes them for a part of the string.
-/

namespace Taxonomy.Toml

/-! ## Characters -/

theorem isPlain_of_isControl_eq_false {c : Char} (visible : isControl c = false)
    (unbroken : c ≠ '\n') : isPlain c = true := by
  simp only [isControl, Bool.and_eq_false_iff, bne_eq_false_iff_eq, Bool.or_eq_false_iff,
    decide_eq_false_iff_not, beq_eq_false_iff_ne] at visible
  simp only [isPlain, Bool.or_eq_true, beq_iff_eq, Bool.and_eq_true, decide_eq_true_eq, bne_iff_ne]
  rcases visible with (tab | newline) | ⟨low, delete⟩
  · exact .inl tab
  · exact absurd newline unbroken
  · exact .inr ⟨by omega, delete⟩

/-- The digits of a control character's code point are read as that character. -/
theorem codePoint?_upperHexDigit {n : Nat} (control : n < 0x20 ∨ n = 0x7F) (rest : List Char) :
    codePoint? 4 ('0' :: '0' :: upperHexDigit (n / 16) :: upperHexDigit (n % 16) :: rest) =
      some (Char.ofNat n, rest) := by
  rcases control with low | rfl
  · interval_cases n <;> rfl
  · rfl

/-- A character is written as an escape of its own, as a line break, or as it is. -/
theorem escapeChar_cases (overLines : Bool) (c : Char) :
    (∃ written, escapeChar overLines c = '\\' :: written ∧ ∀ rest,
      escape? (written ++ rest) = some (c, rest) ∧ joinedLine? (written ++ rest) = none) ∨
    (escapeChar overLines c = ['\n'] ∧ c = '\n' ∧ overLines = true) ∨
    (escapeChar overLines c = [c] ∧ isPlain c = true ∧ c ≠ '\\') := by
  unfold escapeChar
  split_ifs with tab newline lines backslash b f r control
  · exact .inl ⟨['t'], rfl, fun _ => ⟨by rw [tab]; rfl, rfl⟩⟩
  · exact .inr (.inl ⟨rfl, newline, lines⟩)
  · exact .inl ⟨['n'], rfl, fun _ => ⟨by rw [newline]; rfl, rfl⟩⟩
  · exact .inl ⟨['\\'], rfl, fun _ => ⟨by rw [backslash]; rfl, rfl⟩⟩
  · exact .inl ⟨['b'], rfl, fun _ => ⟨by rw [b]; rfl, rfl⟩⟩
  · exact .inl ⟨['f'], rfl, fun _ => ⟨by rw [f]; rfl, rfl⟩⟩
  · exact .inl ⟨['r'], rfl, fun _ => ⟨by rw [r]; rfl, rfl⟩⟩
  · have low : c.toNat < 0x20 ∨ c.toNat = 0x7F := by
      simp only [isControl, Bool.and_eq_true, Bool.or_eq_true, decide_eq_true_eq, beq_iff_eq]
        at control
      exact control.2
    refine .inl ⟨_, rfl, fun rest => ⟨?_, rfl⟩⟩
    exact (codePoint?_upperHexDigit low rest).trans (by rw [c.ofNat_toNat])
  · exact .inr
      (.inr ⟨rfl, isPlain_of_isControl_eq_false (by simpa using control) newline, backslash⟩)

/-! ## One line -/

theorem readBasic_escaped {cs rest : List Char} {c : Char} (escaped : escape? cs = some (c, rest)) :
    readBasic ('\\' :: cs) = (readBasic rest).map fun r => (c :: r.1, r.2) := by
  rw [readBasic]
  simp only [Char.reduceEq, if_false, if_true]
  split
  · next none => cases none.symm.trans escaped
  · next found =>
    cases found.symm.trans escaped
    rfl

theorem readBasic_plain {c : Char} (plain : isPlain c = true) (notQuote : c ≠ '"')
    (notEscape : c ≠ '\\') (rest : List Char) :
    readBasic (c :: rest) = (readBasic rest).map fun r => (c :: r.1, r.2) := by
  rw [readBasic, if_neg notQuote, if_neg notEscape, if_pos plain]

/-- Between double quotes on one line, with everything escaped that has to be. -/
theorem readBasic_escape (cs rest : List Char) :
    readBasic (escape false 0 cs ++ '"' :: rest) = some (cs, rest) := by
  induction cs with
  | nil => rw [escape, List.nil_append, readBasic, if_pos rfl]
  | cons c cs ih =>
    by_cases quote : c = '"'
    · subst quote
      have written : escape false 0 ('"' :: cs) = '\\' :: '"' :: escape false 0 cs := rfl
      have escaped (cs : List Char) : escape? ('"' :: cs) = some ('"', cs) := rfl
      rw [written, List.cons_append, List.cons_append, readBasic_escaped (escaped _), ih]
      rfl
    · rw [escape, if_neg quote, List.append_assoc]
      rcases escapeChar_cases false c with ⟨written, same, reads⟩ | ⟨-, -, lines⟩ |
        ⟨same, plain, notEscape⟩
      · rw [same, List.cons_append, readBasic_escaped (reads _).1, ih]
        rfl
      · cases lines
      · rw [same, List.cons_append, List.nil_append, readBasic_plain plain quote notEscape, ih]
        rfl

/-- Between single quotes on one line. -/
theorem readLiteral_self {cs : List Char} (plain : ∀ c ∈ cs, isPlain c = true)
    (unquoted : '\'' ∉ cs) (rest : List Char) :
    readLiteral (cs ++ '\'' :: rest) = some (cs, rest) := by
  induction cs with
  | nil => rfl
  | cons c cs ih =>
    rw [List.forall_mem_cons] at plain
    rw [List.mem_cons, not_or] at unquoted
    rw [List.cons_append, readLiteral, if_neg (Ne.symm unquoted.1), if_pos plain.1,
      ih plain.2 unquoted.2]
    rfl

/-! ## Closing quotes -/

theorem extraQuotes_of_head?_ne {quote : Char} {cs : List Char} (other : cs.head? ≠ some quote) :
    extraQuotes quote cs = ([], cs) := by
  rcases cs with _ | ⟨a, _ | ⟨b, rest⟩⟩
  · rfl
  all_goals
    have : a ≠ quote := fun same => other (congrArg some same)
    simp [extraQuotes, this]

theorem closing?_cons_eq_some {quote a b c : Char} {rest after : List Char} :
    closing? quote (a :: b :: c :: rest) = some after ↔
      (a = quote ∧ b = quote ∧ c = quote) ∧ rest = after := by
  simp [closing?, and_assoc]

theorem closing?_of_ne {quote c : Char} (other : c ≠ quote) (cs : List Char) :
    closing? quote (c :: cs) = none := by
  rcases cs with _ | ⟨a, _ | ⟨b, cs⟩⟩ <;> simp [closing?, other]

/-- Three quotes in a row that come before three closing ones leave at most two for the string, and
nothing but quotes. -/
theorem extraQuotes_of_closing? {quote : Char} {cs rest after : List Char}
    (few : ∀ more, cs ≠ quote :: quote :: quote :: more) (other : rest.head? ≠ some quote)
    (closed : closing? quote (cs ++ (triple quote ++ rest)) = some after) :
    extraQuotes quote after = (cs, rest) ∧ ∀ c ∈ cs, c = quote := by
  rcases cs with _ | ⟨a, _ | ⟨b, _ | ⟨c, cs⟩⟩⟩
  · obtain ⟨-, rfl⟩ := closing?_cons_eq_some.mp closed
    exact ⟨extraQuotes_of_head?_ne other, by simp⟩
  · obtain ⟨⟨rfl, -⟩, rfl⟩ := closing?_cons_eq_some.mp closed
    refine ⟨?_, by simp⟩
    rcases rest with _ | ⟨d, rest⟩
    · simp [extraQuotes]
    · have : d ≠ a := fun same => other (congrArg some same)
      simp [extraQuotes, this]
  · obtain ⟨⟨rfl, rfl, -⟩, rfl⟩ := closing?_cons_eq_some.mp closed
    exact ⟨by simp [extraQuotes], by simp⟩
  · obtain ⟨⟨rfl, rfl, rfl⟩, -⟩ := closing?_cons_eq_some.mp closed
    exact absurd rfl (few cs)

/-! ## Several lines between double quotes -/

theorem newline?_of_isPlain {c : Char} (plain : isPlain c = true) (rest : List Char) :
    newline? (c :: rest) = none := by
  unfold newline?
  split
  · next same => cases (List.cons.inj same).1 ▸ plain
  · next same => cases (List.cons.inj same).1 ▸ plain
  · rfl

theorem readBasicLines_closed {c : Char} {cs after : List Char}
    (closed : closing? '"' (c :: cs) = some after) :
    readBasicLines (c :: cs) = some (extraQuotes '"' after) := by
  rw [readBasicLines]
  split
  · next found =>
    cases found.symm.trans closed
    rfl
  · next none => cases none.symm.trans closed

theorem readBasicLines_escaped {cs rest : List Char} {c : Char}
    (escaped : escape? cs = some (c, rest)) (unjoined : joinedLine? cs = none) :
    readBasicLines ('\\' :: cs) = (readBasicLines rest).map fun r => (c :: r.1, r.2) := by
  have unclosed : closing? '"' ('\\' :: cs) = none := closing?_of_ne (by decide) cs
  rw [readBasicLines]
  split
  · next found => cases unclosed.symm.trans found
  · rw [if_pos rfl]
    split
    · next found => cases unjoined.symm.trans found
    · split
      · next none => cases none.symm.trans escaped
      · next found =>
        cases found.symm.trans escaped
        rfl

theorem readBasicLines_newline (rest : List Char) :
    readBasicLines ('\n' :: rest) = (readBasicLines rest).map fun r => ('\n' :: r.1, r.2) := by
  have unclosed : closing? '"' ('\n' :: rest) = none := closing?_of_ne (by decide) rest
  rw [readBasicLines]
  split
  · next found => cases unclosed.symm.trans found
  · rfl

theorem readBasicLines_plain {c : Char} {rest : List Char} (plain : isPlain c = true)
    (notEscape : c ≠ '\\') (unclosed : closing? '"' (c :: rest) = none) :
    readBasicLines (c :: rest) = (readBasicLines rest).map fun r => (c :: r.1, r.2) := by
  have sameLine := newline?_of_isPlain plain rest
  rw [readBasicLines]
  split
  · next found => cases unclosed.symm.trans found
  · rw [if_neg notEscape]
    split
    · next found => cases sameLine.symm.trans found
    · rw [if_pos plain]

/-- A quote is written as it is only for a quote, and only if not too many came before it. -/
theorem escape_eq_quote_cons {overLines : Bool} {run : Nat} {cs written : List Char}
    (same : escape overLines run cs = '"' :: written) :
    run < (if overLines then 2 else 0) ∧
      ∃ more, cs = '"' :: more ∧ written = escape overLines (run + 1) more := by
  rcases cs with _ | ⟨c, cs⟩
  · cases same
  · by_cases quote : c = '"'
    · subst quote
      by_cases few : run < (if overLines then 2 else 0)
      · rw [escape, if_pos rfl, if_pos few, List.cons.injEq] at same
        exact ⟨few, cs, rfl, same.2.symm⟩
      · rw [escape, if_pos rfl, if_neg few] at same
        cases same
    · rw [escape, if_neg quote] at same
      rcases escapeChar_cases overLines c with ⟨_, form, -⟩ | ⟨form, -⟩ | ⟨form, -⟩ <;>
        rw [form, List.cons_append, List.cons.injEq] at same
      · cases same.1
      · cases same.1
      · exact absurd same.1 quote

/-- No three quotes are written in a row. -/
theorem escape_ne_quotes {run : Nat} {cs : List Char} (more : List Char) :
    escape true run cs ≠ '"' :: '"' :: '"' :: more := by
  intro same
  obtain ⟨-, _, -, same⟩ := escape_eq_quote_cons same
  obtain ⟨-, _, -, same⟩ := escape_eq_quote_cons same.symm
  obtain ⟨few, -⟩ := escape_eq_quote_cons same.symm
  rw [if_pos rfl] at few
  omega

theorem escape_cons_ne_nil (overLines : Bool) (run : Nat) (c : Char) (cs : List Char) :
    escape overLines run (c :: cs) ≠ [] := by
  rw [escape]
  split_ifs
  · exact List.cons_ne_nil _ _
  · exact List.cons_ne_nil _ _
  all_goals
    rcases escapeChar_cases overLines c with ⟨_, form, -⟩ | ⟨form, -⟩ | ⟨form, -⟩ <;>
      simp [form]

/-- Where nothing but quotes is written, it is what had to be written. -/
theorem escape_eq_self {cs : List Char} :
    ∀ {run : Nat}, (∀ c ∈ escape true run cs, c = '"') → escape true run cs = cs := by
  induction cs with
  | nil => exact fun _ => rfl
  | cons c cs ih =>
    intro run quotes
    obtain ⟨d, written, form⟩ := List.exists_cons_of_ne_nil (escape_cons_ne_nil true run c cs)
    rw [form, List.forall_mem_cons] at quotes
    obtain ⟨rfl, quotes⟩ := quotes
    obtain ⟨-, more, same, rfl⟩ := escape_eq_quote_cons form
    cases same
    rw [form, ih quotes]

/-- Over several lines between tripled double quotes. -/
theorem readBasicLines_escape {rest : List Char} (other : rest.head? ≠ some '"')
    (cs : List Char) :
    ∀ run, readBasicLines (escape true run cs ++ (triple '"' ++ rest)) = some (cs, rest) := by
  induction cs with
  | nil =>
    intro run
    change readBasicLines ('"' :: '"' :: '"' :: rest) = _
    rw [readBasicLines_closed (closing?_cons_eq_some.mpr ⟨⟨rfl, rfl, rfl⟩, rfl⟩),
      extraQuotes_of_head?_ne other]
  | cons c cs ih =>
    intro run
    by_cases quote : c = '"'
    · subst quote
      by_cases few : run < 2
      · have form : escape true run ('"' :: cs) = '"' :: escape true (run + 1) cs := by
          rw [escape, if_pos rfl, if_pos (by simpa using few)]
        cases closed : closing? '"' (escape true run ('"' :: cs) ++ (triple '"' ++ rest)) with
        | some after =>
          -- The quotes before the closing ones are all that is left of the string.
          obtain ⟨extra, quotes⟩ := extraQuotes_of_closing? escape_ne_quotes other closed
          rw [escape_eq_self quotes, List.cons_append] at closed ⊢
          rw [readBasicLines_closed closed, extra, escape_eq_self quotes]
        | none =>
          rw [form, List.cons_append] at closed ⊢
          rw [readBasicLines_plain rfl (by decide) closed, ih]
          rfl
      · have form : escape true run ('"' :: cs) = '\\' :: '"' :: escape true 0 cs := by
          rw [escape, if_pos rfl, if_neg (by simpa using few)]
        have escaped (cs : List Char) : escape? ('"' :: cs) = some ('"', cs) := rfl
        rw [form, List.cons_append, List.cons_append, readBasicLines_escaped (escaped _) rfl, ih]
        rfl
    · rw [escape, if_neg quote, List.append_assoc]
      rcases escapeChar_cases true c with ⟨written, form, reads⟩ | ⟨form, rfl, -⟩ |
        ⟨form, plain, notEscape⟩
      · rw [form, List.cons_append, readBasicLines_escaped (reads _).1 (reads _).2, ih]
        rfl
      · rw [form, List.cons_append, List.nil_append, readBasicLines_newline, ih]
        rfl
      · rw [form, List.cons_append, List.nil_append,
          readBasicLines_plain plain notEscape (closing?_of_ne quote _), ih]
        rfl

/-! ## Several lines between single quotes -/

theorem readLiteralLines_closed {c : Char} {cs after : List Char}
    (closed : closing? '\'' (c :: cs) = some after) :
    readLiteralLines (c :: cs) = some (extraQuotes '\'' after) := by
  rw [readLiteralLines]
  split
  · next found =>
    cases found.symm.trans closed
    rfl
  · next none => cases none.symm.trans closed

theorem readLiteralLines_newline (rest : List Char) :
    readLiteralLines ('\n' :: rest) = (readLiteralLines rest).map fun r => ('\n' :: r.1, r.2) := by
  have unclosed : closing? '\'' ('\n' :: rest) = none := closing?_of_ne (by decide) rest
  rw [readLiteralLines]
  split
  · next found => cases unclosed.symm.trans found
  · rfl

theorem readLiteralLines_plain {c : Char} {rest : List Char} (plain : isPlain c = true)
    (unclosed : closing? '\'' (c :: rest) = none) :
    readLiteralLines (c :: rest) = (readLiteralLines rest).map fun r => (c :: r.1, r.2) := by
  have sameLine := newline?_of_isPlain plain rest
  rw [readLiteralLines]
  split
  · next found => cases unclosed.symm.trans found
  · split
    · next found => cases sameLine.symm.trans found
    · rw [if_pos plain]

/-- A run that has not begun is no longer than one that has. -/
theorem hasRunOfThree_of_zero {quote : Char} {cs : List Char} {run : Nat}
    (few : hasRunOfThree quote run cs = false) : hasRunOfThree quote 0 cs = false := by
  have mono : ∀ (cs : List Char) (m n : Nat), m ≤ n → hasRunOfThree quote n cs = false →
      hasRunOfThree quote m cs = false := by
    intro cs
    induction cs with
    | nil => exact fun _ _ _ _ => rfl
    | cons c cs ih =>
      intro m n le few
      rw [hasRunOfThree] at few ⊢
      split at few
      · next quoted =>
        rw [Bool.or_eq_false_iff, decide_eq_false_iff_not] at few
        rw [if_pos quoted, Bool.or_eq_false_iff, decide_eq_false_iff_not]
        exact ⟨by omega, ih (m + 1) (n + 1) (by omega) few.2⟩
      · next other => rwa [if_neg other]
  exact mono cs 0 run (Nat.zero_le _) few

theorem ne_quotes_of_hasRunOfThree {quote : Char} {cs : List Char}
    (few : hasRunOfThree quote 0 cs = false) (more : List Char) :
    cs ≠ quote :: quote :: quote :: more := by
  rintro rfl
  simp [hasRunOfThree] at few

/-- Over several lines between tripled single quotes. -/
theorem readLiteralLines_self {rest : List Char} (other : rest.head? ≠ some '\'') {cs : List Char}
    (visible : ∀ c ∈ cs, isControl c = false) (few : hasRunOfThree '\'' 0 cs = false) :
    readLiteralLines (cs ++ (triple '\'' ++ rest)) = some (cs, rest) := by
  induction cs with
  | nil =>
    change readLiteralLines ('\'' :: '\'' :: '\'' :: rest) = _
    rw [readLiteralLines_closed (closing?_cons_eq_some.mpr ⟨⟨rfl, rfl, rfl⟩, rfl⟩),
      extraQuotes_of_head?_ne other]
  | cons c cs ih =>
    rw [List.forall_mem_cons] at visible
    have fewLater : hasRunOfThree '\'' 0 cs = false := by
      rw [hasRunOfThree] at few
      split at few
      · exact hasRunOfThree_of_zero (Bool.or_eq_false_iff.mp few).2
      · exact few
    cases closed : closing? '\'' (c :: cs ++ (triple '\'' ++ rest)) with
    | some after =>
      have extra := (extraQuotes_of_closing? (ne_quotes_of_hasRunOfThree few) other closed).1
      rw [List.cons_append] at closed ⊢
      rw [readLiteralLines_closed closed, extra]
    | none =>
      rw [List.cons_append] at closed ⊢
      by_cases newline : c = '\n'
      · subst newline
        rw [readLiteralLines_newline, ih visible.2 fewLater]
        rfl
      · rw [readLiteralLines_plain (isPlain_of_isControl_eq_false visible.1 newline) closed,
          ih visible.2 fewLater]
        rfl

/-! ## Any string -/

/-- The line break in front of a form over several lines is dropped, and nothing else is. -/
theorem dropNewline_leadingBreak {cs text : List Char}
    (starts : '\n' ∉ cs → ∃ c more, text = c :: more ∧ isPlain c = true) :
    dropNewline (leadingBreak cs ++ text) = text := by
  by_cases broken : '\n' ∈ cs
  · rw [leadingBreak, if_pos (by simpa using broken)]
    rfl
  · obtain ⟨c, more, rfl, plain⟩ := starts broken
    rw [leadingBreak, if_neg (by simpa using broken), List.nil_append, dropNewline,
      newline?_of_isPlain plain]
    rfl

theorem exists_plain_escape {cs : List Char} (unbroken : '\n' ∉ cs) (rest : List Char) :
    ∃ c more, escape true 0 cs ++ (triple '"' ++ rest) = c :: more ∧ isPlain c = true := by
  rcases cs with _ | ⟨c, cs⟩
  · exact ⟨'"', _, rfl, rfl⟩
  · rw [List.mem_cons, not_or] at unbroken
    by_cases quote : c = '"'
    · subst quote
      exact ⟨'"', _, rfl, rfl⟩
    · rw [escape, if_neg quote]
      rcases escapeChar_cases true c with
        ⟨_, form, -⟩ | ⟨-, newline, -⟩ | ⟨form, plain, -⟩
      · exact ⟨'\\', _, by rw [form]; rfl, rfl⟩
      · exact absurd newline.symm unbroken.1
      · exact ⟨c, _, by rw [form]; rfl, plain⟩

/-- The text in double quotes on one line, read as a string. -/
theorem readString_escape (cs : List Char) {rest : List Char} (other : rest.head? ≠ some '"') :
    readString ('"' :: escape false 0 cs ++ ['"'] ++ rest) = some (cs, rest) := by
  have untripled (more : List Char) : escape false 0 cs ++ '"' :: rest ≠ '"' :: '"' :: more := by
    intro same
    cases written : escape false 0 cs with
    | nil =>
      rw [written] at same
      exact other (by rw [(List.cons.inj same).2]; rfl)
    | cons c more =>
      rw [written, List.cons_append, List.cons.injEq] at same
      exact absurd (escape_eq_quote_cons (same.1 ▸ written)).1 (by simp)
  rw [List.append_assoc, List.cons_append]
  exact (readString.eq_3 _ untripled).trans (readBasic_escape cs rest)

/-- The text in tripled double quotes, read as a string. -/
theorem readString_escapeLines (cs : List Char) {rest : List Char}
    (other : rest.head? ≠ some '"') :
    readString (triple '"' ++ leadingBreak cs ++ escape true 0 cs ++ triple '"' ++ rest) =
      some (cs, rest) := by
  have starts (unbroken : '\n' ∉ cs) := exists_plain_escape unbroken rest
  simp only [List.append_assoc]
  change readBasicLines (dropNewline (leadingBreak cs ++ (escape true 0 cs ++ _))) = _
  rw [dropNewline_leadingBreak starts, readBasicLines_escape other]

/-- The text in single quotes on one line, read as a string that is not empty. -/
theorem readString_self {cs : List Char} (plain : ∀ c ∈ cs, isPlain c = true)
    (unquoted : '\'' ∉ cs) (filled : cs ≠ []) (rest : List Char) :
    readString ('\'' :: cs ++ ['\''] ++ rest) = some (cs, rest) := by
  have untripled (more : List Char) : cs ++ '\'' :: rest ≠ '\'' :: '\'' :: more := by
    obtain ⟨c, cs, rfl⟩ := List.exists_cons_of_ne_nil filled
    intro same
    exact unquoted ((List.cons.inj same).1 ▸ List.mem_cons_self)
  rw [List.append_assoc, List.cons_append]
  exact (readString.eq_4 _ untripled).trans (readLiteral_self plain unquoted rest)

/-- The text in tripled single quotes, read as a string. -/
theorem readString_lines {cs : List Char} (visible : ∀ c ∈ cs, isControl c = false)
    (few : hasRunOfThree '\'' 0 cs = false) {rest : List Char} (other : rest.head? ≠ some '\'') :
    readString (triple '\'' ++ leadingBreak cs ++ cs ++ triple '\'' ++ rest) = some (cs, rest) := by
  have starts (unbroken : '\n' ∉ cs) :
      ∃ c more, cs ++ (triple '\'' ++ rest) = c :: more ∧ isPlain c = true := by
    rcases cs with _ | ⟨c, cs⟩
    · exact ⟨'\'', _, rfl, rfl⟩
    · rw [List.mem_cons, not_or] at unbroken
      exact ⟨c, _, rfl, isPlain_of_isControl_eq_false (visible c List.mem_cons_self)
        (Ne.symm unbroken.1)⟩
  simp only [List.append_assoc]
  change readLiteralLines (dropNewline (leadingBreak cs ++ (cs ++ _))) = _
  rw [dropNewline_leadingBreak starts, readLiteralLines_self other visible few]

/-- A string is read back from its text, if no quote follows. -/
theorem readString_renderString (cs : List Char) {rest : List Char}
    (notDouble : rest.head? ≠ some '"') (notSingle : rest.head? ≠ some '\'') :
    readString (renderString cs ++ rest) = some (cs, rest) := by
  unfold renderString
  simp only [Bool.and_eq_true, Bool.not_eq_true', List.any_eq_false, List.contains_eq_mem,
    decide_eq_false_iff_not, Bool.not_eq_true]
  split_ifs with basic literal basicLines literalLines
  · exact readString_escape cs notDouble
  · obtain ⟨⟨visible, unbroken⟩, unquoted⟩ := literal
    refine readString_self (fun c member => ?_) unquoted ?_ rest
    · exact isPlain_of_isControl_eq_false (visible c member) fun same => unbroken (same ▸ member)
    · rintro rfl
      exact basic (by simp)
  · exact readString_escapeLines cs notDouble
  · exact readString_lines literalLines.1 literalLines.2 notSingle
  · exact readString_escapeLines cs notDouble
  · exact readString_escape cs notDouble

end Taxonomy.Toml
