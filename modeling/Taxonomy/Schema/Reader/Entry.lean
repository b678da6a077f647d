import Taxonomy.Schema.Block

/-!
# Reading the items of a property block

An item is a property, `* NAME RANGE ;`, or a run of tokens that is none. Keywords may stand as
names and ranges, so `class` ends a block only where it is part of no property.
-/

namespace Taxonomy.Entry

/-- The rest of an item that is no property, and what follows it: through `;`, or up to `*`, `}` or
`class`. -/
def skip : List Token → List Token × List Token
  | [] => ([], [])
  | t :: ts =>
    match t.kind with
    | .star | .rightBrace | .classKeyword => ([], t :: ts)
    | .semicolon => ([t], ts)
    | _ => (t :: (skip ts).1, (skip ts).2)

theorem skip_append (ts : List Token) : (skip ts).1 ++ (skip ts).2 = ts := by
  fun_induction skip ts <;> simp_all

/-- The property after a star, if a name, a range and `;` follow. -/
def readProperty (star : Token) : List Token → Option (Entry × List Token)
  | name :: range :: semicolon :: ts =>
    if name.isText && range.isText && semicolon.kind == .semicolon then
      some (.property star name range semicolon, ts)
    else none
  | _ => none

/-- The item that starts with the token `t`, and the rest. -/
def read (t : Token) (ts : List Token) : Entry × List Token :=
  if t.kind = .semicolon then (.junk t [], ts)
  else
    match if t.kind = .star then readProperty t ts else none with
    | some result => result
    | none => (.junk t (skip ts).1, (skip ts).2)

theorem readProperty_tokens {star : Token} {ts rest : List Token} {e : Entry}
    (h : readProperty star ts = some (e, rest)) : e.tokens ++ rest = star :: ts := by
  unfold readProperty at h
  split at h
  · split at h
    · cases h
      rfl
    · cases h
  · cases h

theorem read_append (t : Token) (ts : List Token) :
    (read t ts).1.tokens ++ (read t ts).2 = t :: ts := by
  unfold read
  split
  · rfl
  · split
    · rename_i result h
      split at h
      · exact readProperty_tokens h
      · cases h
    · simp [tokens, skip_append]

theorem tokens_ne_nil (e : Entry) : e.tokens ≠ [] := by
  cases e <;> simp [tokens]

theorem length_read_le (t : Token) (ts : List Token) : (read t ts).2.length ≤ ts.length := by
  have h := congrArg List.length (read_append t ts)
  have := List.length_pos_iff.mpr (tokens_ne_nil (read t ts).1)
  simp only [List.length_append, List.length_cons] at h
  omega

/-- The items after an opening brace, the closing brace if the block has one, and the rest. A block
ends unclosed at `class` and at the end of the text. -/
def readAll : List Token → List Entry × Option Token × List Token
  | [] => ([], none, [])
  | t :: ts =>
    if t.kind = .rightBrace then ([], some t, ts)
    else if t.kind = .classKeyword then ([], none, t :: ts)
    else ((read t ts).1 :: (readAll (read t ts).2).1, (readAll (read t ts).2).2)
termination_by ts => ts.length
decreasing_by all_goals exact Nat.lt_succ_of_le (length_read_le t ts)

/-- The items, the closing brace and the rest make up what was read. -/
theorem readAll_append (ts : List Token) :
    (readAll ts).1.flatMap tokens ++ ((readAll ts).2.1.toList ++ (readAll ts).2.2) = ts := by
  fun_induction readAll ts with
  | case1 => rfl
  | case2 => rfl
  | case3 => rfl
  | case4 t ts _ _ ih => simp [List.append_assoc, ih, read_append]

end Taxonomy.Entry
