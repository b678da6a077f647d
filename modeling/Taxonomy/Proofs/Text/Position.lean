import Mathlib.Data.List.DropRight
import Mathlib.Data.List.GetD
import Taxonomy.Proofs.Token.Cut
import Taxonomy.Text.Position

/-!
# Parts of a text and their positions

A range that goes from a character boundary to another one has a part of the text in it (`Stands`),
which is what a slice gives, also if more text stands before and after. The line and the column of a
boundary depend on the text before it only: the table of lines finds by halving what counting line
feeds finds (`position_append`), and positions come in the order of the boundaries
(`positions_of_boundaries`).
-/

namespace Taxonomy

namespace Text

/-- The part of the text in the range. -/
def Stands (part : List Char) (s : Span) (cs : List Char) : Prop :=
  ∃ before after, cs = before ++ (part ++ after) ∧
    s = ⟨byteLength before, byteLength before + byteLength part⟩

variable {part cs : List Char} {s : Span}

theorem Stands.slice_eq (stands : Stands part s cs) : slice cs s = part := by
  obtain ⟨before, after, rfl, rfl⟩ := stands
  exact slice_append before part after

theorem Stands.shift (stands : Stands part s cs) (front rest : List Char) :
    Stands part (s.shift (byteLength front)) (front ++ (cs ++ rest)) := by
  obtain ⟨before, after, rfl, rfl⟩ := stands
  refine ⟨front ++ before, after ++ rest, ?_, ?_⟩
  · simp only [List.append_assoc]
  · rw [Span.shift, byteLength_append, Nat.add_assoc]

/-- The text before the range is as long as the range's offset says. -/
theorem Stands.byteLength_takeBytes (stands : Stands part s cs) :
    byteLength (takeBytes s.start cs) = s.start := by
  obtain ⟨before, after, rfl, rfl⟩ := stands
  rw [takeBytes_byteLength]

theorem Stands.stop_le (stands : Stands part s cs) : s.stop ≤ byteLength cs := by
  obtain ⟨before, after, rfl, rfl⟩ := stands
  simp only [byteLength_append]
  omega

theorem takeBytes_prefix (n : Nat) (cs : List Char) : takeBytes n cs <+: cs := by
  induction cs generalizing n with
  | nil => exact List.prefix_refl _
  | cons c cs ih =>
    rw [takeBytes]
    by_cases first : c.utf8Size ≤ n
    · rw [if_pos first]
      exact List.cons_prefix_cons.mpr ⟨rfl, ih _⟩
    · rw [if_neg first]
      exact List.nil_prefix

/-- The offset lies between two characters of the text or at an end of it. -/
def IsBoundary (cs : List Char) (offset : Nat) : Prop :=
  ∃ before after, cs = before ++ after ∧ offset = byteLength before

theorem IsBoundary.stands {offset : Nat} (boundary : IsBoundary cs offset) :
    Stands [] ⟨offset, offset⟩ cs := by
  obtain ⟨before, after, rfl, rfl⟩ := boundary
  exact ⟨before, after, rfl, rfl⟩

theorem isBoundary_iff {offset : Nat} :
    IsBoundary cs offset ↔ byteLength (takeBytes offset cs) = offset := by
  refine ⟨fun boundary => boundary.stands.byteLength_takeBytes, ?_⟩
  intro same
  obtain ⟨after, split⟩ := takeBytes_prefix offset cs
  exact ⟨takeBytes offset cs, after, split.symm, same.symm⟩

instance (cs : List Char) (offset : Nat) : Decidable (IsBoundary cs offset) :=
  decidable_of_iff _ isBoundary_iff.symm

theorem takeBytes_mono {n m : Nat} (le : n ≤ m) (cs : List Char) :
    takeBytes n cs <+: takeBytes m cs := by
  induction cs generalizing n m with
  | nil => exact List.prefix_refl _
  | cons c cs ih =>
    rw [takeBytes, takeBytes]
    by_cases first : c.utf8Size ≤ n
    · rw [if_pos first, if_pos (Nat.le_trans first le)]
      apply List.cons_prefix_cons.mpr
      exact ⟨rfl, ih (Nat.sub_le_sub_right le _)⟩
    · rw [if_neg first]
      exact List.nil_prefix

end Text

/-! ## Lines -/

/-- The position after some text: one more than its line feeds, and one more than what it has after
the last of them. -/
def Position.after (cs : List Char) : Position :=
  ⟨cs.count '\n' + 1, (cs.rtakeWhile (· != '\n')).length + 1⟩

/-- On an earlier line, or on the same line in an earlier column. -/
def Position.Before (p q : Position) : Prop :=
  p.line < q.line ∨ p.line = q.line ∧ p.column < q.column

instance (p q : Position) : Decidable (p.Before q) :=
  inferInstanceAs (Decidable (_ ∨ _))

theorem Position.not_before_self (p : Position) : ¬ p.Before p := by
  rintro (line | ⟨-, column⟩)
  · exact Nat.lt_irrefl _ line
  · exact Nat.lt_irrefl _ column

/-- More text is on a later line if there is a line feed in it, and else further on in the same
line. -/
theorem Position.after_before (a : List Char) {b : List Char} (more : b ≠ []) :
    (after a).Before (after (a ++ b)) := by
  by_cases feed : '\n' ∈ b
  · have := List.count_pos_iff.mpr feed
    refine .inl ?_
    simp only [after, List.count_append]
    omega
  · have plain : ∀ c ∈ b.reverse, (c != '\n') = true := by
      intro c member
      rw [bne_iff_ne]
      rintro rfl
      exact feed (List.mem_reverse.mp member)
    have line : (a ++ b).rtakeWhile (· != '\n') = a.rtakeWhile (· != '\n') ++ b := by
      rw [List.rtakeWhile, List.reverse_append, List.takeWhile_append_of_pos plain,
        List.reverse_append, List.reverse_reverse, List.rtakeWhile]
    have := List.length_pos_iff.mpr more
    refine .inr ⟨?_, ?_⟩
    · simp only [after, List.count_append, List.count_eq_zero_of_not_mem feed, Nat.add_zero]
    · simp only [after, line, List.length_append]
      omega

/-- Of two ranges, the one that starts first has the earlier position. -/
theorem Position.before_of_stands {part part' cs : List Char} {s s' : Span}
    (first : Text.Stands part s cs) (second : Text.Stands part' s' cs) (lt : s.start < s'.start) :
    (after (Text.takeBytes s.start cs)).Before (after (Text.takeBytes s'.start cs)) := by
  obtain ⟨more, same⟩ := Text.takeBytes_mono (Nat.le_of_lt lt) cs
  rw [← same]
  apply after_before
  rintro rfl
  have sizes := congrArg Text.byteLength same
  rw [List.append_nil, first.byteLength_takeBytes, second.byteLength_takeBytes] at sizes
  omega

namespace LineTable

/-- What halving keeps: entries before `lo` are up to the offset, and those from `hi` on are past
it. -/
structure Bounds (starts : Array Nat) (offset lo hi : Nat) : Prop where
  ordered : lo ≤ hi
  inside : hi ≤ starts.size
  before : ∀ i < lo, starts.getD i 0 ≤ offset
  past : ∀ i, hi ≤ i → i < starts.size → offset < starts.getD i 0

/-- Halving ends at a place that parts the entries. -/
theorem bounds_countUpTo {starts : Array Nat} {offset : Nat}
    (sorted : ∀ i j, i ≤ j → j < starts.size → starts.getD i 0 ≤ starts.getD j 0)
    {lo hi : Nat} (bounds : Bounds starts offset lo hi) :
    Bounds starts offset (countUpTo starts offset lo hi) (countUpTo starts offset lo hi) := by
  fun_induction countUpTo starts offset lo hi with
  | case1 lo hi less mid upTo ih =>
    have inside := bounds.inside
    have middle : mid < hi := by omega
    refine ih ⟨by omega, inside, ?_, bounds.past⟩
    intro i early
    exact Nat.le_trans (sorted i mid (by omega) (by omega)) upTo
  | case2 lo hi less mid past ih =>
    have inside := bounds.inside
    have middle : mid < hi := by omega
    refine ih ⟨by omega, by omega, bounds.before, ?_⟩
    intro i late bound
    have := sorted mid i late bound
    omega
  | case3 lo hi stop =>
    obtain rfl : lo = hi := by
      have := bounds.ordered
      omega
    exact bounds

theorem Bounds.unique {starts : Array Nat} {offset k m : Nat} (first : Bounds starts offset k k)
    (second : Bounds starts offset m m) : k = m := by
  have inside := first.inside
  have inside' := second.inside
  rcases Nat.lt_trichotomy k m with less | same | more
  · have upTo := second.before k less
    have past := first.past k (Nat.le_refl k) (by omega)
    omega
  · exact same
  · have upTo := first.before m more
    have past := second.past m (Nat.le_refl m) (by omega)
    omega

theorem startsAfter_append (pos : Nat) (a b : List Char) :
    startsAfter pos (a ++ b) = startsAfter pos a ++ startsAfter (pos + Text.byteLength a) b := by
  induction a generalizing pos with
  | nil => rfl
  | cons c a ih =>
    rw [List.cons_append, startsAfter, startsAfter, ih, Text.byteLength, Nat.add_assoc]
    split <;> rfl

theorem length_startsAfter (pos : Nat) (cs : List Char) :
    (startsAfter pos cs).length = cs.count '\n' := by
  induction cs generalizing pos with
  | nil => rfl
  | cons c cs ih =>
    rw [startsAfter]
    by_cases feed : c = '\n'
    · rw [if_pos feed, List.length_cons, ih, feed, List.count_cons_self]
    · rw [if_neg feed, ih, List.count_cons_of_ne feed]

/-- Lines start after the place from which they are listed, and up to the end of the text. -/
theorem mem_startsAfter {pos : Nat} {cs : List Char} {start : Nat}
    (member : start ∈ startsAfter pos cs) :
    pos < start ∧ start ≤ pos + Text.byteLength cs := by
  induction cs generalizing pos with
  | nil => cases member
  | cons c cs ih =>
    have size := c.utf8Size_pos
    rw [startsAfter] at member
    rw [Text.byteLength]
    split at member
    · rcases List.mem_cons.mp member with rfl | later
      · omega
      · have := ih later
        omega
    · have := ih member
      omega

theorem sorted_startsAfter (pos : Nat) (cs : List Char) :
    (startsAfter pos cs).Pairwise (· ≤ ·) := by
  induction cs generalizing pos with
  | nil => exact .nil
  | cons c cs ih =>
    rw [startsAfter]
    split
    · refine List.pairwise_cons.mpr ⟨?_, ih _⟩
      intro start member
      exact Nat.le_of_lt (mem_startsAfter member).1
    · exact ih _

/-- The last line of a text starts where what follows its last line feed does. -/
theorem getLast_starts (cs : List Char) : ∃ front, cs = front ++ cs.rtakeWhile (· != '\n') ∧
    (0 :: startsAfter 0 cs).getLast (by simp) = Text.byteLength front := by
  induction cs using List.reverseRecOn with
  | nil => exact ⟨[], rfl, rfl⟩
  | append_singleton cs c ih =>
    by_cases feed : c = '\n'
    · refine ⟨cs ++ [c], ?_, ?_⟩
      · rw [List.rtakeWhile_concat_neg _ _ _ (by simp [feed]), List.append_nil]
      · simp [startsAfter_append, startsAfter, feed, Text.byteLength]
    · obtain ⟨front, split, last⟩ := ih
      refine ⟨front, ?_, ?_⟩
      · rw [List.rtakeWhile_concat_pos _ _ _ (by simp [feed]), ← List.append_assoc, ← split]
      · simpa [startsAfter_append, startsAfter, feed] using last

theorem getD_starts (cs : List Char) (i : Nat) :
    (ofText cs).starts.getD i 0 = (0 :: startsAfter 0 cs).getD i 0 := by
  rw [ofText, Array.getD_eq_getD_getElem?, List.getD_eq_getElem?_getD, List.getElem?_toArray]

theorem size_starts (cs : List Char) : (ofText cs).starts.size = (0 :: startsAfter 0 cs).length :=
  List.size_toArray

theorem sorted_starts (cs : List Char) : ∀ i j, i ≤ j → j < (ofText cs).starts.size →
    (ofText cs).starts.getD i 0 ≤ (ofText cs).starts.getD j 0 := by
  intro i j less bound
  have sorted : (0 :: startsAfter 0 cs).Pairwise (· ≤ ·) :=
    List.pairwise_cons.mpr ⟨fun start _ => Nat.zero_le start, sorted_startsAfter 0 cs⟩
  rw [size_starts] at bound
  rw [getD_starts, getD_starts, List.getD_eq_getElem _ _ (Nat.lt_of_le_of_lt less bound),
    List.getD_eq_getElem _ _ bound]
  rcases Nat.lt_or_eq_of_le less with less | rfl
  · exact List.pairwise_iff_getElem.mp sorted i j _ bound less
  · exact Nat.le_refl _

/-- The lines that start in the text before a boundary part the entries there. -/
theorem bounds_line (a b : List Char) :
    Bounds (ofText (a ++ b)).starts (Text.byteLength a) (a.count '\n' + 1) (a.count '\n' + 1) := by
  have parts : 0 :: startsAfter 0 (a ++ b) =
      (0 :: startsAfter 0 a) ++ startsAfter (Text.byteLength a) b := by
    rw [startsAfter_append, Nat.zero_add, List.cons_append]
  have size : (0 :: startsAfter 0 a).length = a.count '\n' + 1 := by
    rw [List.length_cons, length_startsAfter]
  refine ⟨Nat.le_refl _, ?_, ?_, ?_⟩
  · rw [size_starts, parts, List.length_append, size]
    omega
  · intro i early
    have bound : i < (0 :: startsAfter 0 a).length := size ▸ early
    rw [getD_starts, parts, List.getD_append _ _ _ _ bound, List.getD_eq_getElem _ _ bound]
    rcases List.mem_cons.mp (List.getElem_mem bound) with first | later
    · rw [first]
      exact Nat.zero_le _
    · have := mem_startsAfter later
      omega
  · intro i late bound
    have here : (0 :: startsAfter 0 a).length ≤ i := size ▸ late
    rw [size_starts, parts, List.length_append] at bound
    have inside : i - (0 :: startsAfter 0 a).length <
        (startsAfter (Text.byteLength a) b).length := by omega
    rw [getD_starts, parts, List.getD_append_right _ _ _ _ here, List.getD_eq_getElem _ _ inside]
    exact (mem_startsAfter (List.getElem_mem inside)).1

theorem line_append (a b : List Char) :
    (ofText (a ++ b)).line (Text.byteLength a) = a.count '\n' + 1 := by
  have whole : Bounds (ofText (a ++ b)).starts (Text.byteLength a) 0
      (ofText (a ++ b)).starts.size :=
    ⟨Nat.zero_le _, Nat.le_refl _, fun i early => absurd early (Nat.not_lt_zero i),
      fun i late bound => absurd bound (Nat.not_lt.mpr late)⟩
  exact (bounds_countUpTo (sorted_starts _) whole).unique (bounds_line a b)

/-- The line of a boundary is listed, and starts after the last line feed before the boundary. -/
theorem exists_start (a b : List Char) : ∃ front, a = front ++ a.rtakeWhile (· != '\n') ∧
    (ofText (a ++ b)).starts[a.count '\n']? = some (Text.byteLength front) := by
  obtain ⟨front, split, last⟩ := getLast_starts a
  refine ⟨front, split, ?_⟩
  have bound : a.count '\n' < (0 :: startsAfter 0 a).length := by
    rw [List.length_cons, length_startsAfter]
    omega
  rw [ofText, List.getElem?_toArray, startsAfter_append, ← List.cons_append,
    List.getElem?_append_left bound, List.getElem?_eq_getElem bound, ← last,
    List.getLast_eq_getElem]
  simp [length_startsAfter]

/-- The position of a boundary in a text is the one after the text before it. -/
theorem position_append (a b : List Char) :
    (ofText (a ++ b)).position (a ++ b) (Text.byteLength a) = .after a := by
  obtain ⟨front, split, listed⟩ := exists_start a b
  have column : Text.Stands (a.rtakeWhile (· != '\n'))
      ⟨Text.byteLength front, Text.byteLength a⟩ (a ++ b) := by
    refine ⟨front, b, ?_, ?_⟩
    · rw [← List.append_assoc, ← split]
    · rw [← Text.byteLength_append, ← split]
  rw [position, line_append, Nat.add_sub_cancel, Array.getD_eq_getD_getElem?, listed,
    Option.getD_some, column.slice_eq]
  rfl

variable {cs : List Char} {a b offset : Nat}

theorem position_of_isBoundary (boundary : Text.IsBoundary cs offset) :
    (ofText cs).position cs offset = .after (Text.takeBytes offset cs) := by
  obtain ⟨before, after, rfl, rfl⟩ := boundary
  rw [position_append, Text.takeBytes_byteLength]

theorem position_before (first : Text.IsBoundary cs a) (second : Text.IsBoundary cs b)
    (less : a < b) : ((ofText cs).position cs a).Before ((ofText cs).position cs b) := by
  rw [position_of_isBoundary first, position_of_isBoundary second]
  exact Position.before_of_stands first.stands second.stands less

/-- What is found by halving is what is counted: the line feeds before an offset, and the characters
after the last of them. Positions come in the order of the offsets, so no two offsets have the
same. -/
theorem positions_of_boundaries (cs : List Char) :
    (∀ offset, Text.IsBoundary cs offset →
      (ofText cs).position cs offset =
        ⟨1 + (Text.takeBytes offset cs).count '\n',
          1 + ((Text.takeBytes offset cs).rtakeWhile (· != '\n')).length⟩) ∧
    (∀ a b, Text.IsBoundary cs a → Text.IsBoundary cs b → a < b →
      ((ofText cs).position cs a).Before ((ofText cs).position cs b)) ∧
    ∀ a b, Text.IsBoundary cs a → Text.IsBoundary cs b →
      (ofText cs).position cs a = (ofText cs).position cs b → a = b := by
  refine ⟨?_, fun a b => position_before, ?_⟩
  · intro offset boundary
    rw [position_of_isBoundary boundary, Position.after, Nat.add_comm 1, Nat.add_comm 1]
  · intro a b first second same
    rcases Nat.lt_trichotomy a b with less | rfl | more
    · exact absurd (same ▸ position_before first second less) (Position.not_before_self _)
    · rfl
    · exact absurd (same ▸ position_before second first more) (Position.not_before_self _)

/-- Before, between and after the two characters that end a line, on an empty line, after a
character of four bytes and at the end of the text. -/
theorem positions_of_mixed_lines :
    let cs := "é\r\n\n😀x".toList
    (∀ offset ∈ [2, 3, 4, 5, 9, 10], Text.IsBoundary cs offset) ∧
      [2, 3, 4, 5, 9, 10].map ((ofText cs).position cs) =
        [⟨1, 2⟩, ⟨1, 3⟩, ⟨2, 1⟩, ⟨3, 1⟩, ⟨3, 2⟩, ⟨3, 3⟩] ∧
      ((ofText cs).position cs 4).Before ((ofText cs).position cs 9) ∧
      ((ofText cs).position cs 3 = (ofText cs).position cs 4 → 3 = 4) := by
  intro cs
  obtain ⟨counted, ordered, distinct⟩ := positions_of_boundaries cs
  have boundaries : ∀ offset ∈ [2, 3, 4, 5, 9, 10], Text.IsBoundary cs offset := by decide
  refine ⟨boundaries, ?_, ?_, ?_⟩
  · rw [List.map_congr_left fun offset member => counted offset (boundaries offset member)]
    decide
  · exact ordered 4 9 (boundaries 4 (by decide)) (boundaries 9 (by decide)) (by decide)
  · exact distinct 3 4 (boundaries 3 (by decide)) (boundaries 4 (by decide))

end LineTable

end Taxonomy
