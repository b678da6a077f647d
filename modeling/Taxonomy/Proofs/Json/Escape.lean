import Mathlib.Tactic.IntervalCases
import Taxonomy.Json.Printer
import Taxonomy.Json.Reader
import Taxonomy.Json.Record

/-!
# Strings are read as they were written

A character is written in one of three ways (`escapeChar_cases`). The reader passes over what each
of them writes and stops at the quote (`readString_escape`), and what was passed over stands for the
characters that were written (`unescape?_escape`).
-/

namespace Taxonomy.Json

/-- The digits of a code point below 256, two zeros in front, are read as that code point. -/
theorem hexQuad?_hexDigit {n : Nat} (small : n < 0x20) :
    hexQuad? '0' '0' (hexDigit (n / 16)) (hexDigit (n % 16)) = some n := by
  interval_cases n <;> rfl

/-- A character is written with a letter of its own, by its code point, or as it is. -/
theorem escapeChar_cases (c : Char) :
    (∃ e, escapeChar c = ['\\', e] ∧ shortEscape? e = some c) ∨
    (c.toNat < 0x20 ∧ escapeChar c =
      ['\\', 'u', '0', '0', hexDigit (c.toNat / 16), hexDigit (c.toNat % 16)]) ∨
    (escapeChar c = [c] ∧ c ≠ '"' ∧ c ≠ '\\' ∧ ¬ c.toNat < 0x20) := by
  unfold escapeChar
  split_ifs with quote backslash b t n f r control
  · exact .inl ⟨'"', rfl, by rw [quote]; rfl⟩
  · exact .inl ⟨'\\', rfl, by rw [backslash]; rfl⟩
  · exact .inl ⟨'b', rfl, by rw [b]; rfl⟩
  · exact .inl ⟨'t', rfl, by rw [t]; rfl⟩
  · exact .inl ⟨'n', rfl, by rw [n]; rfl⟩
  · exact .inl ⟨'f', rfl, by rw [f]; rfl⟩
  · exact .inl ⟨'r', rfl, by rw [r]; rfl⟩
  · exact .inr (.inl ⟨control, rfl⟩)
  · exact .inr (.inr ⟨rfl, quote, backslash, control⟩)

theorem ne_u_of_shortEscape? {e c : Char} (short : shortEscape? e = some c) : e ≠ 'u' := by
  rintro rfl
  cases short

/-! ## Passing over a string -/

theorem readString_short {e c : Char} (short : shortEscape? e = some c) (rest : List Char) :
    readString ('\\' :: e :: rest) = (readString rest).map fun r => ('\\' :: e :: r.1, r.2) := by
  rw [readString.eq_3 _ _ fun _ _ _ _ _ u _ => ne_u_of_shortEscape? short u, short]
  cases readString rest <;> rfl

theorem readString_escapeChar (c : Char) (rest : List Char) :
    readString (escapeChar c ++ rest) =
      (readString rest).map fun r => (escapeChar c ++ r.1, r.2) := by
  rcases escapeChar_cases c with ⟨e, written, short⟩ | ⟨control, written⟩ |
    ⟨written, quote, backslash, plain⟩
  · rw [written]
    exact readString_short short rest
  · rw [written]
    simp only [List.cons_append, List.nil_append, readString, hexQuad?_hexDigit control]
    cases readString rest <;> rfl
  · rw [written]
    simp only [List.cons_append, List.nil_append]
    rw [readString.eq_def]
    split <;> simp_all

/-- A string is passed over up to its closing quote. -/
theorem readString_escape (cs rest : List Char) :
    readString (escape cs ++ '"' :: rest) = some (escape cs, rest) := by
  induction cs with
  | nil => simp [escape, readString]
  | cons c cs ih =>
    have both : escape (c :: cs) = escapeChar c ++ escape cs := List.flatMap_cons
    rw [both, List.append_assoc, readString_escapeChar, ih, Option.map_some]

/-! ## What a string stands for -/

theorem unescape?_short {e c : Char} (short : shortEscape? e = some c) (rest : List Char) :
    unescape? ('\\' :: e :: rest) = (unescape? rest).map (c :: ·) := by
  rw [unescape?.eq_3 _ _ fun _ _ _ _ _ u _ => ne_u_of_shortEscape? short u, short]

theorem unescape?_escapeChar (c : Char) (rest : List Char) :
    unescape? (escapeChar c ++ rest) = (unescape? rest).map (c :: ·) := by
  rcases escapeChar_cases c with ⟨e, written, short⟩ | ⟨control, written⟩ |
    ⟨written, quote, backslash, plain⟩
  · rw [written]
    exact unescape?_short short rest
  · have high : isHighSurrogate c.toNat = false := by simp [isHighSurrogate]; omega
    have low : isLowSurrogate c.toNat = false := by simp [isLowSurrogate]; omega
    rw [written]
    simp only [List.cons_append, List.nil_append, unescape?, hexQuad?_hexDigit control, high, low,
      Char.ofNat_toNat]
    simp
  · rw [written]
    simp only [List.cons_append, List.nil_append]
    rw [unescape?.eq_def]
    split <;> simp_all

/-- What is written for characters stands for them. -/
theorem unescape?_escape (cs : List Char) : unescape? (escape cs) = some cs := by
  induction cs with
  | nil => rfl
  | cons c cs ih =>
    have both : escape (c :: cs) = escapeChar c ++ escape cs := List.flatMap_cons
    rw [both, unescape?_escapeChar, ih, Option.map_some]

@[simp] theorem text?_ofString (s : String) : text? (ofString s) = some s := by
  rw [ofString, text?, unescape?_escape, Option.map_some, String.ofList_toList]

end Taxonomy.Json
