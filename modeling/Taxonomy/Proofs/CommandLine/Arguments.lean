import Mathlib.Tactic.SplitIfs
import Taxonomy.CommandLine.Arguments

/-!
# Flags are known where they are given

A flag is only read if the program, or the command that has been named by then, knows it: one
argument keeps this (`known_next`), so all of them do (`known_readAll`). No flag for a setting is
known before the command's name. So the flags that a reading ends with are the overrides of the
command to generate, whether it was named or not (`exists_reading`).
-/

namespace Taxonomy

theorem bind_eq_ok {ε α β : Type} {r : Except ε α} {f : α → Except ε β} {b : β} :
    (r >>= f) = .ok b ↔ ∃ a, r = .ok a ∧ f a = .ok b := by
  cases r <;> simp [bind, Except.bind]

namespace Arguments

/-- The flags given last, and the one that waits for its value, are known after the command's
name. -/
structure Reading.Known (r : Reading) : Prop where
  given : ∀ g ∈ r.given, g.1 ∈ Flag.known r.command
  pending : ∀ flag ∈ r.pending, flag ∈ Flag.known r.command

variable {r r' : Reading}

theorem known_give {flag : Flag} {value : String} (known : r.Known)
    (own : flag ∈ Flag.known r.command) (read : r.give flag value = .ok r') : r'.Known := by
  unfold Reading.give at read
  split_ifs at read
  cases read
  refine ⟨fun g member => ?_, by simp⟩
  rcases List.mem_append.mp member with before | here
  · exact known.given g before
  · rw [List.mem_singleton.mp here]
    exact own

theorem known_word {word : String} (known : r.Known) (idle : r.pending = none)
    (read : r.word word = .ok r') : r'.Known := by
  unfold Reading.word at read
  split at read
  · split_ifs at read
    cases read
    exact ⟨known.given, known.pending⟩
  · split_ifs at read
    split at read
    · cases read
      exact ⟨by simp, by simp [idle]⟩
    · cases read

theorem known_named {body : List Char} (known : r.Known) (read : r.named body = .ok r') :
    r'.Known := by
  unfold Reading.named at read
  dsimp only at read
  split at read
  · cases read
  · next flag found =>
    have own : flag ∈ Flag.known r.command := List.mem_of_find?_eq_some found
    split at read
    · exact known_give known own read
    · cases read
    · cases read
      exact ⟨known.given, by simpa using own⟩
    · exact known_give known own read

theorem known_lettered {letter : Char} {rest : List Char} (known : r.Known)
    (read : r.lettered letter rest = .ok r') : r'.Known := by
  unfold Reading.lettered at read
  split at read
  · cases read
  · next flag found =>
    have own : flag ∈ Flag.known r.command := List.mem_of_find?_eq_some found
    split at read
    · exact known_give known own read
    · cases read
      exact ⟨known.given, by simpa using own⟩
    · exact known_give known own read
    · exact known_give known own read

theorem known_next {argument : String} (known : r.Known) (read : r.next argument = .ok r') :
    r'.Known := by
  unfold Reading.next at read
  dsimp only at read
  split at read
  · next flag waiting =>
    split_ifs at read
    exact known_give known (known.pending flag waiting) read
  · next idle =>
    split_ifs at read
    · exact known_word known idle read
    · split at read
      · cases read
        exact ⟨known.given, known.pending⟩
      · exact known_named known read
      · exact known_lettered known read
      · cases read

theorem known_foldlM {arguments : List String} (known : r.Known)
    (read : arguments.foldlM Reading.next r = .ok r') : r'.Known := by
  induction arguments generalizing r with
  | nil => cases read; exact known
  | cons argument arguments ih =>
    obtain ⟨r₁, first, rest⟩ := bind_eq_ok.mp read
    exact ih (known_next known first) rest

theorem known_readAll {arguments : List String} (read : readAll arguments = .ok r) : r.Known :=
  known_foldlM ⟨by simp, by simp⟩ read

/-- Before a command's name, nothing is given that overrides a setting. -/
theorem overrides_eq (known : r.Known) (unnamed : r.command = none) : r.overrides = {} := by
  have none {flag : Flag} (other : flag ∉ Flag.known none) : r.given.lookup flag = none := by
    rw [List.lookup_eq_none_iff]
    intro g member
    rw [bne_iff_ne]
    rintro rfl
    exact other (unnamed ▸ known.given g member)
  simp only [Reading.overrides, Reading.path?, Reading.has]
  rw [none (by decide), none (by decide), none (by decide), none (by decide), none (by decide),
    none (by decide), none (by decide), none (by decide)]
  rfl

/-- What the command to generate overrides is what the arguments give. -/
theorem exists_reading {arguments : List String} {custom : Option Path} {o : Overrides}
    (asked : Invocation.ofArguments arguments = .ok ⟨custom, .generate o⟩) :
    ∃ r, readAll arguments = .ok r ∧ o = r.overrides := by
  obtain ⟨r, read, asked⟩ := bind_eq_ok.mp asked
  refine ⟨r, read, ?_⟩
  split at asked
  · cases asked
  · obtain ⟨command, named, same⟩ := bind_eq_ok.mp asked
    cases same
    unfold Reading.command? at named
    split at named
    · next unnamed =>
      cases named
      exact (overrides_eq (known_readAll read) unnamed).symm
    · cases named
      rfl
    · split at named
      · cases named
      · split_ifs at named
        cases named
    · split at named
      · cases named
      · cases named

end Arguments

end Taxonomy
