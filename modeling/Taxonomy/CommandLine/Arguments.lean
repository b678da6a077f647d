import Taxonomy.CommandLine.Command
import Taxonomy.CommandLine.Flag
import Taxonomy.Decimal.Reader
import Taxonomy.Text.Quoted

/-!
# Reading arguments

The arguments are taken one by one. A flag's value is the next argument or a part of its own; two
dashes alone end the flags. Flags belong to what they follow: the program, or the command after its
name. The file with settings may be given in both places, and the command's counts.
-/

namespace Taxonomy

inductive UsageError
  | unknownFlag (written : String)
  | unknownCommand (word : String)
  | unexpectedWord (word : String)
  | missingValue (flag : Flag)
  | unwantedValue (flag : Flag)
  | badValue (flag : Flag) (value : String)
  | emptyPath
  | repeated (flag : Flag)
  | missingQuery
  deriving DecidableEq, Repr

def UsageError.message : UsageError → String
  | unknownFlag written => s!"unexpected argument {Text.quote written}"
  | unknownCommand word => s!"unrecognized command {Text.quote word}"
  | unexpectedWord word => s!"unexpected argument {Text.quote word}"
  | missingValue flag => s!"a value is required for --{flag.name}"
  | unwantedValue flag => s!"no value can be given for --{flag.name}"
  | badValue flag value => s!"invalid value {Text.quote value} for --{flag.name}"
  | emptyPath => "a path must not be empty"
  | repeated flag => s!"--{flag.name} cannot be used twice"
  | missingQuery => "a text to look for is required"

/-- Why no command has been read: help was asked for, or the arguments are wrong. -/
inductive Refused
  | help
  | usage (e : UsageError)
  deriving DecidableEq, Repr

namespace Arguments

/-- The flags that have been given in one place, each with its value. -/
abbrev Given := List (Flag × String)

/-- What has been read so far. -/
structure Reading where
  command : Option CommandName := none
  outer : Given := []
  given : Given := []
  words : List String := []
  pending : Option Flag := none
  ended : Bool := false
  deriving Repr

/-- A count: digits, with a plus sign in front or none, that make a number of 64 bits. -/
def count? (value : String) : Option Nat :=
  let digits := if value.toList.head? = some '+' then value.toList.drop 1 else value.toList
  if digits.isEmpty || !digits.all Char.isDigit then none
  else
    let n := Decimal.natOfDigits digits
    if n < Decimal.wordCount then some n else none

def accepts : Flag.ValueKind → String → Bool
  | .text, _ => true
  | .path, value => !value.isEmpty
  | .count, value => (count? value).isSome

def Reading.give (r : Reading) (flag : Flag) (value : String) : Except Refused Reading :=
  if flag = .help then .error .help
  else if r.given.any (·.1 == flag) then .error (.usage (.repeated flag))
  else if flag.valueKind?.all (accepts · value) then
    .ok { r with given := r.given ++ [(flag, value)], pending := none }
  else .error (.usage (.badValue flag value))

/-- A word is the command's name if there is none yet. -/
def Reading.word (r : Reading) (word : String) : Except Refused Reading :=
  match r.command with
  | some command =>
    if r.words.length < command.maxWords then .ok { r with words := r.words ++ [word] }
    else .error (.usage (.unexpectedWord word))
  | none =>
    if r.ended then .error (.usage (.unexpectedWord word))
    else if word = "help" then .error .help
    else
      match CommandName.ofName? word with
      | some command => .ok { r with command := some command, outer := r.given, given := [] }
      | none => .error (.usage (.unknownCommand word))

/-- A flag by its name, with its value after an equals sign or to come. -/
def Reading.named (r : Reading) (body : List Char) : Except Refused Reading :=
  let name := body.takeWhile (· != '=')
  let attached := body.drop name.length
  match Flag.ofName? r.command (String.ofList name) with
  | none => .error (.usage (.unknownFlag (String.ofList ('-' :: '-' :: body))))
  | some flag =>
    match flag.valueKind?, attached with
    | none, [] => r.give flag ""
    | none, _ => .error (.usage (.unwantedValue flag))
    | some _, [] => .ok { r with pending := some flag }
    | some _, _ :: value => r.give flag (String.ofList value)

/-- A flag by its letter, with its value right after it, with or without an equals sign, or to
come. -/
def Reading.lettered (r : Reading) (letter : Char) (rest : List Char) : Except Refused Reading :=
  match Flag.ofLetter? r.command letter with
  | none => .error (.usage (.unknownFlag (String.ofList ['-', letter])))
  | some flag =>
    match flag.valueKind?, rest with
    | none, _ => r.give flag ""
    | some _, [] => .ok { r with pending := some flag }
    | some _, '=' :: value => r.give flag (String.ofList value)
    | some _, value => r.give flag (String.ofList value)

/-- One more argument. A single dash is no flag, and neither is what follows a flag that waits for
its value, unless it starts with a dash. -/
def Reading.next (r : Reading) (argument : String) : Except Refused Reading :=
  let isWord := r.ended || argument = "-" || argument.toList.head? != some '-'
  match r.pending with
  | some flag => if isWord then r.give flag argument else .error (.usage (.missingValue flag))
  | none =>
    if isWord then r.word argument
    else
      match argument.toList with
      | '-' :: '-' :: [] => .ok { r with ended := true }
      | '-' :: '-' :: body => r.named body
      | '-' :: letter :: rest => r.lettered letter rest
      | _ => .error (.usage (.unknownFlag argument))

def readAll (arguments : List String) : Except Refused Reading :=
  arguments.foldlM Reading.next {}

/-! ## What has been read -/

def Reading.path? (r : Reading) (flag : Flag) : Option Path :=
  (r.given.lookup flag).map Path.mk

def Reading.has (r : Reading) (flag : Flag) : Bool :=
  (r.given.lookup flag).isSome

def Reading.config? (r : Reading) : Option Path :=
  (r.path? .config).or ((r.outer.lookup .config).map Path.mk)

def Reading.overrides (r : Reading) : Overrides where
  input := r.path? .input
  outDir := r.path? .outDir
  treeFile := r.given.lookup .treeFile
  searchFile := r.given.lookup .searchFile
  compact := r.has .compact
  withProperties := r.has .withProperties
  strict := r.has .strict
  allowCycles := r.has .allowCycles

/-- How many results a search gives unless it is told otherwise. -/
def defaultLimit : Nat := 10

/-- The command that the arguments give; without a name it is the one to generate. -/
def Reading.command? (r : Reading) : Except Refused Command :=
  match r.command with
  | none => .ok (.generate {})
  | some .generate => .ok (.generate r.overrides)
  | some .check =>
    match r.words with
    | [] => .ok (.check none)
    | path :: _ =>
      if path.isEmpty then .error (.usage .emptyPath) else .ok (.check (some ⟨path⟩))
  | some .search =>
    match r.words with
    | [] => .error (.usage .missingQuery)
    | query :: _ =>
      .ok (.search query (r.path? .input) (((r.given.lookup .limit).bind count?).getD defaultLimit))

end Arguments

/-- What a list of arguments asks for. -/
def Invocation.ofArguments (arguments : List String) : Except Refused Invocation := do
  let r ← Arguments.readAll arguments
  match r.pending with
  | some flag => throw (.usage (.missingValue flag))
  | none => return { config := r.config?, command := ← r.command? }

end Taxonomy
