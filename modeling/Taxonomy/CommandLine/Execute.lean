import Taxonomy.CommandLine.Arguments
import Taxonomy.Run
import Taxonomy.Search.Ranking
import Taxonomy.Settings.Load

/-!
# Executing commands

A command reads its settings, does its work and says what to print and how to exit: with 0 if all
went well, with 1 if not, and with 2 if the arguments were wrong.
-/

namespace Taxonomy

/-- What a command prints, and its exit code. -/
structure Printed where
  exit : Nat := 0
  out : String := ""
  err : String := ""
  deriving DecidableEq, Repr, Inhabited

namespace Printed

/-- Lines of text, each with its end. -/
def lines (ls : List String) : String :=
  String.join (ls.map (· ++ "\n"))

def failed (message : String) : Printed :=
  { exit := 1, err := lines [s!"Error: {message}"] }

def ofUsage (e : UsageError) : Printed :=
  { exit := 2, err := lines [s!"error: {e.message}", "", "For more information, try --help."] }

def help : Printed :=
  { out :=
      lines
        ["Generate navigation tree and search index JSON from a class schema", "",
          "Usage: schema-tree [-c FILE] [generate | check | search] [FLAGS]", "",
          "  generate  Write tree.json and search.json (the default)",
          "  check     Parse only and report skipped spans",
          "  search    Fuzzy-search class names"] }

/-- A diagnostic with the path of its file in front. -/
def located (p : Path) (d : Diagnostic) : String :=
  s!"{p.text}:{d.render}"

/-- A number in at least five columns, and a name. -/
def hitLine (h : Hit) : String :=
  let score := toString h.score
  String.ofList (List.replicate (5 - score.length) ' ') ++ score ++ "  " ++ h.id

def ofWritten (s : Settings) (w : Written) : Printed :=
  { err := lines (w.artifacts.report.items.map fun d => "⚠️  " ++ located s.inputPath d)
    out :=
      lines
        [s!"  Tree:   {Text.quote w.tree.text}", s!"  Search: {Text.quote w.search.text}",
          "JSON files generated successfully."] }

/-- The diagnostics of a schema and their counts; errors make the check fail. -/
def ofCheck (p : Path) (o : Outcome) : Printed :=
  let r := o.report
  let counts :=
    s!"📊 {o.classes.size} classes, {r.errorCount} errors, {r.size - r.errorCount} warnings"
  let report := r.items.map (located p) ++ [counts]
  if r.errorCount = 0 then { out := lines (report ++ ["✅ Schema is clean"]) }
  else { exit := 1, out := lines report }

def ofHits (query : String) (hits : List Hit) : Printed :=
  if hits.isEmpty then { out := lines [s!"No classes match '{query}'"] }
  else { out := lines (hits.map hitLine) }

end Printed

variable {m : Type → Type} [Monad m]

def Command.execute (d : Disk m) (s : Settings) : Command → m Printed
  | .generate overrides => do
    let s := overrides.apply s
    let report ← run d s
    match report.result with
    | .error e => return .failed e.message
    | .ok w => return .ofWritten s w
  | .check input => do
    let p := input.getD s.inputPath
    match ← readSchema d p with
    | .error e => return .failed e.message
    | .ok text => return .ofCheck p (parse text)
  | .search query input limit => do
    match ← readSchema d (input.getD s.inputPath) with
    | .error e => return .failed e.message
    | .ok text =>
      return .ofHits query (Taxonomy.search ((parse text).classes.searchIndex false) query limit)

/-- Does what the arguments ask for. The settings are read first, even if they make no
difference. -/
def execute (d : Disk m) (env : Environment) (arguments : List String) : m Printed := do
  match Invocation.ofArguments arguments with
  | .error .help => return .help
  | .error (.usage e) => return .ofUsage e
  | .ok invocation =>
    match ← Settings.load d env invocation.config with
    | .error e => return .failed s!"Configuration error: {e.message}"
    | .ok s => invocation.command.execute d s

end Taxonomy
