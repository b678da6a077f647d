import Taxonomy.Forest.Build
import Taxonomy.Forest.Json
import Taxonomy.Schema.Parse
import Taxonomy.Search.Json

/-!
# Generating the artifacts

From a schema's text come the navigation forest and the search index. A strict run refuses a text
with errors before anything is built.
-/

namespace Taxonomy

structure GenerateOptions where
  includeProperties : Bool := false
  strict : Bool := false
  cycles : CycleHandling := .fail
  deriving DecidableEq, Repr, Inhabited

/-- What a schema is turned into. -/
structure Artifacts where
  forest : List Tree
  index : List SearchEntry
  report : Report
  warnings : List Warning

inductive GenerateError
  | rejected (errors : Nat)
  | cycle (c : Cycle)
  deriving DecidableEq, Repr

def GenerateError.message : GenerateError → String
  | rejected errors =>
    s!"Schema rejected in strict mode: {errors} malformed span(s) skipped"
  | cycle c => s!"Inheritance cycle detected: {c.chain}"

/-- The artifacts of a schema, or why there are none: errors come before loops. It matters for the
loops only how components are found. -/
def generateWith (components : Graph → List (List String)) (text : String)
    (options : GenerateOptions) : Except GenerateError Artifacts :=
  let outcome := parse text
  if options.strict && outcome.report.hasErrors then
    .error (.rejected outcome.report.errorCount)
  else
    match outcome.classes.buildWith components options.cycles with
    | .error c => .error (.cycle c)
    | .ok forest =>
      .ok
        { forest
          index := outcome.classes.searchIndex options.includeProperties
          report := outcome.report
          warnings := outcome.classes.buildWarningsWith components options.cycles }

def generate (text : String) (options : GenerateOptions) : Except GenerateError Artifacts :=
  generateWith Graph.components text options

namespace Artifacts

/-- The text of the navigation tree. -/
def treeText (a : Artifacts) (layout : Layout) : String :=
  Tree.forestText layout a.forest

/-- The text of the search index. -/
def searchText (a : Artifacts) (layout : Layout) : String :=
  SearchEntry.indexText layout a.index

end Artifacts

end Taxonomy
