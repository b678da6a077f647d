import Taxonomy.Json.Reader
import Taxonomy.Json.Record
import Taxonomy.Settings.Basic

/-!
# Settings as JSON

A record of four sections, each a record of its settings. What is missing has its default, and
nothing but the right type will do for what is there.
-/

namespace Taxonomy.Settings

open Json

/-- A field's value, or its default if the field is missing. -/
def field? {α : Type} (default : α) (decode : Json → Option α) : Option Json → Option α
  | none => some default
  | some j => decode j

def bool? : Json → Option Bool
  | .bool b => some b
  | _ => none

def path? (j : Json) : Option Path :=
  j.text?.map Path.mk

def inputOfJson? (s : Settings) (j : Json) : Option Settings :=
  match j.fields? ((Setting.ofSection "input").map Setting.key) with
  | some [path] => (field? s.inputPath path? path).map fun inputPath => { s with inputPath }
  | _ => none

def outputOfJson? (s : Settings) (j : Json) : Option Settings :=
  match j.fields? ((Setting.ofSection "output").map Setting.key) with
  | some [dir, tree, search, layout, properties] => do
    let outputDir ← field? s.outputDir path? dir
    let treeFile ← field? s.treeFile text? tree
    let searchFile ← field? s.searchFile text? search
    let layout ← field? s.layout (·.choice?.bind Layout.ofName?) layout
    let includeProperties ← field? s.includeProperties bool? properties
    some { s with outputDir, treeFile, searchFile, layout, includeProperties }
  | _ => none

def parseOfJson? (s : Settings) (j : Json) : Option Settings :=
  match j.fields? ((Setting.ofSection "parse").map Setting.key) with
  | some [strict] => (field? s.strict bool? strict).map fun strict => { s with strict }
  | _ => none

def treeOfJson? (s : Settings) (j : Json) : Option Settings :=
  match j.fields? ((Setting.ofSection "tree").map Setting.key) with
  | some [cycles] =>
    (field? s.cycles (·.choice?.bind CycleHandling.ofName?) cycles).map fun cycles =>
      { s with cycles }
  | _ => none

/-- The settings that a value stands for. -/
def ofJson? (j : Json) : Option Settings :=
  match j.fields? Setting.sections with
  | some [input, output, parse, tree] => do
    let s : Settings := {}
    let s ← field? s (inputOfJson? s) input
    let s ← field? s (outputOfJson? s) output
    let s ← field? s (parseOfJson? s) parse
    field? s (treeOfJson? s) tree
  | _ => none

def ofJsonText? (text : String) : Option Settings :=
  (Json.ofText? text).bind ofJson?

end Taxonomy.Settings
