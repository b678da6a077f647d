import Taxonomy.Settings.Basic

/-!
# Commands

What the program can be told to do, and the settings that the command to generate overrides.
-/

namespace Taxonomy

/-- What is given for a run in the place of its settings. A switch can only be turned on. -/
structure Overrides where
  input : Option Path := none
  outDir : Option Path := none
  treeFile : Option String := none
  searchFile : Option String := none
  compact : Bool := false
  withProperties : Bool := false
  strict : Bool := false
  allowCycles : Bool := false
  deriving DecidableEq, Repr, Inhabited

/-- The settings with those that are given in their places. -/
def Overrides.apply (o : Overrides) (s : Settings) : Settings where
  inputPath := o.input.getD s.inputPath
  outputDir := o.outDir.getD s.outputDir
  treeFile := o.treeFile.getD s.treeFile
  searchFile := o.searchFile.getD s.searchFile
  layout := if o.compact then .compact else s.layout
  includeProperties := o.withProperties || s.includeProperties
  strict := o.strict || s.strict
  cycles := if o.allowCycles then .omit else s.cycles

inductive Command
  | generate (overrides : Overrides)
  | check (input : Option Path)
  | search (query : String) (input : Option Path) (limit : Nat)
  deriving DecidableEq, Repr

/-- A command and the file with settings that is asked for. -/
structure Invocation where
  config : Option Path
  command : Command
  deriving DecidableEq, Repr

end Taxonomy
