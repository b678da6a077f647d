import Taxonomy.Text.Position

/-!
# Diagnostics

What a parser skipped or replaced, where it stands and how bad that is. Parsing goes on after each
of them; a `Report` keeps them in the order in which they were found.
-/

namespace Taxonomy

inductive Severity
  | warning
  | error
  deriving DecidableEq, Repr, Inhabited

def Severity.name : Severity → String
  | warning => "warning"
  | error => "error"

/-- The kinds of trouble a schema's text can have. -/
inductive DiagnosticCode
  | malformedDeclaration
  | unterminatedBlock
  | malformedProperty
  | strayText
  | duplicateClass
  deriving DecidableEq, Repr, Inhabited

namespace DiagnosticCode

/-- Errors start with `E`, warnings with `W`. -/
def id : DiagnosticCode → String
  | malformedDeclaration => "E001"
  | unterminatedBlock => "E002"
  | malformedProperty => "E003"
  | strayText => "W001"
  | duplicateClass => "W002"

/-- What loses a part of a declaration is an error, all else a warning. -/
def severity : DiagnosticCode → Severity
  | malformedDeclaration | unterminatedBlock | malformedProperty => .error
  | strayText | duplicateClass => .warning

end DiagnosticCode

/-- A message about a range of a text; the position is that of the range's start. -/
structure Diagnostic where
  code : DiagnosticCode
  message : String
  span : Span := {}
  position : Position := {}
  deriving DecidableEq, Repr, Inhabited

namespace Diagnostic

def severity (d : Diagnostic) : Severity :=
  d.code.severity

def isError (d : Diagnostic) : Bool :=
  d.severity == .error

/-- Written as in `4:2: error[E001]: a message`. -/
def render (d : Diagnostic) : String :=
  s!"{d.position.line}:{d.position.column}: {d.severity.name}[{d.code.id}]: {d.message}"

end Diagnostic

/-- Diagnostics in the order of their discovery. -/
structure Report where
  items : List Diagnostic := []
  deriving DecidableEq, Repr, Inhabited

namespace Report

def push (r : Report) (d : Diagnostic) : Report :=
  ⟨r.items ++ [d]⟩

def append (r : Report) (ds : List Diagnostic) : Report :=
  ⟨r.items ++ ds⟩

def errors (r : Report) : List Diagnostic :=
  r.items.filter (·.isError)

def warnings (r : Report) : List Diagnostic :=
  r.items.filter (!·.isError)

def size (r : Report) : Nat :=
  r.items.length

def errorCount (r : Report) : Nat :=
  r.errors.length

def hasErrors (r : Report) : Bool :=
  r.items.any (·.isError)

/-- The worst severity among the items, if there are any. -/
def worst (r : Report) : Option Severity :=
  if r.items.isEmpty then none else some (if r.hasErrors then .error else .warning)

end Report

end Taxonomy
