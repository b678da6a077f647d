import Taxonomy.Text.Blank
import Taxonomy.Token.Lexer
import Taxonomy.Schema.ClassMap
import Taxonomy.Schema.Reader

/-!
# Parsing a schema

A text's blocks are taken in order: declarations go into the class map, and all that was passed over
or replaced is reported where it stands. `parse` never fails.
-/

namespace Taxonomy

/-- A text made ready for messages about it. -/
structure Source where
  chars : List Char
  lines : LineTable

namespace Source

def ofText (text : String) : Source :=
  ⟨text.toList, LineTable.ofText text.toList⟩

def position (s : Source) (offset : Nat) : Position :=
  s.lines.position s.chars offset

/-- How many characters of skipped text a message quotes. -/
def excerptLimit : Nat := 40

/-- The text of a span on one line, cut short if it is long. -/
def excerpt (s : Source) (span : Span) : String :=
  String.ofList (Text.clip excerptLimit (Text.collapse (Text.slice s.chars span)))

def diagnose (s : Source) (code : DiagnosticCode) (span : Span) (message : String) : Diagnostic :=
  { code, message, span, position := s.position span.start }

/-- A run of a property block that is no property of the class. -/
def junk (s : Source) (className : String) (span : Span) : Diagnostic :=
  s.diagnose .malformedProperty span
    s!"ignored `{s.excerpt span}` in class `{className}`: properties are written `*name Range;`"

def stray (s : Source) (span : Span) : Diagnostic :=
  s.diagnose .strayText span s!"ignored text outside any declaration: `{s.excerpt span}`"

/-- A declaration took the place of an earlier one. -/
def redeclared (s : Source) (earlier later : ClassDeclaration) : Diagnostic :=
  s.diagnose .duplicateClass later.span
    (s!"class `{later.name}` redeclared; replaces the declaration on line " ++
      toString (s.position earlier.span.start).line)

/-- What there is to report about the items of a property block. -/
def ofEntries (s : Source) (className : String) (entries : List Entry) : List Diagnostic :=
  entries.filterMap fun
    | .property .. => none
    | .junk first rest => some (s.junk className (Token.coverAll first rest))

end Source

/-- The classes of a schema and what there is to report about its text. -/
structure Outcome where
  classes : ClassMap := .empty
  report : Report := {}
  deriving Inhabited

namespace Outcome

/-- Takes one more block into account. -/
def add (s : Source) (o : Outcome) (b : Block) : Outcome :=
  match b with
  | .declared d =>
    let inserted := o.classes.insert d.toClass
    { classes := inserted.2
      report :=
        (o.report.append (s.ofEntries d.header.name.text d.entries)).append
          (inserted.1.toList.map (s.redeclared · d.toClass)) }
  | .abandoned _ _ entries cause =>
    { o with
      report :=
        (o.report.append (s.ofEntries cause.className entries)).push
          (s.diagnose cause.code b.span cause.message) }
  | .stray .. => { o with report := o.report.push (s.stray b.span) }

end Outcome

/-- The classes that a text declares, and a report on the rest of it. -/
def parse (text : String) : Outcome :=
  (Block.ofTokens (tokenize text)).foldl (Outcome.add (Source.ofText text)) {}

end Taxonomy
