import Taxonomy.Toml.Value

/-!
# Building tables

Headers and dotted keys may name a table several times, but only one of them may define it. How a
table came about decides what may still be added: a table named on the way to another may get a
header later, one made by dotted keys may get more of them, and one with a header or braces of its
own neither.
-/

namespace Taxonomy.Toml

/-- How a table came about. -/
inductive Origin
  /-- Named on the way to another table's header. -/
  | implied
  /-- Named by a dotted key. -/
  | dotted
  /-- Given by a header, by braces, or as the document itself. -/
  | defined
  deriving DecidableEq, Repr

/-- What a key of a table under construction holds. The last of an array's tables is open. -/
inductive Item
  | value (v : Toml)
  | table (origin : Origin) (members : List (String × Item))
  | tables (elements : List (List (String × Item)))
  deriving Repr, Inhabited

/-- The members of a table under construction, in order of first mention. -/
abbrev Members := List (String × Item)

/-- Changes what a key holds, or adds the key. -/
def Members.update (key : String) (f : Option Item → Option Item) : Members → Option Members
  | [] => (f none).map fun item => [(key, item)]
  | (k, item) :: rest =>
    if k = key then (f (some item)).map fun item => (k, item) :: rest
    else (Members.update key f rest).map ((k, item) :: ·)

/-- Changes the last element of a list. -/
def updateLast {α : Type} (f : α → Option α) : List α → Option (List α)
  | [] => none
  | [x] => (f x).map ([·])
  | x :: xs => (updateLast f xs).map (x :: ·)

/-- Changes the table at the end of a path, making the tables on the way that are not there. A path
of a dotted key may not go through a table that is defined elsewhere. -/
def Members.enter (viaKey : Bool) (f : Origin → Members → Option Members) :
    List String → Origin → Members → Option Members
  | [], origin, members => f origin members
  | key :: path, _, members =>
    members.update key fun
      | none =>
        let origin := if viaKey then .dotted else .implied
        (Members.enter viaKey f path origin []).map (.table origin ·)
      | some (.value _) => none
      | some (.tables elements) =>
        (updateLast (Members.enter viaKey f path .defined) elements).map .tables
      | some (.table origin members) =>
        if viaKey && origin == .defined then none
        else (Members.enter viaKey f path origin members).map (.table origin ·)

/-- Adds a key that is not there yet. -/
def Members.add (key : String) (v : Toml) (members : Members) : Option Members :=
  members.update key fun
    | none => some (.value v)
    | some _ => none

/-- Adds a value under a dotted key: the tables that the key goes through must be made by such
keys. -/
def Members.assign (path : List String) (v : Toml) (origin : Origin) (members : Members) :
    Option Members :=
  match path.getLast? with
  | none => none
  | some key =>
    let tables := path.dropLast
    members.enter true
      (fun reached members =>
        if (reached == .dotted) == tables.isEmpty then none else members.add key v)
      tables origin

/-- Starts the table of a header, which may have been implied but not defined before. -/
def Members.startTable (path : List String) (members : Members) : Option Members :=
  match path.getLast? with
  | none => none
  | some key =>
    members.enter false
      (fun _ members =>
        members.update key fun
          | none => some (.table .defined [])
          | some (.table .implied members) => some (.table .defined members)
          | some _ => none)
      path.dropLast .defined

/-- Starts one more table of an array of tables. -/
def Members.startElement (path : List String) (members : Members) : Option Members :=
  match path.getLast? with
  | none => none
  | some key =>
    members.enter false
      (fun _ members =>
        members.update key fun
          | none => some (.tables [[]])
          | some (.tables elements) => some (.tables (elements ++ [[]]))
          | some _ => none)
      path.dropLast .defined

mutual

def Item.toToml : Item → Toml
  | .value v => v
  | .table _ members => .table (membersToToml members)
  | .tables elements => .array (elementsToToml elements)

def membersToToml : List (String × Item) → List (String × Toml)
  | [] => []
  | (key, item) :: rest => (key, item.toToml) :: membersToToml rest

def elementsToToml : List (List (String × Item)) → List Toml
  | [] => []
  | members :: rest => .table (membersToToml members) :: elementsToToml rest

end

/-- The table that the pairs between braces write. -/
def inlineTable? (pairs : List (List String × Toml)) : Option Toml :=
  (pairs.foldlM (fun members pair => Members.assign pair.1 pair.2 .defined members) []).map
    fun members => .table (membersToToml members)

/-- A line of a document. -/
inductive Statement
  | header (path : List String)
  | element (path : List String)
  | assignment (path : List String) (value : Toml)
  deriving Repr

/-- A document so far, and the path of the table that is being filled. -/
structure Draft where
  current : List String := []
  members : Members := []

/-- Takes one more line into account, unless it names something for a second time. -/
def Draft.add (d : Draft) : Statement → Option Draft
  | .header path => (d.members.startTable path).map fun members => { current := path, members }
  | .element path => (d.members.startElement path).map fun members => { current := path, members }
  | .assignment path value =>
    (d.members.enter false (fun origin members => members.assign path value origin) d.current
      .defined).map fun members => { d with members }

/-- The table that the lines of a document make up. -/
def ofStatements? (statements : List Statement) : Option (List (String × Toml)) :=
  (statements.foldlM Draft.add {}).map fun d => membersToToml d.members

end Taxonomy.Toml
