import Taxonomy.Settings.Merge

/-!
# The environment

Variables with names such as `SCHEMA_TREE__OUTPUT__DIR` give settings: after the first part of the
name, two underscores stand for the dot in a path. Names are read without regard to case.
-/

namespace Taxonomy

/-- The variables of a process with their values. -/
abbrev Environment := List (String × String)

namespace Environment

/-- A variable from an entry such as `NAME=value`. A name has at least one character, and the first
one may be an equals sign. -/
def ofEntry? : List Char → Option (String × String)
  | [] => none
  | first :: rest =>
    let name := rest.takeWhile (· != '=')
    match rest.drop name.length with
    | [] => none
    | _ :: value => some (String.ofList (first :: name), String.ofList value)

/-- The variables of a block of entries with a NUL after each. -/
def ofBlock (block : String) : Environment :=
  (block.splitOn "\x00").filterMap fun entry => ofEntry? entry.toList

/-- What the names of variables for settings start with. -/
def marker : String := "schema_tree__"

/-- Writes a dot for each pair of underscores. -/
def dotted : List Char → List Char
  | '_' :: '_' :: rest => '.' :: dotted rest
  | c :: rest => c :: dotted rest
  | [] => []

/-- The key that a variable gives a value for. -/
def keyOf? (name : String) : Option String :=
  let cs := name.toLower.toList
  if marker.toList.isPrefixOf cs then some (String.ofList (dotted (cs.drop marker.length)))
  else none

/-- What the environment gives. -/
def layer (env : Environment) : Layer :=
  env.filterMap fun (name, text) => (keyOf? name).map fun key => (key, SettingValue.ofText text)

/-- The directory for the user's own settings: the one that a variable names, if its path is
absolute, or one in the home directory. -/
def configHome? (env : Environment) : Option Path :=
  match (env.lookup "XDG_CONFIG_HOME").map Path.mk with
  | some dir => if dir.isAbsolute then some dir else home?
  | none => home?
where
  home? : Option Path :=
    match env.lookup "HOME" with
    | some home => if home.isEmpty then none else some ((Path.mk home).join ".config")
    | none => none

end Environment

end Taxonomy
