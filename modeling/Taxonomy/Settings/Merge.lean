import Taxonomy.Settings.Value

/-!
# Putting layers together

Layers are laid over each other key by key: tables are merged, everything else takes the place of
what was there. Keys are told apart without regard to case. At the top of a layer a key may be a
path: a name, and after it names with dots before them and positions in brackets.
-/

namespace Taxonomy.Layer

/-- Gives a key its value, in the place of an earlier one. -/
def put (key : String) (v : SettingValue) : Layer → Layer
  | [] => [(key, v)]
  | (k, old) :: rest => if k = key then (k, v) :: rest else (k, old) :: put key v rest

theorem lookup_put (key : String) (v : SettingValue) (layer : Layer) (k : String) :
    (put key v layer).lookup k = if k = key then some v else layer.lookup k := by
  induction layer with
  | nil =>
    by_cases h : k = key
    · simp [put, h]
    · have hne : (k == key) = false := by simp [h]
      simp [put, List.lookup_cons, h, hne]
  | cons member rest ih =>
    obtain ⟨name, old⟩ := member
    by_cases hn : name = key
    · subst hn
      by_cases h : k = name
      · simp [put, h]
      · have hne : (k == name) = false := by simp [h]
        simp [put, List.lookup_cons, h, hne]
    · by_cases h : k = name
      · subst h
        simp [put, hn]
      · have hne : (k == name) = false := by simp [h]
        simp [put, hn, List.lookup_cons, hne, ih]

/-- The members of a value; what is no table has none. -/
def membersOf (v : Option SettingValue) : Layer :=
  (v.bind SettingValue.asTable?).getD []

mutual

/-- Lays a value over what a layer has for a key. A table is merged into a table and takes the place
of everything else, unless it is empty. -/
def cover (layer : Layer) (key : String) : SettingValue → Layer
  | .table [] => put key ((layer.lookup key).getD (.table [])) layer
  | .table (member :: rest) =>
    put key (.table (coverAll (membersOf (layer.lookup key)) (member :: rest))) layer
  | v => put key v layer

/-- Lays all members of a table over a layer. -/
def coverAll (layer : Layer) : List (String × SettingValue) → Layer
  | [] => layer
  | (key, v) :: rest => coverAll (cover layer key.toLower v) rest

end

/-! ## Paths -/

/-- One step on a path: into a table, or into an array. -/
inductive Step
  | name (key : String)
  | position (index : Int)
  deriving DecidableEq, Repr

/-- The items of a value; what is no array has none. -/
def itemsOf : Option SettingValue → List SettingValue
  | some (.array items) => items
  | _ => []

/-- Gives an item of an array its value. Positions below zero count from the end, and there must be
as many items; an array that is too short is filled up. -/
def putItem (index : Int) (v : SettingValue) (items : List SettingValue) : List SettingValue :=
  let position := if index < 0 then items.length + index else index
  if position < 0 then items
  else (items ++ List.replicate (position.toNat + 1 - items.length) SettingValue.nothing).set
    position.toNat v

/-- The item at a position, counted as in `putItem`. -/
def item? (index : Int) (items : List SettingValue) : Option SettingValue :=
  let position := if index < 0 then items.length + index else index
  if position < 0 then none else items[position.toNat]?

/-- A value that leads to `v` along the steps after a first one, in the place of an old value. What
is on the way becomes a table or an array. An item at the end of a path is replaced, a table there
merged. -/
def along (v : SettingValue) (first : Step) (old : Option SettingValue) : List Step → SettingValue
  | [] =>
    match first with
    | .name key => .table (cover (membersOf old) key.toLower v)
    | .position index => .array (putItem index v (itemsOf old))
  | next :: rest =>
    match first with
    | .name key =>
      let members := membersOf old
      .table (put key.toLower (along v next (members.lookup key.toLower) rest) members)
    | .position index =>
      let items := itemsOf old
      .array (putItem index (along v next (item? index items) rest) items)

/-- Lays a value over what a layer has at a path that starts with a name. -/
def coverAt (layer : Layer) (v : SettingValue) (name : String) (steps : List Step) : Layer :=
  membersOf (some (along v (.name name) (some (.table layer)) steps))

/-! ## Keys that are paths -/

/-- The characters of a name on a path. -/
def isNameChar (c : Char) : Bool :=
  c.isAlphanum || c == ' ' || c == '_' || c == '-'

/-- The position in brackets, after the opening one: an integer of 64 bits without a plus sign, with
blanks around it. -/
def position? (cs : List Char) : Option (Int × List Char) :=
  let isBlank := fun c : Char => c == ' ' || c == '\t'
  let start := cs.dropWhile isBlank
  let sign := if start.head? = some '-' then ['-'] else []
  let digits := (start.drop sign.length).takeWhile Char.isDigit
  match ((start.drop sign.length).dropWhile Char.isDigit).dropWhile isBlank with
  | ']' :: rest => (Decimal.int64OfChars? (sign ++ digits)).map fun index => (index, rest)
  | _ => none

/-- The steps of a path after its first name. The first argument bounds their number. -/
def steps? : Nat → List Char → Option (List Step)
  | 0, _ => none
  | _, [] => some []
  | bound + 1, '.' :: rest =>
    match rest.takeWhile isNameChar with
    | [] => none
    | name =>
      (steps? bound (rest.dropWhile isNameChar)).map (.name (String.ofList name) :: ·)
  | bound + 1, '[' :: rest =>
    match position? rest with
    | none => none
    | some (index, rest) => (steps? bound rest).map (.position index :: ·)
  | _, _ => none

/-- The path that a key is: its first name and the steps after that. A key that breaks the rules for
paths is a name. -/
def pathOfKey (key : String) : String × List Step :=
  match key.toList.takeWhile isNameChar with
  | [] => (key, [])
  | name =>
    match steps? (key.length + 1) (key.toList.dropWhile isNameChar) with
    | some steps => (String.ofList name, steps)
    | none => (key, [])

/-- Lays a value over what a layer has for a key, which may be a path. -/
def coverKey (layer : Layer) (key : String) (v : SettingValue) : Layer :=
  let path := pathOfKey key
  coverAt layer v path.1 path.2

/-- One layer laid onto another. -/
def onto (below above : Layer) : Layer :=
  above.foldl (fun layer member => layer.coverKey member.1 member.2) below

/-- All layers over each other, the first at the bottom. -/
def merge (layers : List Layer) : Layer :=
  layers.foldl onto []

end Taxonomy.Layer
