import Taxonomy.Proofs.Settings.Precedence

/-!
# A variable and an entry of a file

A variable gives a setting that is a text as an entry of the file does that is asked for
(`load_variable`). The entry is not always the text of the variable itself: that is read as a switch
or a number first, and what it is read as is written anew (`Environment.textOf`), so that `007`
stands for `7`.

Both ways, the layers come to hold one value for the setting, and for all else what they hold
without it (`Layer.Sets`). What is laid over them after that keeps it so, if it avoids the setting.
-/

namespace Taxonomy

/-! ## Telling values apart -/

namespace SettingValue

mutual

def same : SettingValue → SettingValue → Bool
  | nothing, nothing => true
  | bool a, bool b => a == b
  | integer a, integer b => a == b
  | real a, real b => a == b
  | text a, text b => a == b
  | array as, array bs => sameItems as bs
  | table as, table bs => sameMembers as bs
  | _, _ => false

def sameItems : List SettingValue → List SettingValue → Bool
  | [], [] => true
  | a :: as, b :: bs => same a b && sameItems as bs
  | _, _ => false

def sameMembers : List (String × SettingValue) → List (String × SettingValue) → Bool
  | [], [] => true
  | (k, a) :: as, (l, b) :: bs => k == l && same a b && sameMembers as bs
  | _, _ => false

end

mutual

theorem same_iff : ∀ a b : SettingValue, same a b ↔ a = b
  | nothing, b | bool _, b | integer _, b | real _, b | text _, b => by cases b <;> simp [same]
  | array as, b => by cases b <;> simp [same, sameItems_iff as]
  | table as, b => by cases b <;> simp [same, sameMembers_iff as]

theorem sameItems_iff : ∀ as bs : List SettingValue, sameItems as bs ↔ as = bs
  | [], bs => by cases bs <;> simp [sameItems]
  | a :: as, bs => by cases bs <;> simp [sameItems, same_iff a, sameItems_iff as]

theorem sameMembers_iff : ∀ as bs : List (String × SettingValue), sameMembers as bs ↔ as = bs
  | [], bs => by cases bs <;> simp [sameMembers]
  | (k, a) :: as, bs => by
    cases bs with
    | nil => simp [sameMembers]
    | cons b bs => simp [sameMembers, same_iff a, sameMembers_iff as, Prod.ext_iff]

end

instance : DecidableEq SettingValue :=
  fun a b => decidable_of_iff _ (same_iff a b)

end SettingValue

/-! ## What a variable stands for -/

namespace Environment

/-- The text that a setting has from the text of a variable. -/
def textOf (s : String) : String :=
  if s.toLower = "true" then "true"
  else if s.toLower = "false" then "false"
  else
    match Decimal.int64OfChars? s.toList, Decimal.ofChars? s.toList with
    | some i, _ => toString i
    | none, some x => x.render
    | none, none => s

/-- The text is read as a switch or a number. -/
def IsRead (s : String) : Prop :=
  s.toLower = "true" ∨ s.toLower = "false" ∨ (Decimal.int64OfChars? s.toList).isSome ∨
    (Decimal.ofChars? s.toList).isSome

instance (s : String) : Decidable (IsRead s) :=
  inferInstanceAs (Decidable (_ ∨ _))

theorem textOf_eq_self {s : String} (plain : ¬ IsRead s) : textOf s = s := by
  simp only [IsRead, not_or, Option.not_isSome_iff_eq_none] at plain
  rw [textOf, if_neg plain.1, if_neg plain.2.1, plain.2.2.1, plain.2.2.2]

theorem asText?_ofText (s : String) : (SettingValue.ofText s).asText? = some (textOf s) := by
  rw [SettingValue.ofText, textOf]
  split
  · rfl
  · split
    · rfl
    · cases Decimal.int64OfChars? s.toList with
      | some i => rfl
      | none => cases Decimal.ofChars? s.toList <;> rfl

end Environment

namespace Layer

/-! ## One value more -/

/-- What a value makes of the one that it is laid over. -/
def covered (old : Option SettingValue) : SettingValue → SettingValue
  | .table [] => old.getD (.table [])
  | .table (member :: rest) => .table (coverAll (membersOf old) (member :: rest))
  | v => v

/-- What a value makes of an old one if it is laid at the end of some steps from there. -/
def reached (v : SettingValue) (old : Option SettingValue) : List Step → SettingValue
  | [] => covered old v
  | next :: rest => along v next old rest

theorem cover_eq_put (layer : Layer) (key : String) (v : SettingValue) :
    cover layer key v = put key (covered (layer.lookup key) v) layer := by
  cases v with
  | table members => cases members <;> simp [cover, covered]
  | _ => simp [cover, covered]

/-- A member laid over a layer changes what one key of the layer has. -/
theorem coverKey_eq_put (layer : Layer) (key : String) (v : SettingValue) :
    layer.coverKey key v = put (pathOfKey key).1.toLower
      (reached v (layer.lookup (pathOfKey key).1.toLower) (pathOfKey key).2) layer := by
  rw [coverKey]
  cases (pathOfKey key).2 with
  | nil => rw [coverAt_nil, cover_eq_put, reached]
  | cons next rest => rw [coverAt_cons, reached]

theorem membersOf_covered (old : Option SettingValue) (members : List (String × SettingValue)) :
    membersOf (some (covered old (.table members))) = coverAll (membersOf old) members := by
  cases members with
  | nil => cases old <;> rfl
  | cons => rfl

theorem covered_table (old members : List (String × SettingValue)) :
    covered (some (.table old)) (.table members) = .table (coverAll old members) := by
  cases members with
  | nil => rw [coverAll]; rfl
  | cons => rfl

theorem coverAll_append (layer : Layer) (ms ns : List (String × SettingValue)) :
    coverAll layer (ms ++ ns) = coverAll (coverAll layer ms) ns := by
  induction ms generalizing layer with
  | nil => rw [coverAll]; rfl
  | cons m ms ih => rw [List.cons_append, coverAll, ih, coverAll]

/-- The second table has the value for the key, and for other keys what the first one has. -/
structure SetsKey (key : String) (v : SettingValue) (below above : Layer) : Prop where
  value : above.lookup key = some v
  others : ∀ k, k ≠ key → above.lookup k = below.lookup k

section

variable {key k : String} {v w : SettingValue} {below above : Layer}

theorem setsKey_put : SetsKey key v below (put key v below) where
  value := by rw [lookup_put, if_pos rfl]
  others := fun k other => by rw [lookup_put, if_neg other]

theorem SetsKey.put (sets : SetsKey key v below above) (other : k ≠ key) :
    SetsKey key v (put k w below) (put k w above) where
  value := by rw [lookup_put, if_neg (Ne.symm other), sets.value]
  others := fun l different => by rw [lookup_put, lookup_put, sets.others l different]

theorem SetsKey.cover (sets : SetsKey key v below above) (other : k ≠ key) :
    SetsKey key v (cover below k w) (cover above k w) := by
  rw [cover_eq_put, cover_eq_put, sets.others k other]
  exact sets.put other

theorem SetsKey.coverAll (sets : SetsKey key v below above) {ms : List (String × SettingValue)}
    (others : ∀ m ∈ ms, m.1.toLower ≠ key) :
    SetsKey key v (coverAll below ms) (coverAll above ms) := by
  induction ms generalizing below above with
  | nil => rwa [Layer.coverAll, Layer.coverAll]
  | cons m ms ih =>
    rw [List.forall_mem_cons] at others
    rw [Layer.coverAll, Layer.coverAll]
    exact ih (sets.cover others.1) others.2

end

/-- The second layer is the first one with a value for a setting. -/
structure Sets (x : Setting) (v : SettingValue) (below above : Layer) : Prop where
  others : ∀ k, k ≠ x.sectionName → above.lookup k = below.lookup k
  members : ∃ members, above.lookup x.sectionName = some (.table members) ∧
    SetsKey x.key v (membersOf (below.lookup x.sectionName)) members

/-- A member of a layer neither gives a setting nor takes the place of its section. -/
def avoids (x : Setting) (member : String × SettingValue) : Bool :=
  let path := pathOfKey member.1
  path.1.toLower != x.sectionName ||
    match path.2 with
    | [] =>
      match member.2 with
      | .table members => members.all fun m => m.1.toLower != x.key
      | _ => false
    | .name key :: _ => key.toLower != x.key
    | .position _ :: _ => false

section

variable {x : Setting} {v w : SettingValue} {below above : Layer} {key : String}

theorem exists_reached {old : Option SettingValue} {members : Layer}
    (sets : SetsKey x.key v (membersOf old) members) (avoids : avoids x (key, w))
    (same : (pathOfKey key).1.toLower = x.sectionName) :
    ∃ ms, reached w (some (.table members)) (pathOfKey key).2 = .table ms ∧
      SetsKey x.key v (membersOf (some (reached w old (pathOfKey key).2))) ms := by
  simp only [Layer.avoids, same, bne_self_eq_false, Bool.false_or] at avoids
  cases steps : (pathOfKey key).2 with
  | nil =>
    rw [steps] at avoids
    cases w with
    | table ms =>
      refine ⟨_, covered_table members ms, ?_⟩
      rw [reached, membersOf_covered]
      exact sets.coverAll fun m member => by simpa using List.all_eq_true.mp avoids m member
    | _ => cases avoids
  | cons step rest =>
    rw [steps] at avoids
    cases step with
    | position => cases avoids
    | name k =>
      have other : k.toLower ≠ x.key := by simpa using avoids
      cases rest with
      | nil => exact ⟨_, rfl, sets.cover other⟩
      | cons next rest =>
        refine ⟨_, rfl, ?_⟩
        change SetsKey x.key v (put k.toLower (along w next ((membersOf old).lookup k.toLower) rest)
          (membersOf old)) _
        rw [← sets.others _ other]
        exact sets.put other

/-- A member that avoids the setting keeps two layers apart in it alone. -/
theorem Sets.coverKey (sets : Sets x v below above) (avoids : avoids x (key, w)) :
    Sets x v (below.coverKey key w) (above.coverKey key w) := by
  obtain ⟨members, table, inside⟩ := sets.members
  rw [coverKey_eq_put, coverKey_eq_put]
  by_cases same : (pathOfKey key).1.toLower = x.sectionName
  · obtain ⟨ms, becomes, kept⟩ := exists_reached inside avoids same
    rw [same, table, becomes]
    constructor
    · intro k other
      rw [lookup_put, lookup_put, if_neg other, if_neg other, sets.others k other]
    · refine ⟨ms, ?_, ?_⟩
      · rw [lookup_put, if_pos rfl]
      · rw [lookup_put, if_pos rfl]
        exact kept
  · constructor
    · intro k other
      rw [lookup_put, lookup_put, sets.others _ same, sets.others k other]
    · refine ⟨members, ?_, ?_⟩
      · rw [lookup_put, if_neg (Ne.symm same), table]
      · rw [lookup_put, if_neg (Ne.symm same)]
        exact inside

/-- So does a layer of which all members do. -/
theorem Sets.onto (sets : Sets x v below above) {layer : Layer}
    (avoid : ∀ member ∈ layer, avoids x member) :
    Sets x v (below.onto layer) (above.onto layer) := by
  induction layer generalizing below above with
  | nil => exact sets
  | cons member layer ih =>
    rw [List.forall_mem_cons] at avoid
    exact ih (sets.coverKey avoid.1) avoid.2

/-! ## Both ways to give a value -/

/-- A scalar laid at the path of a setting sets it. -/
theorem sets_coverKey_path (scalar : v.isScalar) : Sets x v below (below.coverKey x.path v) := by
  have section_ : x.sectionName.toLower = x.sectionName := by cases x <;> decide +kernel
  have key : x.key.toLower = x.key := by cases x <;> decide +kernel
  rw [coverKey_eq_put, Settings.pathOfKey_path, section_, reached]
  constructor
  · intro k other
    rw [lookup_put, if_neg other]
  · refine ⟨_, by rw [lookup_put, if_pos rfl]; rfl, ?_⟩
    rw [key, cover_scalar scalar]
    exact setsKey_put

end

/-- The second table is the first one with a value entered for a key, in the place of all that was
entered for it from there on. -/
def EntersKey (key : String) (v : SettingValue) (ms ns : List (String × SettingValue)) : Prop :=
  ∃ front old name back, ms = front ++ (old ++ back) ∧ ns = front ++ (name, v) :: back ∧
    name.toLower = key ∧ (∀ m ∈ old, m.1.toLower = key) ∧
      ∀ m ∈ back, m.1.toLower ≠ key

/-- A key is the name of a setting's section. -/
def NamesSection (x : Setting) (name : String) : Prop :=
  (pathOfKey name).1.toLower = x.sectionName ∧ (pathOfKey name).2 = []

/-- The second layer is the first one with a value entered for a setting, in the section's table or
in a new table, after which all else avoids the setting. -/
inductive Enters (x : Setting) (v : SettingValue) : Layer → Layer → Prop
  | entry {front back : Layer} {name : String} {ms ns : List (String × SettingValue)} :
    NamesSection x name → EntersKey x.key v ms ns → (∀ member ∈ back, avoids x member) →
    Enters x v (front ++ (name, .table ms) :: back) (front ++ (name, .table ns) :: back)
  | table {front back : Layer} {name key : String} :
    NamesSection x name → key.toLower = x.key → (∀ member ∈ back, avoids x member) →
    Enters x v (front ++ back) (front ++ (name, .table [(key, v)]) :: back)

section

variable {x : Setting} {v : SettingValue} {below : Layer} {key : String}
  {ms ns : List (String × SettingValue)}

theorem lookup_coverAll_of_ne {k : String} (others : ∀ m ∈ ms, m.1.toLower ≠ k) :
    (coverAll below ms).lookup k = below.lookup k := by
  induction ms generalizing below with
  | nil => rw [coverAll]
  | cons m ms ih =>
    rw [List.forall_mem_cons] at others
    rw [coverAll, ih others.2, lookup_cover_of_ne (Ne.symm others.1)]

theorem EntersKey.setsKey (enters : EntersKey key v ms ns) (scalar : v.isScalar) (below : Layer) :
    SetsKey key v (coverAll below ms) (coverAll below ns) := by
  obtain ⟨front, old, name, back, rfl, rfl, rfl, own, others⟩ := enters
  rw [coverAll_append, coverAll_append, coverAll_append, coverAll, cover_scalar scalar]
  refine SetsKey.coverAll ⟨?_, ?_⟩ others
  · rw [lookup_put, if_pos rfl]
  · intro k other
    rw [lookup_put, if_neg other]
    exact (lookup_coverAll_of_ne fun m member => own m member ▸ Ne.symm other).symm

theorem EntersKey.ne_nil (enters : EntersKey key v ms ns) : ns ≠ [] := by
  obtain ⟨front, old, name, back, -, rfl, -⟩ := enters
  simp

/-- A section's table with a value entered sets it, compared with one in which it is not. -/
theorem sets_coverKey_table {without : Layer} {name : String} (names : NamesSection x name)
    (enters : EntersKey x.key v ms ns) (scalar : v.isScalar)
    (others : ∀ k, k ≠ x.sectionName → without.lookup k = below.lookup k)
    (members : membersOf (without.lookup x.sectionName) =
      coverAll (membersOf (below.lookup x.sectionName)) ms) :
    Sets x v without (below.coverKey name (.table ns)) := by
  rw [coverKey_eq_put, names.1, names.2, reached]
  constructor
  · intro k other
    rw [lookup_put, if_neg other, others k other]
  · refine ⟨coverAll (membersOf (below.lookup x.sectionName)) ns, ?_, ?_⟩
    · obtain ⟨m, rest, rfl⟩ := List.exists_cons_of_ne_nil enters.ne_nil
      rw [lookup_put, if_pos rfl, covered]
    · rw [members]
      exact enters.setsKey scalar _

theorem onto_append (layer a b : Layer) : layer.onto (a ++ b) = (layer.onto a).onto b :=
  List.foldl_append

theorem onto_cons (layer : Layer) (member : String × SettingValue) (rest : Layer) :
    layer.onto (member :: rest) = (layer.coverKey member.1 member.2).onto rest := rfl

/-- A layer in which a value is entered sets it, laid over the same. -/
theorem Enters.sets {layer layer' : Layer} (enters : Enters x v layer layer') (scalar : v.isScalar)
    (below : Layer) : Sets x v (below.onto layer) (below.onto layer') := by
  cases enters with
  | @entry front back name ms ns names enters avoid =>
    rw [onto_append, onto_append, onto_cons, onto_cons]
    refine (sets_coverKey_table names enters scalar ?_ ?_).onto avoid
    · intro k other
      rw [coverKey_eq_put, lookup_put, names.1, if_neg other]
    · rw [coverKey_eq_put, lookup_put, names.1, names.2, if_pos rfl, reached, membersOf_covered]
  | @table front back name key names same avoid =>
    rw [onto_append, onto_append, onto_cons]
    have enters : EntersKey x.key v [] [(key, v)] :=
      ⟨[], [], key, [], rfl, rfl, same, by simp, by simp⟩
    refine (sets_coverKey_table names enters scalar ?_ ?_).onto avoid
    · exact fun k _ => rfl
    · rw [coverAll]

end

end Layer

/-! ## Settings that are texts -/

namespace Setting

def isText : Setting → Bool
  | inputPath | outputDir | treeFile | searchFile => true
  | layout | includeProperties | strict | cycles => false

theorem eq_of_same {x y : Setting} (table : x.sectionName = y.sectionName) (key : x.key = y.key) :
    x = y := by
  revert table key
  cases x <;> cases y <;> decide

end Setting

namespace Settings

open FileSystem (disk)

/-- What a setting is that is a text. -/
def text? (t : Settings) : Setting → Option String
  | .inputPath => some t.inputPath.text
  | .outputDir => some t.outputDir.text
  | .treeFile => some t.treeFile
  | .searchFile => some t.searchFile
  | .layout | .includeProperties | .strict | .cycles => none

/-- The settings with another text for one of those that are texts. -/
def setText (t : Settings) (r : String) : Setting → Settings
  | .inputPath => { t with inputPath := ⟨r⟩ }
  | .outputDir => { t with outputDir := ⟨r⟩ }
  | .treeFile => { t with treeFile := r }
  | .searchFile => { t with searchFile := r }
  | .layout | .includeProperties | .strict | .cycles => t

section

variable {x y : Setting} {r s : String} {t : Settings}

theorem value_setText_of_ne (other : y ≠ x) : (t.setText r x).value y = t.value y := by
  cases x <;> cases y <;> first | rfl | exact absurd rfl other

theorem coerce_text (isText : x.isText) : x.coerce (.text r) = some ((t.setText r x).value x) := by
  cases x <;> first | rfl | cases isText

theorem text?_of_coerce (isText : x.isText) (same : x.coerce (.text r) = some (t.value x)) :
    t.text? x = some r := by
  cases x with
  | inputPath | outputDir => exact congrArg (some ∘ Path.text) (Option.some.inj same).symm
  | treeFile | searchFile => exact same.symm
  | _ => cases isText

theorem coerce_ofText (isText : x.isText) :
    x.coerce (.ofText s) = x.coerce (.text (Environment.textOf s)) := by
  have same := Environment.asText?_ofText s
  cases x with
  | inputPath | outputDir => exact congrArg (Option.map Path.mk) same
  | treeFile | searchFile => exact same
  | _ => cases isText

end

section

variable {x : Setting} {v w : SettingValue} {below above above' : Layer}

/-- A layer with a value for a setting gives it. -/
theorem valueOf?_self_of_sets (sets : Layer.Sets x v below above) :
    valueOf? above x = .ok (some v) := by
  obtain ⟨members, table, inside⟩ := sets.members
  rw [valueOf?, table]
  exact congrArg Except.ok inside.value

/-- For other settings it gives what the layer without the value does, but that the section is a
table. -/
theorem valueOf?_of_sets {y : Setting} (other : y ≠ x) (sets : Layer.Sets x v below above) :
    valueOf? above y =
      if y.sectionName = x.sectionName then .ok (below.value? y) else valueOf? below y := by
  by_cases table : y.sectionName = x.sectionName
  · have key : y.key ≠ x.key := fun same => other (Setting.eq_of_same table same)
    obtain ⟨members, found, inside⟩ := sets.members
    rw [if_pos table, valueOf?, Layer.value?, table, found]
    exact congrArg Except.ok (inside.others _ key)
  · rw [if_neg table, valueOf?, valueOf?, sets.others _ table]

/-- The settings that each is decoded on its own, or the first error. -/
def gather (decoded : (y : Setting) → Except SettingsError y.Value) :
    Except SettingsError Settings := do
  let inputPath ← decoded .inputPath
  let outputDir ← decoded .outputDir
  let treeFile ← decoded .treeFile
  let searchFile ← decoded .searchFile
  let layout ← decoded .layout
  let includeProperties ← decoded .includeProperties
  let strict ← decoded .strict
  let cycles ← decoded .cycles
  return { inputPath, outputDir, treeFile, searchFile, layout, includeProperties, strict, cycles }

theorem ofLayer_eq_gather (layer : Layer) :
    ofLayer layer = gather fun y => get layer y y.default y.coerce := rfl

/-- Layers with values for the same setting that it is coerced from alike decode to the same. -/
theorem ofLayer_eq_of_sets (sets : Layer.Sets x v below above) (sets' : Layer.Sets x w below above')
    (same : x.coerce v = x.coerce w) : ofLayer above = ofLayer above' := by
  rw [ofLayer_eq_gather, ofLayer_eq_gather]
  refine congrArg gather (funext fun y => ?_)
  by_cases own : y = x
  · subst own
    rw [get, get, valueOf?_self_of_sets sets, valueOf?_self_of_sets sets']
    simp only [same]
  · rw [get, get, valueOf?_of_sets own sets, valueOf?_of_sets own sets']

/-- If sections are tables without the value too, it changes the setting and nothing else. -/
theorem ofLayer_of_sets {r : String} {t : Settings} (sets : Layer.Sets x v below above)
    (tabular : below.Tabular) (coerced : x.coerce v = some ((t.setText r x).value x))
    (decoded : ofLayer below = .ok t) : ofLayer above = .ok (t.setText r x) := by
  rw [ofLayer_eq_ok_iff] at decoded ⊢
  intro y
  by_cases own : y = x
  · subst own
    rw [get, valueOf?_self_of_sets sets]
    simp only [coerced]
  · rw [value_setText_of_ne own, ← decoded y, get, get, valueOf?_of_sets own sets,
      ← valueOf?_of_tabular tabular, ite_self]

/-- A setting that is a text is the one that the layer has for it. -/
theorem text?_of_sets {r : String} {t : Settings} (isText : x.isText)
    (sets : Layer.Sets x (.text r) below above) (decoded : ofLayer above = .ok t) :
    t.text? x = some r := by
  have own := ofLayer_eq_ok_iff.mp decoded x
  rw [get, valueOf?_self_of_sets sets] at own
  refine text?_of_coerce isText ?_
  cases coerced : x.coerce (.text r) <;> simp_all

end

/-! ## Loading -/

/-- What the file gives that is asked for, if there is one. -/
def askedLayer (fs : FileSystem) (custom : Option Path) : Layer :=
  custom.elim [] (fileLayer fs)

/-- The files that are looked for are documents, and so is the one that is asked for, which is
there. -/
structure Readable (fs : FileSystem) (env : Environment) (custom : Option Path) : Prop where
  defaults : ∀ p ∈ defaultFiles env fs, Accepts fs p
  asked : ∀ p ∈ custom, ((requiredLayer disk p).run fs).1.isOk

/-- The files of the second system are those of the first, with a text entered for a setting in the
one that is asked for, which may be new. -/
structure Entered (x : Setting) (r : String) (env : Environment) (fs : FileSystem)
    (custom : Option Path) (fs' : FileSystem) (p : Path) : Prop where
  readable : Readable fs env custom
  readable' : Readable fs' env (some p)
  others : defaultLayers fs' env = defaultLayers fs env
  entry : Layer.Enters x (.text r) (askedLayer fs custom) (fileLayer fs' p)

theorem merge_sources (fs : FileSystem) (env : Environment) (custom : Option Path) :
    Layer.merge (sources fs env custom) =
      ((Layer.merge (defaultLayers fs env)).onto (askedLayer fs custom)).onto env.layer := by
  rw [sources, Layer.merge, List.foldl_append, List.foldl_append, Layer.merge]
  cases custom <;> rfl

theorem load_of_readable {fs : FileSystem} {env : Environment} {custom : Option Path}
    (readable : Readable fs env custom) :
    ((load disk env custom).run fs).1 = ofLayer (Layer.merge (sources fs env custom)) :=
  congrArg Prod.fst
    (run_load readable.defaults fun p asked => exists_gives (readable.asked p asked))

section

variable {x : Setting} {name s : String} {front back : Environment}

theorem lookup_of_ne {key : String} (other : name ≠ key) :
    (front ++ (name, s) :: back).lookup key = (front ++ back).lookup key := by
  have different : (key == name) = false := by simp [Ne.symm other]
  rw [List.lookup_append, List.lookup_append, List.lookup_cons, different]

/-- A variable for a setting does not tell where the user's own files are. -/
theorem userPath?_of_named (named : Environment.keyOf? name = some x.path) :
    userPath? (front ++ (name, s) :: back) = userPath? (front ++ back) := by
  have home : name ≠ "HOME" := by
    rintro rfl
    have none : Environment.keyOf? "HOME" = none := by decide +kernel
    cases none.symm.trans named
  have config : name ≠ "XDG_CONFIG_HOME" := by
    rintro rfl
    have none : Environment.keyOf? "XDG_CONFIG_HOME" = none := by decide +kernel
    cases none.symm.trans named
  rw [userPath?, userPath?, lookup_of_ne home, lookup_of_ne config]

theorem layer_of_named (named : Environment.keyOf? name = some x.path) :
    Environment.layer (front ++ (name, s) :: back) =
      Environment.layer front ++ (x.path, SettingValue.ofText s) :: Environment.layer back := by
  simp [Environment.layer, named]

theorem readable_of_named {fs : FileSystem} {custom : Option Path}
    (named : Environment.keyOf? name = some x.path)
    (readable : Readable fs (front ++ back) custom) :
    Readable fs (front ++ (name, s) :: back) custom := by
  refine ⟨?_, readable.asked⟩
  rw [defaultFiles, userPath?_of_named named]
  exact readable.defaults

/-- The variable sets its setting, compared with the other sources. -/
theorem sets_of_named {fs : FileSystem} {custom : Option Path}
    (named : Environment.keyOf? name = some x.path)
    (avoid : ∀ member ∈ Environment.layer (front ++ back), Layer.avoids x member) :
    Layer.Sets x (.ofText s) (Layer.merge (sources fs (front ++ back) custom))
      (Layer.merge (sources fs (front ++ (name, s) :: back) custom)) := by
  have split : Environment.layer (front ++ back) = front.layer ++ back.layer :=
    List.filterMap_append
  have same : defaultLayers fs (front ++ (name, s) :: back) = defaultLayers fs (front ++ back) := by
    rw [defaultLayers, defaultLayers, userPath?_of_named named]
  rw [split, List.forall_mem_append] at avoid
  rw [merge_sources, merge_sources, same, layer_of_named named, split, Layer.onto_append,
    Layer.onto_append, Layer.onto_cons]
  exact (Layer.sets_coverKey_path (isScalar_ofText s)).onto avoid.2

/-- So does the entry in the file that is asked for. -/
theorem Entered.sets {r : String} {env : Environment} {fs fs' : FileSystem} {custom : Option Path}
    {p : Path} (entered : Entered x r env fs custom fs' p)
    (avoid : ∀ member ∈ env.layer, Layer.avoids x member) :
    Layer.Sets x (.text r) (Layer.merge (sources fs env custom))
      (Layer.merge (sources fs' env (some p))) := by
  rw [merge_sources, merge_sources, entered.others]
  exact (entered.entry.sets rfl _).onto avoid

/-- A variable for a setting that is a text gives what an entry of the file gives that is asked for,
with what the variable's text is read as written anew if it is read as a switch or a number. The
setting is that text. If loading gives settings without the variable, it gives the same with it but
for this setting. -/
theorem load_variable {fs fs' : FileSystem} {custom : Option Path} {p : Path} (isText : x.isText)
    (named : Environment.keyOf? name = some x.path)
    (avoid : ∀ member ∈ Environment.layer (front ++ back), Layer.avoids x member)
    (entered : Entered x (Environment.textOf s) (front ++ back) fs custom fs' p) :
    let result := ((load disk (front ++ (name, s) :: back) custom).run fs).1
    result = ((load disk (front ++ back) (some p)).run fs').1 ∧
    (∀ t, result = .ok t → t.text? x = some (Environment.textOf s)) ∧
    (¬ Environment.IsRead s → Environment.textOf s = s) ∧
    (Usable fs (front ++ back) custom →
      ∀ t, ((load disk (front ++ back) custom).run fs).1 = .ok t →
      result = .ok (t.setText (Environment.textOf s) x)) := by
  intro result
  have sets : Layer.Sets x (.ofText s) (Layer.merge (sources fs (front ++ back) custom))
      (Layer.merge (sources fs (front ++ (name, s) :: back) custom)) := sets_of_named named avoid
  have sets' := entered.sets avoid
  have same := coerce_ofText (s := s) isText
  have loaded : result = ofLayer (Layer.merge (sources fs (front ++ (name, s) :: back) custom)) :=
    load_of_readable (readable_of_named named entered.readable)
  have equal : result = ((load disk (front ++ back) (some p)).run fs').1 := by
    rw [loaded, load_of_readable entered.readable']
    exact ofLayer_eq_of_sets sets sets' same
  refine ⟨equal, ?_, Environment.textOf_eq_self, ?_⟩
  · intro t decoded
    rw [equal, load_of_readable entered.readable'] at decoded
    exact text?_of_sets isText sets' decoded
  · intro usable t decoded
    rw [load_of_readable entered.readable] at decoded
    rw [loaded]
    have tabular := (Layer.value?_merge (orderly_sources usable)).1
    exact ofLayer_of_sets sets tabular (same.trans (coerce_text isText)) decoded

end

/-! ## Where the user has no files -/

/-- The files in the working directory are documents with some layers, and so is the one that is
asked for, if there is one. -/
structure Holds (fs : FileSystem) (custom : Option Path) (layers : List Layer) (asked : Layer) :
    Prop where
  accepts : ∀ p ∈ localFiles, Accepts fs p
  isOk : ∀ p ∈ custom, ((requiredLayer disk p).run fs).1.isOk
  layers : localFiles.map (fileLayer fs) = layers
  asked : askedLayer fs custom = asked

section

variable {fs fs' : FileSystem} {custom : Option Path} {layers : List Layer} {asked asked' : Layer}
  {env : Environment}

theorem Holds.readable (holds : Holds fs custom layers asked) (none : userPath? env = none) :
    Readable fs env custom := by
  refine ⟨?_, holds.isOk⟩
  rw [defaultFiles, none]
  exact holds.accepts

theorem Holds.defaultLayers_eq (holds : Holds fs custom layers asked)
    (none : userPath? env = none) : defaultLayers fs env = layers := by
  rw [defaultLayers, none, ← holds.layers]
  exact List.append_nil _

theorem Holds.load (holds : Holds fs custom layers asked) (none : userPath? env = none) :
    ((load disk env custom).run fs).1 =
      ofLayer (((Layer.merge layers).onto asked).onto env.layer) := by
  rw [load_of_readable (holds.readable none), merge_sources,
    holds.defaultLayers_eq none, holds.asked]

theorem Holds.usable (holds : Holds fs custom layers asked) (none : userPath? env = none)
    (orderly : ∀ layer ∈ asked :: layers, layer.orderly)
    (named : ∀ entry ∈ env, ∀ key ∈ Environment.keyOf? entry.1,
      ∃ x : Setting, key = x.path) :
    Usable fs env custom := by
  refine ⟨(holds.readable none).defaults, holds.isOk, ?_, named⟩
  rw [← holds.layers, ← holds.asked, List.forall_mem_cons, List.forall_mem_map] at orderly
  rw [defaultFiles, none, List.forall_mem_append]
  refine ⟨orderly.2, ?_⟩
  cases custom with
  | none => simp
  | some p => exact List.forall_mem_singleton.mpr orderly.1

theorem Holds.entered (holds : Holds fs custom layers asked) {p : Path}
    (holds' : Holds fs' (some p) layers asked') (none : userPath? env = none)
    {x : Setting} {r : String} (enters : Layer.Enters x (.text r) asked asked') :
    Entered x r env fs custom fs' p where
  readable := holds.readable none
  readable' := holds'.readable none
  others := (holds'.defaultLayers_eq none).trans (holds.defaultLayers_eq none).symm
  entry := by
    have own : fileLayer fs' p = asked' := holds'.asked
    rwa [holds.asked, own]

end

/-- A working directory with all files that are looked for there, of which one gives something, and
one to ask for. -/
def besides (custom : String) : FileSystem where
  nodes := [(["work"], .directory), (["config", "work"], .directory),
    (["schema-tree.toml", "work"], .file "[output]\ndir = \"low\"\ntree_file = \"low\"\n".toUTF8),
    ([".schema-tree.toml", "work"], .file "".toUTF8),
    (["schema-tree.toml", "config", "work"], .file "".toUTF8),
    (["c.toml", "work"], .file custom.toUTF8)]
  start := ["work"]

/-- A number with a digit too many, over a file that has another text for the setting, and a new
table. -/
theorem load_variable_besides :
    let env : Environment := [("SCHEMA_TREE__TREE__CYCLES", "Omit")]
    let fs := besides "[parse]\nstrict = true\n"
    let fs' := besides "[Output]\nTree_File = \"1.5\"\n\n[parse]\nstrict = true\n"
    let custom : Path := ⟨"c.toml"⟩
    let result :=
      ((load disk (("schema_tree__Output__tree_file", "1.50") :: env) (some custom)).run fs).1
    let given : Settings :=
      { outputDir := ⟨"low"⟩, treeFile := "1.5", strict := true, cycles := .omit }
    Entered .treeFile "1.5" env fs (some custom) fs' custom ∧
      result = ((load disk env (some custom)).run fs').1 ∧ result = .ok given ∧
      given.text? .treeFile = some "1.5" := by
  intro env fs fs' custom result given
  have other : Environment.keyOf? "SCHEMA_TREE__TREE__CYCLES" = some Setting.cycles.path := by
    decide +kernel
  have named : Environment.keyOf? "schema_tree__Output__tree_file" =
      some Setting.treeFile.path := by
    decide +kernel
  have written : Environment.textOf "1.50" = "1.5" := by decide +kernel
  have home : userPath? env = none := by decide +kernel
  have holds : Holds fs (some custom)
      [[("output", .table [("dir", .text "low"), ("tree_file", .text "low")])], [], []]
      [("parse", .table [("strict", .bool true)])] :=
    ⟨by decide +kernel, by decide +kernel, by decide +kernel, by decide +kernel⟩
  have holds' : Holds fs' (some custom)
      [[("output", .table [("dir", .text "low"), ("tree_file", .text "low")])], [], []]
      [("Output", .table [("Tree_File", .text "1.5")]),
        ("parse", .table [("strict", .bool true)])] :=
    ⟨by decide +kernel, by decide +kernel, by decide +kernel, by decide +kernel⟩
  have entered : Entered .treeFile "1.5" env fs (some custom) fs' custom := by
    refine holds.entered holds' home ?_
    exact @Layer.Enters.table _ _ [] _ _ _ ⟨by decide +kernel, by decide +kernel⟩
      (by decide +kernel) (by decide +kernel)
  have usable : Usable fs env (some custom) := by
    refine holds.usable home (by decide +kernel) ?_
    rw [List.forall_mem_singleton, other]
    rintro _ ⟨⟩
    exact ⟨.cycles, rfl⟩
  have before : ((load disk env (some custom)).run fs).1 =
      .ok { given with treeFile := "low" } := by
    rw [holds.load home]
    decide +kernel
  have avoid : ∀ member ∈ Environment.layer ([] ++ env), Layer.avoids .treeFile member := by
    decide +kernel
  obtain ⟨equal, own, -, changed⟩ := load_variable rfl named avoid (written ▸ entered)
  rw [written] at own changed
  have after := changed usable _ before
  exact ⟨entered, equal, after, own _ after⟩

/-- A variable does not give what an entry with its text does if the text is read as a number that
is written otherwise: the file of the name `007` is named `7`. -/
theorem load_variable_fails :
    let fs := besides "[output]\ntree_file = \"007\"\n"
    Entered .treeFile "007" [] fs none fs ⟨"c.toml"⟩ ∧
      ((load disk [("SCHEMA_TREE__OUTPUT__TREE_FILE", "007")] none).run fs).1 =
        .ok { outputDir := ⟨"low"⟩, treeFile := "7" } ∧
      ((load disk [] (some ⟨"c.toml"⟩)).run fs).1 =
        .ok { outputDir := ⟨"low"⟩, treeFile := "007" } := by
  intro fs
  have alone : Holds fs none
      [[("output", .table [("dir", .text "low"), ("tree_file", .text "low")])], [], []] [] :=
    ⟨by decide +kernel, by simp, by decide +kernel, rfl⟩
  have asked : Holds fs (some ⟨"c.toml"⟩)
      [[("output", .table [("dir", .text "low"), ("tree_file", .text "low")])], [], []]
      [("output", .table [("tree_file", .text "007")])] :=
    ⟨alone.accepts, by decide +kernel, alone.layers, by decide +kernel⟩
  refine ⟨alone.entered asked rfl ?_, ?_, ?_⟩
  · exact @Layer.Enters.table _ _ [] [] _ _ ⟨by decide +kernel, by decide +kernel⟩
      (by decide +kernel) (by simp)
  · rw [alone.load rfl]
    decide +kernel
  · rw [asked.load rfl]
    decide +kernel

end Settings

end Taxonomy
