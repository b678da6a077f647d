import Taxonomy.Settings.Decode

/-!
# The last value counts

`Layer.given?` says what a layer gives for a setting: what its last member does that gives it, in a
section's table or under a path. If sections are tables and settings scalars (`Layer.orderly`), a
layer laid over others changes what it gives and nothing else (`value?_coverKey`), so of several
layers the last one counts that gives a setting (`value?_merge`).
-/

namespace Taxonomy

/-- Neither an array nor a table. -/
def SettingValue.isScalar : SettingValue → Bool
  | array _ | table _ => false
  | _ => true

theorem Setting.mem_all (x : Setting) : x ∈ all := by
  cases x <;> decide

namespace Layer

/-- What the last element gives that gives anything. -/
def lastGiven {α β : Type} (give : α → Option β) (as : List α) : Option β :=
  (as.filterMap give).getLast?

/-- What a member of a table gives for a key. -/
def memberAt? (key : String) (member : String × SettingValue) : Option SettingValue :=
  if member.1.toLower = key then some member.2 else none

/-- What a member of a layer gives for a setting, as a table with the setting or by its path. -/
def memberGives? (x : Setting) (member : String × SettingValue) : Option SettingValue :=
  let path := pathOfKey member.1
  if path.1.toLower = x.sectionName then
    match path.2 with
    | [] => lastGiven (memberAt? x.key) (membersOf (some member.2))
    | [.name key] => memberAt? x.key (key, member.2)
    | _ => none
  else none

/-- What a layer gives for a setting. -/
def given? (x : Setting) (layer : Layer) : Option SettingValue :=
  lastGiven (memberGives? x) layer

/-- A member of a layer makes no section anything but a table, and a setting nothing but a
scalar. -/
def orderlyMember (x : Setting) (member : String × SettingValue) : Bool :=
  let path := pathOfKey member.1
  path.1.toLower != x.sectionName ||
    match path.2 with
    | [] =>
      match member.2 with
      | .table members => members.all fun m => m.1.toLower != x.key || m.2.isScalar
      | _ => false
    | [.name key] => key.toLower != x.key || member.2.isScalar
    | .name key :: _ => key.toLower != x.key
    | .position _ :: _ => false

/-- Every section that a layer has is a table, and every setting a scalar. -/
def orderly (layer : Layer) : Bool :=
  layer.all fun member => Setting.all.all fun x => orderlyMember x member

/-- All sections are tables. -/
def Tabular (layer : Layer) : Prop :=
  ∀ (x : Setting) (v : SettingValue), layer.lookup x.sectionName = some v →
    ∃ members, v = .table members

/-- What a layer holds for a setting when sections are tables. -/
def value? (layer : Layer) (x : Setting) : Option SettingValue :=
  (membersOf (layer.lookup x.sectionName)).lookup x.key

/-! ## The last of several -/

theorem lastGiven_cons {α β : Type} (give : α → Option β) (a : α) (as : List α) :
    lastGiven give (a :: as) = (lastGiven give as).or (give a) := by
  rw [lastGiven, lastGiven, List.filterMap_cons]
  cases give a with
  | none => simp
  | some b => rw [List.getLast?_cons]; cases (as.filterMap give).getLast? <;> rfl

/-- If each step changes what it gives and nothing else, the last of several steps counts. -/
theorem lastGiven_foldl {α β ι σ : Type} {Inv : σ → Prop} {step : σ → α → σ}
    {look : σ → ι → Option β} {give : ι → α → Option β} {as : List α}
    (each : ∀ a ∈ as, ∀ s, Inv s → Inv (step s a) ∧
      ∀ x, look (step s a) x = (give x a).or (look s x))
    {s : σ} (inv : Inv s) :
    Inv (as.foldl step s) ∧
      ∀ x, look (as.foldl step s) x = (lastGiven (give x) as).or (look s x) := by
  induction as generalizing s with
  | nil => exact ⟨inv, fun _ => rfl⟩
  | cons a as ih =>
    rw [List.forall_mem_cons] at each
    obtain ⟨kept, first⟩ := each.1 s inv
    obtain ⟨kept, later⟩ := ih each.2 kept
    refine ⟨kept, fun x => ?_⟩
    rw [List.foldl_cons, later, first, lastGiven_cons, Option.or_assoc]

/-! ## One value -/

variable {layer : Layer} {key : String} {v : SettingValue}

theorem cover_scalar (scalar : v.isScalar) : cover layer key v = put key v layer := by
  cases v with
  | array => cases scalar
  | table => cases scalar
  | _ => simp [cover]

theorem lookup_cover_of_ne {k : String} (other : k ≠ key) :
    (cover layer key v).lookup k = layer.lookup k := by
  cases v with
  | table members => cases members <;> simp [cover, lookup_put, other]
  | _ => simp [cover, lookup_put, other]

/-- A table laid over a table becomes the members of both, laid over each other. -/
theorem lookup_cover_table {members : List (String × SettingValue)}
    (tabular : ∀ old, layer.lookup key = some old → ∃ ms, old = .table ms) :
    (cover layer key (.table members)).lookup key =
      some (.table (coverAll (membersOf (layer.lookup key)) members)) := by
  cases members with
  | cons member rest => rw [cover, lookup_put, if_pos rfl]
  | nil =>
    rw [cover, lookup_put, if_pos rfl, coverAll]
    cases old : layer.lookup key with
    | none => rfl
    | some v =>
      obtain ⟨ms, rfl⟩ := tabular v old
      rfl

/-- Of the members of a table, the last one of a key counts. -/
theorem lookup_coverAll {members : List (String × SettingValue)}
    (scalars : ∀ m ∈ members, m.1.toLower = key → m.2.isScalar) :
    (coverAll layer members).lookup key =
      (lastGiven (memberAt? key) members).or (layer.lookup key) := by
  induction members generalizing layer with
  | nil => rw [coverAll]; rfl
  | cons m members ih =>
    obtain ⟨k, v⟩ := m
    rw [List.forall_mem_cons] at scalars
    rw [coverAll, ih scalars.2, lastGiven_cons, Option.or_assoc]
    congr 1
    by_cases same : k.toLower = key
    · rw [memberAt?, if_pos same, same, cover_scalar (scalars.1 same), lookup_put, if_pos rfl]
      rfl
    · rw [memberAt?, if_neg same, lookup_cover_of_ne (Ne.symm same)]
      rfl

/-! ## One member of a layer -/

theorem coverAt_nil (name : String) : coverAt layer v name [] = cover layer name.toLower v := rfl

theorem coverAt_cons (name : String) (next : Step) (rest : List Step) :
    coverAt layer v name (next :: rest) =
      put name.toLower (along v next (layer.lookup name.toLower) rest) layer := rfl

theorem lookup_coverAt_of_ne {name k : String} (other : k ≠ name.toLower) (steps : List Step) :
    (coverAt layer v name steps).lookup k = layer.lookup k := by
  cases steps with
  | nil => rw [coverAt_nil, lookup_cover_of_ne other]
  | cons => rw [coverAt_cons, lookup_put, if_neg other]

/-- A member laid over a layer leaves its section a table, in which it changes what it gives for a
setting and nothing else. -/
theorem exists_table_coverKey (tabular : Tabular layer) {x : Setting}
    (orderly : orderlyMember x (key, v)) (same : (pathOfKey key).1.toLower = x.sectionName) :
    ∃ members, (layer.coverKey key v).lookup x.sectionName = some (.table members) ∧
      members.lookup x.key = (memberGives? x (key, v)).or (layer.value? x) := by
  simp only [orderlyMember, same, bne_self_eq_false, Bool.false_or] at orderly
  simp only [coverKey, memberGives?, value?, same, if_true]
  cases steps : (pathOfKey key).2 with
  | nil =>
    rw [steps] at orderly
    cases v with
    | table members =>
      have scalars : ∀ m ∈ members, m.1.toLower = x.key → m.2.isScalar := by
        intro m member named
        simpa [named] using List.all_eq_true.mp orderly m member
      refine ⟨_, ?_, lookup_coverAll scalars⟩
      rw [coverAt_nil, same, lookup_cover_table (tabular x)]
      rfl
    | _ => cases orderly
  | cons step rest =>
    rw [steps] at orderly
    cases step with
    | position => cases orderly
    | name k =>
      rw [coverAt_cons, same, lookup_put, if_pos rfl]
      cases rest with
      | nil =>
        refine ⟨_, rfl, ?_⟩
        change _ = (memberAt? x.key (k, v)).or _
        by_cases named : k.toLower = x.key
        · have scalar : v.isScalar := by simpa [named] using orderly
          rw [memberAt?, if_pos named, cover_scalar scalar, named, lookup_put, if_pos rfl,
            Option.some_or]
        · rw [memberAt?, if_neg named, lookup_cover_of_ne (Ne.symm named), Option.none_or]
      | cons step rest =>
        refine ⟨_, rfl, ?_⟩
        have other : k.toLower ≠ x.key := by simpa using orderly
        rw [lookup_put, if_neg (Ne.symm other), Option.none_or]

/-- A member laid over a layer changes what it gives for a setting and nothing else. -/
theorem value?_coverKey (orderly : ∀ x, orderlyMember x (key, v)) (tabular : Tabular layer) :
    Tabular (layer.coverKey key v) ∧
      ∀ x, (layer.coverKey key v).value? x = (memberGives? x (key, v)).or (layer.value? x) := by
  refine ⟨fun x w found => ?_, fun x => ?_⟩
  · by_cases same : (pathOfKey key).1.toLower = x.sectionName
    · obtain ⟨members, table, -⟩ := exists_table_coverKey tabular (orderly x) same
      exact ⟨members, Option.some.inj (found.symm.trans table)⟩
    · rw [coverKey, lookup_coverAt_of_ne (Ne.symm same)] at found
      exact tabular x w found
  · by_cases same : (pathOfKey key).1.toLower = x.sectionName
    · obtain ⟨members, table, gives⟩ := exists_table_coverKey tabular (orderly x) same
      rw [value?, table]
      exact gives
    · rw [value?, coverKey, lookup_coverAt_of_ne (Ne.symm same), memberGives?, if_neg same]
      rfl

/-! ## Layers -/

theorem value?_onto {above : Layer} (orderly : above.orderly) (tabular : Tabular layer) :
    Tabular (layer.onto above) ∧
      ∀ x, (layer.onto above).value? x = (given? x above).or (layer.value? x) := by
  refine lastGiven_foldl (fun member inside below tabular => ?_) tabular
  refine value?_coverKey (fun x => ?_) tabular
  have own := List.all_eq_true.mp orderly member inside
  exact List.all_eq_true.mp own x x.mem_all

/-- Of several layers, the last one counts that gives a setting. -/
theorem value?_merge {layers : List Layer} (orderly : ∀ layer ∈ layers, layer.orderly) :
    Tabular (merge layers) ∧ ∀ x, (merge layers).value? x = lastGiven (given? x) layers := by
  have empty : Tabular [] := fun x v found => by cases found
  have merged : Tabular (merge layers) ∧
      ∀ x, (merge layers).value? x = (lastGiven (given? x) layers).or (value? [] x) :=
    lastGiven_foldl (fun layer inside below => value?_onto (orderly layer inside)) empty
  exact ⟨merged.1, fun x => (merged.2 x).trans Option.or_none⟩

end Layer

end Taxonomy
