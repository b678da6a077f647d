import Taxonomy.Proofs.Toml.Document
import Taxonomy.Settings.Decode
import Taxonomy.Settings.Format
import Taxonomy.Settings.Save

/-!
# The layer of saved settings

What is written for settings is a layer that has all of them (`layer?_toToml`), and laid over any
other layer it wins for each (`ofLayer_onto`).
-/

namespace Taxonomy

open SettingValue

/-- What a scalar gives. -/
def Toml.Scalar.value : Toml.Scalar → SettingValue
  | .text s => .text s
  | .switch b => .bool b

/-- What a table of scalars gives. -/
def Toml.Section.layer (s : Toml.Section) : Layer :=
  s.entries.map fun entry => (entry.1, entry.2.value)

/-- What tables give together. -/
def Toml.layerOf (sections : List Toml.Section) : Layer :=
  sections.map fun s => (s.name, .table s.layer)

mutual

/-- No table in a value has the key. -/
def Toml.lacks (key : String) : Toml → Bool
  | .array items => allLack key items
  | .table members => membersLack key members
  | _ => true

def Toml.allLack (key : String) : List Toml → Bool
  | [] => true
  | v :: rest => v.lacks key && allLack key rest

def Toml.membersLack (key : String) : List (String × Toml) → Bool
  | [] => true
  | (k, v) :: rest => k != key && v.lacks key && membersLack key rest

end

/-- Nothing in a text is in upper case. -/
def InLowerCase (s : String) : Prop :=
  ∀ c ∈ s.toList, c.toLower = c

instance (s : String) : Decidable (InLowerCase s) :=
  List.decidableBAll (fun c : Char => c.toLower = c) s.toList

theorem InLowerCase.toLower_eq {s : String} (lower : InLowerCase s) : s.toLower = s := by
  have same : s.toList.map Char.toLower = s.toList :=
    (List.map_congr_left lower).trans (List.map_id' _)
  exact String.toList_inj.mp (String.toList_map.trans same)

/-! ## From the document -/

namespace SettingValue

theorem ofToml?_scalar (value : Toml.Scalar) : ofToml? value.toToml = some value.value := by
  cases value <;> rfl

/-- A table becomes what its members do, if its first key does not make it a date. -/
theorem ofToml?_table {members : List (String × Toml)}
    (undated : ∀ member ∈ members, member.1 ≠ dateKey) :
    ofToml? (.table members) = (layerOfToml? members).map table := by
  cases members with
  | nil => rfl
  | cons member rest =>
    obtain ⟨key, v⟩ := member
    rw [ofToml?, if_neg (undated _ List.mem_cons_self), layerOfToml?]
    cases ofToml? v <;> cases layerOfToml? rest <;> rfl

mutual

/-- A value that names no date has a value among settings. -/
theorem isSome_ofToml? : ∀ v : Toml, v.lacks dateKey = true → (ofToml? v).isSome = true
  | .string _, _ | .integer _, _ | .float _, _ | .boolean _, _ | .datetime _, _ => rfl
  | .array items, undated => by
    rw [ofToml?, Option.isSome_map]
    exact isSome_allOfToml? items undated
  | .table [], _ => rfl
  | .table ((key, v) :: rest), undated => by
    rw [Toml.lacks, Toml.membersLack, Bool.and_eq_true, Bool.and_eq_true, bne_iff_ne] at undated
    obtain ⟨first, value⟩ := Option.isSome_iff_exists.mp (isSome_ofToml? v undated.1.2)
    obtain ⟨layer, others⟩ := Option.isSome_iff_exists.mp (isSome_layerOfToml? rest undated.2)
    rw [ofToml?, if_neg undated.1.1, value, others]
    rfl

theorem isSome_allOfToml? : ∀ items : List Toml, Toml.allLack dateKey items = true →
    (allOfToml? items).isSome = true
  | [], _ => rfl
  | v :: rest, undated => by
    rw [Toml.allLack, Bool.and_eq_true] at undated
    obtain ⟨first, value⟩ := Option.isSome_iff_exists.mp (isSome_ofToml? v undated.1)
    obtain ⟨values, others⟩ := Option.isSome_iff_exists.mp (isSome_allOfToml? rest undated.2)
    rw [allOfToml?, value, others]
    rfl

theorem isSome_layerOfToml? : ∀ members : List (String × Toml),
    Toml.membersLack dateKey members = true → (layerOfToml? members).isSome = true
  | [], _ => rfl
  | (key, v) :: rest, undated => by
    rw [Toml.membersLack, Bool.and_eq_true, Bool.and_eq_true] at undated
    obtain ⟨first, value⟩ := Option.isSome_iff_exists.mp (isSome_ofToml? v undated.1.2)
    obtain ⟨layer, others⟩ := Option.isSome_iff_exists.mp (isSome_layerOfToml? rest undated.2)
    rw [layerOfToml?, value, others]
    rfl

end

theorem ne_of_membersLack {key : String} : ∀ {members : List (String × Toml)},
    Toml.membersLack key members = true → ∀ member ∈ members, member.1 ≠ key
  | [], _ => by simp
  | (k, v) :: rest, lack => by
    rw [Toml.membersLack, Bool.and_eq_true, Bool.and_eq_true, bne_iff_ne] at lack
    exact List.forall_mem_cons.mpr ⟨lack.1.1, ne_of_membersLack lack.2⟩

/-- A document without the key that is kept for dates gives a layer, whatever else it says. -/
theorem isSome_layer?_toml {text : String} {members : List (String × Toml)}
    (document : Toml.ofText? text = some members)
    (undated : Toml.membersLack dateKey members = true) :
    (FileFormat.toml.layer? text).isSome = true := by
  obtain ⟨layer, given⟩ := Option.isSome_iff_exists.mp (isSome_layerOfToml? members undated)
  rw [FileFormat.layer?, FileFormat.value?, document, Option.bind_some,
    ofToml?_table (ne_of_membersLack undated), given]
  rfl

theorem layerOfToml?_map {α : Type} (name : α → String) {encode : α → Toml}
    {value : α → SettingValue} {as : List α}
    (each : ∀ a ∈ as, ofToml? (encode a) = some (value a)) :
    layerOfToml? (as.map fun a => (name a, encode a)) =
      some (as.map fun a => (name a, value a)) := by
  induction as with
  | nil => rfl
  | cons a as ih =>
    rw [List.forall_mem_cons] at each
    rw [List.map_cons, layerOfToml?, each.1, ih each.2]
    rfl

/-- The tables of a document become the layer that they give, if none is a date. -/
theorem ofToml?_sections {sections : List Toml.Section}
    (undated : ∀ s ∈ sections, s.name ≠ dateKey ∧
      ∀ entry ∈ s.entries, entry.1 ≠ dateKey) :
    ofToml? (.table (sections.map Toml.Section.toToml)) = some (table (Toml.layerOf sections)) := by
  have members {α : Type} {as : List α} {name : α → String} {encode : α → Toml}
      (ne : ∀ a ∈ as, name a ≠ dateKey) :
      ∀ member ∈ as.map fun a => (name a, encode a), member.1 ≠ dateKey := by
    intro member inside
    obtain ⟨a, own, rfl⟩ := List.mem_map.mp inside
    exact ne a own
  have each (s : Toml.Section) (inside : s ∈ sections) :
      ofToml? (.table (s.entries.map fun entry => (entry.1, entry.2.toToml))) =
        some (.table s.layer) := by
    rw [ofToml?_table (members (undated s inside).2),
      layerOfToml?_map _ fun entry _ => ofToml?_scalar entry.2]
    rfl
  change ofToml? (.table (sections.map fun s => (s.name, _))) = _
  rw [ofToml?_table (members fun s inside => (undated s inside).1), layerOfToml?_map _ each]
  rfl

end SettingValue

/-! ## Laid over another layer -/

namespace Layer

variable {α : Type} (name : α → String) (value : Option SettingValue → α → SettingValue)

/-- Gives some keys their values, each of which may depend on what its key had. -/
def putAll (layer : Layer) (as : List α) : Layer :=
  as.foldl (fun layer a => put (name a) (value (layer.lookup (name a)) a) layer) layer

theorem lookup_putAll_of_not_mem {as : List α} {key : String} (other : key ∉ as.map name) :
    ∀ layer : Layer, (putAll name value layer as).lookup key = layer.lookup key := by
  induction as with
  | nil => exact fun _ => rfl
  | cons a as ih =>
    intro layer
    rw [List.map_cons, List.mem_cons, not_or] at other
    refine (ih other.2 _).trans ?_
    rw [lookup_put, if_neg other.1]

/-- Keys that differ do not get in each other's way. -/
theorem lookup_putAll {as : List α} (distinct : (as.map name).Nodup) {a : α} (member : a ∈ as) :
    ∀ layer : Layer, (putAll name value layer as).lookup (name a) =
      some (value (layer.lookup (name a)) a) := by
  induction as with
  | nil => cases member
  | cons b as ih =>
    intro layer
    rw [List.map_cons, List.nodup_cons] at distinct
    rcases List.mem_cons.mp member with rfl | later
    · refine (lookup_putAll_of_not_mem name value distinct.1 _).trans ?_
      rw [lookup_put, if_pos rfl]
    · have other : name a ≠ name b := fun same => distinct.1 (same ▸ List.mem_map_of_mem later)
      refine (ih distinct.2 later _).trans ?_
      rw [lookup_put, if_neg other]

/-- A key that is neither a path nor in upper case. -/
def IsName (key : String) : Prop :=
  pathOfKey key = (key, []) ∧ InLowerCase key

instance (key : String) : Decidable (IsName key) :=
  inferInstanceAs (Decidable (_ ∧ _))

theorem coverAll_scalars {entries : List (String × Toml.Scalar)}
    (names : ∀ entry ∈ entries, IsName entry.1) : ∀ layer : Layer,
      coverAll layer (entries.map fun entry => (entry.1, entry.2.value)) =
        putAll Prod.fst (fun _ entry => entry.2.value) layer entries := by
  induction entries with
  | nil => exact fun _ => rfl
  | cons entry entries ih =>
    intro layer
    rw [List.forall_mem_cons] at names
    rw [List.map_cons, coverAll, names.1.2.toLower_eq, ih names.2]
    obtain ⟨key, scalar⟩ := entry
    cases scalar <;> rfl

theorem coverKey_table {layer : Layer} {key : String} (isName : IsName key)
    {members : List (String × SettingValue)} (filled : members ≠ []) :
    layer.coverKey key (.table members) =
      put key (.table (coverAll (membersOf (layer.lookup key)) members)) layer := by
  obtain ⟨member, rest, rfl⟩ := List.exists_cons_of_ne_nil filled
  rw [coverKey, isName.1]
  change cover layer key.toLower _ = _
  rw [isName.2.toLower_eq, cover]

/-- The tables of a document laid over a layer, one after the other. -/
theorem onto_layerOf {sections : List Toml.Section}
    (names : ∀ s ∈ sections, IsName s.name ∧ s.entries ≠ []) : ∀ layer : Layer,
      layer.onto (Toml.layerOf sections) =
        putAll Toml.Section.name (fun old s => .table (coverAll (membersOf old) s.layer))
          layer sections := by
  induction sections with
  | nil => exact fun _ => rfl
  | cons s sections ih =>
    intro layer
    rw [List.forall_mem_cons] at names
    have filled : s.layer ≠ [] := fun none => names.1.2 (List.map_eq_nil_iff.mp none)
    have later := ih names.2 (layer.coverKey s.name (.table s.layer))
    rw [coverKey_table names.1.1 filled] at later
    refine Eq.trans ?_ later
    rw [← coverKey_table names.1.1 filled]
    rfl

/-- Each entry of a document wins over what another layer has. -/
theorem exists_lookup_onto {sections : List Toml.Section}
    (names : ∀ s ∈ sections, (IsName s.name ∧ s.entries ≠ []) ∧
      ∀ entry ∈ s.entries, IsName entry.1)
    (distinct : (sections.map Toml.Section.name).Nodup)
    (keys : ∀ s ∈ sections, (s.entries.map Prod.fst).Nodup) (layer : Layer) {s : Toml.Section}
    (member : s ∈ sections) :
    ∃ members, (layer.onto (Toml.layerOf sections)).lookup s.name = some (.table members) ∧
      ∀ entry ∈ s.entries, members.lookup entry.1 = some entry.2.value := by
  rw [onto_layerOf fun s inside => (names s inside).1, lookup_putAll _ _ distinct member]
  refine ⟨_, rfl, fun entry inside => ?_⟩
  rw [Toml.Section.layer, coverAll_scalars (names s member).2,
    lookup_putAll _ _ (keys s member) inside]

end Layer

/-! ## Settings -/

namespace Settings

theorem mem_sections (setting : Setting) : setting.sectionName ∈ Setting.sections := by
  cases setting <;> decide

theorem mem_ofSection (setting : Setting) : setting ∈ Setting.ofSection setting.sectionName := by
  cases setting <;> decide

/-- A name that needs no quotes, makes no date of its table and is no path. -/
def IsPlainName (key : String) : Prop :=
  Toml.IsBare key ∧ key ≠ dateKey ∧ Layer.IsName key

instance (key : String) : Decidable (IsPlainName key) :=
  inferInstanceAs (Decidable (_ ∧ _ ∧ _))

theorem nodup_sections : Setting.sections.Nodup := by
  decide

theorem isPlainName_key (setting : Setting) : IsPlainName setting.key := by
  cases setting <;> decide

/-- Every section has settings, and their keys differ. -/
theorem names_sections : ∀ name ∈ Setting.sections, IsPlainName name ∧
    Setting.ofSection name ≠ [] ∧ ((Setting.ofSection name).map Setting.key).Nodup := by
  decide

/-- The table of a section as it is written. -/
def sectionOf (s : Settings) (name : String) : Toml.Section where
  name := name
  entries := (Setting.ofSection name).map fun setting => (setting.key, s.scalar setting)

theorem toSections_eq (s : Settings) : s.toSections = Setting.sections.map s.sectionOf := rfl

theorem map_name_toSections (s : Settings) :
    s.toSections.map Toml.Section.name = Setting.sections := by
  rw [toSections_eq, List.map_map]
  exact List.map_id _

theorem map_key_sectionOf (s : Settings) (name : String) :
    (s.sectionOf name).entries.map Prod.fst = (Setting.ofSection name).map Setting.key := by
  rw [sectionOf, List.map_map]
  rfl

/-- What is written has a name for each section and each key, and they differ. -/
theorem names_toSections (s : Settings) : ∀ written ∈ s.toSections,
    IsPlainName written.name ∧ (∀ entry ∈ written.entries, IsPlainName entry.1) ∧
    written.entries ≠ [] ∧ (written.entries.map Prod.fst).Nodup := by
  rw [toSections_eq, List.forall_mem_map]
  intro name member
  obtain ⟨plain, filled, distinct⟩ := names_sections name member
  refine ⟨plain, ?_, fun none => filled (List.map_eq_nil_iff.mp none), ?_⟩
  · rw [sectionOf, List.forall_mem_map]
    exact fun setting _ => isPlainName_key setting
  · rwa [map_key_sectionOf]

/-- The layer that is read from the text of settings. -/
theorem layer?_toToml (s : Settings) :
    FileFormat.toml.layer? s.toToml = some (Toml.layerOf s.toSections) := by
  have names := s.names_toSections
  have document := Toml.ofText?_documentText
    (fun written member => ⟨(names written member).1.1,
      fun entry own => ((names written member).2.1 entry own).1⟩)
    (s.map_name_toSections ▸ nodup_sections) fun written member => (names written member).2.2.2
  have tables := ofToml?_sections fun written member =>
    ⟨(names written member).1.2.1, fun entry own => ((names written member).2.1 entry own).2.1⟩
  rw [FileFormat.layer?, FileFormat.value?, toToml, document, Option.bind_some, tables]
  rfl

/-- The layer of settings gives all of them, whatever it is laid over. -/
theorem valueOf?_onto (s : Settings) (below : Layer) (setting : Setting) :
    valueOf? (below.onto (Toml.layerOf s.toSections)) setting =
      .ok (some (s.scalar setting).value) := by
  have names := s.names_toSections
  have written : s.sectionOf setting.sectionName ∈ s.toSections :=
    List.mem_map_of_mem (mem_sections setting)
  obtain ⟨members, found, gives⟩ := Layer.exists_lookup_onto
    (fun written member => ⟨⟨(names written member).1.2.2, (names written member).2.2.1⟩,
      fun entry own => ((names written member).2.1 entry own).2.2⟩)
    (s.map_name_toSections ▸ nodup_sections) (fun written member => (names written member).2.2.2)
    below written
  have table : (below.onto (Toml.layerOf s.toSections)).lookup setting.sectionName =
      some (.table members) := found
  rw [valueOf?, table]
  change Except.ok (members.lookup setting.key) = _
  rw [gives (setting.key, s.scalar setting) (List.mem_map_of_mem (mem_ofSection setting))]

/-- Settings are what their layer gives, whatever it is laid over. -/
theorem ofLayer_onto (s : Settings) (below : Layer) :
    ofLayer (below.onto (Toml.layerOf s.toSections)) = .ok s := by
  have got {α : Type} (setting : Setting) (decode : SettingValue → Option α) (a default : α)
      (decoded : decode (s.scalar setting).value = some a) :
      get (below.onto (Toml.layerOf s.toSections)) setting default decode = .ok a := by
    rw [get, s.valueOf?_onto below setting]
    dsimp only
    rw [decoded]
  have layout : asChoice? Layout.ofName? (.text s.layout.name) = some s.layout := by
    have lower : InLowerCase s.layout.name := by cases s.layout <;> decide
    rw [asChoice?, lower.toLower_eq]
    cases s.layout <;> rfl
  have cycles : asChoice? CycleHandling.ofName? (.text s.cycles.name) = some s.cycles := by
    have lower : InLowerCase s.cycles.name := by cases s.cycles <;> decide
    rw [asChoice?, lower.toLower_eq]
    cases s.cycles <;> rfl
  rw [ofLayer, got .inputPath asPath? s.inputPath _ rfl, got .outputDir asPath? s.outputDir _ rfl,
    got .treeFile asText? s.treeFile _ rfl, got .searchFile asText? s.searchFile _ rfl,
    got .layout _ s.layout _ layout, got .includeProperties asBool? s.includeProperties _ rfl,
    got .strict asBool? s.strict _ rfl, got .cycles _ s.cycles _ cycles]
  rfl

end Settings

end Taxonomy
