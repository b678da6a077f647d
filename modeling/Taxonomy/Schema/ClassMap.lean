import Taxonomy.Schema.Class

/-!
# Declared classes by name

A `ClassMap` lists declarations in the order in which their names were first inserted, one for each
name. A later declaration of a name takes the place of the earlier one.
-/

namespace Taxonomy

/-- Declarations in order, their names pairwise different. -/
structure ClassMap where
  entries : List ClassDeclaration
  distinct : (entries.map (·.name)).Nodup

namespace ClassMap

/-- Puts a declaration in the place of the one with its name, else at the end, and returns the one
replaced. -/
def put (d : ClassDeclaration) :
    List ClassDeclaration → Option ClassDeclaration × List ClassDeclaration
  | [] => (none, [d])
  | e :: es =>
    if e.name = d.name then (some e, d :: es) else ((put d es).1, e :: (put d es).2)

theorem names_put (d : ClassDeclaration) (es : List ClassDeclaration) :
    (put d es).2.map (·.name) =
      if d.name ∈ es.map (·.name) then es.map (·.name) else es.map (·.name) ++ [d.name] := by
  induction es with
  | nil => simp [put]
  | cons e es ih =>
    by_cases h : e.name = d.name
    · simp [put, h]
    · have h' : d.name ≠ e.name := fun h'' => h h''.symm
      simp only [put, h, if_false, List.map_cons, List.mem_cons, h', false_or, ih]
      split <;> simp

theorem nodup_put (d : ClassDeclaration) {es : List ClassDeclaration}
    (h : (es.map (·.name)).Nodup) : ((put d es).2.map (·.name)).Nodup := by
  rw [names_put]
  split
  · exact h
  · rename_i hd
    rw [List.nodup_append]
    refine ⟨h, by simp, ?_⟩
    intro a ha b hb hab
    simp only [List.mem_singleton] at hb
    exact hd (hb ▸ hab ▸ ha)

def empty : ClassMap :=
  ⟨[], by simp⟩

instance : Inhabited ClassMap := ⟨empty⟩

/-- Inserts a declaration and returns the one that it replaces. -/
def insert (m : ClassMap) (d : ClassDeclaration) : Option ClassDeclaration × ClassMap :=
  ((put d m.entries).1, ⟨(put d m.entries).2, nodup_put d m.distinct⟩)

/-- Inserts all declarations in order. -/
def ofList (ds : List ClassDeclaration) : ClassMap :=
  ds.foldl (fun m d => (m.insert d).2) empty

def get? (m : ClassMap) (name : String) : Option ClassDeclaration :=
  m.entries.find? (·.name == name)

def contains (m : ClassMap) (name : String) : Bool :=
  (m.get? name).isSome

/-- The declared names, in order of first insertion. -/
def names (m : ClassMap) : List String :=
  m.entries.map (·.name)

def size (m : ClassMap) : Nat :=
  m.entries.length

def isEmpty (m : ClassMap) : Bool :=
  m.entries.isEmpty

end ClassMap

end Taxonomy
