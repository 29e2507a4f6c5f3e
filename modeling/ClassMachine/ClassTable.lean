/-
The table of known classes, in the order in which they came. A name, once taken, keeps its class.
-/
import ClassMachine.ClassFile.Basic

namespace ClassMachine

/-- Classes by name. -/
structure ClassTable where
  rows : List (String × ClassFile)
  deriving DecidableEq

namespace ClassTable

/-- The table without classes. -/
def empty : ClassTable :=
  ⟨[]⟩

/-- The class of a name, if the name is taken. -/
def find? (table : ClassTable) (name : String) : Option ClassFile :=
  table.rows.lookup name

/-- Whether the name is taken. -/
def contains (table : ClassTable) (name : String) : Bool :=
  (table.find? name).isSome

/-- The table with a class under a new name; `none` if the name is taken. -/
def insertNew? (table : ClassTable) (name : String) (classFile : ClassFile) : Option ClassTable :=
  if table.contains name then none else some ⟨table.rows ++ [(name, classFile)]⟩

/-- The names that are taken, in the order of their characters. -/
def names (table : ClassTable) : List String :=
  (table.rows.map Prod.fst).mergeSort fun a b => decide (a ≤ b)

@[simp] theorem find?_empty (name : String) : empty.find? name = none := rfl

/-- A class that is found is in the table. -/
theorem mem_rows_of_find? {table : ClassTable} {name : String} {classFile : ClassFile}
    (h : table.find? name = some classFile) : (name, classFile) ∈ table.rows := by
  obtain ⟨before, after, hrows, -⟩ := List.lookup_eq_some_iff.1 h
  rw [hrows]
  exact List.mem_append_right _ List.mem_cons_self

/-- A class that is added is found under its name, and nothing else changes. -/
theorem find?_of_insertNew? {table after : ClassTable} {name : String} {classFile : ClassFile}
    (h : table.insertNew? name classFile = some after) (other : String) :
    after.find? other = if other = name then some classFile else table.find? other := by
  simp only [insertNew?] at h
  split at h
  · cases h
  · rename_i hnew
    cases h
    simp only [contains, find?, Option.isSome_iff_ne_none, ne_eq, Decidable.not_not] at hnew ⊢
    rw [List.lookup_append]
    by_cases hname : other = name
    · subst hname; simp [hnew]
    · simp [hname, List.lookup_cons, beq_false_of_ne hname]

end ClassTable

end ClassMachine
