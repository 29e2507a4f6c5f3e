/-
The constant pool: a table of slots numbered from 0. Slot 0 never holds a constant, and neither
does the slot after a wide one. Constants are added at the end only.
-/
import ClassMachine.Constant.Tag

namespace ClassMachine

/-- A constant: its kind and its bytes as they stand in the file. -/
structure Constant where
  tag : Tag
  payload : List UInt8
  deriving DecidableEq

/-- A table of constants, some slots of which are empty. -/
structure Pool where
  slots : Array (Option Constant)
  deriving DecidableEq

namespace Pool

/-- The pool that has only the empty slot 0. -/
def empty : Pool :=
  ⟨#[none]⟩

/-- Adds a constant at the end, and an empty slot after a wide one. -/
def push (pool : Pool) (constant : Constant) : Pool :=
  let slots := pool.slots.push (some constant)
  ⟨if constant.tag.isWide then slots.push none else slots⟩

/-- The pool that holds the given constants, added in order. -/
def ofList (constants : List Constant) : Pool :=
  constants.foldl push empty

/-- The number of slots, slot 0 and the other empty ones included. -/
def count (pool : Pool) : Nat :=
  pool.slots.size

/-- The constants and the numbers of their slots, in order. -/
def entries (pool : Pool) : List (UInt16 × Constant) :=
  pool.slots.toList.zipIdx.filterMap fun (slot, index) =>
    slot.map fun constant => (UInt16.ofNat index, constant)

/-- The constants in order. -/
def toList (pool : Pool) : List Constant :=
  pool.slots.toList.filterMap id

/-! ## Slots and constants after adding one -/

@[simp] theorem count_empty : empty.count = 1 := rfl

/-- A wide constant takes two slots, any other one. -/
theorem count_push (pool : Pool) (constant : Constant) :
    (pool.push constant).count = pool.count + if constant.tag.isWide then 2 else 1 := by
  unfold push count
  cases constant.tag.isWide <;> simp

@[simp] theorem toList_empty : empty.toList = [] := rfl

@[simp] theorem toList_push (pool : Pool) (constant : Constant) :
    (pool.push constant).toList = pool.toList ++ [constant] := by
  unfold push toList
  cases constant.tag.isWide <;> simp

end Pool

end ClassMachine
