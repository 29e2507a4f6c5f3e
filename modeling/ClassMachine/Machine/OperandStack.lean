/-
Operand stacks: values are added and taken at the top. The list of a stack starts with its top,
and its view `values` with its bottom.
-/
namespace ClassMachine

/-- A stack of values, the top one first. -/
structure OperandStack where
  topFirst : List Int32
  deriving DecidableEq

namespace OperandStack

/-- The stack without values. -/
def empty : OperandStack :=
  ⟨[]⟩

/-- The stack that holds the given values, the last on top. -/
def ofValues (values : List Int32) : OperandStack :=
  ⟨values.reverse⟩

/-- The values from the bottom to the top. -/
def values (stack : OperandStack) : List Int32 :=
  stack.topFirst.reverse

/-- Puts a value on top. -/
def push (stack : OperandStack) (value : Int32) : OperandStack :=
  ⟨value :: stack.topFirst⟩

/-- The top value and the stack below it. -/
def pop? : OperandStack → Option (Int32 × OperandStack)
  | ⟨value :: rest⟩ => some (value, ⟨rest⟩)
  | ⟨[]⟩ => none

/-- The topmost `count` values, from the lowest up, and the stack below them. -/
def splitTop? (stack : OperandStack) (count : Nat) : Option (List Int32 × OperandStack) :=
  let taken := stack.topFirst.take count
  if taken.length = count then some (taken.reverse, ⟨stack.topFirst.drop count⟩) else none

/-! ## The values of a stack -/

@[simp] theorem values_empty : empty.values = [] := rfl

@[simp] theorem values_ofValues (values : List Int32) : (ofValues values).values = values := by
  simp [OperandStack.values, ofValues]

@[simp] theorem ofValues_values (stack : OperandStack) : ofValues stack.values = stack := by
  simp [OperandStack.values, ofValues]

@[simp] theorem values_push (stack : OperandStack) (value : Int32) :
    (stack.push value).values = stack.values ++ [value] := by
  simp [values, push]

theorem push_ofValues (values : List Int32) (value : Int32) :
    (ofValues values).push value = ofValues (values ++ [value]) := by
  simp [push, ofValues]

/-- What is popped is the last value. -/
theorem values_of_pop? {stack rest : OperandStack} {value : Int32}
    (h : stack.pop? = some (value, rest)) : stack.values = rest.values ++ [value] := by
  obtain ⟨_ | ⟨top, below⟩⟩ := stack
  · cases h
  · cases h; simp [values]

/-- The topmost values are the last ones, in order. -/
theorem values_of_splitTop? {stack rest : OperandStack} {count : Nat} {taken : List Int32}
    (h : stack.splitTop? count = some (taken, rest)) :
    stack.values = rest.values ++ taken ∧ taken.length = count := by
  simp only [splitTop?] at h
  split at h
  · rename_i hlen
    cases h
    refine ⟨?_, by simpa using hlen⟩
    simp only [values, ← List.reverse_append, List.take_append_drop]
  · cases h

/-- There are fewer values than asked for. -/
theorem splitTop?_eq_none_iff {stack : OperandStack} {count : Nat} :
    stack.splitTop? count = none ↔ stack.values.length < count := by
  simp only [splitTop?, values, List.length_take, List.length_reverse]
  split
  · rename_i hlen
    simp only [reduceCtorEq, false_iff]
    omega
  · rename_i hlen
    simp only [true_iff]
    omega

end OperandStack

end ClassMachine
