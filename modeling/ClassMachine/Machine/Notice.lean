/-
What the machine tells while it works. Observers get every notice in order; none of them can
change what the machine does.
-/
import ClassMachine.Machine.Fault
import ClassMachine.Machine.OperandStack

namespace ClassMachine

/-- An instruction that was executed. -/
structure Event where
  className : String
  method : String
  /-- The number of frames, 1 in the method that the run started with. -/
  depth : Nat
  pc : Nat
  instruction : Instruction
  /-- The operand stack of the frame after the instruction. -/
  stack : OperandStack
  deriving DecidableEq

/-- What the machine tells. -/
inductive Notice where
  /-- A class was read with so many bytes left over. -/
  | trailing (count : Nat)
  | registered (className : String)
  | fileRead (size : Nat) (path : String)
  /-- The initializer of a class is about to run. -/
  | initializing (className : String)
  /-- A run starts. -/
  | started (site : Site) (arguments : List Int32)
  /-- A method was called and starts with these locals. -/
  | called (target : MemberRef) (locals : List Int32)
  | executed (event : Event)
  /-- A method is done. -/
  | returned (site : Site) (value : Int32)
  /-- A method that was asked for by name is done. -/
  | completed (target : MemberRef) (value : Int32) (instructions : Nat)
  deriving DecidableEq

/-- Gets notices and keeps a state of its own. -/
structure Observer (σ : Type) where
  notify : Notice → σ → σ

namespace Observer

/-- Pays no attention. -/
def silent {σ : Type} : Observer σ where
  notify _ seen := seen

/-- Two observers side by side. -/
def both {σ τ : Type} (first : Observer σ) (second : Observer τ) : Observer (σ × τ) where
  notify notice seen := (first.notify notice seen.1, second.notify notice seen.2)

/-- Tells several notices in order. -/
def notifyAll {σ : Type} (observer : Observer σ) (notices : List Notice) (seen : σ) : σ :=
  notices.foldl (fun seen notice => observer.notify notice seen) seen

end Observer

end ClassMachine
