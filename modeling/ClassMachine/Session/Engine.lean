/-
What brings runs to their end. The library itself makes runs round by round; whoever uses it
decides how many rounds a run may take and which clock it goes by, and what to do between rounds.
-/
import ClassMachine.Machine.Run

namespace ClassMachine

/-- Brings runs to their end inside `m`, while an observer with state `σ` watches. -/
structure Engine (m : Type → Type) (σ : Type) where
  observer : Observer σ
  finish : Machine → Machine.State → σ → m (Machine.Halt × σ)

namespace Engine

/-- Gives up on a run that is not at its end after `fuel` rounds. -/
def bounded {σ : Type} (observer : Observer σ) (clock : Nat → Nat) (fuel : Nat) :
    Engine Option σ where
  observer
  finish machine state seen :=
    match machine.run observer clock fuel state seen with
    | .finished halt seen => some (halt, seen)
    | .paused _ _ => none

/-- Runs a method with the given values as its first locals. Their number is not compared with the
method's descriptor. -/
def invoke {m : Type → Type} [Monad m] {σ : Type} (engine : Engine m σ) (machine : Machine)
    (classFile : ClassFile) (method : Member) (arguments : List Int32) (seen : σ) :
    m (Machine.Halt × σ) :=
  match Frame.enter classFile method arguments true with
  | .error fault =>
    let failure := (Failure.ofFault fault).locate (.entry (classFile.site method))
    return ({ outcome := .error failure, executed := 0 }, seen)
  | .ok frame =>
    engine.finish machine (.ofEntry frame)
      (engine.observer.notify (.started frame.site arguments) seen)

end Engine

end ClassMachine
