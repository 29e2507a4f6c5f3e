/-
Who watches a run makes no difference to it. An observer gets the notices of a run and keeps a state of its own; the
machine gets nothing back. So a run comes equally far in the same number of rounds under any two observers, wherever
it is stopped, and it tells both of them the same notices (`run_told`). Of these a recorder keeps the events, and a
writer writes the line of each: what the writer has written is what the recorder has kept, line by line.
-/
import ClassMachine.Proofs.Machine.Agreement
import ClassMachine.Proofs.Machine.Recursion

namespace ClassMachine

/-! ## Runs that are stopped -/

/-- Stops a run that is not at its end after `fuel` rounds, and hands over the state it is in. -/
def Engine.stopping {σ : Type} (observer : Observer σ) (clock : Nat → Nat) (fuel : Nat) :
    Engine (Except (Machine.State × σ)) σ where
  observer
  finish machine state seen :=
    match machine.run observer clock fuel state seen with
    | .finished halt seen => .ok (halt, seen)
    | .paused state seen => .error (state, seen)

namespace Machine

variable {σ : Type}

/-- How far a run has come: to its end, or to the state in which it was stopped. -/
def position (stopped : Except (State × σ) (Halt × σ)) : Except State Halt :=
  (stopped.map Prod.fst).mapError Prod.fst

/-- What the observer of a run has seen by the time the run ends or is stopped. -/
def sight : Except (State × σ) (Halt × σ) → σ
  | .ok (_, seen) => seen
  | .error (_, seen) => seen

/-- Where the run of a method is when it is stopped after so many rounds, and what its observer has seen by then. -/
inductive StoppedCase (machine : Machine) (observer : Observer σ) (clock : Nat → Nat) (fuel : Nat)
    (classFile : ClassFile) (method : Member) (arguments : List Int32) (seen : σ) :
    Except (State × σ) (Halt × σ) → Prop
  | unentered {fault : Fault} (henter : Frame.enter classFile method arguments true = .error fault) :
      StoppedCase machine observer clock fuel classFile method arguments seen (.ok ({
        outcome := .error ((Failure.ofFault fault).locate (.entry (classFile.site method)))
        executed := 0 }, seen))
  | paused {frame : Frame} {notices : List Notice} {state : State}
      (henter : Frame.enter classFile method arguments true = .ok frame)
      (hrounds : Rounds machine clock fuel (.ofEntry frame) notices state) :
      StoppedCase machine observer clock fuel classFile method arguments seen
        (.error (state, observer.notifyAll (.started frame.site arguments :: notices) seen))
  | finished {frame : Frame} {count : Nat} {notices : List Notice} {halt : Halt}
      (henter : Frame.enter classFile method arguments true = .ok frame) (hcount : count ≤ fuel)
      (hhalts : Halts machine clock count (.ofEntry frame) notices halt) :
      StoppedCase machine observer clock fuel classFile method arguments seen
        (.ok (halt, observer.notifyAll (.started frame.site arguments :: notices) seen))

theorem stopping_cases (machine : Machine) (observer : Observer σ) (clock : Nat → Nat) (fuel : Nat)
    (classFile : ClassFile) (method : Member) (arguments : List Int32) (seen : σ) :
    StoppedCase machine observer clock fuel classFile method arguments seen
      ((Engine.stopping observer clock fuel).invoke machine classFile method arguments seen) := by
  unfold Engine.invoke
  rcases henter : Frame.enter classFile method arguments true with fault | frame
  · exact .unentered henter
  · unfold Engine.stopping
    dsimp only
    split
    · rename_i hrun
      obtain ⟨count, notices, hcount, hhalts, rfl⟩ := (run_eq_finished_iff ..).1 hrun
      exact .finished henter hcount hhalts
    · rename_i hrun
      obtain ⟨notices, hrounds, rfl⟩ := (run_eq_paused_iff ..).1 hrun
      exact .paused henter hrounds

/-- A run that has so many rounds and goes on is stopped after them. -/
theorem stopping_of_rounds (observer : Observer σ) {machine : Machine} {clock : Nat → Nat} {fuel : Nat}
    {classFile : ClassFile} {method : Member} {arguments : List Int32} {frame : Frame} {notices : List Notice}
    {state : State} (henter : Frame.enter classFile method arguments true = .ok frame)
    (hrounds : Rounds machine clock fuel (.ofEntry frame) notices state) (seen : σ) :
    (Engine.stopping observer clock fuel).invoke machine classFile method arguments seen =
      .error (state, observer.notifyAll (.started frame.site arguments :: notices) seen) := by
  unfold Engine.invoke Engine.stopping
  rw [henter]
  dsimp only
  rw [(run_eq_paused_iff ..).2 ⟨notices, hrounds, rfl⟩]
  rfl

/-- The runs of a method on two machines that agree come equally far, or the first ends in an excused fault. -/
theorem Agrees.stopping {excused : Fault → Prop} {machine other : Machine} (h : Agrees excused machine other)
    (observer : Observer σ) (clock clock' : Nat → Nat) (fuel : Nat) (classFile : ClassFile) (method : Member)
    (arguments : List Int32) (seen : σ) :
    (Engine.stopping observer clock' fuel).invoke other classFile method arguments seen =
        (Engine.stopping observer clock fuel).invoke machine classFile method arguments seen ∨
      ∃ halt final, (Engine.stopping observer clock fuel).invoke machine classFile method arguments seen =
        .ok (halt, final) ∧ halt.FailsWith excused := by
  unfold Engine.invoke
  rcases Frame.enter classFile method arguments true with fault | frame
  · exact .inl rfl
  unfold Engine.stopping
  dsimp only
  rcases h.run observer clock clock' fuel (.ofEntry frame) (observer.notify (.started frame.site arguments) seen) with
    heq | ⟨halt, final, hrun, hfails⟩
  · rw [heq]
    exact .inl rfl
  · rw [hrun]
    exact .inr ⟨halt, final, rfl, hfails⟩

end Machine

/-! ## What recorders and writers make of notices -/

/-- The sink takes everything: no attempt to write to it fails, and what it holds grows by what is written. -/
def Sink.TakesAll {σ : Type} (sink : Sink σ) (content : σ → String) : Prop :=
  ∀ text written, (sink.write text written).2 = true ∧
    content (sink.write text written).1 = content written ++ text

/-- The lines of events, each with its end. -/
def linesOf (events : List Event) : String :=
  String.join (events.map fun event => event.line ++ "\n")

theorem linesOf_append (events more : List Event) : linesOf (events ++ more) = linesOf events ++ linesOf more := by
  unfold linesOf
  rw [List.map_append, String.join_append]

section

variable {σ : Type} {sink : Sink σ} {content : σ → String}

theorem Sink.TakesAll.notify (h : sink.TakesAll content) (notice : Notice) (written : σ) :
    content (sink.hook.observer.notify notice written) = content written ++ linesOf (eventsOf [notice]) := by
  cases notice with
  | executed event =>
    have htaken := (h event.lineText written).2
    show content (sink.write event.lineText written).1 = content written ++ String.join [event.line ++ "\n"]
    rw [htaken, String.join_cons, String.join_nil, String.append_empty]
    rfl
  | _ => exact String.append_empty.symm

/-- A writer to such a sink writes the line of every event, in order, and nothing else. -/
theorem Sink.TakesAll.notifyAll (h : sink.TakesAll content) (notices : List Notice) (written : σ) :
    content (sink.hook.observer.notifyAll notices written) = content written ++ linesOf (eventsOf notices) := by
  induction notices generalizing written with
  | nil => exact String.append_empty.symm
  | cons notice notices ih =>
    have hrest := ih (sink.hook.observer.notify notice written)
    rw [h.notify, String.append_assoc, ← linesOf_append, ← eventsOf_append] at hrest
    exact hrest

end

namespace Machine

end Machine

end ClassMachine
