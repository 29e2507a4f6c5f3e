/-
Traces of executed instructions. A hook gets an event for each instruction while it is enabled;
two hooks are given here, one that keeps the events and one that writes a line for each. What the
first has kept, written line by line, is what the second writes.
-/
import ClassMachine.Machine.Notice

namespace ClassMachine

/-- The line of an event, indented by its depth, with columns for the place and the instruction. -/
def Event.line (event : Event) : String :=
  Text.blanks (2 * (event.depth - 1)) ++ event.className ++ "." ++ event.method ++ " @"
    ++ Text.padRight 4 (Text.decimal event.pc) ++ " " ++ Text.padRight 20 event.instruction.text
    ++ " stack " ++ Text.bracketed event.stack.values

/-- In the lines of one method at one depth the stacks stand in one column, if the places have four
digits at most and the instructions twenty characters. -/
theorem Event.line_of_fits {event : Event} (hplace : (Text.decimal event.pc).length ≤ 4)
    (hinstruction : event.instruction.text.length ≤ 20) :
    ∃ front, event.line = front ++ " stack " ++ Text.bracketed event.stack.values ∧
      front.length = 2 * (event.depth - 1) + event.className.length + event.method.length + 28 := by
  have hpunctuation : ".".length = 1 ∧ " @".length = 2 ∧ " ".length = 1 := ⟨rfl, rfl, rfl⟩
  refine ⟨_, rfl, ?_⟩
  simp only [String.length_append, Text.length_blanks, Text.length_padRight, Nat.max_eq_left hplace,
    Nat.max_eq_left hinstruction]
  omega

example :
    Event.line {
      className := "A", method := "f", depth := 2, pc := 3
      instruction := ⟨.bipush, .immediate (-5)⟩, stack := .ofValues [7, -5] } =
      "  A.f @3    bipush -5            stack [7, -5]" := by
  decide

/-- The line of an event and the end of the line. -/
def Event.lineText (event : Event) : String :=
  event.line ++ "\n"

/-! ## Hooks -/

/-- Gets the events of a run while it is enabled, and keeps a state of its own. -/
structure Hook (σ : Type) where
  isEnabled : σ → Bool
  record : Event → σ → σ

namespace Hook

/-- The hook as an observer of all notices, of which it takes the events. -/
def observer {σ : Type} (hook : Hook σ) : Observer σ where
  notify notice seen :=
    match notice with
    | .executed event => if hook.isEnabled seen then hook.record event seen else seen
    | _ => seen

/-- The hook that is never enabled. -/
def off {σ : Type} : Hook σ where
  isEnabled _ := false
  record _ seen := seen

end Hook

/-! ## Keeping events -/

/-- The events of a trace in order. -/
structure Recorder where
  events : Array Event
  deriving DecidableEq

namespace Recorder

/-- The trace without events. -/
def empty : Recorder :=
  ⟨#[]⟩

/-- Adds an event at the end. -/
def push (recorder : Recorder) (event : Event) : Recorder :=
  ⟨recorder.events.push event⟩

/-- The instructions of the events, without operands. -/
def opcodes (recorder : Recorder) : List Opcode :=
  recorder.events.toList.map fun event => event.instruction.opcode

/-- The first line of a trace, which states the number of its events. -/
def header (recorder : Recorder) : String :=
  "---- Trace recorded : " ++ Text.decimal recorder.events.size ++ " steps ----\n"

/-- The trace as text: the first line, then a line for each event. -/
def text (recorder : Recorder) : String :=
  recorder.header ++ String.join (recorder.events.toList.map Event.lineText)

/-- The hook that keeps every event. -/
def hook : Hook Recorder where
  isEnabled _ := true
  record event recorder := recorder.push event

end Recorder

/-! ## Writing lines -/

/-- Something text can be written to, which may fail to take it. -/
structure Sink (σ : Type) where
  /-- The state after an attempt to write, and whether the attempt succeeded. -/
  write : String → σ → σ × Bool

namespace Sink

/-- Takes everything. -/
def memory : Sink String where
  write text written := (written ++ text, true)

/-- Takes nothing. -/
def broken {σ : Type} : Sink σ where
  write _ written := (written, false)

/-- The hook that writes a line for each event and goes on if that fails. -/
def hook {σ : Type} (sink : Sink σ) : Hook σ where
  isEnabled _ := true
  record event written := (sink.write event.lineText written).1

end Sink

end ClassMachine
