/-
The journal: notices in words, those of a chosen level and the more severe ones.
-/
import ClassMachine.Machine.Notice

namespace ClassMachine

/-- How much a line of the journal matters, the most severe first. -/
inductive Level where
  | error
  | warn
  | info
  | debug
  | trace
  deriving DecidableEq

namespace Level

/-- The name of a level in the journal. -/
def name : Level → String
  | error => "ERROR"
  | warn => "WARN"
  | info => "INFO"
  | debug => "DEBUG"
  | trace => "TRACE"

/-- The place of a level, 0 for the most severe. -/
def rank : Level → Nat
  | error => 0
  | warn => 1
  | info => 2
  | debug => 3
  | trace => 4

end Level

namespace Notice

/-- How much a notice matters. -/
def level : Notice → Level
  | trailing .. => .warn
  | registered .. | completed .. => .info
  | fileRead .. | initializing .. | started .. | called .. | returned .. => .debug
  | executed .. => .trace

/-- The notice in words. -/
def message : Notice → String
  | trailing count => Text.decimal count ++ " trailing bytes after class file attributes"
  | registered className => "registered class " ++ className
  | fileRead size path => "read " ++ Text.decimal size ++ " bytes from " ++ path
  | initializing className => "running static initializer of " ++ className
  | started site arguments => "invoking " ++ site.text ++ " with " ++ Text.bracketed arguments
  | called target locals => "invokestatic " ++ target.text ++ " with " ++ Text.bracketed locals
  | executed event =>
    event.className ++ "." ++ event.method ++ " @" ++ Text.decimal event.pc ++ " "
      ++ event.instruction.text ++ " stack " ++ Text.bracketed event.stack.values
  | returned site value => site.text ++ " returned " ++ Text.signed value.toInt
  | completed target value instructions =>
    target.text ++ " returned " ++ Text.signed value.toInt ++ " after " ++ Text.decimal instructions
      ++ " instructions"

end Notice

/-- A line of the journal. -/
def Level.line (level : Level) (message : String) : String :=
  level.name ++ " " ++ message

/-- Lines in order, and the least severe level that is kept. -/
structure Journal where
  threshold : Level
  lines : Array String
  deriving DecidableEq

namespace Journal

/-- The journal without lines. -/
def empty (threshold : Level) : Journal where
  threshold
  lines := #[]

/-- Whether lines of a level are kept. -/
def keeps (journal : Journal) (level : Level) : Bool :=
  level.rank ≤ journal.threshold.rank

/-- Adds a line if its level is kept. -/
def add (journal : Journal) (level : Level) (message : String) : Journal :=
  if journal.keeps level then
    { journal with lines := journal.lines.push (level.line message) }
  else
    journal

/-- Puts every notice that is kept into words. -/
def observer : Observer Journal where
  notify notice journal :=
    if journal.keeps notice.level then journal.add notice.level notice.message else journal

end Journal

end ClassMachine
