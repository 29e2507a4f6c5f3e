/-
Method descriptors: the argument types in parentheses, then the type of the result. Only `int`
(`I`) is an argument type, and only `int` and `void` (`V`) are result types, so a descriptor is
its number of arguments and whether it yields a value. Any other symbol is refused by its place
in the text; nothing is skipped.
-/
import ClassMachine.Text.Layout

namespace ClassMachine

/-- The type of a result. -/
inductive ResultType where
  | int
  | void
  deriving DecidableEq

/-- The symbol of a result type. -/
def ResultType.symbol : ResultType → Char
  | int => 'I'
  | void => 'V'

/-- The result type a symbol stands for. -/
def ResultType.ofSymbol? : Char → Option ResultType
  | 'I' => some int
  | 'V' => some void
  | _ => none

/-- A method descriptor over `int` arguments. -/
structure Descriptor where
  arity : Nat
  result : ResultType
  deriving DecidableEq

/-- Why a text is no descriptor. -/
inductive DescriptorError where
  /-- The text has not the shape of a descriptor. -/
  | malformed (text : String)
  /-- The symbol that stands `position` bytes into the text is no known type. -/
  | unsupported (text : String) (symbol : Char) (position : Nat)
  deriving DecidableEq

/-- The error in words. -/
def DescriptorError.message : DescriptorError → String
  | malformed text => "malformed method descriptor `" ++ text ++ "`"
  | unsupported text symbol position =>
    "unsupported symbol `" ++ String.singleton symbol ++ "` at position " ++ Text.decimal position
      ++ " in descriptor `" ++ text ++ "`"

namespace Descriptor

/-- Whether a call leaves a value on the caller's stack. -/
def returnsValue (descriptor : Descriptor) : Bool :=
  descriptor.result != .void

/-- The descriptor as written in a class file. -/
def text (descriptor : Descriptor) : String :=
  String.ofList ('(' :: List.replicate descriptor.arity 'I' ++ [')', descriptor.result.symbol])

/-- The number of bytes that characters take in UTF-8. -/
def byteLength : List Char → Nat
  | [] => 0
  | c :: rest => c.utf8Size + byteLength rest

/-- Splits a text at its first closing parenthesis: what stands between the opening one and it,
the character after it and the rest, neither of which may be a line break. -/
def split? : List Char → Option (List Char × Char × List Char)
  | '(' :: rest =>
    match rest.dropWhile (· != ')') with
    | _ :: symbol :: after =>
      if (symbol :: after).contains '\n' then none
      else some (rest.takeWhile (· != ')'), symbol, after)
    | _ => none
  | _ => none

/-- Reads a descriptor. Of several faults the shape is reported first, then the first symbol
that is no argument type, then the symbol of the result, then symbols after it. -/
def parse (text : String) : Except DescriptorError Descriptor :=
  match split? text.toList with
  | none => .error (.malformed text)
  | some (arguments, symbol, after) =>
    match arguments.dropWhile (· == 'I') with
    | stranger :: _ =>
      .error (.unsupported text stranger (1 + byteLength (arguments.takeWhile (· == 'I'))))
    | [] =>
      match ResultType.ofSymbol? symbol with
      | none => .error (.unsupported text symbol (2 + byteLength arguments))
      | some result =>
        if after.isEmpty then .ok { arity := arguments.length, result }
        else .error (.malformed text)

end Descriptor

end ClassMachine
