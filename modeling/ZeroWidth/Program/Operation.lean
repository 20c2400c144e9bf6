import ZeroWidth.Instruction
import ZeroWidth.Numeral.Decimal
import ZeroWidth.Source.Position

/-!
# Operations

An operation is an instruction with the argument it was written with and the stretch of source it
came from. An argument need not suit its instruction: an operation that carries exactly the kind of
argument its instruction asks for is called well-kinded.
-/

namespace ZeroWidth

abbrev Label := String
abbrev TypeName := String

inductive Argument where
  | number (n : Int64)
  | label (name : Label)
  | type (name : TypeName)
deriving DecidableEq

namespace Argument

def kind : Argument → ArgKind
  | number _ => .number
  | label _  => .label
  | type _   => .type

def text : Argument → String
  | number n   => Decimal.text n
  | label name => name
  | type name  => name

end Argument

structure Operation where
  instruction : Instruction
  argument    : Option Argument
  span        : Span
deriving DecidableEq

namespace Operation

/-- What an operation says, wherever it stands. -/
def content (op : Operation) : Instruction × Option Argument := (op.instruction, op.argument)

def number? (op : Operation) : Option Int64 :=
  match op.argument with
  | some (.number n) => some n
  | _                => none

def label? (op : Operation) : Option Label :=
  match op.argument with
  | some (.label name) => some name
  | _                  => none

def type? (op : Operation) : Option TypeName :=
  match op.argument with
  | some (.type name) => some name
  | _                 => none

/-- The label an operation defines. -/
def definedLabel? (op : Operation) : Option Label :=
  if op.instruction = .label then op.label? else none

/-- The label an operation refers to. -/
def usedLabel? (op : Operation) : Option Label :=
  if op.instruction = .label then none else op.label?

/-- The kind of argument an operation carries. -/
def argKind (op : Operation) : ArgKind := op.argument.elim .nothing Argument.kind

/-- The operation carries the kind of argument its instruction asks for. -/
def WellKinded (op : Operation) : Prop := op.argKind = op.instruction.argKind

instance (op : Operation) : Decidable op.WellKinded :=
  inferInstanceAs (Decidable (op.argKind = op.instruction.argKind))

def text (op : Operation) : String :=
  match op.argument with
  | some argument => op.instruction.name ++ " " ++ argument.text
  | none          => op.instruction.name

end Operation

end ZeroWidth
