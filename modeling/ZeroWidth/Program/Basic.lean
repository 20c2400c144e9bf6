import ZeroWidth.Program.Fault
import ZeroWidth.Program.Vocabulary

/-!
# Programs

What every reader produces: the operations in order, the vocabulary of their labels and types, and
the faults met on the way. The labels of a program are looked at once it is complete: each may be
defined once, and each that is used has to be defined.
-/

namespace ZeroWidth

structure Program where
  operations : List Operation
  vocabulary : Vocabulary
  errors     : List ParseError
deriving DecidableEq

/-- Labels that some earlier operation, or one that defines a label in `seen`, defines already. -/
def redefinitions : (seen : List Label) → List Operation → List ParseError
  | _,    []        => []
  | seen, op :: ops =>
    match op.definedLabel? with
    | none      => redefinitions seen ops
    | some name =>
      if name ∈ seen then ⟨.duplicatedLabel name, op.span⟩ :: redefinitions seen ops
      else redefinitions (name :: seen) ops

/-- The labels that operations define. -/
def definedLabels (ops : List Operation) : List Label := ops.filterMap Operation.definedLabel?

/-- Uses of labels that are not in `defined`. -/
def danglingUses (defined : List Label) (ops : List Operation) : List ParseError :=
  ops.filterMap fun op =>
    match op.usedLabel? with
    | none      => none
    | some name => if name ∈ defined then none else some ⟨.undefinedLabel name, op.span⟩

/-- What is wrong with the labels of operations: first the definitions, then the uses. -/
def labelErrors (ops : List Operation) : List ParseError :=
  redefinitions [] ops ++ danglingUses (definedLabels ops) ops

namespace Program

/-- A program given by its operations alone. -/
def ofOperations (ops : List Operation) : Program := ⟨ops, Vocabulary.initial, []⟩

/-- A program read from a text, with its labels looked at. -/
def finish (ops : List Operation) (vocabulary : Vocabulary) (errors : List ParseError) : Program :=
  ⟨ops, vocabulary, errors ++ labelErrors ops⟩

def isOk (p : Program) : Bool := p.errors.isEmpty

/-- One `Strict` anywhere makes the whole program strict. -/
def isStrict (p : Program) : Bool := p.operations.any fun op => op.instruction = .strict

/-- Whether two programs say the same, wherever their operations stand. -/
def sameOperations (p q : Program) : Bool :=
  p.operations.map Operation.content = q.operations.map Operation.content

end Program

end ZeroWidth
