import ZeroWidth.Program.Basic
import ZeroWidth.Spelled.Scan

/-!
# Reading a spelled program

Labels and types come as codes, and the vocabulary names them as they turn up. Numbers have to fit a
word.
-/

namespace ZeroWidth.Spelled

/-- The letters of an argument with its terminator. -/
def argumentCode (argument : List Symbol) : Code := Symbol.letters (argument ++ [.n])

/-- The argument an instruction is applied to, named by the vocabulary. -/
def readArgument (v : Vocabulary) (i : Instruction) (argument : List Symbol) :
    Except Fault Argument × Vocabulary :=
  let code := argumentCode argument
  match i.argKind with
  | .number =>
    match Binary.decode? code.toList with
    | some n => (.ok (.number n), v)
    | none   => (.error (.numberOutOfRange i), v)
  | .label =>
    let (name, v) := v.labelForCode code
    (.ok (.label name), v)
  | .type =>
    let (name, v) := v.typeForCode code
    (.ok (.type name), v)
  | .nothing => (.error (.needlessArgument i), v)

/-- What becomes of an item: an operation or an error. -/
def readItem (v : Vocabulary) : Item → Except ParseError Operation × Vocabulary
  | .plain i span            => (.ok ⟨i, none, span⟩, v)
  | .applied i argument span =>
    match readArgument v i argument with
    | (.ok argument, v)  => (.ok ⟨i, some argument, span⟩, v)
    | (.error fault, v)  => (.error ⟨fault, span⟩, v)
  | .reject e                => (.error e, v)

/-- What becomes of all items, and the vocabulary behind them. -/
def readItems (v : Vocabulary) : List Item → List (Except ParseError Operation) × Vocabulary
  | []            => ([], v)
  | item :: items =>
    let (result, v) := readItem v item
    let (results, v) := readItems v items
    (result :: results, v)

def operation? : Except ParseError Operation → Option Operation
  | .ok op   => some op
  | .error _ => none

def error? : Except ParseError Operation → Option ParseError
  | .ok _    => none
  | .error e => some e

def read (dialect : Dialect) (source : String) : Program :=
  let (results, vocabulary) := readItems Vocabulary.initial (items dialect source.toList)
  Program.finish (results.filterMap operation?) vocabulary (results.filterMap error?)

end ZeroWidth.Spelled
