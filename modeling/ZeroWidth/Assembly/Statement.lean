import ZeroWidth.Assembly.Lexeme
import ZeroWidth.Program.Fault

/-!
# Statements of assembly text

Each line says one thing: nothing at all, a definition, an operation, or something that is at fault.
A line `#if key value …` says what the rest of it says if the latest definition of the key has that
value, and nothing otherwise. Whatever is wrong with a line is reported from the lexeme it concerns
to the end of the line.
-/

namespace ZeroWidth.Assembly

/-- What a line of assembly says. -/
inductive Statement where
  | nothing
  | define (key value : String)
  | perform (op : Operation)
  | reject (e : ParseError)
deriving DecidableEq

namespace Statement

def operation? : Statement → Option Operation
  | perform op => some op
  | _          => none

def error? : Statement → Option ParseError
  | reject e => some e
  | _        => none

end Statement

/-- The definitions in force, the latest first. -/
abbrev Definitions := List (String × String)

/-- The place of a line: its number and its length. -/
structure LinePlace where
  number : Nat
  length : Nat

/-- The span from a column to the end of the line. -/
def LinePlace.toEnd (place : LinePlace) (column : Nat) : Span :=
  Span.onLine place.number column place.length

/-- The argument of an instruction as written. -/
def readArgument (i : Instruction) (text : String) : Except Fault Argument :=
  match i.argKind with
  | .number =>
    match Decimal.word? text with
    | some n => .ok (.number n)
    | none   => .error (.invalidNumber text)
  | .label   => .ok (.label text)
  | .type    => .ok (.type text)
  | .nothing => .error (.needlessArgument i)

/-- The arguments an instruction is followed by: none or one, as it asks for. -/
def readArguments (i : Instruction) : List Lexeme → Except Fault (Option Argument)
  | [] =>
    match i.argKind with
    | .nothing => .ok none
    | .type    => .error .missingType
    | _        => .error (.missingArgument i)
  | [argument] => (readArgument i argument.text).map some
  | _ :: _ :: _ =>
    match i.argKind with
    | .nothing => .error (.needlessArgument i)
    | _        => .error (.tooManyArguments i)

/-- The instruction a lexeme names. A pragma names none. -/
def instruction? : Token → Option Instruction
  | .word text => Instruction.ofName? text
  | .pragma _  => none

/-- An instruction with its arguments. -/
def readInstruction (place : LinePlace) : List Lexeme → Statement
  | []                => .nothing
  | head :: arguments =>
    match instruction? head.token with
    | none   => .reject ⟨.unknownInstruction head.text, place.toEnd head.start⟩
    | some i =>
      match readArguments i arguments with
      | .ok argument => .perform ⟨i, argument, place.toEnd head.start⟩
      | .error fault => .reject ⟨fault, place.toEnd head.start⟩

/-- A line that begins with a pragma, `span` running from there to its end. -/
def readPragma (definitions : Definitions) (place : LinePlace) (pragma : String) (span : Span)
    (rest : List Lexeme) : Statement :=
  if pragma ≠ "#define" ∧ pragma ≠ "#if" then .reject ⟨.unknownPragma pragma, span⟩
  else match rest with
    | key :: value :: rest =>
      if pragma = "#define" then
        match rest with
        | []     => .define key.text value.text
        | _ :: _ => .reject ⟨.surplusInDefinition, span⟩
      else match rest with
        | []     => .reject ⟨.emptyCondition, span⟩
        | _ :: _ =>
          if definitions.lookup key.text = some value.text then readInstruction place rest
          else .nothing
    | _ => .reject ⟨.incompletePragma, span⟩

/-- A whole line, given by its pieces. -/
def readLine (definitions : Definitions) (place : LinePlace) (line : List Piece) : Statement :=
  match lexemes line with
  | .error column => .reject ⟨.unrecognizedInput, place.toEnd column⟩
  | .ok []        => .nothing
  | .ok (head :: rest) =>
    match head.token with
    | .pragma pragma => readPragma definitions place pragma (place.toEnd head.start) rest
    | .word _        => readInstruction place (head :: rest)

end ZeroWidth.Assembly
