import ZeroWidth.Program.Basic

/-!
# Spelling a program

Each operation is spelled by the code of its instruction and the code of its argument. Labels and
types that the vocabulary does not know get a code on the way, which the program does not keep. A
spelling without advisory instructions leaves these out together with their arguments.
-/

namespace ZeroWidth.Spelled

/-- The letters of operations, in a vocabulary that grows with them. -/
def spell (v : Vocabulary) : List Operation → String
  | []        => ""
  | op :: ops =>
    match op.argument with
    | none          => Symbol.letters op.instruction.code ++ spell v ops
    | some argument =>
      let (code, v) := v.codeForArgument argument
      Symbol.letters op.instruction.code ++ code ++ spell v ops

/-- The operations that do something when the program runs. -/
def effective (ops : List Operation) : List Operation :=
  ops.filter fun op => !op.instruction.isAdvisory

/-- The letters of a whole program, with or without advisory instructions. -/
def letters (p : Program) (advisory : Bool) : String :=
  spell p.vocabulary (if advisory then p.operations else effective p.operations)

/-- A program in the characters of a dialect. Blanks have no room for advisory instructions. -/
def print (dialect : Dialect) (p : Program) : String :=
  dialect.respell (letters p (dialect = .nospace))

end ZeroWidth.Spelled
