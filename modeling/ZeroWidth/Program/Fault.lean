import ZeroWidth.Program.Operation

/-!
# Faults in a source text

What can be wrong with a text, as causes; the wording of each stands in one place. Reading goes on
behind a fault, so that a text may show any number of them.
-/

namespace ZeroWidth

/-- Something to tell the user about a stretch of source. -/
structure Finding where
  kind    : String
  message : String
  span    : Span
deriving DecidableEq

/-- A finding on one line, with the position it starts at. -/
def Finding.text (f : Finding) : String :=
  f.kind ++ " at " ++ f.span.start.text ++ ": " ++ f.message

/-- A text in double quotes. -/
def quoted (text : String) : String := "\"" ++ text ++ "\""

inductive FaultKind where
  | unknownInstruction
  | argument
  | pragma
  | duplicatedLabel
deriving DecidableEq

def FaultKind.text : FaultKind → String
  | unknownInstruction => "unknown_instruction"
  | argument           => "argument"
  | pragma             => "pragma"
  | duplicatedLabel    => "duplicated_label"

inductive Fault where
  /-- No lexeme begins here. -/
  | unrecognizedInput
  /-- A name or a run of symbols that is no instruction. -/
  | unknownInstruction (text : String)
  | unknownPragma (text : String)
  /-- A pragma without a key or without a value. -/
  | incompletePragma
  /-- A definition with more than a key and a value. -/
  | surplusInDefinition
  /-- A condition with nothing behind it. -/
  | emptyCondition
  | needlessArgument (i : Instruction)
  | missingType
  | missingArgument (i : Instruction)
  | tooManyArguments (i : Instruction)
  | invalidNumber (text : String)
  /-- The symbol `x` within an argument. -/
  | advisoryInArgument (i : Instruction)
  | numberOutOfRange (i : Instruction)
  | duplicatedLabel (name : Label)
  | undefinedLabel (name : Label)
deriving DecidableEq

namespace Fault

def kind : Fault → FaultKind
  | unrecognizedInput    => .unknownInstruction
  | unknownInstruction _ => .unknownInstruction
  | unknownPragma _      => .pragma
  | incompletePragma     => .pragma
  | surplusInDefinition  => .pragma
  | emptyCondition       => .pragma
  | needlessArgument _   => .argument
  | missingType          => .argument
  | missingArgument _    => .argument
  | tooManyArguments _   => .argument
  | invalidNumber _      => .argument
  | advisoryInArgument _ => .argument
  | numberOutOfRange _   => .argument
  | duplicatedLabel _    => .duplicatedLabel
  | undefinedLabel _     => .argument

def message : Fault → String
  | unrecognizedInput       => "Unrecognized input"
  | unknownInstruction text => "Unrecognized instruction " ++ quoted text
  | unknownPragma text      => "Unknown pragma " ++ quoted text
  | incompletePragma        => "Pragmas must specify both a key and value"
  | surplusInDefinition     => "Incorrect number of arguments for #define pragma"
  | emptyCondition          => "An #if pragma must be followed by an instruction"
  | needlessArgument i      => "The " ++ i.name ++ " instruction does not take an argument"
  | missingType             => "You must specify a type"
  | missingArgument i       => "An argument must be provided to the " ++ i.name ++ " instruction"
  | tooManyArguments i      => "Too many arguments for the " ++ i.name ++ " instruction"
  | invalidNumber text      => quoted text ++ " is not a valid number"
  | advisoryInArgument i    =>
    "The argument of the " ++ i.name ++ " instruction cannot contain an x symbol"
  | numberOutOfRange i      => "The argument of the " ++ i.name ++ " instruction is out of range"
  | duplicatedLabel name    => "Label " ++ quoted name ++ " is defined more than once"
  | undefinedLabel name     => "Label " ++ quoted name ++ " is never defined"

/-- Whether a fault concerns the labels of a whole program rather than a place in its text. -/
def isAboutLabels : Fault → Bool
  | duplicatedLabel _ | undefinedLabel _ => true
  | _                                    => false

end Fault

/-- A fault and where it is. -/
structure ParseError where
  fault : Fault
  span  : Span
deriving DecidableEq

def ParseError.finding (e : ParseError) : Finding := ⟨e.fault.kind.text, e.fault.message, e.span⟩

end ZeroWidth
