import ZeroWidth.Data.Bijection
import ZeroWidth.Numeral.Alphabetic
import ZeroWidth.Numeral.Binary
import ZeroWidth.Program.Operation

/-!
# Vocabularies

Labels and types have readable names in assembly text and codes in symbols. A vocabulary pairs the
two, one to one, and the first occurrence of either side settles the pair for good: a code seen
without a name is given an alphabetic one, a name seen without a code is given a number. Where the
candidate is taken already, the next one is tried.
-/

namespace ZeroWidth

/-- The letters a label, a type or a number is spelled with, the terminator `n` included. -/
abbrev Code := String

/-- The first candidate from the `n`-th on that is not taken. Among `tries + 1` candidates that
differ, more than `tries` things would have to be taken for all of them to be. -/
def firstFree {α : Type} (taken : α → Bool) (candidate : Nat → α) : (tries : Nat) → (n : Nat) → α
  | 0,         n => candidate n
  | tries + 1, n =>
    if taken (candidate n) then firstFree taken candidate tries (n + 1) else candidate n

namespace Bijection

variable {α β : Type} [DecidableEq α] [DecidableEq β]

/-- The left side of a right side. One that has none yet is given the first free candidate from the
`n`-th on. -/
def nameFor (b : Bijection α β) (candidate : Nat → α) (n : Nat) (q : β) : α × Bijection α β :=
  match b.back? q with
  | some p => (p, b)
  | none   =>
    let p := firstFree (fun p => (b.forth? p).isSome) candidate b.size n
    (p, b.insert p q)

/-- The right side of a left side. One that has none yet is given the first free candidate from the
`n`-th on. -/
def codeFor (b : Bijection α β) (candidate : Nat → β) (n : Nat) (p : α) : β × Bijection α β :=
  match b.forth? p with
  | some q => (q, b)
  | none   =>
    let q := firstFree (fun q => (b.back? q).isSome) candidate b.size n
    (q, b.insert p q)

end Bijection

/-- The names and codes of the labels and types of a program. -/
structure Vocabulary where
  labels : Bijection Label Code
  types  : Bijection TypeName Code
deriving DecidableEq

namespace Vocabulary

/-- The types every program knows, with their codes. -/
def builtinTypes : List (TypeName × Code) :=
  [("Never", "ttn"), ("Any", "tsn"), ("Unknown", "tssn"), ("Int", "ssn"), ("Char", "stn")]

def initial : Vocabulary where
  labels := .empty
  types  := builtinTypes.foldl (fun types pair => types.insert pair.1 pair.2) .empty

/-- The number of types beyond the built-in ones. -/
def customTypes (v : Vocabulary) : Nat := v.types.size - builtinTypes.length

/-- The names that types are given, apart from those that are taken. -/
def typeText (n : Nat) : TypeName := "Type" ++ Alphabetic.text n

/-- The codes that labels and types are given, apart from those that are taken. -/
def numberCode (n : Nat) : Code := Binary.code n

/-- The label of a code, named now if it has no name yet. -/
def labelForCode (v : Vocabulary) (code : Code) : Label × Vocabulary :=
  let (name, labels) := v.labels.nameFor Alphabetic.text v.labels.size code
  (name, { v with labels })

/-- The type of a code, named now if it has no name yet. -/
def typeForCode (v : Vocabulary) (code : Code) : TypeName × Vocabulary :=
  let (name, types) := v.types.nameFor typeText v.customTypes code
  (name, { v with types })

/-- The code of a label, assigned now if it has none yet: its place among the labels. -/
def codeForLabel (v : Vocabulary) (name : Label) : Code × Vocabulary :=
  let (code, labels) := v.labels.codeFor numberCode v.labels.size name
  (code, { v with labels })

/-- The code of a type, assigned now if it has none yet: ten more than its place among the types. -/
def codeForType (v : Vocabulary) (name : TypeName) : Code × Vocabulary :=
  let (code, types) := v.types.codeFor numberCode (10 + v.types.size) name
  (code, { v with types })

/-- The code of any argument. -/
def codeForArgument (v : Vocabulary) : Argument → Code × Vocabulary
  | .number n   => (Binary.code n.toInt, v)
  | .label name => v.codeForLabel name
  | .type name  => v.codeForType name

/-- The vocabulary after meeting an operation whose argument is given by name. -/
def learn (v : Vocabulary) (op : Operation) : Vocabulary :=
  match op.argument with
  | some argument => (v.codeForArgument argument).2
  | none          => v

end Vocabulary

end ZeroWidth
