import ZeroWidth.Assembly.Statement
import ZeroWidth.Program.Basic
import ZeroWidth.Source.Document

/-!
# Reading assembly text

A text is read line by line, each line under the definitions made before it. Labels and types come
with their names; the vocabulary learns them line by line, as they are used.
-/

namespace ZeroWidth.Assembly

/-- A line without the carriage returns at its end. -/
def trimReturns (line : List Char) : List Char := (line.reverse.dropWhile (· = '\r')).reverse

/-- What is known behind some lines: what they define, and the names that they use. -/
structure Known where
  definitions : Definitions
  vocabulary  : Vocabulary

namespace Known

def initial : Known := ⟨[], .initial⟩

/-- What is known behind one statement more. -/
def after (known : Known) : Statement → Known
  | .define key value => { known with definitions := (key, value) :: known.definitions }
  | .perform op       => { known with vocabulary := known.vocabulary.learn op }
  | _                 => known

end Known

/-- What the lines from the given number on say, one statement a line, and what is known behind
them. -/
def readLines : Known → (number : Nat) → List (List Char) → List Statement × Known
  | known, _,      []            => ([], known)
  | known, number, line :: lines =>
    let text := trimReturns line
    let statement := readLine known.definitions ⟨number, text.length⟩ (pieces text)
    let (statements, known) := readLines (known.after statement) (number + 1) lines
    (statement :: statements, known)

def read (source : String) : Program :=
  let (statements, known) := readLines .initial 0 (splitLines source.toList)
  Program.finish (statements.filterMap Statement.operation?) known.vocabulary
    (statements.filterMap Statement.error?)

end ZeroWidth.Assembly
