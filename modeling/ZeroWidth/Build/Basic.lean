import ZeroWidth.Build.Failure
import ZeroWidth.Config
import ZeroWidth.Surface
import ZeroWidth.Typing.Check

/-!
# Checking and converting sources

A source is read on its surface and, if it has no faults, checked under a configuration. Converting
reads on one surface and prints on another; names of labels and types may change on the way, and
blanks have no room for advisory instructions.
-/

namespace ZeroWidth

/-- A source after reading and, if that went well, checking. -/
structure CheckedSource where
  surface  : Surface
  document : Document
  program  : Program
  /-- There is none if faults kept the program from being checked. -/
  report   : Option Report
deriving DecidableEq

namespace CheckedSource

def isOk (c : CheckedSource) : Bool := c.program.isOk && (c.report.map Report.isOk).getD false

/-- All errors, those of reading first. -/
def errors (c : CheckedSource) : List Finding :=
  c.program.errors.map ParseError.finding
    ++ (c.report.map fun r => r.errors.map TypeError.finding).getD []

def warnings (c : CheckedSource) : List Finding :=
  (c.report.map fun r => r.warnings.map TypeWarning.finding).getD []

end CheckedSource

/-- The surface that a word names. -/
def surfaceNamed (word : String) : Except BuildFailure Surface :=
  match Surface.ofWord? word with
  | some surface => .ok surface
  | none         => .error (.unknownSurfaceName word)

/-- The surface of the file at a path. -/
def surfaceOfFile (path : String) : Except BuildFailure Surface :=
  match Surface.ofPath? path with
  | some surface => .ok surface
  | none         => .error (.unknownSurface path)

namespace Config

/-- Checks a source text, which may come from a file. -/
def checkSource (config : Config) (surface : Surface) (path : Option String) (source : String) :
    Except BuildFailure CheckedSource :=
  let program := surface.read source
  let document := Document.ofText path source
  if program.isOk then
    match program.check config.strict config.maxPasses with
    | .ok checked => .ok ⟨surface, document, program, some checked.report⟩
    | .error e    => .error (.check e)
  else .ok ⟨surface, document, program, none⟩

/-- Checks a file. Its extension is looked at before the file is. -/
def checkFile (config : Config) (read : String → Except FileError String) (path : String) :
    Except BuildFailure CheckedSource := do
  let surface ← surfaceOfFile path
  match read path with
  | .ok source       => config.checkSource surface (some path) source
  | .error .notFound => .error (.sourceNotFound path)
  | .error e         => .error (.file e)

end Config

/-- Prints a source of one surface on another. -/
def convert (source : Surface) (text : String) (target : Surface) : Except BuildFailure String :=
  let program := source.read text
  if program.isOk then .ok (target.print program) else .error (.parse program.errors)

end ZeroWidth
