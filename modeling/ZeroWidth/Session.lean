import ZeroWidth.Build.Render
import ZeroWidth.Command

/-!
# Sessions

Carrying out a command line, given the files it may read and the configuration file. The outcome is
what is printed, the exit status and what the configuration file holds afterwards.
-/

namespace ZeroWidth

/-- What a session finds. -/
structure Surroundings where
  /-- The text of the file at a path. -/
  read   : String → Except FileError String
  /-- The content of the configuration file, if there is one. -/
  config : Option String
  style  : Style

/-- What a session leaves. -/
structure Outcome where
  exit   : Nat
  stdout : String
  stderr : String
  /-- The content of the configuration file, if there is one. -/
  config : Option String
deriving DecidableEq

def versionText : String := "nospace-cli 0.1.0\n"

def usageText : String :=
  "Usage: nospace check [--strict] [--verbose] FILE...\n"
    ++ "       nospace convert FILE --to SURFACE [--from SURFACE] [--verbose]\n"
    ++ "       nospace --version\n"
    ++ "       nospace --help\n"
    ++ "A SURFACE is one of nossembly, nospace, whitespace.\n"

namespace Surroundings

/-- A failure as it is printed. -/
def complaint (s : Surroundings) (failure : BuildFailure) : String :=
  Level.error.paint s.style ++ ": " ++ failure.message ++ "\n"

/-- Checks one file more: what is printed, what is complained of, and whether all is well. -/
def checkFile (s : Surroundings) (config : Config) (path : String) : String × String × Bool :=
  match config.checkFile s.read path with
  | .ok checked    => (checked.render s.style, "", checked.isOk)
  | .error failure => ("", s.complaint failure, false)

/-- Checks files under the configuration, which is loaded first. -/
def check (s : Surroundings) (files : List String) (strict : Bool) : Outcome :=
  let (config, file) := Config.load s.config
  let results := files.map (s.checkFile { config with strict := config.strict || strict })
  { exit   := if results.all (·.2.2) then 0 else 1
    stdout := String.join (results.map (·.1))
    stderr := String.join (results.map (·.2.1))
    config := some file }

/-- The surface and the text of a file to be converted. -/
def sourceOf (s : Surroundings) (file : String) (surface : Option Surface) :
    Except BuildFailure (Surface × String) := do
  let surface ← match surface with
    | some surface => .ok surface
    | none         => surfaceOfFile file
  match s.read file with
  | .ok text => .ok (surface, text)
  | .error e => .error (.file e)

/-- Converts a file. The configuration is loaded once the file has been read. -/
def convertFile (s : Surroundings) (file : String) (target : Surface) (surface : Option Surface) :
    Outcome :=
  match s.sourceOf file surface with
  | .error failure        => ⟨1, "", s.complaint failure, s.config⟩
  | .ok (surface, source) =>
    let config := some (Config.load s.config).2
    match convert surface source target with
    | .ok text       => ⟨0, text, "", config⟩
    | .error failure => ⟨1, "", s.complaint failure, config⟩

/-- Carries out a command line. -/
def run (s : Surroundings) (arguments : List String) : Outcome :=
  match Command.ofCommandLine arguments with
  | .ok (.check files strict)           => s.check files strict
  | .ok (.convert file target surface)  => s.convertFile file target surface
  | .error .version                     => ⟨0, versionText, "", s.config⟩
  | .error .help                        => ⟨0, usageText, "", s.config⟩
  | .error .usage                       => ⟨2, "", usageText, s.config⟩

end Surroundings

end ZeroWidth
