import ZeroWidth.Session

/-!
# The command line

Reads the configuration file and the files that a command names, carries the command out, and prints
what it has to say. What a command does is decided elsewhere; here it meets the real directory.
-/

namespace ZeroWidth

/-- Why a file could not be read, as far as commands tell the reasons apart. -/
def FileError.ofError : IO.Error → FileError
  | .inappropriateType _ code _ => if code = 21 then .isADirectory else .notADirectory
  | .invalidArgument _ code _   => if code = 36 then .nameTooLong else .nulInName
  | _                           => .notFound

/-- The text of a file. -/
def readText (path : String) : IO (Except FileError String) := do
  try
    let content ← IO.FS.readBinFile path
    match String.fromUTF8? content with
    | some text => return .ok text
    | none      => return .error .notText
  catch e => return .error (FileError.ofError e)

/-- The directory of the configuration file. -/
def configDirectory : IO String := do
  match ← IO.getEnv "XDG_CONFIG_HOME" with
  | some directory => return directory ++ "/nospace"
  | none           => return ((← IO.getEnv "HOME").getD "") ++ "/.config/nospace"

/-- Writes the configuration file; a directory that cannot be written to is left alone. -/
def saveConfig (directory content : String) : IO Unit := do
  try
    IO.FS.createDirAll directory
    IO.FS.writeFile (directory ++ "/nospace.toml") content
  catch _ => pure ()

/-- The files a command line names, with what came of reading them. -/
def readNamedFiles (arguments : List String) : IO (List (String × Except FileError String)) :=
  match Command.ofCommandLine arguments with
  | .ok command => command.files.mapM fun path => do return (path, ← readText path)
  | .error _    => return []

/-- Colours are for terminals whose user has not declined them. -/
def terminalStyle : IO Style := do
  if (← (← IO.getStdout).isTty) && (← IO.getEnv "NO_COLOR").isNone then return .coloured
  else return .plain

end ZeroWidth

open ZeroWidth in
def main (arguments : List String) : IO UInt32 := do
  let directory ← configDirectory
  let config := (← readText (directory ++ "/nospace.toml")).toOption
  let files ← readNamedFiles arguments
  let read := fun path => (files.lookup path).getD (.error .notFound)
  let outcome := (⟨read, config, ← terminalStyle⟩ : Surroundings).run arguments
  (← IO.getStdout).putStr outcome.stdout
  (← IO.getStderr).putStr outcome.stderr
  if outcome.config ≠ config then
    saveConfig directory (outcome.config.getD "")
  return outcome.exit.toUInt32
