import ZeroWidth.Program.Fault
import ZeroWidth.Typing.Failure

/-!
# Failures of a build

Why a file could not be checked or converted.
-/

namespace ZeroWidth

/-- Why a file could not be read. -/
inductive FileError where
  | notFound
  | notADirectory
  | isADirectory
  | nameTooLong
  | nulInName
  | notText
deriving DecidableEq

def FileError.message : FileError → String
  | notFound      => "No such file or directory (os error 2)"
  | notADirectory => "Not a directory (os error 20)"
  | isADirectory  => "Is a directory (os error 21)"
  | nameTooLong   => "File name too long (os error 36)"
  | nulInName     => "file name contained an unexpected NUL byte"
  | notText       => "stream did not contain valid UTF-8"

inductive BuildFailure where
  | file (e : FileError)
  | sourceNotFound (path : String)
  /-- The extension of a path belongs to no surface. -/
  | unknownSurface (path : String)
  | unknownSurfaceName (name : String)
  /-- The source of a conversion has faults. -/
  | parse (errors : List ParseError)
  | check (e : CheckFailure)
deriving DecidableEq

def BuildFailure.message : BuildFailure → String
  | file e                  => "IO error: " ++ e.message
  | sourceNotFound path     => "Source file not found: `" ++ path ++ "`"
  | unknownSurface path     =>
    "Cannot tell the surface syntax of `" ++ path ++ "`; expected a .nsa, .ns or .ws file"
  | unknownSurfaceName name =>
    "Unknown surface syntax `" ++ name ++ "`; expected one of nossembly, nospace, whitespace"
  | parse errors            =>
    "Parse error:\n\t" ++ "\n\t".intercalate (errors.map fun e => e.finding.text)
  | check e                 => "Internal checker error: " ++ e.message

end ZeroWidth
