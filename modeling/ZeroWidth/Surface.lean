import ZeroWidth.Assembly.Printer
import ZeroWidth.Assembly.Reader
import ZeroWidth.Source.Path
import ZeroWidth.Spelled.Printer
import ZeroWidth.Spelled.Reader

/-!
# Surfaces

The three ways to write a program: as assembly text, in zero-width characters, in blanks. Each has a
name and a file extension.
-/

namespace ZeroWidth

inductive Surface where
  | nossembly
  | nospace
  | whitespace
deriving DecidableEq

namespace Surface

def all : List Surface := [nossembly, nospace, whitespace]

def name : Surface → String
  | nossembly  => "nossembly"
  | nospace    => "nospace"
  | whitespace => "whitespace"

def extension : Surface → String
  | nossembly  => "nsa"
  | nospace    => "ns"
  | whitespace => "ws"

/-- The surface of a full name. -/
def ofName? (name : String) : Option Surface := all.find? fun s => s.name = name

/-- The surface of a name or an extension. -/
def ofWord? (word : String) : Option Surface :=
  all.find? fun s => s.name = word || s.extension = word

/-- The surface of a file, by the extension of its path. -/
def ofPath? (path : String) : Option Surface :=
  (Path.extension? path).bind fun e => all.find? fun s => s.extension = e

def read : Surface → String → Program
  | nossembly,  source => Assembly.read source
  | nospace,    source => Spelled.read .nospace source
  | whitespace, source => Spelled.read .whitespace source

def print : Surface → Program → String
  | nossembly,  p => Assembly.print p
  | nospace,    p => Spelled.print .nospace p
  | whitespace, p => Spelled.print .whitespace p

end Surface

end ZeroWidth
