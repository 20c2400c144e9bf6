import ZeroWidth.Source.Position
import ZeroWidth.Source.Split

/-!
# Documents

A document is a source text cut into its lines, with the path it was read from. Lines end at a
newline and at nothing else: a carriage return in front of it belongs to the line.
-/

namespace ZeroWidth

/-- A source text as diagnostics see it. -/
structure Document where
  path  : Option String
  lines : List String
deriving DecidableEq

namespace Document

def ofText (path : Option String) (text : String) : Document :=
  ⟨path, (splitLines text.toList).map String.ofList⟩

def line? (d : Document) (n : Nat) : Option String := d.lines[n]?

/-- The path of the document; a document without one has the empty path. -/
def pathText (d : Document) : String := d.path.getD ""

/-- Where a cursor is, for a terminal: with the path in front if there is one. -/
def locate (d : Document) (c : Cursor) : String :=
  match d.path with
  | some path => path ++ ":" ++ c.text
  | none      => c.text

end Document

end ZeroWidth
