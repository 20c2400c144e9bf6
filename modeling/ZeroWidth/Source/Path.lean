import ZeroWidth.Source.Split

/-!
# Paths

The parts of a path between its slashes, and the extension of the file it names. Empty parts and
single dots say nothing and are passed over, so that a slash at the end changes nothing.
-/

namespace ZeroWidth.Path

/-- The parts of a path that say something. -/
def parts (path : String) : List (List Char) :=
  (splitAtEach '/' path.toList).filter fun part => part ≠ [] && part ≠ ['.']

/-- The last part of a path, unless it leads upwards. -/
def fileName? (path : String) : Option (List Char) :=
  (parts path).getLast?.filter fun name => name ≠ ['.', '.']

/-- What stands behind the last dot of a name. A dot at the beginning is part of the name. -/
def suffix? (name : List Char) : Option (List Char) :=
  match name.reverse.dropWhile (· ≠ '.') with
  | []     => none
  | [_]    => none
  | _ :: _ => some (name.reverse.takeWhile (· ≠ '.')).reverse

def extension? (path : String) : Option String :=
  ((fileName? path).bind suffix?).map String.ofList

end ZeroWidth.Path
