import ZeroWidth.Build.Failure
import ZeroWidth.Source.Path

/-!
# File trees

A directory with all that is in it, held in memory. Reading a path goes along it part by part, and
fails where a real directory would: at a part that does not exist, behind a part that is a file, at
a name that is too long, at a directory, or at a file that is not text. A path may lead out of the
directory; what stands above it is empty as far as the tree knows.
-/

namespace ZeroWidth

inductive FileEntry where
  | file (content : ByteArray)
  | directory

/-- What stands at which place, later entries in place of earlier ones. The directories on the way
to an entry are there as well. -/
structure FileTree where
  entries : List (List (List Char) × FileEntry)

namespace FileTree

def empty : FileTree := ⟨[]⟩

def add (t : FileTree) (path : String) (entry : FileEntry) : FileTree :=
  ⟨(Path.parts path, entry) :: t.entries⟩

def entry? (t : FileTree) (place : List (List Char)) : Option FileEntry := t.entries.lookup place

/-- Whether a place is a directory: the root, an entry that is one, or on the way to an entry. -/
def isDirectory (t : FileTree) (place : List (List Char)) : Bool :=
  match t.entry? place with
  | some .directory => true
  | some (.file _)  => false
  | none            => t.entries.any fun entry => place.isPrefixOf entry.1

/-- Where the reading of a path has got to. -/
inductive Place where
  /-- A place in the tree. -/
  | inside (place : List (List Char))
  /-- One of the directories above the tree. -/
  | above

/-- The largest number of bytes in a name. -/
def maxNameSize : Nat := 255

/-- The largest number of bytes in a path. -/
def maxPathSize : Nat := 4095

/-- Looks for a name in the directory at a place of the tree. -/
def enter (t : FileTree) (place : List (List Char)) (name : List Char) :
    Except FileError Place :=
  if maxNameSize < (String.ofList name).utf8ByteSize then .error .nameTooLong
  else if (t.entry? (place ++ [name])).isSome || t.isDirectory (place ++ [name]) then
    .ok (.inside (place ++ [name]))
  else .error .notFound

/-- Goes one part of a path further: on the spot, up, or down. -/
def step (t : FileTree) (here : Place) (part : List Char) : Except FileError Place :=
  match here with
  | .above        =>
    if part = [] || part = ['.'] || part = ['.', '.'] then .ok .above
    else if maxNameSize < (String.ofList part).utf8ByteSize then .error .nameTooLong
    else .error .notFound
  | .inside place =>
    if !(place.isEmpty || t.isDirectory place) then .error .notADirectory
    else if part = [] || part = ['.'] then .ok here
    else if part = ['.', '.'] then
      if place.isEmpty then .ok .above else .ok (.inside place.dropLast)
    else t.enter place part

/-- Where a path leads. A path that begins with a slash begins above the tree. -/
def locate (t : FileTree) (path : String) : Except FileError Place :=
  if path.contains '\x00' then .error .nulInName
  else if path.isEmpty then .error .notFound
  else if maxPathSize < path.utf8ByteSize then .error .nameTooLong
  else
    (splitAtEach '/' path.toList).foldlM t.step
      (if path.startsWith "/" then .above else .inside [])

/-- The text of the file at a path. -/
def read (t : FileTree) (path : String) : Except FileError String := do
  match ← t.locate path with
  | .above        => .error .isADirectory
  | .inside place =>
    match t.entry? place with
    | some (.file content) =>
      match String.fromUTF8? content with
      | some text => .ok text
      | none      => .error .notText
    | _ => .error .isADirectory

end FileTree

end ZeroWidth
