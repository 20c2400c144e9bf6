import ZeroWidth.Toml.Quoted
import ZeroWidth.Toml.Scalar

/-!
# Reading TOML

A document is a list of statements, each ending with its line: an assignment, a header in single
brackets or one in double brackets. Arrays and inline tables may run over several lines. Values are
nested, and keys are dotted, only so many levels deep.
-/

namespace ZeroWidth.Toml

/-- How many arrays and inline tables may stand within each other, and how many keys a dotted key
may have. -/
def maxNesting : Nat := 80

/-- Blanks and a comment. -/
def skipLineRest (text : List Char) : List Char :=
  match skipBlanks text with
  | '#' :: rest => rest.dropWhile fun c => !isControl c
  | rest        => rest

/-- Blanks, comments and newlines. -/
def skipGaps : (fuel : Nat) → List Char → List Char
  | 0,        text => text
  | fuel + 1, text =>
    match newline? (skipLineRest text) with
    | some rest => skipGaps fuel rest
    | none      => skipLineRest text

def skipGap (text : List Char) : List Char := skipGaps (text.length + 1) text

/-- What follows the end of a line. -/
def lineEnd? (text : List Char) : Option (List Char) :=
  match skipLineRest text with
  | []   => some []
  | rest => newline? rest

/-! ### Keys -/

def isBareKeyChar (c : Char) : Bool := c.isAlphanum || c = '_' || c = '-'

def key? (text : List Char) : Option (String × List Char) :=
  match text.takeWhile isBareKeyChar with
  | []   => lineString? text
  | bare => some (String.ofList bare, text.dropWhile isBareKeyChar)

/-- Keys with dots between them; blanks around the dots mean nothing. -/
def keys? : (fuel : Nat) → Reader KeyPath
  | 0,        _    => none
  | fuel + 1, text => do
    let (key, rest) ← key? (skipBlanks text)
    match skipBlanks rest with
    | '.' :: more => do
      let (path, rest) ← keys? fuel more
      some (key :: path, rest)
    | rest => some ([key], rest)

def keyPath? (text : List Char) : Option (KeyPath × List Char) :=
  (keys? (text.length + 1) text).filter fun (path, _) => path.length ≤ maxNesting

/-! ### Values -/

mutual

/-- A value with at most so many levels of arrays and inline tables. -/
def value? : (fuel levels : Nat) → Reader Value
  | 0,        _,          _              => none
  | _ + 1,    0,          '[' :: _       => none
  | _ + 1,    0,          '\x7b' :: _    => none
  | fuel + 1, levels + 1, '[' :: rest    => do
    let (values, rest) ← values? fuel levels (skipGap rest)
    some (.array values, rest)
  | fuel + 1, levels + 1, '\x7b' :: rest => do
    let (entries, rest) ← inlineEntries? fuel levels [] (skipGap rest)
    some (.table .inlined entries, rest)
  | _ + 1,    _,          '\"' :: rest   =>
    (string? ('\"' :: rest)).map fun (s, rest) => (.string s, rest)
  | _ + 1,    _,          '\'' :: rest   =>
    (string? ('\'' :: rest)).map fun (s, rest) => (.string s, rest)
  | _ + 1,    _,          text           =>
    let (token, rest) := scalarToken text
    (bareScalar? token).map fun value => (value, rest)

/-- The values of an array up to its closing bracket; a comma may stand behind the last. -/
def values? : (fuel levels : Nat) → Reader (List Value)
  | 0,        _,      _           => none
  | _ + 1,    _,      ']' :: rest => some ([], rest)
  | fuel + 1, levels, text        => do
    let (value, rest) ← value? fuel levels text
    match skipGap rest with
    | ']' :: rest => some ([value], rest)
    | ',' :: rest => do
      let (values, rest) ← values? fuel levels (skipGap rest)
      some (value :: values, rest)
    | _           => none

/-- The assignments of an inline table up to its closing brace, added to `entries`. Newlines and
comments may stand on both sides of the equals sign, but not within the key. -/
def inlineEntries? : (fuel levels : Nat) → (entries : Entries) → Reader Entries
  | 0,        _,      _,       _              => none
  | _ + 1,    _,      entries, '\x7d' :: rest => some (entries, rest)
  | fuel + 1, levels, entries, text           => do
    let (path, rest) ← keyPath? text
    let rest ← char? '=' (skipGap rest)
    let (value, rest) ← value? fuel levels (skipGap rest)
    let entries ← entries.assign value path
    match skipGap rest with
    | '\x7d' :: rest => some (entries, rest)
    | ',' :: rest    => inlineEntries? fuel levels entries (skipGap rest)
    | _              => none

end

/-! ### Documents -/

/-- The header path between brackets, the opening ones taken already. -/
def header? (text : List Char) : Option (Statement × List Char) :=
  match text with
  | '[' :: rest => do
    let (path, rest) ← keyPath? rest
    let rest ← char? ']' rest
    let rest ← char? ']' rest
    some (.appendHeader path, rest)
  | _ => do
    let (path, rest) ← keyPath? text
    let rest ← char? ']' rest
    some (.header path, rest)

def statement? (text : List Char) : Option (Statement × List Char) :=
  match text with
  | '[' :: rest => header? rest
  | _           => do
    let (path, rest) ← keyPath? text
    let rest ← char? '=' rest
    let (value, rest) ← value? (rest.length + 1) maxNesting (skipBlanks rest)
    some (.assign path value, rest)

/-- The statements of a text, each up to the end of a line. -/
def statements? : (fuel : Nat) → List Char → Option (List Statement)
  | 0,        _    => none
  | fuel + 1, text =>
    match skipGap text with
    | []   => some []
    | text => do
      let (statement, rest) ← statement? text
      let rest ← lineEnd? rest
      let statements ← statements? fuel rest
      some (statement :: statements)

/-- A text without the byte order mark it may begin with. -/
def withoutMark : List Char → List Char
  | '\ufeff' :: rest => rest
  | text             => text

/-- The entries of a document; none if it is not valid. -/
def parse? (text : String) : Option Entries :=
  let text := withoutMark text.toList
  (statements? (text.length + 1) text).bind document?

end ZeroWidth.Toml
