/-!
# TOML documents

A TOML document is a table of values. Tables come into being in four ways, and which way decides
whether they may be opened again: a header names a table once; the tables on the way to it are
implicit, and a later header may still name them; dotted keys give values to the tables that dotted
keys have made, and to no others; an inline table is complete as it stands.
-/

namespace ZeroWidth.Toml

/-- How a table came into being. -/
inductive TableKind where
  /-- On the way to the table of a header. -/
  | implicit
  /-- By a header of its own. -/
  | explicit
  /-- By a dotted key. -/
  | dotted
  /-- Between braces. -/
  | inlined
deriving DecidableEq

inductive Value where
  | boolean (b : Bool)
  | integer (v : Int)
  | float (text : String)
  | moment (text : String)
  | string (text : String)
  | array (values : List Value)
  | table (kind : TableKind) (entries : List (String × Value))
  /-- The tables of headers in double brackets, the latest first. -/
  | tables (entries : List (List (String × Value)))

/-- Keys with their values, in no particular order. -/
abbrev Entries := List (String × Value)

/-- A key path: the keys of a dotted key or of a header. -/
abbrev KeyPath := List String

namespace Entries

def get? (entries : Entries) (key : String) : Option Value := List.lookup key entries

/-- The entries with the value of one key replaced, or added. -/
def put (entries : Entries) (key : String) (value : Value) : Entries :=
  (key, value) :: entries.filter fun entry => entry.1 ≠ key

/-- Changes the table that a header path leads to. Tables on the way that do not exist are made
implicitly, and of several tables under one key the latest is meant. -/
def atHeader (change : Entries → Option Entries) : KeyPath → Entries → Option Entries
  | [],          entries => change entries
  | key :: path, entries => do
    let value ← match entries.get? key with
      | none                            =>
        (atHeader change path []).map (Value.table .implicit)
      | some (.table .inlined _)        => none
      | some (.table kind inner)        => (atHeader change path inner).map (Value.table kind)
      | some (.tables (latest :: rest)) =>
        (atHeader change path latest).map fun inner => Value.tables (inner :: rest)
      | some _                          => none
    some (entries.put key value)

/-- Gives a new key a value; a key that is there already is refused. -/
def define (key : String) (value : Value) (entries : Entries) : Option Entries :=
  match entries.get? key with
  | none   => some (entries.put key value)
  | some _ => none

/-- Gives a dotted key a value. The tables on the way are new or made by dotted keys; implicit ones
and the latest of several can be passed through as well, but not given a value of their own. -/
def assign (value : Value) : KeyPath → Entries → Option Entries
  | [],          _       => none
  | [key],       entries => entries.define key value
  | key :: path, entries => do
    let inner ← match entries.get? key with
      | none                            => (assign value path []).map (Value.table .dotted)
      | some (.table .dotted inner)     => (assign value path inner).map (Value.table .dotted)
      | some (.table .implicit inner)   =>
        if path.length = 1 then none else (assign value path inner).map (Value.table .implicit)
      | some (.tables (latest :: rest)) =>
        if path.length = 1 then none
        else (assign value path latest).map fun inner => Value.tables (inner :: rest)
      | some _                          => none
    some (entries.put key inner)

/-- Names a table by a header. -/
def openTable (key : String) (entries : Entries) : Option Entries :=
  match entries.get? key with
  | none                          => some (entries.put key (.table .explicit []))
  | some (.table .implicit inner) => some (entries.put key (.table .explicit inner))
  | some _                        => none

/-- Begins one more of the tables under a key. -/
def appendTable (key : String) (entries : Entries) : Option Entries :=
  match entries.get? key with
  | none                   => some (entries.put key (.tables [[]]))
  | some (.tables earlier) => some (entries.put key (.tables ([] :: earlier)))
  | some _                 => none

end Entries

/-- What one line of a document, or several if a value is that long, says. -/
inductive Statement where
  | assign (path : KeyPath) (value : Value)
  | header (path : KeyPath)
  | appendHeader (path : KeyPath)

/-- A document on the way: all entries, and the header that assignments stand under. -/
structure Draft where
  entries : Entries
  header  : KeyPath

/-- The draft after one more statement; none if the statement contradicts an earlier one. -/
def Draft.add (d : Draft) : Statement → Option Draft
  | .assign path value => do
    let entries ← d.entries.atHeader (Entries.assign value path) d.header
    some { d with entries }
  | .header path => do
    let key ← path.getLast?
    let entries ← d.entries.atHeader (Entries.openTable key) path.dropLast
    some ⟨entries, path⟩
  | .appendHeader path => do
    let key ← path.getLast?
    let entries ← d.entries.atHeader (Entries.appendTable key) path.dropLast
    some ⟨entries, path⟩

/-- The entries that statements come to. -/
def document? (statements : List Statement) : Option Entries :=
  (statements.foldlM Draft.add ⟨[], []⟩).map Draft.entries

end ZeroWidth.Toml
