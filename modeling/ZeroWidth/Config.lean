import ZeroWidth.Toml.Reader
import ZeroWidth.Typing.Check

/-!
# Configuration

A configuration says whether every program is checked strictly and how many passes a check may take.
It is kept in a TOML file. Settings that the file does not mention have their default, others than
these two are passed over. Loading a file that is missing or cannot be understood puts the default
configuration in its place.
-/

namespace ZeroWidth

structure Config where
  strict    : Bool
  maxPasses : Nat
deriving DecidableEq

namespace Config

def default : Config := ⟨false, defaultPasses⟩

def strictIn? (entries : Toml.Entries) : Option Bool :=
  match entries.get? "strict" with
  | none              => some default.strict
  | some (.boolean b) => some b
  | some _            => none

/-- The number of passes is an unsigned word of 64 bits. -/
def maxPassesIn? (entries : Toml.Entries) : Option Nat :=
  match entries.get? "max_passes" with
  | none              => some default.maxPasses
  | some (.integer v) => if 0 ≤ v ∧ v < UInt64.size then some v.toNat else none
  | some _            => none

/-- The configuration a text describes. -/
def ofText? (text : String) : Option Config := do
  let entries ← Toml.parse? text
  let strict ← strictIn? entries
  let maxPasses ← maxPassesIn? entries
  some ⟨strict, maxPasses⟩

/-- The text of a configuration. -/
def text (c : Config) : String :=
  "strict = " ++ (if c.strict then "true" else "false") ++ "\nmax_passes = "
    ++ toString c.maxPasses ++ "\n"

/-- The configuration of a file, and what the file holds after it has been loaded. -/
def load (file : Option String) : Config × String :=
  match file.bind fun content => (ofText? content).map fun c => (c, content) with
  | some loaded => loaded
  | none        => (default, default.text)

end Config

end ZeroWidth
