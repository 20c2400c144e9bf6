/-!
# Characters of TOML

What the readers of the parts of a TOML document share: classes of characters, newlines, digits and
their value. Each reader takes what it knows from the front of a text and gives the rest.
-/

namespace ZeroWidth.Toml

/-- What a reader takes from a text, and what it leaves. -/
abbrev Reader (α : Type) := List Char → Option (α × List Char)

def isBlank (c : Char) : Bool := c = ' ' || c = '\t'

/-- Characters that may stand in no comment and in no string. -/
def isControl (c : Char) : Bool := (c.toNat < 0x20 && c ≠ '\t') || c.toNat = 0x7f

/-- What follows a character at the front of a text. -/
def char? (c : Char) : List Char → Option (List Char)
  | d :: rest => if c = d then some rest else none
  | []        => none

/-- What follows a newline at the front of a text. A carriage return alone is none. -/
def newline? : List Char → Option (List Char)
  | '\n' :: rest         => some rest
  | '\r' :: '\n' :: rest => some rest
  | _                    => none

def skipBlanks (text : List Char) : List Char := text.dropWhile isBlank

/-- What follows the blanks and newlines at the front of a text. -/
def skipBlankLines : List Char → List Char
  | '\r' :: '\n' :: rest => skipBlankLines rest
  | c :: rest            => if isBlank c || c = '\n' then skipBlankLines rest else c :: rest
  | []                   => []

/-! ### Digits -/

def isHexDigit (c : Char) : Bool :=
  c.isDigit || ('a' ≤ c && c ≤ 'f') || ('A' ≤ c && c ≤ 'F')

def digitValue (c : Char) : Nat :=
  if c.isDigit then c.toNat - '0'.toNat
  else if 'a' ≤ c then c.toNat - 'a'.toNat + 10
  else c.toNat - 'A'.toNat + 10

/-- The value of digits in a base. -/
def valueOf (base : Nat) (digits : List Char) : Nat :=
  digits.foldl (fun value c => base * value + digitValue c) 0

/-- Takes exactly so many decimal digits and gives their value. -/
def digits? (count : Nat) : Reader Nat := fun text =>
  let digits := text.take count
  if digits.length = count && digits.all Char.isDigit then
    some (valueOf 10 digits, text.drop count)
  else none

end ZeroWidth.Toml
