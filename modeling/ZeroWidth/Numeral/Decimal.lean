import ZeroWidth.Numeral.Word

/-!
# Decimal numerals

Numbers in assembly text are decimal: an optional sign and at least one digit, with as many leading
zeros as one likes. They are printed without a plus sign and without leading zeros.
-/

namespace ZeroWidth.Decimal

def digit? (c : Char) : Option Nat := if c.isDigit then some (c.toNat - '0'.toNat) else none

/-- One step of reading digits: what stands before a digit counts ten times. -/
def addDigit (value : Nat) (c : Char) : Option Nat := (digit? c).map (10 * value + ·)

/-- The value of at least one decimal digit. -/
def natural? (digits : List Char) : Option Nat :=
  if digits.isEmpty then none else digits.foldlM addDigit 0

/-- The value of digits with an optional sign. -/
def integer? : List Char → Option Int
  | '-' :: digits => (natural? digits).map fun n => -(n : Int)
  | '+' :: digits => (natural? digits).map fun n => (n : Int)
  | digits        => (natural? digits).map fun n => (n : Int)

/-- Reads a text as a number of 64 bits. -/
def word? (text : String) : Option Int64 := (integer? text.toList).bind toWord?

def text (n : Int64) : String := toString n.toInt

end ZeroWidth.Decimal
