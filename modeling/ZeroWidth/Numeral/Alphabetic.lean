/-!
# Alphabetic numerals

Names invented for things that have none are numbers in base 26 with the digits `A` to `Z`: `A`,
`B`, … `Z`, `BA`, `BB`, …
-/

namespace ZeroWidth.Alphabetic

/-- The letter of a digit below 26. -/
def digit (d : Nat) : Char := Char.ofNat ('A'.toNat + d)

/-- The letters of a number, the highest digit first. -/
def letters (n : Nat) : List Char :=
  if n < 26 then [digit n] else letters (n / 26) ++ [digit (n % 26)]
termination_by n
decreasing_by omega

def text (n : Nat) : String := String.ofList (letters n)

end ZeroWidth.Alphabetic
