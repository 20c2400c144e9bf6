import ZeroWidth.Symbol
import ZeroWidth.Numeral.Word

/-!
# Binary numerals

A number is spelled as a sign (`s` for plus, `t` for minus), its binary digits from the highest on
(`s` for zero, `t` for one) and the terminator `n`. Zero is written with one digit. Reading is more
liberal: the terminator may be missing, zeros may lead, and a bare sign is zero.
-/

namespace ZeroWidth.Binary

/-- The symbol of a binary digit. -/
def bit (d : Nat) : Symbol := if d = 0 then .s else .t

/-- The binary digits of a number, the highest first; zero has one digit. -/
def digits (n : Nat) : List Symbol :=
  if n < 2 then [bit n] else digits (n / 2) ++ [bit (n % 2)]
termination_by n
decreasing_by omega

def sign (v : Int) : Symbol := if v < 0 then .t else .s

/-- The spelling of an integer: sign, digits, terminator. -/
def encode (v : Int) : List Symbol := sign v :: digits v.natAbs ++ [.n]

/-- The letters of the spelling of an integer. -/
def code (v : Int) : String := Symbol.letters (encode v)

/-- What a digit counts. -/
def bit? : Char → Option UInt64
  | 's' => some 0
  | 't' => some 1
  | _   => none

/-- One step of reading digits: what stands before a digit counts double. -/
def addDigit (value : UInt64) (c : Char) : Option UInt64 := do
  let bit ← bit? c
  let double ← checkedMul value 2
  checkedAdd double bit

/-- The value of digits, or none if another letter is among them or the value does not fit. -/
def value? (digits : List Char) : Option UInt64 := digits.foldlM addDigit 0

def sign? : Char → Option Bool
  | 's' => some false
  | 't' => some true
  | _   => none

/-- A spelling without its terminator, if it has one. -/
def dropTerminator (letters : List Char) : List Char :=
  if letters.getLast? = some 'n' then letters.dropLast else letters

/-- A sign and a word, in twice as many bits. The smallest number has a magnitude that only fits
without sign. -/
def signed (negative : Bool) (magnitude : UInt64) : BitVec 128 :=
  let wide := magnitude.toBitVec.setWidth 128
  if negative then -wide else wide

/-- Reads letters as a number of 64 bits; stray letters and larger numbers are refused. -/
def decode? (letters : List Char) : Option Int64 :=
  match dropTerminator letters with
  | []            => none
  | head :: digits => do
    let negative ← sign? head
    let magnitude ← value? digits
    toWord? (signed negative magnitude).toInt

end ZeroWidth.Binary
