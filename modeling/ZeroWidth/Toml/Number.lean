import ZeroWidth.Toml.Lexical

/-!
# TOML numbers

Integers are decimal, hexadecimal, octal or binary, floats decimal with a point, an exponent or
both. Single underscores may stand between digits. A number too large to be held is refused: an
integer by a word of 128 bits, with or without a sign, a float by a double.
-/

namespace ZeroWidth.Toml

/-- Digits with single underscores between them, taken without the underscores. -/
def grouped? (isDigit : Char → Bool) : List Char → Option (List Char)
  | []               => none
  | [c]              => if isDigit c then some [c] else none
  | c :: '_' :: rest => if isDigit c then (grouped? isDigit rest).map (c :: ·) else none
  | c :: rest        => if isDigit c then (grouped? isDigit rest).map (c :: ·) else none

/-- Decimal digits without a leading zero. -/
def decimal? (token : List Char) : Option (List Char) :=
  match grouped? Char.isDigit token with
  | some ('0' :: _ :: _) => none
  | digits               => digits

/-- A token without its sign, and whether that is a minus. -/
def unsigned : List Char → Bool × List Char
  | '-' :: rest => (true, rest)
  | '+' :: rest => (false, rest)
  | token       => (false, token)

/-- The integer of a sign and digits. -/
def signedValue (negative : Bool) (digits : List Char) : Int :=
  if negative then -(valueOf 10 digits : Int) else valueOf 10 digits

/-! ### Integers -/

/-- The value of an integer of any size. Only decimal ones have a sign. -/
def anyInteger? (token : List Char) : Option Int :=
  match token with
  | '0' :: 'x' :: digits => (grouped? isHexDigit digits).map fun ds => (valueOf 16 ds : Int)
  | '0' :: 'o' :: digits =>
    (grouped? (fun c => '0' ≤ c && c ≤ '7') digits).map fun ds => (valueOf 8 ds : Int)
  | '0' :: 'b' :: digits =>
    (grouped? (fun c => c = '0' || c = '1') digits).map fun ds => (valueOf 2 ds : Int)
  | _ =>
    let (negative, digits) := unsigned token
    (decimal? digits).map (signedValue negative)

/-- Whether an integer is a word of 128 bits, with or without a sign. -/
def fitsWord (v : Int) : Bool := -(Nat.pow 2 127 : Int) ≤ v && v < (Nat.pow 2 128 : Int)

def integer? (token : List Char) : Option Int := (anyInteger? token).filter fitsWord

/-! ### Floats -/

/-- The number `significand * 10 ^ exponent`. -/
structure Scientific where
  significand : Nat
  exponent    : Int

/-- The least number that is rounded to infinity: it lies half a step above the largest double, and
a tie goes to the even neighbour. -/
def doubleBound : Nat := (Nat.pow 2 54 - 1) * Nat.pow 2 970

/-- Whether a number is rounded to a finite double. The bound has 309 digits, so that the digits of
a number decide unless it has as many before its point. -/
def Scientific.isFinite (x : Scientific) : Bool :=
  let places := (Nat.toDigits 10 x.significand).length + x.exponent
  if x.significand = 0 || places < 309 then true
  else if 309 < places then false
  else match x.exponent with
    | .ofNat e   => x.significand * Nat.pow 10 e < doubleBound
    | .negSucc e => x.significand < doubleBound * Nat.pow 10 (e + 1)

def isExponentMark (c : Char) : Bool := c = 'e' || c = 'E'

/-- The exponent of a float, without its mark. -/
def exponent? (token : List Char) : Option Int :=
  let (negative, digits) := unsigned token
  (grouped? Char.isDigit digits).map (signedValue negative)

/-- The digits behind the point and the exponent. One of the two is there. -/
def fraction? : List Char → Option (List Char × Int)
  | []          => none
  | '.' :: rest => do
    let digits ← grouped? Char.isDigit (rest.takeWhile fun c => !isExponentMark c)
    match rest.dropWhile fun c => !isExponentMark c with
    | []         => some (digits, 0)
    | _ :: token => (exponent? token).map fun exponent => (digits, exponent)
  | _ :: token  => (exponent? token).map fun exponent => ([], exponent)

/-- A float without a sign. -/
def scientific? (token : List Char) : Option Scientific := do
  let inWhole := fun c => c ≠ '.' && !isExponentMark c
  let whole ← decimal? (token.takeWhile inWhole)
  let (fraction, exponent) ← fraction? (token.dropWhile inWhole)
  some ⟨valueOf 10 (whole ++ fraction), exponent - fraction.length⟩

/-- Whether a token is a float. Infinity and not-a-number are, if they are called by name. -/
def isFloat (token : List Char) : Bool :=
  let token := (unsigned token).2
  token = ['i', 'n', 'f'] || token = ['n', 'a', 'n'] ||
    ((scientific? token).map Scientific.isFinite).getD false

end ZeroWidth.Toml
