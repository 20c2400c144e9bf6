import ZeroWidth.Toml.Lexical

/-!
# TOML dates and times

A moment is a time of day, a date of the Gregorian calendar, or a date and a time, which may have an
offset from universal time.
-/

namespace ZeroWidth.Toml

/-- Takes so many digits, whose value is within bounds. -/
def field? (count low high : Nat) (text : List Char) : Option (List Char) := do
  let (value, rest) ← digits? count text
  if low ≤ value && value ≤ high then some rest else none

def isLeapYear (year : Nat) : Bool := year % 4 = 0 && (year % 100 ≠ 0 || year % 400 = 0)

def daysInMonth (year month : Nat) : Nat :=
  match month with
  | 2               => if isLeapYear year then 29 else 28
  | 4 | 6 | 9 | 11  => 30
  | _               => 31

/-- What follows a date. -/
def date? (text : List Char) : Option (List Char) := do
  let (year, text) ← digits? 4 text
  let text ← char? '-' text
  let (month, text) ← digits? 2 text
  let text ← char? '-' text
  if 1 ≤ month && month ≤ 12 then field? 2 1 (daysInMonth year month) text else none

/-- What follows the fraction of a second, if there is one. -/
def subseconds? : List Char → Option (List Char)
  | '.' :: rest =>
    if (rest.head?.map Char.isDigit).getD false then some (rest.dropWhile Char.isDigit) else none
  | text        => some text

/-- What follows a time of day; the seconds may be missing, and there may be a leap second. -/
def time? (text : List Char) : Option (List Char) := do
  let text ← field? 2 0 23 text
  let text ← char? ':' text
  let text ← field? 2 0 59 text
  match text with
  | ':' :: rest => (field? 2 0 60 rest).bind subseconds?
  | _           => some text

/-- What follows an offset from universal time, if there is one. -/
def offset? : List Char → Option (List Char)
  | 'Z' :: rest | 'z' :: rest => some rest
  | '+' :: rest | '-' :: rest => do
    let rest ← field? 2 0 23 rest
    let rest ← char? ':' rest
    field? 2 0 59 rest
  | text                      => some text

/-- Whether a text is a time, a date, or both with an optional offset. -/
def isMoment (token : List Char) : Bool :=
  time? token = some [] ||
    match date? token with
    | none                => false
    | some []             => true
    | some (mark :: rest) =>
      (mark = 'T' || mark = 't' || mark = ' ') && ((time? rest).bind offset?) = some []

end ZeroWidth.Toml
