import ZeroWidth.Toml.Moment
import ZeroWidth.Toml.Number
import ZeroWidth.Toml.Value

/-!
# TOML scalars

Booleans, numbers, dates and times are written without quotes, up to a blank or a mark that ends
them.
-/

namespace ZeroWidth.Toml

/-- Characters that end a value. -/
def endsScalar (c : Char) : Bool :=
  isBlank c || c = '\n' || c = '\r' || c = ',' || c = ']' || c = '}' || c = '#'

/-- The longest text without such a character; a date takes the time behind a blank with it. -/
def scalarToken (text : List Char) : List Char × List Char :=
  let token := text.takeWhile fun c => !endsScalar c
  let rest := text.dropWhile fun c => !endsScalar c
  match rest with
  | ' ' :: more =>
    if date? token = some [] && (digits? 2 more).isSome then
      (token ++ ' ' :: more.takeWhile fun c => !endsScalar c,
        more.dropWhile fun c => !endsScalar c)
    else (token, rest)
  | _ => (token, rest)

def bareScalar? (token : List Char) : Option Value :=
  if token = ['t', 'r', 'u', 'e'] then some (.boolean true)
  else if token = ['f', 'a', 'l', 's', 'e'] then some (.boolean false)
  else match integer? token with
    | some v => some (.integer v)
    | none   =>
      if isFloat token then some (.float (String.ofList token))
      else if isMoment token then some (.moment (String.ofList token))
      else none

end ZeroWidth.Toml
