import ZeroWidth.Toml.Lexical

/-!
# TOML strings

Strings stand between one kind of quote or the other, on one line or, between three quotes, on
several. Double quotes allow escapes. Control characters other than the tab may stand in none.
-/

namespace ZeroWidth.Toml

/-- The character with the code that the first so many hexadecimal digits give. -/
def codePoint? (count : Nat) : Reader Char := fun text =>
  let digits := text.take count
  let code := valueOf 16 digits
  if digits.length = count && digits.all isHexDigit && code.isValidChar then
    some (Char.ofNat code, text.drop count)
  else none

/-- What a backslash and the text behind it stand for. -/
def escape? : Reader Char
  | 'b' :: rest  => some ('\x08', rest)
  | 't' :: rest  => some ('\t', rest)
  | 'n' :: rest  => some ('\n', rest)
  | 'f' :: rest  => some ('\x0c', rest)
  | 'r' :: rest  => some ('\r', rest)
  | 'e' :: rest  => some ('\x1b', rest)
  | '\"' :: rest => some ('\"', rest)
  | '\\' :: rest => some ('\\', rest)
  | 'x' :: rest  => codePoint? 2 rest
  | 'u' :: rest  => codePoint? 4 rest
  | 'U' :: rest  => codePoint? 8 rest
  | _            => none

/-- A string with escapes, from behind its opening quote on; `read` is what has been read. -/
def basic? : (fuel : Nat) → (read : List Char) → Reader String
  | 0,        _,    _            => none
  | _ + 1,    _,    []           => none
  | _ + 1,    read, '\"' :: rest => some (String.ofList read.reverse, rest)
  | fuel + 1, read, '\\' :: rest => do
    let (c, rest) ← escape? rest
    basic? fuel (c :: read) rest
  | fuel + 1, read, c :: rest    => if isControl c then none else basic? fuel (c :: read) rest

/-- A string without escapes, from behind its opening quote on. -/
def literal? (text : List Char) : Option (String × List Char) :=
  let body := text.takeWhile fun c => c ≠ '\'' && !isControl c
  match text.dropWhile fun c => c ≠ '\'' && !isControl c with
  | '\'' :: rest => some (String.ofList body, rest)
  | _            => none

/-- How a string on several lines goes on behind its closing quotes: two more belong to it. -/
def closing (quote : Char) (read rest : List Char) : String × List Char :=
  match rest with
  | c :: d :: more =>
    if c = quote && d = quote then (String.ofList (d :: c :: read).reverse, more)
    else if c = quote then (String.ofList (c :: read).reverse, d :: more)
    else (String.ofList read.reverse, rest)
  | [c] =>
    if c = quote then (String.ofList (c :: read).reverse, [])
    else (String.ofList read.reverse, rest)
  | [] => (String.ofList read.reverse, [])

/-- A string on several lines, from behind its opening quotes on. -/
def multiline? (quote : Char) (escapes : Bool) : (fuel : Nat) → (read : List Char) → Reader String
  | 0,        _,    _    => none
  | fuel + 1, read, text =>
    match newline? text with
    | some rest => multiline? quote escapes fuel ('\n' :: read) rest
    | none      =>
      match text with
      | []        => none
      | c :: rest =>
        if c = quote && rest.take 2 = [quote, quote] then some (closing quote read (rest.drop 2))
        else if c = '\\' && escapes then
          -- A backslash at the end of a line takes all blanks and newlines behind it away.
          if (newline? (skipBlanks rest)).isSome then
            multiline? quote escapes fuel read (skipBlankLines rest)
          else do
            let (e, rest) ← escape? rest
            multiline? quote escapes fuel (e :: read) rest
        else if isControl c then none
        else multiline? quote escapes fuel (c :: read) rest

/-- A string on one line. -/
def lineString? : Reader String
  | '\"' :: rest => basic? (rest.length + 1) [] rest
  | '\'' :: rest => literal? rest
  | _            => none

/-- A string of any kind. A newline right behind the opening quotes of a long one is dropped. -/
def string? (text : List Char) : Option (String × List Char) :=
  match text with
  | '\"' :: '\"' :: '\"' :: rest =>
    multiline? '\"' true (rest.length + 1) [] ((newline? rest).getD rest)
  | '\'' :: '\'' :: '\'' :: rest =>
    multiline? '\'' false (rest.length + 1) [] ((newline? rest).getD rest)
  | _ => lineString? text

end ZeroWidth.Toml
