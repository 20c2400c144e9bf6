/-!
# Lexemes of a line of assembly

A line holds words and pragmas between blanks. A word is a run of anything but blanks and `#`; a
pragma is `#` with an ASCII letter behind it and the letters, digits and underscores that follow;
any other `#` opens a comment, which ends with the line. The longest run is always taken, and
lexemes may touch. A newline belongs to no lexeme. A line is scanned by its bytes; the places of its
lexemes are given as columns, which count characters.
-/

namespace ZeroWidth.Assembly

def isBlank (c : Char) : Bool := c = ' ' || c = '\t' || c = '\r' || c = '\x0c'

/-- Characters that words are made of. -/
def isWordChar (c : Char) : Bool := !isBlank c && c ≠ '\n' && c ≠ '#'

/-- Characters that a pragma goes on with. -/
def isPragmaChar (c : Char) : Bool := c.isAlphanum || c = '_'

inductive Token where
  | word (text : String)
  | pragma (text : String)
deriving DecidableEq

namespace Token

def text : Token → String
  | word text   => text
  | pragma text => text

/-- The token with the class it belongs to. -/
def description : Token → String
  | word text   => "Word(" ++ text ++ ")"
  | pragma text => "Pragma(" ++ text ++ ")"

end Token

/-- A token and the places it stands between. -/
structure Lexeme where
  token : Token
  start : Nat
  stop  : Nat
deriving DecidableEq

def Lexeme.text (l : Lexeme) : String := l.token.text

/-- What a line is cut into: lexemes, and places where none begins. -/
inductive Piece where
  | lexeme (l : Lexeme)
  | unrecognized (place : Nat)
deriving DecidableEq

/-- The piece with its places counted in another way. -/
def Piece.mapPlaces (f : Nat → Nat) : Piece → Piece
  | .lexeme l           => .lexeme ⟨l.token, f l.start, f l.stop⟩
  | .unrecognized place => .unrecognized (f place)

/-- The number of bytes that characters take. -/
def byteLength : List Char → Nat
  | []        => 0
  | c :: rest => c.utf8Size + byteLength rest

theorem length_dropWhile_lt_cons (p : Char → Bool) (c : Char) (rest : List Char) :
    (rest.dropWhile p).length < (c :: rest).length :=
  Nat.lt_succ_of_le (List.dropWhile_sublist p).length_le

/-- The pieces of a text whose first byte stands at `offset`, with their places in bytes. -/
def scan (offset : Nat) : List Char → List Piece
  | []        => []
  | c :: rest =>
    if isBlank c then scan (offset + byteLength [c]) rest
    else if c = '\n' then .unrecognized offset :: scan (offset + byteLength [c]) rest
    else if c = '#' then
      if (rest.head?.map Char.isAlpha).getD false then
        let run := c :: rest.takeWhile isPragmaChar
        let stop := offset + byteLength run
        .lexeme ⟨.pragma (String.ofList run), offset, stop⟩
          :: scan stop (rest.dropWhile isPragmaChar)
      else
        scan (offset + byteLength (c :: rest.takeWhile (· ≠ '\n'))) (rest.dropWhile (· ≠ '\n'))
    else
      let run := c :: rest.takeWhile isWordChar
      let stop := offset + byteLength run
      .lexeme ⟨.word (String.ofList run), offset, stop⟩ :: scan stop (rest.dropWhile isWordChar)
termination_by text => text.length
decreasing_by
  · exact Nat.lt_succ_self _
  · exact Nat.lt_succ_self _
  · exact length_dropWhile_lt_cons _ _ _
  · exact length_dropWhile_lt_cons _ _ _
  · exact length_dropWhile_lt_cons _ _ _

/-- The characters that take the given number of bytes at the start of a text, if it has that many
and none of its characters goes on behind them. -/
def firstBytes? : List Char → Nat → Option (List Char)
  | _,         0     => some []
  | [],        _ + 1 => none
  | c :: rest, n + 1 =>
    if c.utf8Size ≤ n + 1 then (firstBytes? rest (n + 1 - c.utf8Size)).map (c :: ·) else none

/-- The column of a byte of a line: the number of characters before it. A byte inside a character is
a column by itself. -/
def column (line : List Char) (offset : Nat) : Nat :=
  ((firstBytes? line offset).map List.length).getD offset

/-- The pieces of a line, with their places in columns. -/
def pieces (line : List Char) : List Piece := (scan 0 line).map (Piece.mapPlaces (column line))

/-- The lexemes of a line up to its end, or up to the first place where none begins. -/
def lexemes : List Piece → Except Nat (List Lexeme)
  | []                        => .ok []
  | .unrecognized place :: _  => .error place
  | .lexeme l :: rest         => (lexemes rest).map (l :: ·)

end ZeroWidth.Assembly
