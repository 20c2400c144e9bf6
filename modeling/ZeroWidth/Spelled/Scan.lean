import ZeroWidth.Program.Fault

/-!
# Scanning a spelled program

A program spelled in symbols is a string of items: the code of an instruction, followed, if it takes
an argument, by symbols `s` and `t` up to the terminator `n`. The scanner reads symbol by symbol and
never goes back. A run of symbols that is longer than every code is given up, and so is an argument
that has an `x` in it or nothing before its terminator; reading goes on with the next symbol.
-/

namespace ZeroWidth.Spelled

/-- A symbol of a text, with the cursors on both sides of its character. -/
structure Glyph where
  symbol : Symbol
  start  : Cursor
  stop   : Cursor
deriving DecidableEq

/-- The symbols of a text that begins at `here`. -/
def glyphs (dialect : Dialect) (here : Cursor) : List Char → List Glyph
  | []         => []
  | ch :: rest =>
    match dialect.read? ch with
    | some symbol => ⟨symbol, here, here.advance ch⟩ :: glyphs dialect (here.advance ch) rest
    | none        => glyphs dialect (here.advance ch) rest

/-- What the scanner finds. -/
inductive Item where
  /-- An instruction without an argument. -/
  | plain (i : Instruction) (span : Span)
  /-- An instruction and the symbols of its argument, without the terminator. -/
  | applied (i : Instruction) (argument : List Symbol) (span : Span)
  | reject (e : ParseError)
deriving DecidableEq

/-- What the scanner is in the middle of. -/
inductive Mode where
  /-- Symbols that begin a code. -/
  | code (begun : List Symbol)
  /-- An instruction and what has been read of its argument. -/
  | argument (i : Instruction) (begun : List Symbol)
deriving DecidableEq

/-- Nothing has been begun. -/
def Mode.idle : Mode := .code []

/-- Symbols that do not make an item, as a fault. -/
def unknown (symbols : List Symbol) (span : Span) : Item :=
  .reject ⟨.unknownInstruction (Symbol.letters symbols), span⟩

/-- What is left over at the end of the text. -/
def leftover (span : Span) : Mode → List Item
  | .code []            => []
  | .code begun         => [unknown begun span]
  | .argument i begun   => [unknown (i.code ++ begun) span]

/-- One symbol more, with the span of all that has been begun: what is found, if anything, and what
the scanner is in the middle of afterwards. -/
def step (symbol : Symbol) (span : Span) : Mode → Option Item × Mode
  | .code begun =>
    let code := begun ++ [symbol]
    match Instruction.ofCode? code with
    | some i =>
      if i.takesArgument then (none, .argument i []) else (some (.plain i span), .idle)
    | none =>
      if code.length > Instruction.maxCodeLength then (some (unknown code span), .idle)
      else (none, .code code)
  | .argument i begun =>
    match symbol with
    | .x => (some (.reject ⟨.advisoryInArgument i, span⟩), .idle)
    | .n =>
      if begun.isEmpty then (some (.reject ⟨.missingArgument i, span⟩), .idle)
      else (some (.applied i begun span), .idle)
    | digit => (none, .argument i (begun ++ [digit]))

/-- Scans the glyphs up to the end of the text; `start` is where the item begun started. -/
def scan (stop : Cursor) : Mode → (start : Cursor) → List Glyph → List Item
  | mode, start, []     => leftover ⟨start, stop⟩ mode
  | mode, start, g :: gs =>
    let start := if mode = .idle then g.start else start
    match step g.symbol ⟨start, g.stop⟩ mode with
    | (some item, mode) => item :: scan stop mode start gs
    | (none, mode)      => scan stop mode start gs

/-- The items of a whole text. -/
def items (dialect : Dialect) (text : List Char) : List Item :=
  scan (Cursor.after text) .idle Cursor.origin (glyphs dialect Cursor.origin text)

end ZeroWidth.Spelled
