import ZeroWidth.Build.Basic

/-!
# Rendering a check for a terminal

Each finding is shown with its kind, its message and its place; for assembly text the line is
quoted, with carets under the stretch that is meant. The other surfaces have nothing worth quoting.
A summary on one line comes last.
-/

namespace ZeroWidth

inductive Colour where
  | red
  | green
  | blue
  | bold
  | boldRed
  | boldYellow
deriving DecidableEq

/-- The parameters of the escape sequence that switches a colour on. -/
def Colour.code : Colour → String
  | red        => "31"
  | green      => "32"
  | blue       => "34"
  | bold       => "1"
  | boldRed    => "1;31"
  | boldYellow => "1;33"

/-- Whether a terminal shows colours. -/
inductive Style where
  | plain
  | coloured
deriving DecidableEq

def Style.paint : Style → Colour → String → String
  | plain,    _,      text => text
  | coloured, colour, text => "\x1b[" ++ colour.code ++ "m" ++ text ++ "\x1b[0m"

inductive Level where
  | error
  | warning
deriving DecidableEq

def Level.paint (style : Style) : Level → String
  | error   => style.paint .boldRed "error"
  | warning => style.paint .boldYellow "warning"

/-- As many copies of a character as asked for. -/
def repeated (n : Nat) (c : Char) : String := String.ofList (List.replicate n c)

/-- The number of carets under a quoted line: at least one, and none past the line of the start. -/
def caretCount (span : Span) (line : String) : Nat :=
  max 1 ((if span.stop.line = span.start.line then span.stop.column else line.length)
    - span.start.column)

/-- The line a span starts in, with carets under the span. -/
def snippet (style : Style) (span : Span) (line : String) : List String :=
  let number := toString (span.start.line + 1)
  let margin := repeated number.length ' '
  let bar := style.paint .blue "|"
  [ margin ++ " " ++ bar,
    style.paint .blue number ++ " " ++ bar ++ " " ++ line,
    margin ++ " " ++ bar ++ " " ++ repeated span.start.column ' '
      ++ style.paint .red (repeated (caretCount span line) '^') ]

/-- The lines about one finding. -/
def entry (style : Style) (document : Document) (quoting : Bool) (level : Level) (f : Finding) :
    List String :=
  let head := level.paint style ++ style.paint .bold ("[" ++ f.kind ++ "]") ++ ": " ++ f.message
  let place := "  " ++ style.paint .blue "-->" ++ " " ++ document.locate f.span.start
  let quote := if quoting then document.line? f.span.start.line else none
  head :: place :: (quote.map (snippet style f.span)).getD []

namespace CheckedSource

/-- What a check came to, on one line. -/
def summary (style : Style) (c : CheckedSource) : String :=
  let name := if c.document.pathText.isEmpty then "<source>" else c.document.pathText
  let status := if c.isOk then style.paint .green "ok" else style.paint .red "failed"
  "check " ++ name ++ " ... " ++ status ++ " (" ++ toString c.errors.length ++ " errors, "
    ++ toString c.warnings.length ++ " warnings)"

/-- Everything there is to say about a source: errors, warnings, summary. -/
def render (style : Style) (c : CheckedSource) : String :=
  let quoting := decide (c.surface = .nossembly)
  let lines := c.errors.flatMap (entry style c.document quoting .error)
    ++ c.warnings.flatMap (entry style c.document quoting .warning)
    ++ [c.summary style]
  String.join (lines.map (· ++ "\n"))

end CheckedSource

end ZeroWidth
