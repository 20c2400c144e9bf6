/-!
# Symbols

Programs are spelled in four symbols. Three of them move the machine; the fourth, `x`, only occurs
in annotations for the checker. A symbol has a readable letter, an invisible character and, apart
from `x`, a blank. A dialect says which characters of a text are read as symbols and how a symbol is
written; every other character is a comment.
-/

namespace ZeroWidth

inductive Symbol where
  | s
  | t
  | n
  | x
deriving DecidableEq

namespace Symbol

/-- The readable letter of a symbol. -/
def letter : Symbol → Char
  | s => 's'
  | t => 't'
  | n => 'n'
  | x => 'x'

def ofLetter? : Char → Option Symbol
  | 's' => some s
  | 't' => some t
  | 'n' => some n
  | 'x' => some x
  | _   => none

/-- The zero-width character of a symbol. -/
def invisible : Symbol → Char
  | s => '\u200b'
  | t => '\u200c'
  | n => '\u200d'
  | x => '\u2060'

/-- The visible blank of a symbol, which `x` has none of. -/
def blank? : Symbol → Option Char
  | s => some ' '
  | t => some '\t'
  | n => some '\n'
  | x => none

def ofBlank? : Char → Option Symbol
  | ' '  => some s
  | '\t' => some t
  | '\n' => some n
  | _    => none

/-- The letters of a string of symbols. -/
def letters (symbols : List Symbol) : String := String.ofList (symbols.map letter)

/-- The symbols of a string that holds their letters only. -/
def ofLetters? (text : String) : Option (List Symbol) := text.toList.mapM ofLetter?

@[simp]
theorem ofLetter?_letter (a : Symbol) : ofLetter? a.letter = some a := by
  cases a <;> rfl

@[simp]
theorem toList_letters (symbols : List Symbol) :
    (letters symbols).toList = symbols.map letter := by
  simp [letters]

end Symbol

/-- The two ways to spell a program in symbols. -/
inductive Dialect where
  /-- Zero-width characters; blanks are read as well. -/
  | nospace
  /-- Blanks only, so that `x` cannot be spelled. -/
  | whitespace
deriving DecidableEq

namespace Dialect

/-- The symbol a character stands for, if it is not a comment. -/
def read? : Dialect → Char → Option Symbol
  | nospace, '\u200b' => some .s
  | nospace, '\u200c' => some .t
  | nospace, '\u200d' => some .n
  | nospace, '\u2060' => some .x
  | _,       ch       => Symbol.ofBlank? ch

/-- The character a symbol is written as. -/
def write? : Dialect → Symbol → Option Char
  | nospace,    a => some a.invisible
  | whitespace, a => a.blank?

/-- Respells a string of letters. What is no letter, or has no spelling, is left out. -/
def respell (d : Dialect) (letters : String) : String :=
  String.ofList ((letters.toList.filterMap Symbol.ofLetter?).filterMap d.write?)

/-- What is written is read back. -/
theorem read?_of_write? {d : Dialect} {a : Symbol} {ch : Char} (h : d.write? a = some ch) :
    d.read? ch = some a := by
  cases d <;> cases a <;> simp_all [write?, Symbol.invisible, Symbol.blank?] <;> subst h <;> rfl

end Dialect

end ZeroWidth
