/-!
# Cutting texts

A text is cut at every occurrence of a character, which belongs to no part.
-/

namespace ZeroWidth

/-- Puts one more character in front of a text that is cut already. -/
def consPart (mark ch : Char) (parts : List (List Char)) : List (List Char) :=
  if ch = mark then [] :: parts
  else match parts with
    | []           => [[ch]]
    | part :: rest => (ch :: part) :: rest

/-- The parts of a text between the marks. There is always one part more than there are marks. -/
def splitAtEach (mark : Char) (text : List Char) : List (List Char) :=
  text.foldr (consPart mark) [[]]

/-- The lines of a text. A final newline opens an empty line. -/
def splitLines (text : List Char) : List (List Char) := splitAtEach '\n' text

@[simp]
theorem splitAtEach_nil (mark : Char) : splitAtEach mark [] = [[]] := rfl

@[simp]
theorem splitAtEach_cons (mark ch : Char) (text : List Char) :
    splitAtEach mark (ch :: text) = consPart mark ch (splitAtEach mark text) := rfl

theorem splitAtEach_ne_nil (mark : Char) (text : List Char) : splitAtEach mark text ≠ [] := by
  cases text with
  | nil => simp
  | cons ch rest =>
    rw [splitAtEach_cons]
    unfold consPart
    split
    · simp
    · split <;> simp

end ZeroWidth
