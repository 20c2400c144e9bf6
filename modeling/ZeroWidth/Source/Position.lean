/-!
# Positions in a source text

A cursor stands between two characters of a text. Lines and columns count from zero, columns in
characters; only the printed form counts lines from one. Reading a text moves a cursor over it one
character at a time.
-/

namespace ZeroWidth

/-- A place between two characters of a text. -/
structure Cursor where
  line   : Nat
  column : Nat
deriving DecidableEq, Inhabited

namespace Cursor

/-- The beginning of every text. -/
def origin : Cursor := ⟨0, 0⟩

/-- The cursor behind one more character. -/
def advance (c : Cursor) (ch : Char) : Cursor :=
  if ch = '\n' then ⟨c.line + 1, 0⟩ else ⟨c.line, c.column + 1⟩

/-- The cursor behind a whole text. -/
def after (text : List Char) : Cursor := text.foldl advance origin

/-- The cursors a reader of the text passes, the first one in front of the text. -/
def trail (text : List Char) : List Cursor :=
  (text.foldl (fun (here, passed) ch => (here.advance ch, here.advance ch :: passed))
    (origin, [origin])).2.reverse

/-- Cursors are ordered by line, then by column. -/
instance : LT Cursor :=
  ⟨fun a b => a.line < b.line ∨ (a.line = b.line ∧ a.column < b.column)⟩

instance : LE Cursor :=
  ⟨fun a b => a.line < b.line ∨ (a.line = b.line ∧ a.column ≤ b.column)⟩

instance (a b : Cursor) : Decidable (a < b) :=
  inferInstanceAs (Decidable (a.line < b.line ∨ (a.line = b.line ∧ a.column < b.column)))

instance (a b : Cursor) : Decidable (a ≤ b) :=
  inferInstanceAs (Decidable (a.line < b.line ∨ (a.line = b.line ∧ a.column ≤ b.column)))

/-- The printed form has a one-based line and a zero-based column. -/
def text (c : Cursor) : String := toString (c.line + 1) ++ ":" ++ toString c.column

@[simp]
theorem advance_newline (c : Cursor) : c.advance '\n' = ⟨c.line + 1, 0⟩ := rfl

theorem advance_of_ne_newline {ch : Char} (h : ch ≠ '\n') (c : Cursor) :
    c.advance ch = ⟨c.line, c.column + 1⟩ := by
  simp [advance, h]

theorem lt_advance (c : Cursor) (ch : Char) : c < c.advance ch := by
  by_cases h : ch = '\n'
  · subst h
    exact Or.inl (Nat.lt_succ_self _)
  · rw [advance_of_ne_newline h]
    exact Or.inr ⟨rfl, Nat.lt_succ_self _⟩

end Cursor

/-- A stretch of source text, from one cursor to another. -/
structure Span where
  start : Cursor
  stop  : Cursor
deriving DecidableEq, Inhabited

namespace Span

/-- A span within a single line. -/
def onLine (line start stop : Nat) : Span := ⟨⟨line, start⟩, ⟨line, stop⟩⟩

/-- The empty span at the beginning, carried by operations that no text stands behind. -/
def nowhere : Span := ⟨Cursor.origin, Cursor.origin⟩

def text (s : Span) : String := s.start.text ++ " - " ++ s.stop.text

end Span

end ZeroWidth
