import ZeroWidth.Proofs.Positions
import ZeroWidth.Source.Document

/-!
# Cursors and the lines of a document

A place in a text is known in two ways: by a cursor that is moved over the text one character at a
time, and by the lines that the whole text is cut into. The two agree at every place. The line of
the cursor is the one that is being read there, and its column counts what has been read of it.
Cursors grow along the text, so that none stands for two places.
-/

namespace ZeroWidth

/-! ### The first line of a text -/

/-- The first part of a text runs up to the first mark. -/
lemma splitAtEach_eq_takeWhile_cons (mark : Char) (text : List Char) :
    splitAtEach mark text = text.takeWhile (· ≠ mark) :: (splitAtEach mark text).tail := by
  induction text with
  | nil => rfl
  | cons ch rest ih =>
    rw [splitAtEach_cons, consPart.eq_def]
    by_cases h : ch = mark
    · simp [h]
    · rw [if_neg h, ih]
      simp [h]

/-- A character that is no mark leaves all parts but the first as they are. -/
lemma tail_splitAtEach_cons {mark ch : Char} (h : ch ≠ mark) (text : List Char) :
    (splitAtEach mark (ch :: text)).tail = (splitAtEach mark text).tail := by
  rw [splitAtEach_cons, consPart.eq_def, if_neg h, splitAtEach_eq_takeWhile_cons mark text]
  rfl

namespace Cursor

/-! ### What a cursor has passed -/

/-- The text holds `lines` and, behind them, a part of one more line. The cursor behind the text
counts them, and they are cut off in the same way whatever the text goes on with. -/
structure Passes (before : List Char) (lines : List (List Char)) (part : List Char) : Prop where
  cursor : after before = ⟨lines.length, part.length⟩
  split  : ∀ rest, splitLines (before ++ rest) =
    lines ++ (part ++ rest.takeWhile (· ≠ '\n')) :: (splitLines rest).tail

namespace Passes

variable {before part : List Char} {lines : List (List Char)}

lemma nil : Passes [] [] [] := ⟨rfl, splitAtEach_eq_takeWhile_cons '\n'⟩

/-- A newline ends the line. -/
lemma newline (h : Passes before lines part) : Passes (before ++ ['\n']) (lines ++ [part]) [] where
  cursor := by
    rw [after_concat, h.cursor, advance_newline, List.length_append]
    rfl
  split rest := by
    have htail : (splitLines ('\n' :: rest)).tail = splitLines rest := rfl
    rw [List.append_assoc, List.singleton_append, h.split, htail, List.append_assoc,
      List.takeWhile_cons_of_neg (by simp), List.append_nil, List.nil_append]
    exact congrArg (fun parts => lines ++ part :: parts) (splitAtEach_eq_takeWhile_cons '\n' rest)

/-- Any other character belongs to the line. -/
lemma other (h : Passes before lines part) {ch : Char} (hch : ch ≠ '\n') :
    Passes (before ++ [ch]) lines (part ++ [ch]) where
  cursor := by
    rw [after_concat, h.cursor, advance_of_ne_newline hch, List.length_append]
    rfl
  split rest := by
    have htail : (splitLines (ch :: rest)).tail = (splitLines rest).tail :=
      tail_splitAtEach_cons hch rest
    rw [List.append_assoc, List.singleton_append, h.split, htail, List.append_assoc,
      List.takeWhile_cons_of_pos (by simpa using hch), List.singleton_append]

end Passes

/-- The tracker and the cut into lines stay in step, one character after the other. -/
lemma exists_passes (before : List Char) : ∃ lines part, Passes before lines part := by
  induction before using List.reverseRecOn with
  | nil => exact ⟨[], [], .nil⟩
  | append_singleton before ch ih =>
    obtain ⟨lines, part, h⟩ := ih
    by_cases hch : ch = '\n'
    · subst hch
      exact ⟨lines ++ [part], [], h.newline⟩
    · exact ⟨lines, part ++ [ch], h.other hch⟩

/-- The cursor stands in a line of the text, behind what has been read of it and in front of what
has not. -/
lemma exists_line_of_after (before rest : List Char) :
    ∃ part, (after before).column = part.length ∧
      (splitLines (before ++ rest))[(after before).line]? =
        some (part ++ rest.takeWhile (· ≠ '\n')) := by
  obtain ⟨lines, part, h⟩ := exists_passes before
  refine ⟨part, by rw [h.cursor], ?_⟩
  rw [h.split, h.cursor, List.getElem?_append_right le_rfl, Nat.sub_self]
  rfl

/-! ### Cursors along a text -/

/-- Every character leaves the cursor in front of it behind. -/
lemma after_lt_after {before longer : List Char} (h : before <+: longer)
    (hlt : before.length < longer.length) : after before < after longer := by
  obtain ⟨rest, rfl⟩ := h
  cases rest with
  | nil => simp at hlt
  | cons ch rest =>
    have hafter : after (before ++ ch :: rest) =
        rest.foldl advance ((after before).advance ch) := by
      rw [after, List.foldl_append]
      rfl
    rw [hafter]
    exact lt_of_lt_of_le (lt_advance _ ch) (le_foldl_advance _ rest)

/-- No two places of a text have the same cursor. -/
lemma after_injOn {text before other : List Char} (h : before <+: text) (hother : other <+: text)
    (heq : after other = after before) : other = before := by
  rcases Nat.lt_trichotomy before.length other.length with hlt | hlength | hlt
  · have := after_lt_after (List.prefix_of_prefix_length_le h hother hlt.le) hlt
    exact absurd (heq ▸ this) (lt_irrefl _)
  · exact (List.prefix_of_prefix_length_le hother h hlength.ge).eq_of_length hlength.symm
  · have := after_lt_after (List.prefix_of_prefix_length_le hother h hlt.le) hlt
    exact absurd (heq ▸ this) (lt_irrefl _)

/-- Cursors and the line index agree. Wherever a text is divided, the document has the line that the
cursor behind the first part names, and the line is what stands in front of the column followed by
the rest of the text up to a newline. A character that is no newline and comes next is the one at
the column. The cursors of two different places of the text differ, and the later place has the
greater one. -/
theorem after_indexes_lines (path : Option String) (before rest : List Char) :
    (∃ line, (Document.ofText path (String.ofList (before ++ rest))).line? (after before).line =
        some line ∧
      (after before).column ≤ line.toList.length ∧
      line.toList.take (after before).column ++ rest.takeWhile (· ≠ '\n') = line.toList ∧
      ∀ ch ∈ rest.head?, ch ≠ '\n' → line.toList[(after before).column]? = some ch) ∧
    (∀ other, other <+: before ++ rest → other ≠ before → after other ≠ after before) ∧
    ∀ longer, longer <+: before ++ rest → before.length < longer.length →
      after before < after longer := by
  have hbefore : before <+: before ++ rest := List.prefix_append _ _
  refine ⟨?_, fun other hother hne heq => hne (after_injOn hbefore hother heq), ?_⟩
  · obtain ⟨part, hcolumn, hline⟩ := exists_line_of_after before rest
    refine ⟨String.ofList (part ++ rest.takeWhile (· ≠ '\n')), ?_, ?_, ?_, ?_⟩
    · simp only [Document.line?, Document.ofText, String.toList_ofList, List.getElem?_map, hline,
        Option.map_some]
    · simp [hcolumn]
    · simp [hcolumn]
    · intro ch hch hne
      obtain ⟨tail, rfl⟩ : ∃ tail, rest = ch :: tail := by
        cases rest with
        | nil => cases hch
        | cons c tail =>
          cases hch
          exact ⟨tail, rfl⟩
      simp [hcolumn, hne]
  · intro longer hlonger hlt
    exact after_lt_after (List.prefix_of_prefix_length_le hbefore hlonger hlt.le) hlt

end Cursor

end ZeroWidth
