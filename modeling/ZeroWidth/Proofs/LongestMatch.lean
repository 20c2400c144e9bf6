import ZeroWidth.Proofs.Pragmas

/-!
# Lines of assembly are tiled by their lexemes

A text is cut by four patterns: blanks and comments, which are skipped, and pragmas and words, which
are tokens. At every place the longest stretch that has one of the patterns is taken. On a line this
goes on to the end, since the newline is the only character that begins none of them. The lexemes
then lie one behind the other, each between the columns where its text stands, and all else is blank
up to a comment. The tokens are found again if they are written with single blanks between them.
-/

namespace ZeroWidth.Assembly

/-! ### Patterns -/

/-- The kinds of stretches that a text is cut into. -/
inductive Pattern where
  | blanks
  | comment
  | pragma
  | word

namespace Pattern

/-- The stretches of each kind. -/
inductive Matches : Pattern → List Char → Prop
  | blanks {run : List Char} (hne : run ≠ []) (hrun : ∀ c ∈ run, isBlank c = true) :
      Matches .blanks run
  | comment {run : List Char} (hhead : ∀ c ∈ run.head?, c.isAlpha = false) (hrun : '\n' ∉ run) :
      Matches .comment ('#' :: run)
  | pragma {c : Char} {run : List Char} (hc : c.isAlpha = true)
      (hrun : ∀ d ∈ run, isPragmaChar d = true) : Matches .pragma ('#' :: c :: run)
  | word {run : List Char} (hne : run ≠ []) (hrun : ∀ c ∈ run, isWordChar c = true) :
      Matches .word run

/-- What a stretch that begins in column `first` contributes to the pieces of the text. -/
def pieces : Pattern → (first : Nat) → List Char → List Piece
  | .pragma, first, run => [.lexeme ⟨.pragma (String.ofList run), first, first + run.length⟩]
  | .word,   first, run => [.lexeme ⟨.word (String.ofList run), first, first + run.length⟩]
  | _,       _,     _   => []

/-- The text begins with a stretch of the kind, and with no longer one of any kind. -/
structure Longest (p : Pattern) (run rest : List Char) : Prop where
  isMatch : p.Matches run
  longest : ∀ {q : Pattern} {other : List Char}, q.Matches other → other <+: run ++ rest →
    other.length ≤ run.length

variable {p q : Pattern} {c : Char} {run rest text : List Char}

lemma Matches.ne_nil (h : p.Matches run) : run ≠ [] := by
  cases h with
  | blanks hne | word hne => exact hne
  | comment | pragma => exact List.cons_ne_nil _ _

/-- No stretch begins with a newline. -/
lemma Matches.ne_newline (h : p.Matches (c :: run)) : c ≠ '\n' := by
  rintro rfl
  cases h with
  | blanks _ hrun => exact absurd (hrun '\n' List.mem_cons_self) (by decide)
  | word _ hrun => exact absurd (hrun '\n' List.mem_cons_self) (by decide)

/-- Every other character is a stretch by itself. -/
lemma exists_matches (h : c ≠ '\n') : ∃ p : Pattern, p.Matches [c] := by
  by_cases hblank : isBlank c = true
  · exact ⟨.blanks, .blanks (List.cons_ne_nil _ _) (by simpa using hblank)⟩
  · by_cases hhash : c = '#'
    · subst hhash
      exact ⟨.comment, .comment (by simp) (by simp)⟩
    · have hword := isWordChar_iff.mpr ⟨Bool.eq_false_of_not_eq_true hblank, h, hhash⟩
      exact ⟨.word, .word (List.cons_ne_nil _ _) (by simpa using hword)⟩

/-- Where something can be taken, something longest can be taken. -/
lemma Matches.exists_longest (h : p.Matches run) (hrun : run <+: text) :
    ∃ p run rest, text = run ++ rest ∧ Longest p run rest := by
  -- A longer stretch leaves less of the text.
  induction hleft : text.length - run.length using Nat.strong_induction_on generalizing p run with
  | _ left ih =>
    obtain ⟨rest, rfl⟩ := hrun
    by_cases hlongest : Longest p run rest
    · exact ⟨p, run, rest, rfl, hlongest⟩
    · have hlonger : ∃ q other, Matches q other ∧ other <+: run ++ rest ∧
          run.length < other.length := by
        by_contra hnone
        refine hlongest ⟨h, fun {q other} hother hle => ?_⟩
        by_contra hlt
        exact hnone ⟨q, other, hother, hle, Nat.lt_of_not_le hlt⟩
      obtain ⟨q, other, hother, hle, hlt⟩ := hlonger
      have := hle.length_le
      exact ih _ (by omega) hother hle rfl

/-- What is taken cannot be taken together with the next character. -/
lemma Longest.not_matches (h : p.Longest run rest) (hc : c ∈ rest.head?) :
    ¬ q.Matches (run ++ [c]) := by
  intro hmatches
  obtain ⟨tail, rfl⟩ : ∃ tail, rest = c :: tail := List.head?_eq_some_iff.mp hc
  have := h.longest hmatches ⟨tail, by simp⟩
  simp at this

/-- A comment stops at a newline only. -/
lemma Longest.eq_newline (h : Longest .comment run rest) (hc : c ∈ rest.head?) : c = '\n' := by
  by_contra hnewline
  cases h.isMatch with
  | @comment run hhead hrun =>
    have hline : '\n' ∉ run ++ [c] := by simp [hrun, Ne.symm hnewline]
    cases run with
    | nil =>
      -- Behind a lone `#`, a letter would begin a pragma, and anything else the comment.
      by_cases hletter : c.isAlpha = true
      · exact h.not_matches hc (.pragma hletter (by simp))
      · exact h.not_matches hc (.comment (by simpa using hletter) hline)
    | cons d run => exact h.not_matches hc (.comment hhead hline)

end Pattern

/-! ### The longest match is taken -/

variable {p : Pattern} {run rest text line : List Char} {first : Nat} {ps : List Piece}
  {ls : List Lexeme}

/-- Blanks are taken one by one. -/
lemma piecesFrom_blanks (hrun : ∀ c ∈ run, isBlank c = true) (first : Nat) (rest : List Char) :
    piecesFrom first (run ++ rest) = piecesFrom (first + run.length) rest := by
  induction run generalizing first with
  | nil => rfl
  | cons c run ih =>
    have hblank : Takes [c] (run ++ rest) .skipped := .blank (hrun c List.mem_cons_self)
    calc piecesFrom first (c :: run ++ rest)
      _ = piecesFrom (first + 1) (run ++ rest) := hblank.piecesFrom first
      _ = piecesFrom (first + 1 + run.length) rest :=
        ih (fun c hc => hrun c (List.mem_cons_of_mem _ hc)) (first + 1)
      _ = piecesFrom (first + (c :: run).length) rest := by
        rw [List.length_cons, Nat.add_assoc, Nat.add_comm 1]

/-- What is longest is what the scanner takes. -/
lemma piecesFrom_of_longest (h : p.Longest run rest) (first : Nat) :
    piecesFrom first (run ++ rest) =
      p.pieces first run ++ piecesFrom (first + run.length) rest := by
  cases h.isMatch with
  | blanks hne hrun => exact piecesFrom_blanks hrun first rest
  | comment hhead hrun =>
    exact (Takes.comment hhead hrun fun c hc => h.eq_newline hc).piecesFrom first
  | pragma hd hrun =>
    refine (Takes.pragma hd hrun fun c hc => ?_).piecesFrom first
    by_contra hpragma
    refine h.not_matches hc (.pragma hd (List.forall_mem_append.mpr ⟨hrun, ?_⟩))
    simpa using hpragma
  | word hne hrun =>
    refine (Takes.word hne hrun fun c hc => ?_).piecesFrom first
    by_contra hword
    refine h.not_matches hc (.word (by simp) (List.forall_mem_append.mpr ⟨hrun, ?_⟩))
    simpa using hword

lemma piecesFrom_newline (first : Nat) (rest : List Char) :
    piecesFrom first ('\n' :: rest) = .unrecognized first :: piecesFrom (first + 1) rest :=
  Takes.newline.piecesFrom first

/-- The pieces of a text whose first character stands at `first`, if the longest match is taken
wherever there is one. -/
inductive Lexed : (first : Nat) → List Char → List Piece → Prop
  | nil {first : Nat} : Lexed first [] []
  | longest {first : Nat} {p : Pattern} {run rest : List Char} {ps : List Piece}
      (h : p.Longest run rest) (hrest : Lexed (first + run.length) rest ps) :
      Lexed first (run ++ rest) (p.pieces first run ++ ps)
  | unrecognized {first : Nat} {c : Char} {rest : List Char} {ps : List Piece}
      (h : ∀ (p : Pattern) (run : List Char), p.Matches run → ¬ run <+: c :: rest)
      (hrest : Lexed (first + 1) rest ps) : Lexed first (c :: rest) (.unrecognized first :: ps)

lemma Lexed.eq_piecesFrom (h : Lexed first text ps) : ps = piecesFrom first text := by
  induction h with
  | nil => rw [piecesFrom_nil]
  | longest h hrest ih => rw [piecesFrom_of_longest h, ih]
  | @unrecognized first c rest ps h hrest ih =>
    have hnewline : c = '\n' := by
      by_contra hc
      obtain ⟨p, hp⟩ := Pattern.exists_matches hc
      exact h p [c] hp ⟨rest, rfl⟩
    subst hnewline
    rw [piecesFrom_newline, ih]

lemma lexed_piecesFrom (first : Nat) (text : List Char) :
    Lexed first text (piecesFrom first text) := by
  -- The scanner skips blanks one by one, so the induction is on what is left and not on its steps.
  induction hlength : text.length using Nat.strong_induction_on generalizing first text with
  | _ length ih =>
    subst hlength
    cases text with
    | nil =>
      rw [piecesFrom_nil]
      exact .nil
    | cons c tail =>
      by_cases hc : c = '\n'
      · subst hc
        rw [piecesFrom_newline]
        refine .unrecognized (fun p run hp hrun => ?_) (ih _ (Nat.lt_succ_self _) _ _ rfl)
        obtain ⟨d, run, rfl⟩ := List.exists_cons_of_ne_nil hp.ne_nil
        exact hp.ne_newline (List.cons_prefix_cons.mp hrun).1
      · obtain ⟨q, hq⟩ := Pattern.exists_matches hc
        obtain ⟨p, run, rest, htext, hlongest⟩ := hq.exists_longest ⟨tail, rfl⟩
        have hpos := List.length_pos_iff.mpr hlongest.isMatch.ne_nil
        rw [List.singleton_append] at htext
        rw [htext, piecesFrom_of_longest hlongest]
        refine .longest hlongest (ih _ ?_ _ _ rfl)
        rw [htext, List.length_append]
        omega

/-- The pieces of a text are those of the longest matches. -/
lemma lexed_iff : Lexed first text ps ↔ ps = piecesFrom first text :=
  ⟨Lexed.eq_piecesFrom, fun h => h ▸ lexed_piecesFrom first text⟩

/-! ### Tiles of a line -/

/-- The character at a column belongs to the lexeme. -/
def Lexeme.Covers (l : Lexeme) (column : Nat) : Prop := l.start ≤ column ∧ column < l.stop

/-- A `#` that no letter follows, and all that stands behind it. -/
def IsComment (text : List Char) : Prop :=
  ∃ behind, text = '#' :: behind ∧ ∀ c ∈ behind.head?, c.isAlpha = false

/-- From column `first` on, the lexemes lie in the text one behind the other, each where its own
text stands. Up to some column all characters between them are blanks, and from there on there is
nothing or a comment. -/
structure Tiles (text : List Char) (first : Nat) (ls : List Lexeme) : Prop where
  extent   : ∀ l ∈ ls, first ≤ l.start ∧ l.start < l.stop ∧ l.stop ≤ text.length
  disjoint : ls.Pairwise fun l l' => l.stop ≤ l'.start
  slice    : ∀ l ∈ ls, (text.drop l.start).take (l.stop - l.start) = l.text.toList
  between  : ∃ stop, first ≤ stop ∧ (∀ l ∈ ls, l.stop ≤ stop) ∧
    (∀ column c, first ≤ column → column < stop → text[column]? = some c →
      (∀ l ∈ ls, ¬ l.Covers column) → isBlank c = true) ∧
    (text.drop stop = [] ∨ IsComment (text.drop stop))

namespace Tiles

/-- A line may end, or a comment begin. -/
lemma nil (h : line.drop first = [] ∨ IsComment (line.drop first)) : Tiles line first [] where
  extent   := by simp
  disjoint := .nil
  slice    := by simp
  between  := ⟨first, le_rfl, by simp, fun column c hle hlt => absurd hlt (Nat.not_lt.mpr hle), h⟩

/-- Blanks may stand in front of lexemes. -/
lemma blanks (h : Tiles line (first + run.length) ls) (hdrop : line.drop first = run ++ rest)
    (hrun : ∀ c ∈ run, isBlank c = true) : Tiles line first ls where
  extent   := fun l hl => (h.extent l hl).imp_left Nat.le_of_add_right_le
  disjoint := h.disjoint
  slice    := h.slice
  between  := by
    obtain ⟨stop, hfirst, hstop, hblank, hend⟩ := h.between
    refine ⟨stop, Nat.le_of_add_right_le hfirst, hstop, ?_, hend⟩
    intro column c hle hlt hc huncovered
    by_cases hinside : column < first + run.length
    · obtain ⟨k, rfl⟩ := Nat.exists_eq_add_of_le hle
      rw [← List.getElem?_drop, hdrop, List.getElem?_append_left (by omega)] at hc
      exact hrun c (List.mem_of_getElem? hc)
    · exact hblank column c (Nat.le_of_not_lt hinside) hlt hc huncovered

/-- A token may stand in front of lexemes. -/
lemma cons (h : Tiles line (first + run.length) ls) (hdrop : line.drop first = run ++ rest)
    (hne : run ≠ []) {token : Token} (htext : token.text.toList = run) :
    Tiles line first (⟨token, first, first + run.length⟩ :: ls) where
  extent   := by
    have hpos := List.length_pos_iff.mpr hne
    have hlength := congrArg List.length hdrop
    rw [List.length_drop, List.length_append] at hlength
    refine List.forall_mem_cons.mpr ⟨⟨le_rfl, ?_, ?_⟩, fun l hl => ?_⟩
    · dsimp only
      omega
    · dsimp only
      omega
    · exact (h.extent l hl).imp_left Nat.le_of_add_right_le
  disjoint := List.pairwise_cons.mpr ⟨fun l hl => (h.extent l hl).1, h.disjoint⟩
  slice    := by
    refine List.forall_mem_cons.mpr ⟨?_, h.slice⟩
    rw [hdrop, Nat.add_sub_cancel_left, List.take_left]
    exact htext.symm
  between  := by
    obtain ⟨stop, hfirst, hstop, hblank, hend⟩ := h.between
    refine ⟨stop, Nat.le_of_add_right_le hfirst, List.forall_mem_cons.mpr ⟨hfirst, hstop⟩, ?_, hend⟩
    intro column c hle hlt hc huncovered
    obtain ⟨hhere, huncovered⟩ := List.forall_mem_cons.mp huncovered
    have hbehind : first + run.length ≤ column :=
      Nat.le_of_not_lt fun hinside => hhere ⟨hle, hinside⟩
    exact hblank column c hbehind hlt hc huncovered

end Tiles

/-- Where the longest matches are taken from a line, there are lexemes only, and they tile it. -/
lemma Lexed.exists_tiles (h : Lexed first text ps) (hdrop : line.drop first = text)
    (hline : '\n' ∉ text) : ∃ ls : List Lexeme, ps = ls.map .lexeme ∧ Tiles line first ls := by
  induction h with
  | nil => exact ⟨[], rfl, .nil (Or.inl hdrop)⟩
  | @longest first p run rest ps h hrest ih =>
    have hbehind : line.drop (first + run.length) = rest := by
      rw [← List.drop_drop, hdrop, List.drop_left]
    obtain ⟨ls, rfl, htiles⟩ := ih hbehind fun hmem => hline (List.mem_append_right _ hmem)
    cases h.isMatch with
    | blanks hne hrun => exact ⟨ls, rfl, htiles.blanks hdrop hrun⟩
    | @comment run hhead hrun =>
      have hnil : rest = [] := by
        cases rest with
        | nil => rfl
        | cons c tail =>
          have hmem : c ∈ '#' :: run ++ c :: tail := List.mem_append_right _ List.mem_cons_self
          exact absurd (h.eq_newline rfl ▸ hmem) hline
      subst hnil
      have hpieces := hrest.eq_piecesFrom
      rw [piecesFrom_nil, List.map_eq_nil_iff] at hpieces
      rw [List.append_nil] at hdrop
      exact ⟨[], by rw [hpieces]; rfl, .nil (Or.inr ⟨run, hdrop, hhead⟩)⟩
    | pragma hc hrun =>
      exact ⟨_ :: ls, rfl, htiles.cons hdrop (List.cons_ne_nil _ _) String.toList_ofList⟩
    | word hne hrun => exact ⟨_ :: ls, rfl, htiles.cons hdrop hne String.toList_ofList⟩
  | @unrecognized first c rest ps h hrest ih =>
    obtain ⟨p, hp⟩ := Pattern.exists_matches fun hc : c = '\n' => hline (hc ▸ List.mem_cons_self)
    exact absurd ⟨rest, rfl⟩ (h p [c] hp)

/-! ### Whole texts -/

variable {definitions : Definitions} {place : LinePlace} {e : ParseError}

lemma recognized_of_readInstruction (h : readInstruction place ls = .reject e) :
    e.fault ≠ .unrecognizedInput := by
  cases ls with
  | nil => cases h
  | cons head arguments =>
    simp only [readInstruction] at h
    split at h
    · cases h
      simp
    · split at h
      · cases h
      · rename_i fault hfault
        cases h
        rintro rfl
        cases kind_of_readArguments hfault

lemma recognized_of_readPragma {pragma : String} {span : Span}
    (h : readPragma definitions place pragma span ls = .reject e) :
    e.fault ≠ .unrecognizedInput := by
  unfold readPragma at h
  split at h
  · cases h
    simp
  split at h
  · split at h
    · split at h <;> cases h
      simp
    · split at h
      · cases h
        simp
      · split at h
        · exact recognized_of_readInstruction h
        · cases h
  · cases h
    simp

/-- Lines hold nothing that is unrecognized. -/
lemma recognized_of_mem_statementsOf {known : Known} {number : Nat} {lines : List (List Char)}
    (hlines : ∀ line ∈ lines, '\n' ∉ line)
    (h : .reject e ∈ statementsOf known number lines) : e.fault ≠ .unrecognizedInput := by
  induction lines generalizing known number with
  | nil => cases h
  | cons line lines ih =>
    obtain ⟨hline, hlines⟩ := List.forall_mem_cons.mp hlines
    rw [statementsOf_cons] at h
    rcases List.mem_cons.mp h with h | h
    · obtain ⟨ls, hpieces, -⟩ := exists_lexemes_of_notMem hline
      rw [statementOf, hpieces, readLine, lexemes_map] at h
      cases ls with
      | nil => cases h
      | cons head rest =>
        obtain ⟨token, start, stop⟩ := head
        cases token with
        | word text => exact recognized_of_readInstruction h.symm
        | pragma text => exact recognized_of_readPragma h.symm
    · exact ih hlines h

lemma recognized_of_mem_errors {source : String} (h : e ∈ (read source).errors) :
    e.fault ≠ .unrecognizedInput := by
  rw [errors_read] at h
  rcases List.mem_append.mp h with h | h
  · obtain ⟨statement, hstatement, he⟩ := List.mem_filterMap.mp h
    cases statement <;> cases he
    exact recognized_of_mem_statementsOf (fun _ hline => notMem_of_mem_splitAtEach hline) hstatement
  · have hlabels := isAboutLabels_of_mem_labelErrors h
    intro heq
    rw [heq] at hlabels
    cases hlabels

/-- Lexing tiles every line. The pieces of a line are those that taking the longest match gives, and
they are lexemes only. Each is scanned at its own bytes, whose offsets are the columns of as many
characters. The lexemes are not empty, lie one behind the other, each where its text stands, and
leave only blanks and a comment at the end. If their texts are written with single blanks between
them, the same tokens are found again. So nothing in a text is ever unrecognized. -/
theorem pieces_tile {line : List Char} (h : '\n' ∉ line) :
    (∀ ps, Lexed 0 line ps ↔ ps = pieces line) ∧
    (∀ l, .lexeme l ∈ scan 0 line → ∃ before behind, line = before ++ l.text.toList ++ behind ∧
      l.start = byteLength before ∧ l.stop = byteLength (before ++ l.text.toList) ∧
      column line l.start = before.length ∧
      column line l.stop = (before ++ l.text.toList).length) ∧
    (∃ ls : List Lexeme, pieces line = ls.map .lexeme ∧ Tiles line 0 ls ∧
      ∃ again : List Lexeme, pieces (spaced (ls.map Lexeme.token)) = again.map .lexeme ∧
        again.map Lexeme.token = ls.map Lexeme.token) ∧
    ∀ source, ∀ e ∈ (read source).errors, e.fault ≠ .unrecognizedInput := by
  refine ⟨fun ps => ?_, fun l hl => ?_, ?_, fun source e he => recognized_of_mem_errors he⟩
  · rw [lexed_iff, piecesFrom_zero]
  · obtain ⟨before, behind, hline, hstart, hstop⟩ := liesIn_of_mem_scan [] hl
    refine ⟨before, behind, hline, hstart, hstop, ?_, ?_⟩
    · rw [hstart, show line = before ++ (l.text.toList ++ behind) by simpa using hline,
        column_byteLength]
    · rw [hstop, show line = before ++ l.text.toList ++ behind from hline, column_byteLength]
  · obtain ⟨ls, hls, htiles⟩ := (lexed_piecesFrom 0 line).exists_tiles (List.drop_zero ..) h
    rw [piecesFrom_zero] at hls
    have hlegal : ∀ token ∈ ls.map Lexeme.token, token.Legal := by
      refine List.forall_mem_map.mpr fun l hl => ?_
      have hmem : .lexeme l ∈ pieces line := hls ▸ List.mem_map_of_mem hl
      exact legal_of_mem_pieces hmem
    obtain ⟨again, hagain⟩ := exists_pieces_eq_map (notMem_spaced hlegal).1
    have htokens := filterMap_pieces_spaced hlegal
    rw [hagain, filterMap_token?_map] at htokens
    exact ⟨ls, hls, htiles, again, hagain, htokens⟩

/-- Lexemes that touch, a character of several bytes with a lexeme behind it, and a comment that
looks like a pragma. -/
def touching : List Char := "Pop#if\té Dup#9 #a".toList

theorem pieces_tile_touching :
    '\n' ∉ touching ∧
    scan 0 touching =
      [⟨.word "Pop", 0, 3⟩, ⟨.pragma "#if", 3, 6⟩, ⟨.word "é", 7, 9⟩,
        ⟨.word "Dup", 10, 13⟩].map .lexeme ∧
    pieces touching =
      [⟨.word "Pop", 0, 3⟩, ⟨.pragma "#if", 3, 6⟩, ⟨.word "é", 7, 8⟩,
        ⟨.word "Dup", 9, 12⟩].map .lexeme ∧
    (∀ ps, Lexed 0 touching ps ↔ ps = pieces touching) ∧
    (∀ l, .lexeme l ∈ scan 0 touching → ∃ before behind,
      touching = before ++ l.text.toList ++ behind ∧
      l.start = byteLength before ∧ l.stop = byteLength (before ++ l.text.toList) ∧
      column touching l.start = before.length ∧
      column touching l.stop = (before ++ l.text.toList).length) ∧
    (∃ ls : List Lexeme, pieces touching = ls.map .lexeme ∧ Tiles touching 0 ls ∧
      ∃ again : List Lexeme, pieces (spaced (ls.map Lexeme.token)) = again.map .lexeme ∧
        again.map Lexeme.token = ls.map Lexeme.token) ∧
    ∀ source, ∀ e ∈ (read source).errors, e.fault ≠ .unrecognizedInput := by
  have hline : '\n' ∉ touching := by decide
  exact ⟨hline, by decide +kernel, by decide +kernel, pieces_tile hline⟩

end ZeroWidth.Assembly
