import ZeroWidth.Proofs.Conversion
import ZeroWidth.Proofs.Coverage

/-!
# Positions in the text

A reader of a text comes by one cursor in front of each character and one at the end. The spans of
whatever is read begin and end at such cursors and are never empty. In assembly text they lie within
one line, although carriage returns at its end are not read.
-/

namespace ZeroWidth

/-! ### Cursors that a reader comes by -/

namespace Cursor

/-- The cursor stands somewhere in the text or at its end. -/
def IsIn (c : Cursor) (text : List Char) : Prop := ∃ before, before <+: text ∧ after before = c

lemma after_concat (before : List Char) (ch : Char) :
    after (before ++ [ch]) = (after before).advance ch := by
  simp [after]

lemma isIn_after (text : List Char) : (after text).IsIn text := ⟨text, List.prefix_rfl, rfl⟩

lemma isIn_of_append (before rest : List Char) : (after before).IsIn (before ++ rest) :=
  ⟨before, List.prefix_append _ _, rfl⟩

/-- Every column of a line, its end included, is come by when the text is read from some cursor. -/
lemma exists_of_line {text line : List Char} {n k : Nat} (hline : (splitLines text)[n]? = some line)
    (hk : k ≤ line.length) (here : Cursor) :
    ∃ before, before <+: text ∧ before.foldl advance here =
      ⟨here.line + n, (if n = 0 then here.column else 0) + k⟩ := by
  induction text generalizing n line k here with
  | nil =>
    cases n with
    | zero =>
      cases hline
      obtain rfl : k = 0 := by simpa using hk
      exact ⟨[], List.prefix_rfl, rfl⟩
    | succ n => simp [splitLines] at hline
  | cons ch rest ih =>
    obtain ⟨part, parts, hparts⟩ := List.exists_cons_of_ne_nil (splitAtEach_ne_nil '\n' rest)
    have hrest : splitLines rest = part :: parts := hparts
    rw [hrest] at ih
    rw [splitLines, splitAtEach_cons, hparts, consPart] at hline
    split at hline
    · rename_i hch
      subst hch
      cases n with
      | zero =>
        cases hline
        obtain rfl : k = 0 := by simpa using hk
        exact ⟨[], List.nil_prefix, rfl⟩
      | succ n =>
        obtain ⟨before, hbefore, hafter⟩ := ih hline hk (here.advance '\n')
        refine ⟨'\n' :: before, List.cons_prefix_cons.mpr ⟨rfl, hbefore⟩, ?_⟩
        rw [List.foldl_cons, hafter]
        simp [Nat.add_assoc, Nat.add_comm 1]
    · rename_i hch
      cases n with
      | zero =>
        cases hline
        cases k with
        | zero => exact ⟨[], List.nil_prefix, rfl⟩
        | succ k =>
          have hk' : k ≤ part.length := by simpa using hk
          obtain ⟨before, hbefore, hafter⟩ := ih (n := 0) rfl hk' (here.advance ch)
          refine ⟨ch :: before, List.cons_prefix_cons.mpr ⟨rfl, hbefore⟩, ?_⟩
          rw [List.foldl_cons, hafter, advance_of_ne_newline hch]
          simp [Nat.add_assoc, Nat.add_comm 1]
      | succ n =>
        obtain ⟨before, hbefore, hafter⟩ := ih (n := n + 1) hline hk (here.advance ch)
        refine ⟨ch :: before, List.cons_prefix_cons.mpr ⟨rfl, hbefore⟩, ?_⟩
        rw [List.foldl_cons, hafter, advance_of_ne_newline hch]
        simp

lemma isIn_of_line {text line : List Char} {n k : Nat} (hline : (splitLines text)[n]? = some line)
    (hk : k ≤ line.length) : (⟨n, k⟩ : Cursor).IsIn text := by
  obtain ⟨before, hbefore, hafter⟩ := exists_of_line hline hk origin
  refine ⟨before, hbefore, hafter.trans ?_⟩
  simp [origin]

end Cursor

namespace Span

/-- The span is a stretch of the text that is not empty. -/
structure PointsInto (s : Span) (text : List Char) : Prop where
  lt    : s.start < s.stop
  start : s.start.IsIn text
  stop  : s.stop.IsIn text

/-- The span is a stretch of one line of the text that is not empty. -/
structure WithinLine (s : Span) (text line : List Char) : Prop where
  isLine : (splitLines text)[s.start.line]? = some line
  same   : s.stop.line = s.start.line
  lt     : s.start.column < s.stop.column
  le     : s.stop.column ≤ line.length

lemma WithinLine.pointsInto {s : Span} {text line : List Char} (h : s.WithinLine text line) :
    s.PointsInto text where
  lt    := Or.inr ⟨h.same.symm, h.lt⟩
  start := Cursor.isIn_of_line h.isLine (Nat.le_of_lt (Nat.lt_of_lt_of_le h.lt h.le))
  stop  := Cursor.isIn_of_line (h.same ▸ h.isLine) h.le

end Span

/-! ### Symbols -/

namespace Spelled

variable {d : Dialect} {item : Item} {stop : Cursor} {gs : List Glyph} {found : List Item}

lemma isIn_of_mem_glyphs (before : List Char) {rest : List Char} {g : Glyph}
    (hg : g ∈ glyphs d (Cursor.after before) rest) :
    g.start.IsIn (before ++ rest) ∧ g.stop.IsIn (before ++ rest) := by
  induction rest generalizing before with
  | nil => cases hg
  | cons ch rest ih =>
    simp only [glyphs, ← Cursor.after_concat] at hg
    rw [List.append_cons]
    split at hg
    · rcases List.mem_cons.mp hg with rfl | hg
      · refine ⟨?_, Cursor.isIn_of_append _ _⟩
        rw [← List.append_cons]
        exact Cursor.isIn_of_append _ _
      · exact ih _ hg
    · exact ih _ hg

/-- An item ends where a glyph does, or where the text does. -/
lemma Tiles.exists_stop (h : Tiles stop gs found) (hitem : item ∈ found) :
    item.span.stop = stop ∨ ∃ g ∈ gs, item.span.stop = g.stop := by
  induction h with
  | nil => cases hitem
  | leftover _ hspan _ =>
    obtain rfl := List.mem_singleton.mp hitem
    exact Or.inl (by rw [hspan])
  | cons _ hlast hspan _ _ ih =>
    rcases List.mem_cons.mp hitem with rfl | hitem
    · exact Or.inr ⟨_, List.mem_append_left _ (List.mem_of_getLast? hlast), by rw [hspan]⟩
    · exact (ih hitem).imp_right fun ⟨g, hg, hstop⟩ => ⟨g, List.mem_append_right _ hg, hstop⟩

lemma pointsInto_of_mem_items {text : List Char} (hitem : item ∈ items d text) :
    item.span.PointsInto text := by
  have htiles := tiles_items d text
  have hglyphs : ∀ g ∈ glyphs d Cursor.origin text, g.start.IsIn text ∧ g.stop.IsIn text :=
    fun g hg => isIn_of_mem_glyphs [] hg
  refine ⟨htiles.start_lt_stop (inRow_glyphs d Cursor.origin text) hitem, ?_, ?_⟩
  · obtain ⟨g, hg, hstart⟩ := htiles.exists_start hitem
    exact hstart ▸ (hglyphs g hg).1
  · rcases htiles.exists_stop hitem with hstop | ⟨g, hg, hstop⟩
    · exact hstop ▸ Cursor.isIn_after text
    · exact hstop ▸ (hglyphs g hg).2

end Spelled

/-! ### Lines of assembly text -/

namespace Assembly

variable {definitions : Definitions} {place : LinePlace} {s : Span} {ls : List Lexeme}

/-- Where a statement stands, if it is an operation or a fault. -/
def Statement.span? : Statement → Option Span
  | .perform op => some op.span
  | .reject e   => some e.span
  | _           => none

def Piece.start : Piece → Nat
  | .lexeme l            => l.start
  | .unrecognized column => column

/-- A piece starts in front of the end of the text. -/
lemma start_lt_of_mem_piecesFrom {first : Nat} {text : List Char} {piece : Piece}
    (hpiece : piece ∈ piecesFrom first text) : piece.start < first + text.length := by
  induction text using stretch_induction generalizing first with
  | nil => simp at hpiece
  | takes run rest cut htakes ih =>
    have hpos := List.length_pos_iff.mpr htakes.ne_nil
    rw [htakes.piecesFrom] at hpiece
    rw [List.length_append]
    rcases List.mem_append.mp hpiece with hpiece | hpiece
    · have hstart : piece.start = first := by
        cases cut with
        | skipped => cases hpiece
        | unrecognized | token t => rw [List.mem_singleton.mp hpiece]; rfl
      omega
    · have := ih hpiece
      omega

lemma start_lt_of_mem_pieces {text : List Char} {piece : Piece} (hpiece : piece ∈ pieces text) :
    piece.start < text.length := by
  have hlt := start_lt_of_mem_piecesFrom (piecesFrom_zero text ▸ hpiece)
  rwa [Nat.zero_add] at hlt

lemma start_of_readInstruction (h : (readInstruction place ls).span? = some s) :
    ∃ l ∈ ls, s = place.toEnd l.start := by
  cases ls with
  | nil => cases h
  | cons head arguments =>
    refine ⟨head, List.mem_cons_self, ?_⟩
    simp only [readInstruction] at h
    split at h
    · exact (Option.some.inj h).symm
    · split at h <;> exact (Option.some.inj h).symm

lemma start_of_readPragma {pragma : String} {span : Span}
    (h : (readPragma definitions place pragma span ls).span? = some s) :
    s = span ∨ ∃ l ∈ ls, s = place.toEnd l.start := by
  unfold readPragma at h
  split at h
  · exact Or.inl (Option.some.inj h).symm
  split at h
  · rename_i key value rest
    split at h
    · split at h
      · cases h
      · exact Or.inl (Option.some.inj h).symm
    · split at h
      · exact Or.inl (Option.some.inj h).symm
      · split at h
        · obtain ⟨l, hl, rfl⟩ := start_of_readInstruction h
          exact Or.inr ⟨l, List.mem_cons_of_mem _ (List.mem_cons_of_mem _ hl), rfl⟩
        · cases h
  · exact Or.inl (Option.some.inj h).symm

lemma mem_of_lexemes_error {line : List Piece} {column : Nat} (h : lexemes line = .error column) :
    Piece.unrecognized column ∈ line := by
  induction line with
  | nil => cases h
  | cons piece line ih =>
    cases piece with
    | unrecognized column' =>
      cases h
      exact List.mem_cons_self
    | lexeme l =>
      rw [lexemes] at h
      cases hrest : lexemes line with
      | ok ls =>
        rw [hrest] at h
        cases h
      | error column' =>
        rw [hrest] at h
        cases h
        exact List.mem_cons_of_mem _ (ih hrest)

/-- Whatever a line says is said from one of its pieces to its end. -/
lemma start_of_readLine {line : List Piece}
    (h : (readLine definitions place line).span? = some s) :
    ∃ piece ∈ line, s = place.toEnd piece.start := by
  unfold readLine at h
  split at h
  · rename_i column hcolumn
    exact ⟨_, mem_of_lexemes_error hcolumn, (Option.some.inj h).symm⟩
  · cases h
  · rename_i head rest hlexemes
    have hmem : ∀ l ∈ head :: rest, Piece.lexeme l ∈ line := fun l hl => mem_of_lexemes hlexemes hl
    split at h
    · rcases start_of_readPragma h with rfl | ⟨l, hl, rfl⟩
      · exact ⟨_, hmem head List.mem_cons_self, rfl⟩
      · exact ⟨_, hmem l (List.mem_cons_of_mem _ hl), rfl⟩
    · obtain ⟨l, hl, rfl⟩ := start_of_readInstruction h
      exact ⟨_, hmem l hl, rfl⟩

lemma length_trimReturns_le (line : List Char) : (trimReturns line).length ≤ line.length := by
  rw [trimReturns, List.length_reverse]
  exact (List.dropWhile_sublist _).length_le.trans_eq List.length_reverse

/-- Whatever is said in lines is said within one of them. -/
lemma exists_line_of_mem_statementsOf {known : Known} {number : Nat} {lines : List (List Char)}
    {statement : Statement} (hstatement : statement ∈ statementsOf known number lines)
    (hs : statement.span? = some s) :
    ∃ k line, lines[k]? = some line ∧ ∃ start stop, s = Span.onLine (number + k) start stop ∧
      start < stop ∧ stop ≤ line.length := by
  induction lines generalizing known number with
  | nil => cases hstatement
  | cons line lines ih =>
    rw [statementsOf_cons] at hstatement
    rcases List.mem_cons.mp hstatement with rfl | hstatement
    · obtain ⟨piece, hpiece, rfl⟩ := start_of_readLine hs
      have hlt := start_lt_of_mem_pieces hpiece
      exact ⟨0, line, rfl, _, _, rfl, hlt, length_trimReturns_le line⟩
    · obtain ⟨k, line', hline', start, stop, rfl, hbounds⟩ := ih hstatement
      refine ⟨k + 1, line', hline', start, stop, ?_, hbounds⟩
      rw [Nat.add_assoc, Nat.add_comm 1]

lemma withinLine_of_mem_readStatements {text : List Char} {statement : Statement}
    (hstatement : statement ∈ readStatements text) (hs : statement.span? = some s) :
    ∃ line, s.WithinLine text line := by
  obtain ⟨k, line, hline, start, stop, rfl, hlt, hle⟩ :=
    exists_line_of_mem_statementsOf hstatement hs
  rw [Nat.zero_add]
  exact ⟨line, hline, rfl, hlt, hle⟩

end Assembly

/-! ### Programs that have been read -/

lemma exists_op_of_mem_redefinitions {seen : List Label} {ops : List Operation} {e : ParseError}
    (he : e ∈ redefinitions seen ops) : ∃ op ∈ ops, op.span = e.span := by
  induction ops generalizing seen with
  | nil => cases he
  | cons op ops ih =>
    have hlater : ∀ {seen}, e ∈ redefinitions seen ops → ∃ op' ∈ op :: ops, op'.span = e.span :=
      fun he => (ih he).imp fun _ hop => ⟨List.mem_cons_of_mem _ hop.1, hop.2⟩
    rw [redefinitions] at he
    split at he
    · exact hlater he
    · split at he
      · rcases List.mem_cons.mp he with rfl | he
        · exact ⟨op, List.mem_cons_self, rfl⟩
        · exact hlater he
      · exact hlater he

/-- Faults about labels are reported where an operation stands. -/
lemma exists_op_of_mem_labelErrors {ops : List Operation} {e : ParseError}
    (he : e ∈ labelErrors ops) : ∃ op ∈ ops, op.span = e.span := by
  rcases List.mem_append.mp he with he | he
  · exact exists_op_of_mem_redefinitions he
  · obtain ⟨op, hop, he⟩ := List.mem_filterMap.mp he
    refine ⟨op, hop, ?_⟩
    split at he
    · cases he
    · split at he
      · cases he
      · exact congrArg ParseError.span (Option.some.inj he)

/-- The spans of all operations and of all faults have a property. -/
structure Program.Spanned (p : Program) (P : Span → Prop) : Prop where
  operations : ∀ op ∈ p.operations, P op.span
  errors     : ∀ e ∈ p.errors, P e.span

lemma Program.spanned_finish {P : Span → Prop} {ops : List Operation} {errors : List ParseError}
    (v : Vocabulary) (hops : ∀ op ∈ ops, P op.span) (herrors : ∀ e ∈ errors, P e.span) :
    (Program.finish ops v errors).Spanned P := by
  refine ⟨hops, List.forall_mem_append.mpr ⟨herrors, fun e he => ?_⟩⟩
  obtain ⟨op, hop, hspan⟩ := exists_op_of_mem_labelErrors he
  exact hspan ▸ hops op hop

lemma Assembly.spanned_read (source : String) :
    (read source).Spanned fun s => ∃ line, s.WithinLine source.toList line := by
  refine Program.spanned_finish _ (fun op hop => ?_) fun e he => ?_
  · obtain ⟨statement, hstatement, hop⟩ := List.mem_filterMap.mp hop
    refine withinLine_of_mem_readStatements hstatement ?_
    cases statement <;> cases hop
    rfl
  · obtain ⟨statement, hstatement, he⟩ := List.mem_filterMap.mp he
    refine withinLine_of_mem_readStatements hstatement ?_
    cases statement <;> cases he
    rfl

lemma Spelled.spanned_read (d : Dialect) (source : String) :
    (read d source).Spanned fun s => s.PointsInto source.toList := by
  have hresults : ∀ result ∈ results d source, (resultSpan result).PointsInto source.toList := by
    intro result hresult
    have hspan := List.mem_map_of_mem (f := resultSpan) hresult
    rw [results, ← map_resultSpan_readItems] at hspan
    obtain ⟨item, hitem, hspan⟩ := List.mem_map.mp hspan
    exact hspan ▸ pointsInto_of_mem_items hitem
  refine Program.spanned_finish _ (fun op hop => ?_) fun e he => ?_
  · obtain ⟨result, hresult, hop⟩ := List.mem_filterMap.mp hop
    cases result <;> cases hop
    exact hresults _ hresult
  · obtain ⟨result, hresult, he⟩ := List.mem_filterMap.mp he
    cases result <;> cases he
    exact hresults _ hresult

/-- Operations and faults that are read point into the text. -/
lemma Surface.spanned_read (S : Surface) (source : String) :
    (S.read source).Spanned fun s => s.PointsInto source.toList := by
  cases S with
  | nossembly =>
    obtain ⟨hops, herrors⟩ := Assembly.spanned_read source
    exact ⟨fun op hop => (hops op hop).elim fun _ h => h.pointsInto,
      fun e he => (herrors e he).elim fun _ h => h.pointsInto⟩
  | nospace => exact Spelled.spanned_read _ source
  | whitespace => exact Spelled.spanned_read _ source

end ZeroWidth
