import Mathlib.Data.List.Sort
import ZeroWidth.Proofs.Places

/-!
# Every symbol of a text is accounted for

The scanner cuts the symbols of a text into pieces, one for each item that it finds: what has been
read goes to the item that ends there, and what is left over in the end to a last one. So the spans
of operations and faults lie one behind the other, each symbol is in exactly one of them, and the
symbols in the span of an operation are its code and its argument as it was written.
-/

namespace ZeroWidth

/-! ### Characters in their places -/

namespace Cursor

variable {a b c : Cursor}

lemma le_def : a ≤ b ↔ a.line < b.line ∨ (a.line = b.line ∧ a.column ≤ b.column) := Iff.rfl

lemma le_refl (a : Cursor) : a ≤ a := Or.inr ⟨rfl, Nat.le_refl _⟩

lemma le_of_lt (h : a < b) : a ≤ b := by
  rw [lt_def] at h
  rw [le_def]
  omega

lemma not_le : ¬ a ≤ b ↔ b < a := by
  rw [lt_def, le_def]
  omega

lemma le_trans (hab : a ≤ b) (hbc : b ≤ c) : a ≤ c := by
  rw [le_def] at *
  omega

lemma le_antisymm (hab : a ≤ b) (hba : b ≤ a) : a = b := by
  rcases a with ⟨line, column⟩
  rcases b with ⟨line', column'⟩
  simp only [le_def, mk.injEq] at *
  omega

lemma lt_of_lt_of_le (hab : a < b) (hbc : b ≤ c) : a < c := by
  rw [lt_def, le_def] at *
  omega

lemma lt_of_le_of_lt (hab : a ≤ b) (hbc : b < c) : a < c := by
  rw [lt_def, le_def] at *
  omega

lemma le_foldl_advance (here : Cursor) (text : List Char) : here ≤ text.foldl advance here := by
  induction text generalizing here with
  | nil => exact le_refl here
  | cons ch rest ih => exact le_trans (le_of_lt (here.lt_advance ch)) (ih _)

end Cursor

/-- The characters of a text that begins at `here`, each with the cursor in front of it. -/
def placed (here : Cursor) : List Char → List (Cursor × Char)
  | []         => []
  | ch :: rest => (here, ch) :: placed (here.advance ch) rest

namespace Span

/-- The character behind the cursor lies in the span. -/
def Covers (s : Span) (c : Cursor) : Prop := s.start ≤ c ∧ c < s.stop

instance (s : Span) (c : Cursor) : Decidable (s.Covers c) :=
  inferInstanceAs (Decidable (s.start ≤ c ∧ c < s.stop))

/-- The characters of a text that lie in the span. -/
def slice (s : Span) (text : List Char) : List Char :=
  ((placed Cursor.origin text).filter fun entry => s.Covers entry.1).map Prod.snd

/-- One span ends where the other begins, or before. -/
def Before (s s' : Span) : Prop := s.stop ≤ s'.start

instance : DecidableRel Before := fun s s' => inferInstanceAs (Decidable (s.stop ≤ s'.start))

/-- One span begins where the other does, or before. -/
def startsBy (s s' : Span) : Bool := s.start ≤ s'.start

variable {s s' s'' : Span} {c : Cursor} {spans : List Span}

lemma startsBy_iff : s.startsBy s' = true ↔ s.start ≤ s'.start := by
  simp [startsBy]

lemma startsBy_trans (s s' s'' : Span) (h : s.startsBy s' = true) (h' : s'.startsBy s'' = true) :
    s.startsBy s'' = true :=
  startsBy_iff.mpr (Cursor.le_trans (startsBy_iff.mp h) (startsBy_iff.mp h'))

lemma startsBy_total (s s' : Span) : (s.startsBy s' || s'.startsBy s) = true := by
  rw [Bool.or_eq_true, startsBy_iff, startsBy_iff]
  by_cases h : s.start ≤ s'.start
  · exact Or.inl h
  · exact Or.inr (Cursor.le_of_lt (Cursor.not_le.mp h))

lemma Before.not_covers (h : s.Before s') (hc : s.Covers c) : ¬ s'.Covers c := fun hc' =>
  Cursor.lt_irrefl _ (Cursor.lt_of_lt_of_le hc.2 (Cursor.le_trans h hc'.1))

/-- Of spans that lie one behind the other, no two cover one character. -/
lemma countP_covers (hspans : spans.Pairwise Before) (hs : s ∈ spans) (hc : s.Covers c) :
    spans.countP (fun s => s.Covers c) = 1 := by
  induction hspans with
  | nil => cases hs
  | @cons first spans hfirst _ ih =>
    rcases List.mem_cons.mp hs with rfl | hs
    · have hnone : spans.countP (fun s => s.Covers c) = 0 :=
        List.countP_eq_zero.mpr fun s' hs' => by simpa using (hfirst s' hs').not_covers hc
      simp [hc, hnone]
    · have hnot : ¬ first.Covers c := fun h => (hfirst s hs).not_covers h hc
      simp [hnot, ih hs]

end Span

/-- The spans of the operations and of the faults of a program that concern a place in its text,
in the order in which they begin. -/
def Program.spans (p : Program) : List Span :=
  (p.operations.map Operation.span ++
    (p.errors.filter fun e => !e.fault.isAboutLabels).map ParseError.span).mergeSort Span.startsBy

namespace Spelled

variable {d : Dialect} {stop start : Cursor} {gs done : List Glyph} {mode : Mode} {item : Item}
  {found : List Item}

/-! ### Glyphs in a row -/

/-- Glyphs of a text up to `stop`, one behind the other. -/
structure InRow (stop : Cursor) (gs : List Glyph) : Prop where
  pairwise : gs.Pairwise fun g g' => g.stop ≤ g'.start
  lt       : ∀ g ∈ gs, g.start < g.stop
  le       : ∀ g ∈ gs, g.stop ≤ stop

lemma le_start_of_mem_glyphs {here : Cursor} {text : List Char} {g : Glyph}
    (hg : g ∈ glyphs d here text) : here ≤ g.start := by
  induction text generalizing here with
  | nil => cases hg
  | cons ch rest ih =>
    have hbehind : here ≤ here.advance ch := Cursor.le_of_lt (here.lt_advance ch)
    simp only [glyphs] at hg
    split at hg
    · rcases List.mem_cons.mp hg with rfl | hg
      · exact Cursor.le_refl here
      · exact Cursor.le_trans hbehind (ih hg)
    · exact Cursor.le_trans hbehind (ih hg)

lemma inRow_glyphs (d : Dialect) (here : Cursor) (text : List Char) :
    InRow (text.foldl Cursor.advance here) (glyphs d here text) := by
  induction text generalizing here with
  | nil => exact ⟨.nil, nofun, nofun⟩
  | cons ch rest ih =>
    simp only [glyphs, List.foldl_cons]
    split
    · refine ⟨.cons (fun g hg => le_start_of_mem_glyphs hg) (ih _).pairwise, ?_, ?_⟩
      · exact List.forall_mem_cons.mpr ⟨here.lt_advance ch, (ih _).lt⟩
      · exact List.forall_mem_cons.mpr ⟨Cursor.le_foldl_advance _ rest, (ih _).le⟩
    · exact ih _

/-- A character that is a symbol is a glyph. -/
lemma exists_glyph_of_mem_placed {here : Cursor} {text : List Char} {entry : Cursor × Char}
    (hentry : entry ∈ placed here text) (hsymbol : (d.read? entry.2).isSome = true) :
    ∃ g ∈ glyphs d here text, g.start = entry.1 := by
  induction text generalizing here with
  | nil => cases hentry
  | cons ch rest ih =>
    rcases List.mem_cons.mp hentry with rfl | hentry
    · obtain ⟨symbol, hread⟩ := Option.isSome_iff_exists.mp hsymbol
      exact ⟨⟨symbol, here, here.advance ch⟩, by simp [glyphs, hread], rfl⟩
    · obtain ⟨g, hg, hstart⟩ := ih hentry
      refine ⟨g, ?_, hstart⟩
      simp only [glyphs]
      split
      · exact List.mem_cons_of_mem _ hg
      · exact hg

/-- The symbols of the characters in some places are those of the glyphs there. -/
lemma symbols_filter_placed (d : Dialect) (P : Cursor → Bool) (here : Cursor) (text : List Char) :
    d.symbols (((placed here text).filter fun entry => P entry.1).map Prod.snd) =
      ((glyphs d here text).filter fun g => P g.start).map Glyph.symbol := by
  induction text generalizing here with
  | nil => rfl
  | cons ch rest ih =>
    have hrest := ih (here.advance ch)
    simp only [Dialect.symbols] at hrest ⊢
    cases hread : d.read? ch <;> cases hP : P here <;> simp [placed, glyphs, hread, hP, hrest]

lemma symbols_slice (d : Dialect) (s : Span) (text : List Char) :
    d.symbols (s.slice text) =
      ((glyphs d Cursor.origin text).filter fun g => s.Covers g.start).map Glyph.symbol :=
  symbols_filter_placed d (fun c => s.Covers c) Cursor.origin text

/-! ### The pieces of a text -/

/-- Glyphs are cut into pieces, one for each item. An item spans its piece from the first glyph to
the last, and a phrase is what is spelled there; what is left over at the end of the text is no
phrase. -/
inductive Tiles (stop : Cursor) : List Glyph → List Item → Prop
  | nil : Tiles stop [] []
  | leftover {piece : List Glyph} {first : Glyph} {item : Item} (hfirst : piece.head? = some first)
      (hspan : item.span = ⟨first.start, stop⟩) (hitem : item.phrase? = none) :
      Tiles stop piece [item]
  | cons {piece gs : List Glyph} {first last : Glyph} {item : Item} {found : List Item}
      (hfirst : piece.head? = some first) (hlast : piece.getLast? = some last)
      (hspan : item.span = ⟨first.start, last.stop⟩)
      (hitem : ∀ p, item.phrase? = some p → p.symbols = piece.map Glyph.symbol)
      (hrest : Tiles stop gs found) : Tiles stop (piece ++ gs) (item :: found)

/-- One symbol more leads on, or an item is found that takes up all that has been begun. -/
lemma step_takes (a : Symbol) (span : Span) (hmode : mode.Valid) :
    (∃ mode', step a span mode = (none, mode') ∧ mode'.Valid ∧ mode'.begun = mode.begun ++ [a]) ∨
    (∃ item : Item, step a span mode = (some item, .idle) ∧ item.span = span ∧
      ∀ p, item.phrase? = some p → p.symbols = mode.begun ++ [a]) := by
  have hspan := span_of_step a span mode
  rcases step_cases a span hmode with
    ⟨mode', hstep, hvalid, hbegun, -⟩ | ⟨item, p, hstep, hphrase, -, hsymbols⟩ | ⟨e, hstep, -⟩
  · exact Or.inl ⟨mode', hstep, hvalid, hbegun⟩
  · refine Or.inr ⟨item, hstep, ?_, fun q hq => ?_⟩
    · simpa [hstep] using hspan
    · rw [← hsymbols, Option.some.inj (hq.symm.trans hphrase)]
  · exact Or.inr ⟨_, hstep, by simpa [hstep] using hspan, nofun⟩

/-- What has been begun is left over at the end of the text. -/
lemma tiles_leftover (hdone : done.map Glyph.symbol = mode.begun)
    (hstart : mode ≠ .idle → (done.head?).map Glyph.start = some start) :
    Tiles stop done (leftover ⟨start, stop⟩ mode) := by
  by_cases hidle : mode = .idle
  · subst hidle
    obtain rfl : done = [] := by simpa using hdone
    exact .nil
  · obtain ⟨first, hfirst, rfl⟩ := Option.map_eq_some_iff.mp (hstart hidle)
    match mode with
    | .code [] => exact absurd rfl hidle
    | .code (a :: begun) => exact .leftover hfirst rfl rfl
    | .argument i begun => exact .leftover hfirst rfl rfl

/-- The scanner cuts what it has begun and what it reads into pieces. -/
lemma tiles_scan (hmode : mode.Valid) (hdone : done.map Glyph.symbol = mode.begun)
    (hstart : mode ≠ .idle → (done.head?).map Glyph.start = some start) :
    Tiles stop (done ++ gs) (scan stop mode start gs) := by
  induction gs generalizing mode start done with
  | nil =>
    rw [List.append_nil]
    exact tiles_leftover hdone hstart
  | cons g gs ih =>
    -- the piece that ends with this glyph begins where the item does
    have hstart' : ((done ++ [g]).head?).map Glyph.start =
        some (if mode = .idle then g.start else start) := by
      split
      · rename_i hidle
        subst hidle
        obtain rfl : done = [] := by simpa using hdone
        rfl
      · rename_i hidle
        obtain ⟨first, hfirst, rfl⟩ := Option.map_eq_some_iff.mp (hstart hidle)
        simp [List.head?_append, hfirst]
    simp only [scan]
    generalize (if mode = .idle then g.start else start) = start' at hstart' ⊢
    rcases step_takes g.symbol ⟨start', g.stop⟩ hmode with
      ⟨mode', hstep, hvalid, hbegun⟩ | ⟨item, hstep, hspan, hitem⟩
    · simp only [hstep]
      rw [List.append_cons]
      exact ih hvalid (by simp [hdone, hbegun]) fun _ => hstart'
    · simp only [hstep]
      rw [List.append_cons]
      obtain ⟨first, hfirst, rfl⟩ := Option.map_eq_some_iff.mp hstart'
      have hrest : Tiles stop ([] ++ gs) (scan stop .idle first.start gs) :=
        ih Mode.valid_idle rfl fun h => absurd rfl h
      exact .cons hfirst (by simp) hspan (fun p hp => by simp [hdone, hitem p hp]) hrest

lemma tiles_items (d : Dialect) (text : List Char) :
    Tiles (Cursor.after text) (glyphs d Cursor.origin text) (items d text) := by
  rw [← List.nil_append (glyphs d Cursor.origin text)]
  exact tiles_scan Mode.valid_idle rfl fun h => absurd rfl h

/-! ### What lies in the span of an item -/

lemma InRow.append (h : InRow stop (done ++ gs)) :
    InRow stop done ∧ InRow stop gs ∧ ∀ g ∈ done, ∀ g' ∈ gs, g.stop ≤ g'.start := by
  obtain ⟨hdone, hgs, hbetween⟩ := List.pairwise_append.mp h.pairwise
  have hlt := List.forall_mem_append.mp h.lt
  have hle := List.forall_mem_append.mp h.le
  exact ⟨⟨hdone, hlt.1, hle.1⟩, ⟨hgs, hlt.2, hle.2⟩, hbetween⟩

lemma InRow.start_le {first g : Glyph} (h : InRow stop gs) (hfirst : gs.head? = some first)
    (hg : g ∈ gs) : first.start ≤ g.start := by
  obtain ⟨rest, rfl⟩ := List.head?_eq_some_iff.mp hfirst
  rcases List.mem_cons.mp hg with rfl | hrest
  · exact Cursor.le_refl _
  · exact Cursor.le_trans (Cursor.le_of_lt (h.lt first List.mem_cons_self))
      ((List.pairwise_cons.mp h.pairwise).1 g hrest)

lemma InRow.stop_le {last g : Glyph} (h : InRow stop gs) (hlast : gs.getLast? = some last)
    (hg : g ∈ gs) : g.stop ≤ last.stop := by
  obtain ⟨rest, rfl⟩ := List.getLast?_eq_some_iff.mp hlast
  rcases List.mem_append.mp hg with hrest | hg
  · exact Cursor.le_trans (h.append.2.2 g hrest last (by simp))
      (Cursor.le_of_lt (h.lt last (by simp)))
  · rw [List.mem_singleton.mp hg]
    exact Cursor.le_refl _

/-- Glyphs from the first to the last of a piece are covered by its span. -/
lemma InRow.covers {first g : Glyph} {till : Cursor} (h : InRow stop gs)
    (hfirst : gs.head? = some first) (htill : g.stop ≤ till) (hg : g ∈ gs) :
    Span.Covers ⟨first.start, till⟩ g.start :=
  ⟨h.start_le hfirst hg, Cursor.lt_of_lt_of_le (h.lt g hg) htill⟩

namespace Tiles

/-- An item begins where a glyph does. -/
lemma exists_start (h : Tiles stop gs found) (hitem : item ∈ found) :
    ∃ g ∈ gs, item.span.start = g.start := by
  induction h with
  | nil => cases hitem
  | leftover hfirst hspan _ =>
    obtain rfl := List.mem_singleton.mp hitem
    exact ⟨_, List.mem_of_head? hfirst, by rw [hspan]⟩
  | cons hfirst _ hspan _ _ ih =>
    rcases List.mem_cons.mp hitem with rfl | hitem
    · exact ⟨_, List.mem_append_left _ (List.mem_of_head? hfirst), by rw [hspan]⟩
    · obtain ⟨g, hg, hstart⟩ := ih hitem
      exact ⟨g, List.mem_append_right _ hg, hstart⟩

lemma start_lt_stop (h : Tiles stop gs found) (hgs : InRow stop gs) (hitem : item ∈ found) :
    item.span.start < item.span.stop := by
  induction h with
  | nil => cases hitem
  | leftover hfirst hspan _ =>
    obtain rfl := List.mem_singleton.mp hitem
    have hmem := List.mem_of_head? hfirst
    rw [hspan]
    exact Cursor.lt_of_lt_of_le (hgs.lt _ hmem) (hgs.le _ hmem)
  | cons hfirst hlast hspan _ _ ih =>
    obtain ⟨hpiece, hrest, -⟩ := hgs.append
    rcases List.mem_cons.mp hitem with rfl | hitem
    · have hmem := List.mem_of_head? hfirst
      rw [hspan]
      exact Cursor.lt_of_lt_of_le (hpiece.lt _ hmem) (hpiece.stop_le hlast hmem)
    · exact ih hrest hitem

lemma pairwise_before (h : Tiles stop gs found) (hgs : InRow stop gs) :
    (found.map Item.span).Pairwise Span.Before := by
  induction h with
  | nil => exact .nil
  | leftover => exact List.pairwise_singleton _ _
  | cons _ hlast hspan _ htiles ih =>
    obtain ⟨-, hrest, hbetween⟩ := hgs.append
    rw [List.map_cons, List.pairwise_cons, List.forall_mem_map]
    refine ⟨fun later hlater => ?_, ih hrest⟩
    obtain ⟨g, hg, hstart⟩ := htiles.exists_start hlater
    rw [Span.Before, hspan, hstart]
    exact hbetween _ (List.mem_of_getLast? hlast) g hg

/-- Every glyph lies in the span of an item. -/
lemma exists_covers (h : Tiles stop gs found) (hgs : InRow stop gs) {g : Glyph} (hg : g ∈ gs) :
    ∃ item ∈ found, item.span.Covers g.start := by
  induction h with
  | nil => cases hg
  | leftover hfirst hspan _ =>
    exact ⟨_, List.mem_singleton_self _, hspan ▸ hgs.covers hfirst (hgs.le g hg) hg⟩
  | cons hfirst hlast hspan _ _ ih =>
    obtain ⟨hpiece, hrest, -⟩ := hgs.append
    rcases List.mem_append.mp hg with hg | hg
    · exact ⟨_, List.mem_cons_self,
        hspan ▸ hpiece.covers hfirst (hpiece.stop_le hlast hg) hg⟩
    · obtain ⟨item, hitem, hcovers⟩ := ih hrest hg
      exact ⟨item, List.mem_cons_of_mem _ hitem, hcovers⟩

/-- What a phrase spells is what lies in its span. -/
lemma symbols_filter (h : Tiles stop gs found) (hgs : InRow stop gs) (hitem : item ∈ found)
    {p : Phrase} (hp : item.phrase? = some p) :
    (gs.filter fun g => item.span.Covers g.start).map Glyph.symbol = p.symbols := by
  induction h with
  | nil => cases hitem
  | leftover _ _ hnone =>
    obtain rfl := List.mem_singleton.mp hitem
    cases hnone.symm.trans hp
  | @cons piece gs first last _ found hfirst hlast hspan hsymbols htiles ih =>
    obtain ⟨hpiece, hrest, hbetween⟩ := hgs.append
    rw [List.filter_append, List.map_append]
    rcases List.mem_cons.mp hitem with rfl | hitem
    · have hall : piece.filter (fun g => item.span.Covers g.start) = piece :=
        List.filter_eq_self.mpr fun g hg => by
          simpa [hspan] using hpiece.covers hfirst (hpiece.stop_le hlast hg) hg
      have hnone : gs.filter (fun g => item.span.Covers g.start) = [] :=
        List.filter_eq_nil_iff.mpr fun g hg => by
          have hbehind := hbetween _ (List.mem_of_getLast? hlast) g hg
          simpa [hspan] using fun hc : Span.Covers _ g.start =>
            Cursor.lt_irrefl _ (Cursor.lt_of_lt_of_le hc.2 hbehind)
      rw [hall, hnone, List.map_nil, List.append_nil, hsymbols p hp]
    · obtain ⟨first', hfirst', hstart⟩ := htiles.exists_start hitem
      have hnone : piece.filter (fun g => item.span.Covers g.start) = [] :=
        List.filter_eq_nil_iff.mpr fun g hg => by
          have hbehind := Cursor.lt_of_lt_of_le (hpiece.lt g hg) (hbetween g hg first' hfirst')
          simpa using fun hc : item.span.Covers g.start =>
            Cursor.lt_irrefl _ (Cursor.lt_of_le_of_lt hc.1 (hstart ▸ hbehind))
      rw [hnone, List.map_nil, List.nil_append, ih hrest hitem]

end Tiles

/-! ### The spans of a program -/

def resultSpan : Except ParseError Operation → Span
  | .ok op   => op.span
  | .error e => e.span

lemma resultSpan_readItem (v : Vocabulary) (item : Item) :
    resultSpan (readItem v item).1 = item.span := by
  cases item with
  | plain i span => rfl
  | reject e => rfl
  | applied i digits span =>
    simp only [readItem]
    split <;> rfl

lemma forall₂_resultSpan_readItems (v : Vocabulary) (found : List Item) :
    List.Forall₂ (fun item result => item.span = resultSpan result) found
      (readItems v found).1 := by
  induction found generalizing v with
  | nil => exact .nil
  | cons item found ih => exact .cons (resultSpan_readItem v item).symm (ih _)

lemma map_resultSpan_readItems (v : Vocabulary) (found : List Item) :
    found.map Item.span = (readItems v found).1.map resultSpan := by
  rw [← List.forall₂_eq_eq_eq, List.forall₂_map_left_iff, List.forall₂_map_right_iff]
  exact forall₂_resultSpan_readItems v found

/-- Operations and errors together are all results. -/
lemma perm_resultSpan (results : List (Except ParseError Operation)) :
    List.Perm ((results.filterMap operation?).map Operation.span ++
        (results.filterMap error?).map ParseError.span) (results.map resultSpan) := by
  induction results with
  | nil => exact .refl _
  | cons result results ih =>
    cases result with
    | ok op => exact ih.cons op.span
    | error e => exact List.perm_middle.trans (ih.cons e.span)

/-- The faults of a text that do not concern labels are those of its items. -/
lemma filter_errors_read (d : Dialect) (source : String) :
    ((read d source).errors.filter fun e => !e.fault.isAboutLabels) =
      (results d source).filterMap error? := by
  have hlocal : ∀ e ∈ (results d source).filterMap error?, e.fault.isAboutLabels = false := by
    intro e he
    obtain ⟨result, hresult, herror⟩ := List.mem_filterMap.mp he
    obtain ⟨item, -, houtcome⟩ := exists_mem_of_forall₂_left (outcomes_read d source).flip hresult
    cases houtcome with
    | ok => cases herror
    | error hlabels =>
      cases herror
      exact hlabels
  rw [errors_read, List.filter_append, List.filter_eq_self.mpr fun e he => by simp [hlocal e he],
    List.filter_eq_nil_iff.mpr fun e he => by simp [isAboutLabels_of_mem_labelErrors he],
    List.append_nil]

/-- The spans of a program in their order are those of its items. -/
lemma spans_read (d : Dialect) (source : String) :
    (read d source).spans = (items d source.toList).map Item.span := by
  have hperm : List.Perm (read d source).spans ((items d source.toList).map Item.span) := by
    rw [map_resultSpan_readItems Vocabulary.initial]
    refine (List.mergeSort_perm _ _).trans ?_
    rw [filter_errors_read]
    exact perm_resultSpan (results d source)
  have hstarts : ((items d source.toList).map Item.span).Pairwise fun s s' => s.start < s'.start :=
    List.pairwise_map.mpr (List.pairwise_map.mp (pairwise_start_items d source.toList))
  refine List.Perm.eq_of_pairwise (fun s s' hs hs' h h' => ?_)
    (List.pairwise_mergeSort Span.startsBy_trans Span.startsBy_total _)
    (hstarts.imp fun h => Span.startsBy_iff.mpr (Cursor.le_of_lt h)) hperm
  -- no two items begin at the same place
  have hnodup : (((items d source.toList).map Item.span).map Span.start).Nodup := by
    refine List.pairwise_map.mpr (hstarts.imp fun {s s'} h heq => ?_)
    rw [heq] at h
    exact Cursor.lt_irrefl _ h
  exact List.inj_on_of_nodup_map hnodup (hperm.subset hs) hs'
    (Cursor.le_antisymm (Span.startsBy_iff.mp h) (Span.startsBy_iff.mp h'))

/-! ### What is written in the span of an operation -/

/-- The symbols that an argument was read from: for a label or a type what is tabled for its name,
for a number what denotes it. -/
def Spelt (v : Vocabulary) : Option Argument → List Symbol → Prop
  | none,               written => written = []
  | some (.number n),   written => Binary.decode? (Symbol.letters written).toList = some n
  | some (.label name), written => v.labels.forth? name = some (Symbol.letters written)
  | some (.type name),  written => v.types.forth? name = some (Symbol.letters written)

/-- A phrase is spelled with the code of its instruction and what its argument is spelled with. -/
lemma exists_spelt_of_saysIn {v : Vocabulary} {p : Phrase}
    {content : Instruction × Option Argument} (hp : p.Shaped) (hsaid : p.SaysIn v content) :
    ∃ written, p.symbols = content.1.code ++ written ∧ Spelt v content.2 written := by
  cases hsaid with
  | plain => exact ⟨[], rfl, rfl⟩
  | @number i digits n _ hn =>
    cases hp with
    | applied _ hne hdigits =>
      refine ⟨digits ++ [.n], rfl, ?_⟩
      rw [Spelt, Symbol.toList_letters, Binary.decode?_letters hne hdigits, toWord?_eq_some_iff, hn]
  | @label i digits _ _ hname =>
    exact ⟨digits ++ [Symbol.n], rfl, Bijection.forth?_eq_some_iff.mpr hname⟩
  | @type i digits _ _ hname =>
    exact ⟨digits ++ [Symbol.n], rfl, Bijection.forth?_eq_some_iff.mpr hname⟩

/-- An operation is what a phrase in its span says. -/
lemma exists_phrase_of_mem_operations {op : Operation} {source : String}
    (hop : op ∈ (read d source).operations) :
    ∃ item ∈ items d source.toList, ∃ p, item.phrase? = some p ∧ op.span = item.span ∧
      p.SaysIn (read d source).vocabulary op.content := by
  have hboth := (outcomes_read d source).mp (fun _ _ => And.intro)
    (forall₂_resultSpan_readItems Vocabulary.initial _)
  rw [operations_read] at hop
  obtain ⟨result, hresult, hop⟩ := List.mem_filterMap.mp hop
  obtain ⟨item, hitem, houtcome, hspan⟩ := exists_mem_of_forall₂_left hboth.flip hresult
  cases houtcome with
  | ok hphrase _ hsaid =>
    cases hop
    exact ⟨item, hitem, _, hphrase, hspan.symm, hsaid⟩
  | error => cases hop

/-- Every symbol is accounted for once: the spans of the operations and of the faults that concern
a place in the text are not empty and lie one behind the other, every symbol of the text is in
exactly one of them, and in that of an operation stand its code and its argument as written. -/
theorem symbols_accounted_once (d : Dialect) (source : String) :
    (∀ s ∈ (read d source).spans, s.start < s.stop) ∧
    (read d source).spans.Pairwise Span.Before ∧
    (∀ entry ∈ placed Cursor.origin source.toList, (d.read? entry.2).isSome = true →
      (read d source).spans.countP (fun s => s.Covers entry.1) = 1) ∧
    ∀ op ∈ (read d source).operations, ∃ written,
      d.symbols (op.span.slice source.toList) = op.instruction.code ++ written ∧
      Spelt (read d source).vocabulary op.argument written := by
  have htiles := tiles_items d source.toList
  have hrow := inRow_glyphs d Cursor.origin source.toList
  rw [spans_read]
  refine ⟨?_, htiles.pairwise_before hrow, ?_, ?_⟩
  · exact List.forall_mem_map.mpr fun item hitem => htiles.start_lt_stop hrow hitem
  · intro entry hentry hsymbol
    obtain ⟨g, hg, hstart⟩ := exists_glyph_of_mem_placed hentry hsymbol
    obtain ⟨item, hitem, hcovers⟩ := htiles.exists_covers hrow hg
    exact Span.countP_covers (htiles.pairwise_before hrow) (List.mem_map_of_mem hitem)
      (hstart ▸ hcovers)
  · intro op hop
    obtain ⟨item, hitem, p, hp, hspan, hsaid⟩ := exists_phrase_of_mem_operations hop
    have hspelt := exists_spelt_of_saysIn ((sound_of_mem_items hitem).shaped hp) hsaid
    rw [symbols_slice, hspan, htiles.symbols_filter hrow hitem hp]
    exact hspelt

end Spelled

end ZeroWidth
