import ZeroWidth.Proofs.AssemblyText
import ZeroWidth.Proofs.Reading
import ZeroWidth.Surface

/-!
# The places of operations

Whatever surface a program is read from, its operations start one behind the other: in assembly
text each has a line of its own, and in symbols each starts at a symbol behind those of the one
before.
-/

namespace ZeroWidth

/-! ### Cursors -/

namespace Cursor

variable {a b c : Cursor}

lemma lt_def : a < b ↔ a.line < b.line ∨ (a.line = b.line ∧ a.column < b.column) := Iff.rfl

lemma lt_irrefl (a : Cursor) : ¬ a < a := by
  rw [lt_def]
  omega

lemma lt_trans (hab : a < b) (hbc : b < c) : a < c := by
  rw [lt_def] at *
  omega

lemma lt_trichotomy (a b : Cursor) : a < b ∨ a = b ∨ b < a := by
  rcases a with ⟨line, column⟩
  rcases b with ⟨line', column'⟩
  simp only [lt_def, mk.injEq]
  omega

end Cursor

/-- The operations start one behind the other. -/
def Ordered (ops : List Operation) : Prop :=
  ops.Pairwise fun op op' => op.span.start < op'.span.start

namespace Spelled

variable {d : Dialect}

/-! ### Glyphs and items -/

lemma lt_start_of_mem_glyphs {here before : Cursor} {text : List Char} {g : Glyph}
    (hbefore : before < here) (hg : g ∈ glyphs d here text) : before < g.start := by
  induction text generalizing here with
  | nil => cases hg
  | cons ch rest ih =>
    have hbehind : before < here.advance ch := Cursor.lt_trans hbefore (here.lt_advance ch)
    simp only [glyphs] at hg
    split at hg
    · rcases List.mem_cons.mp hg with rfl | hg
      · exact hbefore
      · exact ih hbehind hg
    · exact ih hbehind hg

lemma pairwise_start_glyphs (d : Dialect) (here : Cursor) (text : List Char) :
    ((glyphs d here text).map Glyph.start).Pairwise (· < ·) := by
  induction text generalizing here with
  | nil => exact .nil
  | cons ch rest ih =>
    simp only [glyphs]
    split
    · rw [List.map_cons, List.pairwise_cons, List.forall_mem_map]
      exact ⟨fun g hg => lt_start_of_mem_glyphs (here.lt_advance ch) hg, ih _⟩
    · exact ih _

def Item.span : Item → Span
  | .plain _ span     => span
  | .applied _ _ span => span
  | .reject e         => e.span

/-- An item that is found takes up all that has been begun. -/
lemma span_of_step (a : Symbol) (span : Span) (mode : Mode) :
    (∃ mode', step a span mode = (none, mode') ∧ mode' ≠ .idle) ∨
      ∃ item : Item, step a span mode = (some item, .idle) ∧ item.span = span := by
  cases mode with
  | code begun =>
    simp only [step]
    split
    · split
      · exact Or.inl ⟨_, rfl, by simp [Mode.idle]⟩
      · exact Or.inr ⟨_, rfl, rfl⟩
    · split
      · exact Or.inr ⟨_, rfl, rfl⟩
      · exact Or.inl ⟨_, rfl, by simp [Mode.idle]⟩
  | argument i begun =>
    cases a with
    | x => exact Or.inr ⟨_, rfl, rfl⟩
    | n =>
      simp only [step]
      split
      · exact Or.inr ⟨_, rfl, rfl⟩
      · exact Or.inr ⟨_, rfl, rfl⟩
    | s | t => exact Or.inl ⟨_, rfl, by simp [Mode.idle]⟩

/-- Items start where glyphs do, each at another one. -/
lemma sublist_start_scan (stop start : Cursor) (mode : Mode) (gs : List Glyph) :
    ((scan stop mode start gs).map fun item => item.span.start).Sublist
      ((if mode = .idle then [] else [start]) ++ gs.map Glyph.start) := by
  induction gs generalizing mode start with
  | nil =>
    cases mode with
    | code begun =>
      cases begun with
      | nil => exact .slnil
      | cons a begun => exact .refl _
    | argument i begun => exact .refl _
  | cons g gs ih =>
    simp only [scan]
    -- whether or not something has been begun, what is found next starts no later than here
    have hstart : List.Sublist ((if mode = .idle then g.start else start) :: gs.map Glyph.start)
        ((if mode = .idle then [] else [start]) ++ (g :: gs).map Glyph.start) := by
      split
      · exact .refl _
      · exact ((List.sublist_cons_self _ _)).cons_cons start
    generalize (if mode = .idle then g.start else start) = start' at hstart ⊢
    rcases span_of_step g.symbol ⟨start', g.stop⟩ mode with
      ⟨mode', hstep, hmode'⟩ | ⟨item, hstep, hspan⟩
    · simp only [hstep]
      have hrest := ih start' mode'
      rw [if_neg hmode'] at hrest
      exact hrest.trans hstart
    · simp only [hstep, List.map_cons, hspan]
      exact ((ih start' .idle).cons_cons start').trans hstart

lemma pairwise_start_items (d : Dialect) (text : List Char) :
    ((items d text).map fun item => item.span.start).Pairwise (· < ·) :=
  (pairwise_start_glyphs d _ text).sublist (sublist_start_scan _ _ .idle _)

/-! ### Operations -/

lemma span_of_readItem {v : Vocabulary} {item : Item} {op : Operation}
    (h : (readItem v item).1 = .ok op) : op.span = item.span := by
  cases item with
  | plain i span =>
    cases h
    rfl
  | reject e => cases h
  | applied i digits span =>
    simp only [readItem] at h
    split at h
    · cases h
      rfl
    · cases h

/-- An operation starts where the item starts that it became of. -/
lemma sublist_start_readItems (v : Vocabulary) (items : List Item) :
    (((readItems v items).1.filterMap operation?).map fun op => op.span.start).Sublist
      (items.map fun item => item.span.start) := by
  induction items generalizing v with
  | nil => exact .slnil
  | cons item items ih =>
    simp only [readItems, List.map_cons]
    cases hresult : (readItem v item).1 with
    | ok op =>
      rw [List.filterMap_cons_some (show operation? (.ok op) = some op from rfl), List.map_cons,
        span_of_readItem hresult]
      exact (ih _).cons_cons _
    | error e =>
      rw [List.filterMap_cons_none (show operation? (.error e) = none from rfl)]
      exact (ih _).cons _

lemma ordered_read (d : Dialect) (source : String) : Ordered (read d source).operations :=
  List.pairwise_map.mp
    ((pairwise_start_items d source.toList).sublist (sublist_start_readItems _ _))

end Spelled

lemma Assembly.ordered_read (source : String) : Ordered (read source).operations :=
  (saidIn_statementsOf .initial 0 (splitLines source.toList)).2.imp Or.inl

/-- On every surface, operations start one behind the other. -/
lemma Surface.ordered_read (S : Surface) (source : String) :
    Ordered (S.read source).operations := by
  cases S with
  | nossembly => exact Assembly.ordered_read source
  | nospace => exact Spelled.ordered_read _ source
  | whitespace => exact Spelled.ordered_read _ source

end ZeroWidth
