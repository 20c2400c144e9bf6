import ZeroWidth.Proofs.Numerals
import ZeroWidth.Spelled.Scan

/-!
# The grammar of spelled programs

A spelled program is a string of phrases: the code of an instruction, followed by the digits of its
argument and the terminator if it takes one. No code begins another and no digit is a terminator, so
the end of a phrase is seen as soon as it is read. The scanner finds exactly the phrases of such a
string; of any other string it rejects some part.
-/

namespace ZeroWidth

/-- The symbols of a text, without its comments. -/
def Dialect.symbols (d : Dialect) (text : List Char) : List Symbol := text.filterMap d.read?

namespace Spelled

/-- An instruction as it is spelled, with the digits of its argument. -/
structure Phrase where
  instruction : Instruction
  argument    : Option (List Symbol)
deriving DecidableEq

namespace Phrase

def symbols (p : Phrase) : List Symbol :=
  p.instruction.code ++ p.argument.elim [] (· ++ [Symbol.n])

/-- An instruction has an argument if it takes one, and at least one digit in it. -/
inductive Shaped : Phrase → Prop
  | plain {i : Instruction} (hi : i.takesArgument = false) : Shaped ⟨i, none⟩
  | applied {i : Instruction} {digits : List Symbol} (hi : i.takesArgument = true)
      (hne : digits ≠ []) (hdigits : digits.all Symbol.isDigit) : Shaped ⟨i, some digits⟩

/-- A number is one of 64 bits. -/
def InRange (p : Phrase) : Prop :=
  p.instruction.argKind = .number → ∀ digits, p.argument = some digits →
    -(2 ^ 63) ≤ Binary.denoted digits ∧ Binary.denoted digits < 2 ^ 63

end Phrase

/-- What a list of symbols is made of. -/
structure Parses (phrases : List Phrase) (w : List Symbol) : Prop where
  shaped  : ∀ p ∈ phrases, p.Shaped
  inRange : ∀ p ∈ phrases, p.InRange
  symbols : phrases.flatMap Phrase.symbols = w

/-- The phrase that an item is, if it is not rejected. -/
def Item.phrase? : Item → Option Phrase
  | .plain i _            => some ⟨i, none⟩
  | .applied i argument _ => some ⟨i, some argument⟩
  | .reject _             => none

/-- The symbols that have been begun. -/
def Mode.begun : Mode → List Symbol
  | .code begun       => begun
  | .argument i begun => i.code ++ begun

/-- An argument is only begun for an instruction that takes one. -/
inductive Mode.Valid : Mode → Prop
  | code (begun : List Symbol) : Valid (.code begun)
  | argument {i : Instruction} {begun : List Symbol} (hi : i.takesArgument = true)
      (hdigits : begun.all Symbol.isDigit) : Valid (.argument i begun)

@[simp]
lemma Mode.begun_idle : Mode.idle.begun = [] := rfl

lemma Mode.valid_idle : Mode.idle.Valid := .code []

lemma code_of_ofCode? {code : List Symbol} {i : Instruction}
    (h : Instruction.ofCode? code = some i) : i.code = code := by
  simpa using List.find?_some h

variable {a : Symbol} {span : Span} {mode : Mode} {stop start : Cursor} {gs : List Glyph}

/-! ### Whatever the scanner finds has been read -/

/-- All that one symbol more can lead to. -/
lemma step_cases (a : Symbol) (span : Span) (hmode : mode.Valid) :
    (∃ mode', step a span mode = (none, mode') ∧ mode'.Valid ∧
      mode'.begun = mode.begun ++ [a] ∧ mode' ≠ .idle) ∨
    (∃ item p, step a span mode = (some item, .idle) ∧ item.phrase? = some p ∧ p.Shaped ∧
      p.symbols = mode.begun ++ [a]) ∨
    (∃ e : ParseError, step a span mode = (some (.reject e), .idle) ∧
      e.fault.isAboutLabels = false) := by
  cases hmode with
  | code begun =>
    simp only [step]
    split
    · rename_i i hi
      have hcode := code_of_ofCode? hi
      split
      · rename_i htakes
        exact Or.inl
          ⟨_, rfl, .argument htakes rfl, by simp [Mode.begun, hcode], by simp [Mode.idle]⟩
      · rename_i htakes
        refine Or.inr (Or.inl ⟨_, _, rfl, rfl, .plain (by simpa using htakes), ?_⟩)
        simp [Phrase.symbols, Mode.begun, hcode]
    · split
      · exact Or.inr (Or.inr ⟨_, rfl, rfl⟩)
      · exact Or.inl ⟨_, rfl, .code _, rfl, by simp [Mode.idle]⟩
  | @argument i begun hi hdigits =>
    have hon : ∀ b : Symbol, b.isDigit = true → (Mode.argument i (begun ++ [b])).Valid :=
      fun b hb => .argument hi (by simp [hb, hdigits])
    cases a with
    | x => exact Or.inr (Or.inr ⟨_, rfl, rfl⟩)
    | n =>
      simp only [step]
      split
      · exact Or.inr (Or.inr ⟨_, rfl, rfl⟩)
      · rename_i hne
        refine Or.inr (Or.inl ⟨_, _, rfl, rfl, .applied hi (by simpa using hne) hdigits, ?_⟩)
        simp [Phrase.symbols, Mode.begun]
    | s => exact Or.inl ⟨_, rfl, hon _ rfl, by simp [Mode.begun], by simp [Mode.idle]⟩
    | t => exact Or.inl ⟨_, rfl, hon _ rfl, by simp [Mode.begun], by simp [Mode.idle]⟩

/-- An item is a phrase of the grammar, or it is rejected for what stands there. -/
def Item.Sound : Item → Prop
  | .plain i _            => (⟨i, none⟩ : Phrase).Shaped
  | .applied i argument _ => (⟨i, some argument⟩ : Phrase).Shaped
  | .reject e             => e.fault.isAboutLabels = false

lemma Item.sound_of_phrase? {item : Item} {p : Phrase} (hitem : item.phrase? = some p)
    (hp : p.Shaped) : item.Sound := by
  cases item <;> cases hitem <;> exact hp

lemma Item.Sound.shaped {item : Item} {p : Phrase} (hsound : item.Sound)
    (hitem : item.phrase? = some p) : p.Shaped := by
  cases item <;> cases hitem <;> exact hsound

lemma sound_of_mem_scan (hmode : mode.Valid) {item : Item}
    (hitem : item ∈ scan stop mode start gs) : item.Sound := by
  induction gs generalizing mode start with
  | nil =>
    cases hmode with
    | code begun =>
      cases begun with
      | nil => simp [scan, leftover] at hitem
      | cons b begun =>
        obtain rfl : item = _ := by simpa [scan, leftover] using hitem
        rfl
    | argument =>
      obtain rfl : item = _ := by simpa [scan, leftover] using hitem
      rfl
  | cons g gs ih =>
    simp only [scan] at hitem
    generalize (if mode = .idle then g.start else start) = start' at hitem
    rcases step_cases g.symbol ⟨start', g.stop⟩ hmode with
      ⟨mode', hstep, hvalid, -⟩ | ⟨found, p, hstep, hphrase, hshaped, -⟩ | ⟨e, hstep, hlabels⟩
    · exact ih hvalid (by simpa only [hstep] using hitem)
    · simp only [hstep, List.mem_cons] at hitem
      rcases hitem with rfl | hitem
      · exact Item.sound_of_phrase? hphrase hshaped
      · exact ih Mode.valid_idle hitem
    · simp only [hstep, List.mem_cons] at hitem
      rcases hitem with rfl | hitem
      · exact hlabels
      · exact ih Mode.valid_idle hitem

/-- If nothing is rejected, the phrases found are what has been read. -/
lemma flatMap_symbols_scan (hmode : mode.Valid)
    (hfound : ∀ item ∈ scan stop mode start gs, item.phrase?.isSome = true) :
    ((scan stop mode start gs).filterMap Item.phrase?).flatMap Phrase.symbols =
      mode.begun ++ gs.map Glyph.symbol := by
  induction gs generalizing mode start with
  | nil =>
    cases hmode with
    | code begun =>
      cases begun with
      | nil => simp [scan, leftover, Mode.begun]
      | cons b begun => simp [scan, leftover, unknown, Item.phrase?] at hfound
    | argument => simp [scan, leftover, unknown, Item.phrase?] at hfound
  | cons g gs ih =>
    simp only [scan] at hfound ⊢
    generalize (if mode = .idle then g.start else start) = start' at hfound ⊢
    rcases step_cases g.symbol ⟨start', g.stop⟩ hmode with
      ⟨mode', hstep, hvalid, hbegun, -⟩ | ⟨item, p, hstep, hphrase, -, hsymbols⟩ | ⟨e, hstep, -⟩
    · simp only [hstep] at hfound ⊢
      simp [ih hvalid hfound, hbegun]
    · simp only [hstep, List.mem_cons, forall_eq_or_imp] at hfound ⊢
      simp [hphrase, ih Mode.valid_idle hfound.2, hsymbols]
    · simp [hstep, Item.phrase?] at hfound

/-! ### The phrases of a program are found -/

/-- The scanner is in the middle of the phrase. -/
inductive Mode.Within (p : Phrase) : Mode → Prop
  | code {begun : List Symbol} (hbegun : begun <+: p.instruction.code)
      (hne : begun ≠ p.instruction.code) : Within p (.code begun)
  | argument {digits begun : List Symbol} (hargument : p.argument = some digits)
      (hbegun : begun <+: digits) : Within p (.argument p.instruction begun)

lemma code_ne_nil (i : Instruction) : i.code ≠ [] := by
  cases i <;> simp [Instruction.code]

lemma Mode.within_idle (p : Phrase) : Mode.idle.Within p :=
  .code List.nil_prefix (code_ne_nil _).symm

/-- There is more of the phrase to come. -/
lemma Mode.Within.begun_ne {p : Phrase} (h : mode.Within p) : mode.begun ≠ p.symbols := by
  intro heq
  have hlength := congrArg List.length heq
  cases h with
  | code hbegun hne =>
    have hlt : _ < p.instruction.code.length :=
      lt_of_le_of_ne hbegun.length_le fun h => hne (hbegun.eq_of_length h)
    simp [Mode.begun, Phrase.symbols] at hlength
    omega
  | argument hargument hbegun =>
    have hle := hbegun.length_le
    simp [Mode.begun, Phrase.symbols, hargument] at hlength
    omega

/-- A code is recognized at its end and not before. -/
lemma ofCode?_of_isPrefix {i : Instruction} {begun : List Symbol} (h : begun <+: i.code) :
    Instruction.ofCode? begun = if begun = i.code then some i else none := by
  split
  · rename_i heq
    rw [heq, Instruction.ofCode?_code]
  · rename_i hne
    cases hcode : Instruction.ofCode? begun with
    | none => rfl
    | some j =>
      have hj := code_of_ofCode? hcode
      have hij : j = i := Instruction.eq_of_code_isPrefix (hj ▸ h)
      exact absurd (hij ▸ hj).symm hne

/-- One symbol more of a phrase ends it or leads on in it. -/
lemma step_within {p : Phrase} (span : Span) (hp : p.Shaped) (hmode : mode.Within p)
    (hnext : mode.begun ++ [a] <+: p.symbols) :
    (∃ item, step a span mode = (some item, .idle) ∧ item.phrase? = some p ∧
      mode.begun ++ [a] = p.symbols) ∨
    (∃ mode', step a span mode = (none, mode') ∧ mode'.Within p ∧
      mode'.begun = mode.begun ++ [a]) := by
  cases hmode with
  | @code begun hbegun hne =>
    -- the symbol is still one of the code
    have hcode : begun ++ [a] <+: p.instruction.code := by
      obtain ⟨rest, hrest⟩ := hbegun
      have hrest' : rest ≠ [] := fun h => hne (by simpa [h] using hrest)
      obtain ⟨b, rest, rfl⟩ := List.exists_cons_of_ne_nil hrest'
      obtain ⟨tail, htail⟩ := hnext
      simp only [Mode.begun, Phrase.symbols, ← hrest, List.append_assoc, List.cons_append,
        List.append_cancel_left_eq, List.cons.injEq] at htail
      exact ⟨rest, by rw [← hrest, htail.1]; simp⟩
    simp only [step, ofCode?_of_isPrefix hcode]
    by_cases hend : begun ++ [a] = p.instruction.code
    · simp only [hend, if_true]
      cases hp with
      | plain hi =>
        simp only [hi]
        exact Or.inl ⟨_, rfl, rfl, by simp [Mode.begun, hend, Phrase.symbols]⟩
      | applied hi =>
        simp only [hi, if_true]
        exact Or.inr ⟨_, rfl, .argument rfl List.nil_prefix, by simp [Mode.begun, hend]⟩
    · have hlength : ¬ (begun ++ [a]).length > Instruction.maxCodeLength :=
        Nat.not_lt.mpr (hcode.length_le.trans (Instruction.length_code_le _))
      simp only [hend, if_false, hlength]
      exact Or.inr ⟨_, rfl, .code hcode hend, rfl⟩
  | @argument digits begun hargument hbegun =>
    cases hp with
    | plain => cases hargument
    | @applied i _ hi hne hdigits =>
      cases hargument
      obtain ⟨rest, rfl⟩ := hbegun
      simp only [Mode.begun, Phrase.symbols, Option.elim_some, List.append_assoc,
        List.prefix_append_right_inj] at hnext
      cases rest with
      | nil =>
        obtain rfl : a = .n := by simpa using hnext
        have hne : begun ≠ [] := by simpa using hne
        refine Or.inl ⟨.applied i begun span, ?_, by simp [Item.phrase?], ?_⟩
        · simp [step, hne]
        · simp [Mode.begun, Phrase.symbols]
      | cons b rest =>
        obtain rfl : a = b := by simpa using hnext
        have hdigit : a.isDigit = true := by simp_all
        refine Or.inr ⟨.argument i (begun ++ [a]), ?_, .argument rfl ?_, by simp [Mode.begun]⟩
        · cases a with
          | s => rfl
          | t => rfl
          | n => simp [Symbol.isDigit] at hdigit
          | x => simp [Symbol.isDigit] at hdigit
        · exact ⟨rest, by simp⟩

/-- The rest of a phrase is read up to its end. -/
lemma scan_within {p : Phrase} {rest w : List Symbol} (stop start : Cursor) (hp : p.Shaped)
    (hmode : mode.Within p) (hrest : mode.begun ++ rest = p.symbols) (hne : rest ≠ [])
    (hgs : gs.map Glyph.symbol = rest ++ w) :
    ∃ item start' gs', scan stop mode start gs = item :: scan stop .idle start' gs' ∧
      item.phrase? = some p ∧ gs'.map Glyph.symbol = w := by
  induction rest generalizing mode start gs with
  | nil => exact absurd rfl hne
  | cons a rest ih =>
    obtain ⟨g, gs, rfl, rfl, hgs'⟩ := List.map_eq_cons_iff.mp hgs
    have hnext : mode.begun ++ [g.symbol] <+: p.symbols := ⟨rest, by rw [← hrest]; simp⟩
    simp only [scan]
    generalize (if mode = .idle then g.start else start) = start'
    rcases step_within ⟨start', g.stop⟩ hp hmode hnext with
      ⟨item, hstep, hphrase, hend⟩ | ⟨mode', hstep, hmode', hbegun⟩
    · obtain rfl : rest = [] := by
        rw [← hrest] at hend
        simpa using hend
      exact ⟨item, start', gs, by simp only [hstep], hphrase, by simpa using hgs'⟩
    · have hrest' : mode'.begun ++ rest = p.symbols := by rw [hbegun, ← hrest]; simp
      have hne' : rest ≠ [] := by
        rintro rfl
        exact hmode'.begun_ne (by simpa using hrest')
      simp only [hstep]
      exact ih _ hmode' hrest' hne' hgs'

/-- Exactly the phrases of a program are found in it. -/
lemma scan_complete {phrases : List Phrase} (hshaped : ∀ p ∈ phrases, p.Shaped)
    (hgs : gs.map Glyph.symbol = phrases.flatMap Phrase.symbols) :
    (scan stop .idle start gs).map Item.phrase? = phrases.map some := by
  induction phrases generalizing start gs with
  | nil =>
    obtain rfl : gs = [] := by simpa using hgs
    rfl
  | cons p phrases ih =>
    have hp : p.Shaped := hshaped p List.mem_cons_self
    have hne : p.symbols ≠ [] := by simp [Phrase.symbols, code_ne_nil]
    obtain ⟨item, start', gs', hscan, hphrase, hgs'⟩ :=
      scan_within stop start hp (Mode.within_idle p) rfl hne hgs
    rw [hscan, List.map_cons, List.map_cons, hphrase,
      ih (fun q hq => hshaped q (List.mem_cons_of_mem _ hq)) hgs']

/-! ### Whole texts -/

lemma map_symbol_glyphs (d : Dialect) (here : Cursor) (text : List Char) :
    (glyphs d here text).map Glyph.symbol = d.symbols text := by
  induction text generalizing here with
  | nil => rfl
  | cons ch rest ih =>
    simp only [glyphs, Dialect.symbols, List.filterMap_cons]
    cases d.read? ch with
    | none => exact ih _
    | some symbol => simpa [Dialect.symbols] using ih _

/-- Nothing of a text is rejected if it is made of phrases, and these are what is found then. -/
lemma map_phrase?_items_iff {d : Dialect} {text : List Char} {phrases : List Phrase} :
    (items d text).map Item.phrase? = phrases.map some ↔
      (∀ p ∈ phrases, p.Shaped) ∧ phrases.flatMap Phrase.symbols = d.symbols text := by
  constructor
  · intro h
    have hfound : ∀ item ∈ items d text, item.phrase?.isSome = true := by
      intro item hitem
      have hmem : item.phrase? ∈ phrases.map some := h ▸ List.mem_map_of_mem hitem
      obtain ⟨p, -, hp⟩ := List.mem_map.mp hmem
      simp [← hp]
    have hphrases : (items d text).filterMap Item.phrase? = phrases := by
      calc (items d text).filterMap Item.phrase?
          = ((items d text).map Item.phrase?).filterMap id := by simp [List.filterMap_map]
        _ = phrases := by rw [h]; simp
    refine ⟨fun p hp => ?_, ?_⟩
    · obtain ⟨item, hitem, hphrase⟩ := List.mem_filterMap.mp (hphrases ▸ hp)
      exact (sound_of_mem_scan Mode.valid_idle hitem).shaped hphrase
    · rw [← hphrases, items, flatMap_symbols_scan Mode.valid_idle hfound, map_symbol_glyphs]
      rfl
  · rintro ⟨hshaped, hsymbols⟩
    exact scan_complete hshaped (by rw [map_symbol_glyphs, hsymbols])

end Spelled

end ZeroWidth
