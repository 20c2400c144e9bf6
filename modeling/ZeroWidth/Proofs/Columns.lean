import Mathlib.Data.List.TakeWhile
import ZeroWidth.Assembly.Lexeme

/-!
# Scanning a line of assembly

The scanner takes one stretch after the other off a text: a blank, a newline, a comment or a token.
It counts bytes. All of its offsets fall between characters, so each is the column of as many
characters as stand before it, whatever characters the line has. The pieces of a text then depend on
the text alone, moved by the column at which it begins.
-/

namespace ZeroWidth.Assembly

variable {text run rest : List Char} {c : Char} {p : Piece}

/-! ### Bytes and columns -/

@[simp]
lemma byteLength_nil : byteLength [] = 0 := rfl

@[simp]
lemma byteLength_cons (c : Char) (rest : List Char) :
    byteLength (c :: rest) = c.utf8Size + byteLength rest := rfl

@[simp]
lemma byteLength_append (before rest : List Char) :
    byteLength (before ++ rest) = byteLength before + byteLength rest := by
  induction before with
  | nil => simp
  | cons c before ih => simp [ih, Nat.add_assoc]

/-- The bytes of some characters of a text are those characters. -/
lemma firstBytes?_append (before rest : List Char) :
    firstBytes? (before ++ rest) (byteLength before) = some before := by
  induction before with
  | nil => cases rest <;> rfl
  | cons c before ih =>
    obtain ⟨n, hn⟩ := Nat.exists_eq_add_one_of_ne_zero c.utf8Size_pos.ne'
    have hsize : byteLength (c :: before) = n + byteLength before + 1 := by
      rw [byteLength_cons, hn]
      omega
    have hleft : n + byteLength before + 1 - c.utf8Size = byteLength before := by omega
    rw [hsize, List.cons_append, firstBytes?, if_pos (by omega), hleft, ih]
    rfl

lemma column_byteLength (before rest : List Char) :
    column (before ++ rest) (byteLength before) = before.length := by
  rw [column, firstBytes?_append]
  rfl

/-- The piece lies in a text at its own bytes: its offsets fall between characters, and a token is
what stands between them. -/
def Piece.LiesIn (text : List Char) : Piece → Prop
  | .lexeme l            => ∃ before behind, text = before ++ l.text.toList ++ behind ∧
      l.start = byteLength before ∧ l.stop = byteLength (before ++ l.text.toList)
  | .unrecognized offset => ∃ before behind, text = before ++ behind ∧ offset = byteLength before

/-- With more text before it a piece lies as many columns further on. -/
lemma Piece.LiesIn.mapPlaces_append (h : p.LiesIn rest) (run : List Char) :
    (p.mapPlaces (byteLength run + ·)).mapPlaces (column (run ++ rest)) =
      (p.mapPlaces (column rest)).mapPlaces (run.length + ·) := by
  have hcolumn : ∀ before behind, rest = before ++ behind →
      column (run ++ rest) (byteLength run + byteLength before) =
        run.length + column rest (byteLength before) := by
    rintro before behind rfl
    rw [← byteLength_append, ← List.append_assoc, column_byteLength, column_byteLength,
      List.length_append]
  cases p with
  | lexeme l =>
    obtain ⟨before, behind, hrest, hstart, hstop⟩ := h
    have hbegin := hcolumn before _ (by rw [hrest, List.append_assoc])
    have hend := hcolumn (before ++ l.text.toList) behind hrest
    simp only [Piece.mapPlaces, hstart, hstop, hbegin, hend]
  | unrecognized offset =>
    obtain ⟨before, behind, hrest, rfl⟩ := h
    simp only [Piece.mapPlaces, hcolumn before behind hrest]

/-! ### Stretches of a text -/

/-- The tokens that texts are cut into. -/
inductive Token.Legal : Token → Prop
  | word {run : List Char} (hne : run ≠ []) (hrun : ∀ c ∈ run, isWordChar c = true) :
      Legal (.word (String.ofList run))
  | pragma {c : Char} {run : List Char} (hc : c.isAlpha = true)
      (hrun : ∀ c ∈ run, isPragmaChar c = true) : Legal (.pragma (String.ofList ('#' :: c :: run)))

/-- What a stretch of a text is taken for. -/
inductive Cut where
  | skipped
  | unrecognized
  | token (t : Token)

/-- The pieces that a stretch gives. -/
def Cut.pieces (start stop : Nat) : Cut → List Piece
  | skipped      => []
  | unrecognized => [.unrecognized start]
  | token t      => [.lexeme ⟨t, start, stop⟩]

/-- The scanner takes `run` off the text `run ++ rest`. -/
inductive Takes : (run rest : List Char) → Cut → Prop
  | blank {c : Char} {rest : List Char} (hc : isBlank c = true) : Takes [c] rest .skipped
  | newline {rest : List Char} : Takes ['\n'] rest .unrecognized
  | comment {run rest : List Char} (hhead : ∀ c ∈ run.head?, c.isAlpha = false) (hrun : '\n' ∉ run)
      (hrest : ∀ c ∈ rest.head?, c = '\n') : Takes ('#' :: run) rest .skipped
  | pragma {c : Char} {run rest : List Char} (hc : c.isAlpha = true)
      (hrun : ∀ c ∈ run, isPragmaChar c = true) (hrest : ∀ c ∈ rest.head?, isPragmaChar c = false) :
      Takes ('#' :: c :: run) rest (.token (.pragma (String.ofList ('#' :: c :: run))))
  | word {run rest : List Char} (hne : run ≠ []) (hrun : ∀ c ∈ run, isWordChar c = true)
      (hrest : ∀ c ∈ rest.head?, isWordChar c = false) :
      Takes run rest (.token (.word (String.ofList run)))

variable {cut : Cut}

lemma isWordChar_iff : isWordChar c = true ↔ isBlank c = false ∧ c ≠ '\n' ∧ c ≠ '#' := by
  simp [isWordChar, and_assoc]

lemma isPragmaChar_of_mem_cons (hc : c.isAlpha = true)
    (hrun : ∀ c ∈ run, isPragmaChar c = true) : ∀ d ∈ c :: run, isPragmaChar d = true :=
  List.forall_mem_cons.mpr ⟨by simp [isPragmaChar, Char.isAlphanum, hc], hrun⟩

lemma takeWhile_append_of_head {p : Char → Bool} (hrun : ∀ c ∈ run, p c = true)
    (hrest : ∀ c ∈ rest.head?, p c = false) :
    (run ++ rest).takeWhile p = run ∧ (run ++ rest).dropWhile p = rest := by
  rw [List.takeWhile_append_of_pos hrun, List.dropWhile_append_of_pos hrun]
  cases rest with
  | nil => simp
  | cons c rest =>
    have hc : p c = false := hrest c rfl
    simp [hc]

/-- What `dropWhile` leaves begins with nothing that it drops. -/
lemma head?_dropWhile_eq_false {p : Char → Bool} : ∀ c ∈ (text.dropWhile p).head?, p c = false := by
  intro c hc
  have hnot := List.head?_dropWhile_not p text
  rw [Option.mem_def.mp hc] at hnot
  simpa using hnot

/-- The scanner does with a stretch what the stretch is taken for. -/
lemma Takes.scan (h : Takes run rest cut) (offset : Nat) :
    scan offset (run ++ rest) =
      cut.pieces offset (offset + byteLength run) ++
        scan (offset + byteLength run) rest := by
  cases h with
  | blank hc => rw [List.singleton_append, Assembly.scan, if_pos hc]; rfl
  | newline => rw [List.singleton_append, Assembly.scan, if_neg (by decide), if_pos rfl]; rfl
  | @comment run _ hhead hrun hrest =>
    have hline : ∀ c ∈ run, decide (c ≠ '\n') = true := fun c hc => by
      simpa using fun hnewline : c = '\n' => hrun (hnewline ▸ hc)
    have hnewline : ∀ c ∈ rest.head?, decide (c ≠ '\n') = false := by simpa using hrest
    obtain ⟨htake, hdrop⟩ := takeWhile_append_of_head hline hnewline
    have hletter : ((run ++ rest).head?.map Char.isAlpha).getD false = false := by
      cases run with
      | nil =>
        cases rest with
        | nil => rfl
        | cons c rest => simp [hrest c rfl]
      | cons c run => simpa using hhead
    rw [List.cons_append, Assembly.scan, if_neg (by decide), if_neg (by decide), if_pos rfl,
      if_neg (Bool.eq_false_iff.mp hletter), htake, hdrop]
    rfl
  | pragma hc hrun hrest =>
    obtain ⟨htake, hdrop⟩ := takeWhile_append_of_head (isPragmaChar_of_mem_cons hc hrun) hrest
    rw [List.cons_append] at htake hdrop
    rw [List.cons_append, List.cons_append, Assembly.scan]
    simp [isBlank, hc, htake, hdrop, Cut.pieces]
  | word hne hrun hrest =>
    obtain ⟨c, run, rfl⟩ := List.exists_cons_of_ne_nil hne
    obtain ⟨hblank, hnewline, hhash⟩ := isWordChar_iff.mp (hrun c List.mem_cons_self)
    obtain ⟨htake, hdrop⟩ :=
      takeWhile_append_of_head (fun d hd => hrun d (List.mem_cons_of_mem _ hd)) hrest
    rw [List.cons_append, Assembly.scan]
    simp [hblank, hnewline, hhash, htake, hdrop, Cut.pieces]

/-- From every text the scanner takes something. -/
lemma exists_takes (c : Char) (tail : List Char) :
    ∃ run rest cut, c :: tail = run ++ rest ∧ Takes run rest cut := by
  by_cases hblank : isBlank c = true
  · exact ⟨[c], tail, _, rfl, .blank hblank⟩
  by_cases hnewline : c = '\n'
  · exact ⟨['\n'], tail, _, by rw [hnewline]; rfl, .newline⟩
  by_cases hhash : c = '#'
  · subst hhash
    by_cases halpha : ∃ d ∈ tail.head?, d.isAlpha = true
    · obtain ⟨d, hd, halpha⟩ := halpha
      obtain ⟨tail, rfl⟩ : ∃ tail', tail = d :: tail' := List.head?_eq_some_iff.mp hd
      exact ⟨'#' :: d :: tail.takeWhile isPragmaChar, tail.dropWhile isPragmaChar, _, by simp,
        .pragma halpha (fun e he => List.mem_takeWhile_imp he) head?_dropWhile_eq_false⟩
    · refine ⟨'#' :: tail.takeWhile (· ≠ '\n'), tail.dropWhile (· ≠ '\n'), _, by simp,
        .comment (fun d hd => ?_) (fun hmem => ?_) (fun d hd => ?_)⟩
      · rw [List.head?_takeWhile, Option.mem_filter_iff] at hd
        exact Bool.eq_false_iff.mpr fun hletter => halpha ⟨d, hd.1, hletter⟩
      · simpa using List.mem_takeWhile_imp hmem
      · simpa using head?_dropWhile_eq_false d hd
  · have hword := isWordChar_iff.mpr ⟨Bool.eq_false_iff.mpr hblank, hnewline, hhash⟩
    exact ⟨c :: tail.takeWhile isWordChar, tail.dropWhile isWordChar, _, by simp,
      .word (List.cons_ne_nil _ _)
        (List.forall_mem_cons.mpr ⟨hword, fun d hd => List.mem_takeWhile_imp hd⟩)
        head?_dropWhile_eq_false⟩

lemma Takes.ne_nil (h : Takes run rest cut) : run ≠ [] := by
  cases h with
  | word hne => exact hne
  | blank | newline | comment | pragma => exact List.cons_ne_nil _ _

/-- What is kept by every stretch in front of a text holds of every text. -/
@[elab_as_elim]
theorem stretch_induction {motive : List Char → Prop} (nil : motive [])
    (takes : ∀ run rest cut, Takes run rest cut → motive rest → motive (run ++ rest))
    (text : List Char) : motive text := by
  induction hlength : text.length using Nat.strong_induction_on generalizing text with
  | _ length ih =>
    cases text with
    | nil => exact nil
    | cons c tail =>
      obtain ⟨run, rest, cut, htext, htakes⟩ := exists_takes c tail
      have hpos := List.length_pos_iff.mpr htakes.ne_nil
      rw [htext] at hlength ⊢
      rw [List.length_append] at hlength
      exact takes run rest cut htakes (ih _ (by omega) rest rfl)

lemma Takes.legal {t : Token} (h : Takes run rest (.token t)) : t.Legal ∧ t.text.toList = run := by
  cases h with
  | pragma hc hrun => exact ⟨.pragma hc hrun, String.toList_ofList⟩
  | word hne hrun => exact ⟨.word hne hrun, String.toList_ofList⟩

/-! ### Pieces in columns -/

@[simp]
lemma scan_nil (offset : Nat) : scan offset [] = [] := by
  rw [scan]

lemma Cut.map_pieces (cut : Cut) (f : Nat → Nat) (start stop : Nat) :
    (cut.pieces start stop).map (Piece.mapPlaces f) = cut.pieces (f start) (f stop) := by
  cases cut <;> rfl

lemma Piece.mapPlaces_mapPlaces (f g : Nat → Nat) (p : Piece) :
    (p.mapPlaces f).mapPlaces g = p.mapPlaces fun place => g (f place) := by
  cases p <;> rfl

/-- Bytes before a text only move its pieces. -/
lemma scan_eq_map (offset : Nat) (text : List Char) :
    scan offset text = (scan 0 text).map (Piece.mapPlaces (offset + ·)) := by
  induction text using stretch_induction generalizing offset with
  | nil => simp
  | takes run rest cut htakes ih =>
    rw [htakes.scan offset, htakes.scan 0, List.map_append, Cut.map_pieces, ih (offset + _),
      ih (0 + _), List.map_map]
    congr 1
    · simp
    · refine List.map_congr_left fun p _ => ?_
      simp [Piece.mapPlaces_mapPlaces, Nat.add_assoc]

/-- Every piece lies in the scanned text at its own bytes. -/
lemma liesIn_of_mem_scan (before : List Char) (h : p ∈ scan (byteLength before) text) :
    p.LiesIn (before ++ text) := by
  induction text using stretch_induction generalizing before with
  | nil => simp at h
  | takes run rest cut htakes ih =>
    rw [htakes.scan, ← byteLength_append] at h
    rcases List.mem_append.mp h with h | h
    · cases cut with
      | skipped => cases h
      | unrecognized =>
        rw [List.mem_singleton.mp h]
        exact ⟨before, run ++ rest, rfl, rfl⟩
      | token t =>
        rw [List.mem_singleton.mp h]
        refine ⟨before, rest, ?_, rfl, ?_⟩
        · simp [Lexeme.text, htakes.legal.2]
        · simp [Lexeme.text, htakes.legal.2]
    · rw [← List.append_assoc]
      exact ih (before ++ run) h

/-- The pieces of a text whose first character stands in column `first`. -/
def piecesFrom (first : Nat) (text : List Char) : List Piece :=
  (pieces text).map (Piece.mapPlaces (first + ·))

@[simp]
lemma piecesFrom_zero (text : List Char) : piecesFrom 0 text = pieces text := by
  have hid : Piece.mapPlaces (0 + ·) = id := by
    funext p
    cases p <;> simp [Piece.mapPlaces]
  rw [piecesFrom, hid, List.map_id]

@[simp]
lemma piecesFrom_nil (first : Nat) : piecesFrom first [] = [] := by
  simp [piecesFrom, pieces]

/-- Each stretch gives its piece, between the columns where it stands. -/
lemma Takes.piecesFrom (h : Takes run rest cut) (first : Nat) :
    piecesFrom first (run ++ rest) =
      cut.pieces first (first + run.length) ++ piecesFrom (first + run.length) rest := by
  have hbegin : column (run ++ rest) 0 = 0 := column_byteLength [] (run ++ rest)
  have hend := column_byteLength run rest
  rw [Assembly.piecesFrom, pieces, h.scan, List.map_append, List.map_append, Cut.map_pieces,
    Cut.map_pieces, Nat.zero_add, hbegin, hend, scan_eq_map, List.map_map, List.map_map,
    Assembly.piecesFrom, pieces, List.map_map]
  congr 1
  refine List.map_congr_left fun p hp => ?_
  have hlies : p.LiesIn rest := liesIn_of_mem_scan [] hp
  simp only [Function.comp_apply, hlies.mapPlaces_append, Piece.mapPlaces_mapPlaces, Nat.add_assoc]

end ZeroWidth.Assembly
