import ZeroWidth.Assembly.Printer
import ZeroWidth.Assembly.Reader
import ZeroWidth.Proofs.Columns
import ZeroWidth.Proofs.Numerals
import ZeroWidth.Proofs.Renaming

/-!
# Reading printed assembly

Every name that a line can hold as one lexeme is one again where it is printed: it stands at the end
of its line, with the name of an instruction and a blank before it. So each line that is printed for
an operation says that operation, whatever has been defined before, and a program that is printed
is read as it was.
-/

namespace ZeroWidth

/-! ### Cutting into lines -/

lemma splitAtEach_append {mark : Char} {part : List Char} (h : mark ∉ part) (rest : List Char) :
    splitAtEach mark (part ++ mark :: rest) = part :: splitAtEach mark rest := by
  induction part with
  | nil => simp [consPart]
  | cons c part ih =>
    have hc : c ≠ mark := fun hc => h (hc ▸ List.mem_cons_self)
    rw [List.cons_append, splitAtEach_cons, ih fun hmem => h (List.mem_cons_of_mem _ hmem)]
    simp [consPart, hc]

namespace Assembly

lemma toList_joinLines (lines : List String) (hne : lines ≠ []) :
    (joinLines lines).toList = lines.flatMap fun line => line.toList ++ ['\n'] := by
  induction lines with
  | nil => exact absurd rfl hne
  | cons line lines ih =>
    cases lines with
    | nil => simp [joinLines]
    | cons next lines =>
      have ih := ih (List.cons_ne_nil _ _)
      simp only [joinLines, String.toList_append] at ih ⊢
      rw [String.intercalate_cons_cons, List.flatMap_cons, ← ih]
      simp

/-- Lines are cut again where they have been joined. -/
lemma splitLines_joinLines {lines : List String} (hne : lines ≠ [])
    (hlines : ∀ line ∈ lines, '\n' ∉ line.toList) :
    splitLines (joinLines lines).toList = lines.map String.toList ++ [[]] := by
  rw [toList_joinLines lines hne, splitLines]
  clear hne
  induction lines with
  | nil => rfl
  | cons line lines ih =>
    rw [List.flatMap_cons, List.append_assoc, List.singleton_append,
      splitAtEach_append (hlines line List.mem_cons_self),
      ih fun line hline => hlines line (List.mem_cons_of_mem _ hline)]
    rfl

lemma trimReturns_of_notMem {line : List Char} (h : '\r' ∉ line) : trimReturns line = line := by
  have hdrop : line.reverse.dropWhile (· = '\r') = line.reverse := by
    cases hrev : line.reverse with
    | nil => rfl
    | cons c rest =>
      have hmem : c ∈ line := by
        rw [← List.mem_reverse, hrev]
        exact List.mem_cons_self
      have hc : c ≠ '\r' := fun hc => h (hc ▸ hmem)
      simp [hc]
  rw [trimReturns, hdrop, List.reverse_reverse]

/-! ### Names -/

/-- The texts that a line holds as one lexeme. -/
inductive IsName : List Char → Prop
  | word {run : List Char} (hne : run ≠ []) (hrun : ∀ c ∈ run, isWordChar c = true) : IsName run
  | pragma {c : Char} {run : List Char} (hc : c.isAlpha = true)
      (hrun : ∀ c ∈ run, isPragmaChar c = true) : IsName ('#' :: c :: run)

lemma isWordChar_of_isDigit {c : Char} (h : c.isDigit = true) : isWordChar c = true := by
  rw [isWordChar_iff]
  refine ⟨?_, ?_, ?_⟩
  · simp only [isBlank, Bool.or_eq_false_iff, decide_eq_false_iff_not]
    refine ⟨⟨⟨?_, ?_⟩, ?_⟩, ?_⟩ <;> (rintro rfl; simp at h)
  · rintro rfl
    simp at h
  · rintro rfl
    simp at h

lemma Token.Legal.isName {token : Token} (h : token.Legal) : IsName token.text.toList := by
  cases h with
  | word hne hrun => simpa [Token.text] using IsName.word hne hrun
  | pragma hc hrun => simpa [Token.text] using IsName.pragma hc hrun

lemma IsName.exists_legal {name : List Char} (h : IsName name) :
    ∃ token : Token, token.Legal ∧ token.text.toList = name := by
  cases h with
  | word hne hrun => exact ⟨_, .word hne hrun, by simp [Token.text]⟩
  | pragma hc hrun => exact ⟨_, .pragma hc hrun, by simp [Token.text]⟩

/-- A blank or the end of the line ends a token. -/
lemma Token.Legal.takes {token : Token} (h : token.Legal) {rest : List Char}
    (hrest : ∀ c ∈ rest.head?, c = ' ') : Takes token.text.toList rest (.token token) := by
  cases h with
  | word hne hrun =>
    rw [Token.text, String.toList_ofList]
    exact .word hne hrun fun c hc => hrest c hc ▸ rfl
  | pragma hc hrun =>
    rw [Token.text, String.toList_ofList]
    exact .pragma hc hrun fun c hc => hrest c hc ▸ rfl

lemma piecesFrom_blank (first : Nat) (rest : List Char) :
    piecesFrom first (' ' :: rest) = piecesFrom (first + 1) rest :=
  (Takes.blank rfl).piecesFrom first

/-- A name at the end of a line is one lexeme. -/
lemma exists_piecesFrom_of_isName {name : List Char} (h : IsName name) (first : Nat) :
    ∃ l : Lexeme, piecesFrom first name = [.lexeme l] ∧ l.text = String.ofList name := by
  obtain ⟨token, hlegal, rfl⟩ := h.exists_legal
  have htakes : Takes token.text.toList [] (.token token) := hlegal.takes (by simp)
  have hpieces := htakes.piecesFrom first
  rw [List.append_nil, piecesFrom_nil] at hpieces
  exact ⟨_, hpieces, String.ofList_toList.symm⟩

/-- Whatever a text is cut into, its lexemes are legal tokens. -/
lemma legal_of_mem_piecesFrom {first : Nat} {text : List Char} {l : Lexeme}
    (h : Piece.lexeme l ∈ piecesFrom first text) : l.token.Legal := by
  induction text using stretch_induction generalizing first with
  | nil => simp at h
  | takes run rest cut htakes ih =>
    rw [htakes.piecesFrom] at h
    rcases List.mem_append.mp h with h | h
    · cases cut with
      | skipped => cases h
      | unrecognized => cases List.mem_singleton.mp h
      | token t =>
        cases List.mem_singleton.mp h
        exact htakes.legal.1
    · exact ih h

lemma legal_of_mem_pieces {text : List Char} {l : Lexeme} (h : Piece.lexeme l ∈ pieces text) :
    l.token.Legal :=
  legal_of_mem_piecesFrom (piecesFrom_zero text ▸ h)

lemma isWordChar_of_mem_text {n : Int64} {c : Char} (hc : c ∈ (Decimal.text n).toList) :
    isWordChar c = true := by
  unfold Decimal.text at hc
  cases hn : n.toInt with
  | ofNat k =>
    rw [hn, Decimal.toList_toString_ofNat] at hc
    exact isWordChar_of_isDigit (Nat.isDigit_of_mem_toDigits (by decide) le_rfl hc)
  | negSucc k =>
    rw [hn, Decimal.toList_toString_negSucc] at hc
    rcases List.mem_cons.mp hc with rfl | hc
    · rfl
    · exact isWordChar_of_isDigit (Nat.isDigit_of_mem_toDigits (by decide) le_rfl hc)

lemma isName_text (n : Int64) : IsName (Decimal.text n).toList := by
  refine .word ?_ fun c hc => isWordChar_of_mem_text hc
  intro hnil
  have hread := Decimal.word?_text n
  simp [Decimal.word?, hnil, Decimal.integer?, Decimal.natural?] at hread

/-- Names run over no end of a line. -/
lemma IsName.notMem {name : List Char} (h : IsName name) : '\n' ∉ name ∧ '\r' ∉ name := by
  cases h with
  | word _ hrun =>
    exact ⟨fun hc => absurd (hrun _ hc) (by decide), fun hc => absurd (hrun _ hc) (by decide)⟩
  | @pragma c run hc hrun =>
    have hchars := isPragmaChar_of_mem_cons hc hrun
    constructor
    · intro hmem
      exact absurd (hchars _ (List.mem_of_ne_of_mem (by decide) hmem)) (by decide)
    · intro hmem
      exact absurd (hchars _ (List.mem_of_ne_of_mem (by decide) hmem)) (by decide)

/-! ### Lines -/

variable {op : Operation} {definitions : Definitions} {place : LinePlace}

/-- The operation can be said in a line. -/
structure Sayable (op : Operation) : Prop where
  wellKinded : op.WellKinded
  isName     : ∀ argument, op.argument = some argument → IsName argument.text.toList

lemma isWordChar_of_mem_name {i : Instruction} : ∀ c ∈ i.name.toList, isWordChar c = true := by
  rw [← List.all_eq_true]
  cases i <;> decide

lemma toList_name_ne_nil (i : Instruction) : i.name.toList ≠ [] := by
  cases i <;> decide

lemma takes_name (i : Instruction) {rest : List Char}
    (hrest : ∀ c ∈ rest.head?, isWordChar c = false) :
    Takes i.name.toList rest (.token (.word i.name)) := by
  have htakes := Takes.word (toList_name_ne_nil i) isWordChar_of_mem_name hrest
  rwa [String.ofList_toList] at htakes

lemma readArgument_text {i : Instruction} {argument : Argument}
    (hkind : argument.kind = i.argKind) : readArgument i argument.text = .ok argument := by
  cases argument with
  | number n => simp [readArgument, ← hkind, Argument.kind, Argument.text, Decimal.word?_text]
  | label name => simp [readArgument, ← hkind, Argument.kind, Argument.text]
  | type name => simp [readArgument, ← hkind, Argument.kind, Argument.text]

/-- The line of an operation says the operation, whatever has been defined. -/
lemma readLine_text (hop : Sayable op) (first : Nat) :
    readLine definitions place (piecesFrom first op.text.toList) =
      .perform { op with span := place.toEnd first } := by
  have hkind : op.argKind = op.instruction.argKind := hop.wellKinded
  cases hargument : op.argument with
  | none =>
    have hend : ∀ c ∈ ([] : List Char).head?, isWordChar c = false := by simp
    have hpieces := (takes_name op.instruction hend).piecesFrom first
    have hnothing : op.instruction.argKind = .nothing := by
      rw [← hkind, Operation.argKind, hargument]
      rfl
    rw [List.append_nil, piecesFrom_nil] at hpieces
    rw [Operation.text, hargument, hpieces]
    simp [Cut.pieces, readLine, lexemes, Except.map, readInstruction, instruction?, readArguments,
      hnothing]
  | some argument =>
    have hargKind : argument.kind = op.instruction.argKind := by
      rw [← hkind, Operation.argKind, hargument]
      rfl
    have hblank : ∀ c ∈ (' ' :: argument.text.toList).head?, isWordChar c = false := by
      simp [isWordChar, isBlank]
    have hpieces := (takes_name op.instruction hblank).piecesFrom first
    obtain ⟨l, hl, htext⟩ := exists_piecesFrom_of_isName (hop.isName argument hargument)
      (first + op.instruction.name.toList.length + 1)
    have htext : l.text = argument.text := htext.trans String.ofList_toList
    have hline : op.text.toList = op.instruction.name.toList ++ ' ' :: argument.text.toList := by
      simp [Operation.text, hargument]
    rw [hline, hpieces, piecesFrom_blank, hl]
    simp [Cut.pieces, readLine, lexemes, Except.map, readInstruction, instruction?, readArguments,
      htext, readArgument_text hargKind]

lemma Sayable.notMem_text (hop : Sayable op) :
    '\n' ∉ op.text.toList ∧ '\r' ∉ op.text.toList := by
  obtain ⟨hnewline, hreturn⟩ :=
    (IsName.word (toList_name_ne_nil op.instruction) isWordChar_of_mem_name).notMem
  cases hargument : op.argument with
  | none => simp [Operation.text, hargument, hnewline, hreturn]
  | some argument =>
    obtain ⟨hnewline', hreturn'⟩ := (hop.isName argument hargument).notMem
    simp [Operation.text, hargument, hnewline, hreturn, hnewline', hreturn']

/-! ### Whole texts -/

variable {ops : List Operation} {known : Known} {number : Nat} {line : List Char}
  {lines : List (List Char)}

/-- What a line says under what is known. -/
def statementOf (known : Known) (number : Nat) (line : List Char) : Statement :=
  readLine known.definitions ⟨number, (trimReturns line).length⟩ (pieces (trimReturns line))

/-- What the lines of a text say. -/
def statementsOf (known : Known) (number : Nat) (lines : List (List Char)) : List Statement :=
  (readLines known number lines).1

lemma statementsOf_cons :
    statementsOf known number (line :: lines) =
      statementOf known number line ::
        statementsOf (known.after (statementOf known number line)) (number + 1) lines := rfl

/-- Reading a text line by line has learned what its operations teach in their order. -/
lemma vocabulary_readLines (known : Known) (number : Nat) (lines : List (List Char)) :
    (readLines known number lines).2.vocabulary =
      ((statementsOf known number lines).filterMap Statement.operation?).foldl Vocabulary.learn
        known.vocabulary := by
  induction lines generalizing known number with
  | nil => rfl
  | cons line lines ih =>
    have hcons : (readLines known number (line :: lines)).2 =
      (readLines (known.after (statementOf known number line)) (number + 1) lines).2 := rfl
    rw [hcons, ih, statementsOf_cons]
    cases statementOf known number line <;> rfl

lemma statementOf_blank : statementOf known number [] = .nothing := by
  simp [statementOf, trimReturns, pieces, readLine, lexemes]

lemma statementOf_text (known : Known) (number : Nat) (hop : Sayable op) {indent : String}
    (hindent : indent = "" ∨ indent = " ") :
    ∃ span, statementOf known number (indent ++ op.text).toList =
      .perform { op with span := span } := by
  have hreturn : '\r' ∉ (indent ++ op.text).toList := by
    rcases hindent with rfl | rfl <;> simp [hop.notMem_text]
  have hpieces : ∃ first, pieces (indent ++ op.text).toList = piecesFrom first op.text.toList := by
    rcases hindent with rfl | rfl
    · exact ⟨0, by simp⟩
    · exact ⟨1, by simpa using piecesFrom_blank 0 op.text.toList⟩
  obtain ⟨first, hpieces⟩ := hpieces
  refine ⟨LinePlace.toEnd ⟨number, (indent ++ op.text).toList.length⟩ first, ?_⟩
  rw [statementOf, trimReturns_of_notMem hreturn, hpieces, readLine_text hop]

/-- Statements that say operations and nothing else. -/
structure Say (statements : List Statement) (ops : List Operation) : Prop where
  operations : SameContents (statements.filterMap Statement.operation?) ops
  errors     : statements.filterMap Statement.error? = []

lemma Say.blank (h : Say (statementsOf known (number + 1) lines) ops) :
    Say (statementsOf known number ([] :: lines)) ops := by
  rw [statementsOf_cons, statementOf_blank]
  exact ⟨h.operations, h.errors⟩

/-- A line more, and an operation more. -/
lemma Say.cons (h : ∀ known, Say (statementsOf known (number + 1) lines) ops) (hop : Sayable op)
    {indent : String} (hindent : indent = "" ∨ indent = " ") :
    Say (statementsOf known number ((indent ++ op.text).toList :: lines)) (op :: ops) := by
  obtain ⟨span, hread⟩ := statementOf_text known number hop hindent
  rw [statementsOf_cons, hread]
  refine ⟨?_, (h _).errors⟩
  exact congrArg (op.content :: ·) (h _).operations

lemma say_layout (hops : ∀ op ∈ ops, Sayable op) (inParagraph first : Bool) :
    Say (statementsOf known number ((layout inParagraph first ops).map String.toList ++ [[]]))
      ops := by
  induction ops generalizing inParagraph first number known with
  | nil => exact Say.blank ⟨rfl, rfl⟩
  | cons op ops ih =>
    have hop := hops op List.mem_cons_self
    have hops := fun op hop => hops op (List.mem_cons_of_mem _ hop)
    have hline : op.text = "" ++ op.text := by simp
    rw [layout]
    split
    · rw [hline]
      split
      · exact Say.cons (fun _ => ih hops true false) hop (Or.inl rfl)
      · exact (Say.cons (fun _ => ih hops true false) hop (Or.inl rfl)).blank
    · refine Say.cons (fun _ => ih hops inParagraph false) hop ?_
      cases inParagraph
      · exact Or.inl rfl
      · exact Or.inr rfl

lemma notMem_of_mem_layout (hops : ∀ op ∈ ops, Sayable op) (inParagraph first : Bool)
    {line : String} (hline : line ∈ layout inParagraph first ops) : '\n' ∉ line.toList := by
  induction ops generalizing inParagraph first with
  | nil => cases hline
  | cons op ops ih =>
    have hop := (hops op List.mem_cons_self).notMem_text.1
    have ih := ih fun op hop => hops op (List.mem_cons_of_mem _ hop)
    rw [layout] at hline
    split at hline
    · split at hline
      · rcases List.mem_cons.mp hline with rfl | hline
        · exact hop
        · exact ih _ _ hline
      · rcases List.mem_cons.mp hline with rfl | hline
        · simp
        · rcases List.mem_cons.mp hline with rfl | hline
          · exact hop
          · exact ih _ _ hline
    · rcases List.mem_cons.mp hline with rfl | hline
      · cases inParagraph <;> simp [hop]
      · exact ih _ _ hline

/-- What a whole text says. -/
def readStatements (text : List Char) : List Statement := statementsOf .initial 0 (splitLines text)

lemma operations_read (source : String) :
    (read source).operations = (readStatements source.toList).filterMap Statement.operation? := rfl

lemma vocabulary_read (source : String) :
    (read source).vocabulary =
      (read source).operations.foldl Vocabulary.learn Vocabulary.initial :=
  vocabulary_readLines .initial 0 (splitLines source.toList)

lemma errors_read (source : String) :
    (read source).errors = (readStatements source.toList).filterMap Statement.error? ++
      labelErrors (read source).operations := rfl

/-- A program is read as it was printed. -/
lemma read_print {p : Program} (hops : ∀ op ∈ p.operations, Sayable op) :
    SameContents (read (print p)).operations p.operations ∧
      (read (print p)).errors = labelErrors (read (print p)).operations := by
  have hsay : Say (readStatements (print p).toList) p.operations := by
    rw [readStatements, print]
    by_cases hne : layout false true p.operations = []
    · have hnil : p.operations = [] := by
        cases hoperations : p.operations with
        | nil => rfl
        | cons op ops =>
          rw [hoperations, layout] at hne
          split at hne <;> simp at hne
      rw [hnil]
      exact Say.blank (Say.blank ⟨rfl, rfl⟩)
    · rw [splitLines_joinLines hne fun line hline => notMem_of_mem_layout hops _ _ hline]
      exact say_layout hops false true
  exact ⟨hsay.operations, by rw [errors_read, hsay.errors, List.nil_append]⟩

/-! ### What is read -/

lemma mem_of_lexemes {line : List Piece} {ls : List Lexeme} (h : lexemes line = .ok ls) {l : Lexeme}
    (hl : l ∈ ls) : Piece.lexeme l ∈ line := by
  induction line generalizing ls with
  | nil =>
    cases h
    cases hl
  | cons piece line ih =>
    cases piece with
    | unrecognized column => cases h
    | lexeme l' =>
      simp only [lexemes] at h
      cases hrest : lexemes line with
      | error column =>
        rw [hrest] at h
        cases h
      | ok rest =>
        rw [hrest] at h
        cases h
        rcases List.mem_cons.mp hl with rfl | hl
        · exact List.mem_cons_self
        · exact List.mem_cons_of_mem _ (ih hrest hl)

lemma sayable_of_readArguments {i : Instruction} {ls : List Lexeme} {argument : Option Argument}
    (hls : ∀ l ∈ ls, IsName l.text.toList) (h : readArguments i ls = .ok argument) (span : Span) :
    Sayable ⟨i, argument, span⟩ := by
  match ls with
  | [] =>
    simp only [readArguments] at h
    split at h <;> cases h
    exact ⟨Eq.symm ‹_›, by simp⟩
  | [l] =>
    have hl := hls l List.mem_cons_self
    simp only [readArguments, readArgument] at h
    split at h
    · split at h
      · cases h
        exact ⟨Eq.symm ‹_›, by simpa [Argument.text] using isName_text _⟩
      · cases h
    · cases h
      exact ⟨Eq.symm ‹_›, by simpa [Argument.text] using hl⟩
    · cases h
      exact ⟨Eq.symm ‹_›, by simpa [Argument.text] using hl⟩
    · cases h
  | _ :: _ :: _ =>
    simp only [readArguments] at h
    split at h <;> cases h

/-- The operation can be said, and it stands in the line of the given number. -/
structure SaidIn (number : Nat) (op : Operation) : Prop where
  sayable : Sayable op
  line    : op.span.start.line = number

lemma saidIn_of_readInstruction {ls : List Lexeme} (hls : ∀ l ∈ ls, IsName l.text.toList)
    (h : readInstruction place ls = .perform op) : SaidIn place.number op := by
  cases ls with
  | nil => cases h
  | cons head arguments =>
    simp only [readInstruction] at h
    split at h
    · cases h
    · split at h
      · cases h
        exact ⟨sayable_of_readArguments (fun l hl => hls l (List.mem_cons_of_mem _ hl)) ‹_› _, rfl⟩
      · cases h

lemma saidIn_of_readPragma {pragma : String} {span : Span} {ls : List Lexeme}
    (hls : ∀ l ∈ ls, IsName l.text.toList)
    (h : readPragma definitions place pragma span ls = .perform op) : SaidIn place.number op := by
  unfold readPragma at h
  split at h
  · cases h
  split at h
  · rename_i key value rest
    split at h
    · split at h <;> cases h
    · split at h
      · cases h
      · split at h
        · exact saidIn_of_readInstruction
            (fun l hl => hls l (List.mem_cons_of_mem _ (List.mem_cons_of_mem _ hl))) h
        · cases h
  · cases h

lemma saidIn_of_readLine {text : List Char}
    (h : readLine definitions place (pieces text) = .perform op) : SaidIn place.number op := by
  unfold readLine at h
  split at h
  · cases h
  · cases h
  · rename_i head rest hlexemes
    have hls : ∀ l ∈ head :: rest, IsName l.text.toList :=
      fun l hl => (legal_of_mem_pieces (mem_of_lexemes hlexemes hl)).isName
    split at h
    · exact saidIn_of_readPragma (fun l hl => hls l (List.mem_cons_of_mem _ hl)) h
    · exact saidIn_of_readInstruction hls h

/-- The operations of a text can be said, and each stands in a line of its own. -/
lemma saidIn_statementsOf (known : Known) (number : Nat) (lines : List (List Char)) :
    (∀ op ∈ (statementsOf known number lines).filterMap Statement.operation?,
        Sayable op ∧ number ≤ op.span.start.line) ∧
      ((statementsOf known number lines).filterMap Statement.operation?).Pairwise
        fun op op' => op.span.start.line < op'.span.start.line := by
  induction lines generalizing known number with
  | nil => simp [statementsOf, readLines]
  | cons line lines ih =>
    rw [statementsOf_cons]
    generalize hstatement : statementOf known number line = statement
    obtain ⟨hops, hpairwise⟩ := ih (known.after statement) (number + 1)
    cases statement with
    | perform op =>
      obtain ⟨hop, hline⟩ := saidIn_of_readLine hstatement
      rw [List.filterMap_cons_some (show (Statement.perform op).operation? = some op from rfl),
        List.forall_mem_cons, List.pairwise_cons]
      refine ⟨⟨⟨hop, hline.ge⟩, fun op hop => ?_⟩, fun op' hop' => ?_, hpairwise⟩
      · exact ⟨(hops op hop).1, Nat.le_of_succ_le (hops op hop).2⟩
      · exact hline.trans_lt (hops op' hop').2
    | nothing | define | reject =>
      exact ⟨fun op hop => ⟨(hops op hop).1, Nat.le_of_succ_le (hops op hop).2⟩, hpairwise⟩

end Assembly

end ZeroWidth
