import ZeroWidth.Proofs.AssemblyText
import ZeroWidth.Proofs.Reading

/-!
# Conditional lines of assembly

A pragma includes the rest of its line or says nothing to a program. So a text can be expanded
before it is read: a condition that holds is replaced by what it includes, and all other pragmas
leave an empty line behind. Unless what is included begins with a pragma itself, which would be one
in the expansion, the text and its expansion say the same, up to what is wrong with the pragmas.
-/

namespace ZeroWidth

/-! ### Lines that are joined -/

lemma notMem_of_mem_splitAtEach {mark : Char} {text part : List Char}
    (h : part ∈ splitAtEach mark text) : mark ∉ part := by
  induction text generalizing part with
  | nil =>
    rw [splitAtEach_nil, List.mem_singleton] at h
    simp [h]
  | cons c rest ih =>
    rw [splitAtEach_cons] at h
    by_cases hc : c = mark
    · rw [consPart.eq_def, if_pos hc] at h
      rcases List.mem_cons.mp h with rfl | h
      · simp
      · exact ih h
    · obtain ⟨first, parts, hsplit⟩ := List.exists_cons_of_ne_nil (splitAtEach_ne_nil mark rest)
      rw [consPart.eq_def, if_neg hc, hsplit] at h
      rw [hsplit] at ih
      rcases List.mem_cons.mp h with rfl | h
      · exact List.not_mem_cons_of_ne_of_not_mem (Ne.symm hc) (ih List.mem_cons_self)
      · exact ih (List.mem_cons_of_mem _ h)

lemma splitAtEach_of_notMem {mark : Char} {part : List Char} (h : mark ∉ part) :
    splitAtEach mark part = [part] := by
  induction part with
  | nil => rfl
  | cons c part ih =>
    have hc : c ≠ mark := fun hc => h (hc ▸ List.mem_cons_self)
    rw [splitAtEach_cons, ih (List.not_mem_of_not_mem_cons h)]
    exact if_neg hc

/-- Parts are cut again where a mark has been put between them. -/
lemma splitAtEach_intercalate {mark : Char} {parts : List (List Char)} (hne : parts ≠ [])
    (hparts : ∀ part ∈ parts, mark ∉ part) :
    splitAtEach mark ([mark].intercalate parts) = parts := by
  induction parts with
  | nil => exact absurd rfl hne
  | cons part parts ih =>
    have hpart := hparts part List.mem_cons_self
    cases parts with
    | nil => simpa using splitAtEach_of_notMem hpart
    | cons next parts =>
      have hparts := fun part hmem => hparts part (List.mem_cons_of_mem _ hmem)
      have ih := ih (List.cons_ne_nil _ _) hparts
      rw [List.intercalate_cons_cons, List.append_assoc, List.singleton_append,
        splitAtEach_append hpart, ih]

namespace Assembly

/-! ### Expanding a text -/

def Piece.token? : Piece → Option Token
  | lexeme l       => some l.token
  | unrecognized _ => none

/-- The tokens of a line. -/
def tokens (line : List Char) : List Token := (pieces (trimReturns line)).filterMap Piece.token?

/-- Tokens with a single blank between any two. -/
def spaced (ts : List Token) : List Char := [' '].intercalate (ts.map fun t => t.text.toList)

def beginsWithPragma : List Token → Bool
  | .pragma _ :: _ => true
  | _              => false

/-- The key and the value that a well-formed definition binds. -/
def definition? : List Token → Option (String × String)
  | [head, key, value] => if head = .pragma "#define" then some (key.text, value.text) else none
  | _                  => none

/-- The definitions in some lines, the latest first. -/
def definitionsIn (lines : List (List Char)) : Definitions :=
  lines.reverse.filterMap fun line => definition? (tokens line)

/-- What a condition includes, if its key is bound to its value by the latest definition of the key
in the lines before it. -/
def included? (before : List (List Char)) : List Token → Option (List Token)
  | head :: key :: value :: next :: rest =>
    if head = .pragma "#if" ∧ (definitionsIn before).lookup key.text = some value.text then
      some (next :: rest)
    else none
  | _ => none

/-- A line with its pragma expanded: what it includes is left, and nothing if that is nothing. -/
def expandLine (before : List (List Char)) (line : List Char) : List Char :=
  if beginsWithPragma (tokens line) then spaced ((included? before (tokens line)).getD [])
  else line

/-- Each line with the lines before it, those in `before` among them. -/
def contexts : (before : List (List Char)) → List (List Char) → List (List (List Char) × List Char)
  | _,      []            => []
  | before, line :: lines => (before, line) :: contexts (before ++ [line]) lines

/-- Lines that follow others, expanded. -/
def expandLines (before lines : List (List Char)) : List (List Char) :=
  (contexts before lines).map fun entry => expandLine entry.1 entry.2

def expansion (source : String) : String :=
  String.ofList (['\n'].intercalate (expandLines [] (splitLines source.toList)))

lemma definition?_of_beginsWithPragma {ts : List Token} (h : beginsWithPragma ts = false) :
    definition? ts = none := by
  unfold definition?
  split
  · refine if_neg fun hhead => ?_
    simp [hhead, beginsWithPragma] at h
  · rfl

/-! ### Tokens of an expanded line -/

variable {line : List Char} {before lines : List (List Char)} {ts : List Token}
  {ls ls' : List Lexeme} {definitions : Definitions} {place place' : LinePlace} {number : Nat}
  {known known' : Known}

/-- A text without a newline is cut into lexemes only. -/
lemma exists_piecesFrom_eq_map {text : List Char} (h : '\n' ∉ text) (first : Nat) :
    ∃ ls : List Lexeme, piecesFrom first text = ls.map Piece.lexeme := by
  induction text using stretch_induction generalizing first with
  | nil => exact ⟨[], by simp⟩
  | takes run rest cut htakes ih =>
    obtain ⟨hrun, hrest⟩ := not_or.mp (List.mem_append.not.mp h)
    obtain ⟨ls, hls⟩ := ih hrest (first + run.length)
    rw [htakes.piecesFrom, hls]
    cases cut with
    | skipped => exact ⟨ls, rfl⟩
    | unrecognized =>
      cases htakes
      exact absurd List.mem_cons_self hrun
    | token t => exact ⟨_ :: ls, rfl⟩

lemma exists_pieces_eq_map {text : List Char} (h : '\n' ∉ text) :
    ∃ ls : List Lexeme, pieces text = ls.map Piece.lexeme :=
  piecesFrom_zero text ▸ exists_piecesFrom_eq_map h 0

lemma filterMap_token?_map (ls : List Lexeme) :
    (ls.map Piece.lexeme).filterMap Piece.token? = ls.map Lexeme.token := by
  rw [List.filterMap_map, show Piece.token? ∘ Piece.lexeme = some ∘ Lexeme.token from rfl,
    List.filterMap_eq_map]

lemma mem_of_mem_trimReturns {c : Char} (h : c ∈ trimReturns line) : c ∈ line := by
  rw [trimReturns, List.mem_reverse] at h
  exact List.mem_reverse.mp ((List.dropWhile_sublist _).subset h)

/-- A line is read from the lexemes of its tokens. -/
lemma exists_lexemes_of_notMem (h : '\n' ∉ line) :
    ∃ ls : List Lexeme, pieces (trimReturns line) = ls.map Piece.lexeme ∧
      tokens line = ls.map Lexeme.token := by
  obtain ⟨ls, hls⟩ := exists_pieces_eq_map fun hmem => h (mem_of_mem_trimReturns hmem)
  exact ⟨ls, hls, by rw [tokens, hls, filterMap_token?_map]⟩

lemma legal_of_mem_tokens {token : Token} (h : token ∈ tokens line) : token.Legal := by
  obtain ⟨piece, hpiece, htoken⟩ := List.mem_filterMap.mp h
  cases piece with
  | lexeme l =>
    cases htoken
    exact legal_of_mem_pieces hpiece
  | unrecognized column => cases htoken

lemma spaced_cons_cons (token next : Token) (ts : List Token) :
    spaced (token :: next :: ts) = token.text.toList ++ ' ' :: spaced (next :: ts) := by
  simp [spaced, List.intercalate_cons_cons]

/-- Tokens that are written with blanks between them are read again. -/
lemma filterMap_piecesFrom_spaced (hts : ∀ token ∈ ts, token.Legal) (first : Nat) :
    (piecesFrom first (spaced ts)).filterMap Piece.token? = ts := by
  induction ts generalizing first with
  | nil => simp [spaced]
  | cons token ts ih =>
    have htoken := hts token List.mem_cons_self
    have ih := ih fun token hmem => hts token (List.mem_cons_of_mem _ hmem)
    cases ts with
    | nil =>
      have htakes : Takes token.text.toList [] (.token token) := htoken.takes (by simp)
      have hpieces := htakes.piecesFrom first
      rw [List.append_nil, piecesFrom_nil] at hpieces
      simp [spaced, hpieces, Cut.pieces, Piece.token?]
    | cons next ts =>
      have htakes : Takes token.text.toList (' ' :: spaced (next :: ts)) (.token token) :=
        htoken.takes (by simp)
      rw [spaced_cons_cons, htakes.piecesFrom, piecesFrom_blank]
      exact congrArg (token :: ·) (ih _)

lemma filterMap_pieces_spaced (hts : ∀ token ∈ ts, token.Legal) :
    (pieces (spaced ts)).filterMap Piece.token? = ts :=
  piecesFrom_zero (spaced ts) ▸ filterMap_piecesFrom_spaced hts 0

/-- Blanks between tokens are no ends of lines. -/
lemma notMem_spaced (hts : ∀ token ∈ ts, token.Legal) : '\n' ∉ spaced ts ∧ '\r' ∉ spaced ts := by
  induction ts with
  | nil => simp [spaced]
  | cons token ts ih =>
    obtain ⟨hnewline, hreturn⟩ := (hts token List.mem_cons_self).isName.notMem
    obtain ⟨hnewline', hreturn'⟩ := ih fun token hmem => hts token (List.mem_cons_of_mem _ hmem)
    cases ts with
    | nil => simp [spaced, hnewline, hreturn]
    | cons next ts =>
      rw [spaced_cons_cons]
      simp [hnewline, hreturn, hnewline', hreturn']

lemma tokens_spaced (hts : ∀ token ∈ ts, token.Legal) : tokens (spaced ts) = ts := by
  rw [tokens, trimReturns_of_notMem (notMem_spaced hts).2, filterMap_pieces_spaced hts]

lemma mem_of_mem_included? {token : Token} (h : token ∈ (included? before ts).getD []) :
    token ∈ ts := by
  unfold included? at h
  split at h
  · split at h
    · exact List.mem_cons_of_mem _ (List.mem_cons_of_mem _ (List.mem_cons_of_mem _ h))
    · cases h
  · cases h

lemma legal_of_mem_included? :
    ∀ token ∈ (included? before (tokens line)).getD [], token.Legal :=
  fun _ htoken => legal_of_mem_tokens (mem_of_mem_included? htoken)

lemma tokens_expandLine (h : beginsWithPragma (tokens line) = true) :
    tokens (expandLine before line) = (included? before (tokens line)).getD [] := by
  rw [expandLine, if_pos h, tokens_spaced legal_of_mem_included?]

lemma notMem_expandLine (h : '\n' ∉ line) : '\n' ∉ expandLine before line := by
  unfold expandLine
  split
  · exact (notMem_spaced legal_of_mem_included?).1
  · exact h

lemma beginsWithPragma_expandLine
    (h : (included? before (tokens line)).any beginsWithPragma = false) :
    beginsWithPragma (tokens (expandLine before line)) = false := by
  by_cases hpragma : beginsWithPragma (tokens line) = true
  · rw [tokens_expandLine hpragma]
    cases hincluded : included? before (tokens line) with
    | none => rfl
    | some ts => simpa [hincluded] using h
  · rw [expandLine, if_neg hpragma]
    simpa using hpragma

/-! ### Reading a line and its expansion -/

/-- The second statement is the first one with its pragma expanded: of all that concerns pragmas
nothing is left, and anything else is the same, wherever it stands. -/
inductive Statement.Expands : Statement → Statement → Prop
  | nothing : Expands .nothing .nothing
  | define {key value : String} : Expands (.define key value) .nothing
  | pragma {e : ParseError} (hkind : e.fault.kind = .pragma) : Expands (.reject e) .nothing
  | perform {op op' : Operation} (hop : op'.content = op.content) :
      Expands (.perform op) (.perform op')
  | reject {e e' : ParseError} (hkind : e.fault.kind ≠ .pragma) (hfault : e'.fault = e.fault) :
      Expands (.reject e) (.reject e')

def Statement.definition? : Statement → Option (String × String)
  | define key value => some (key, value)
  | _                => none

lemma lexemes_map (ls : List Lexeme) : lexemes (ls.map Piece.lexeme) = .ok ls := by
  induction ls with
  | nil => rfl
  | cons l ls ih => simp [lexemes, ih, Except.map]

lemma readLine_of_beginsWithPragma (h : beginsWithPragma (ls.map Lexeme.token) = false) :
    readLine definitions place (ls.map Piece.lexeme) = readInstruction place ls := by
  rw [readLine, lexemes_map]
  cases ls with
  | nil => rfl
  | cons head rest =>
    obtain ⟨token, start, stop⟩ := head
    cases token with
    | word text => rfl
    | pragma text => cases h

lemma readLine_pragma {head : Lexeme} {pragma : String} (h : head.token = .pragma pragma) :
    readLine definitions place ((head :: ls).map Piece.lexeme) =
      readPragma definitions place pragma (place.toEnd head.start) ls := by
  rw [readLine, lexemes_map]
  simp only [h]

lemma exists_of_beginsWithPragma (h : beginsWithPragma (ls.map Lexeme.token) = true) :
    ∃ head rest pragma, ls = head :: rest ∧ head.token = .pragma pragma := by
  cases ls with
  | nil => cases h
  | cons head rest =>
    obtain ⟨token, start, stop⟩ := head
    cases token with
    | word text => cases h
    | pragma text => exact ⟨_, rest, text, rfl, rfl⟩

lemma readArguments_congr (i : Instruction) (h : ls'.map Lexeme.token = ls.map Lexeme.token) :
    readArguments i ls' = readArguments i ls := by
  rcases ls with _ | ⟨l, _ | ⟨next, ls⟩⟩
  · rw [List.map_eq_nil_iff.mp h]
  · obtain ⟨l', rfl, hl⟩ := List.map_eq_singleton_iff.mp h
    have htext : l'.text = l.text := congrArg Token.text hl
    rw [readArguments, readArguments, htext]
  · obtain ⟨l', rest, rfl, -, hrest⟩ := List.map_eq_cons_iff.mp h
    obtain ⟨next', ls', rfl, -, -⟩ := List.map_eq_cons_iff.mp hrest
    rfl

lemma kind_of_readArguments {i : Instruction} {fault : Fault}
    (h : readArguments i ls = .error fault) : fault.kind = .argument := by
  rcases ls with _ | ⟨l, _ | ⟨next, ls⟩⟩
  · simp only [readArguments] at h
    split at h <;> cases h <;> rfl
  · simp only [readArguments, readArgument] at h
    split at h
    · split at h <;> cases h
      rfl
    · cases h
    · cases h
    · cases h
      rfl
  · simp only [readArguments] at h
    split at h <;> cases h <;> rfl

/-- What an instruction says depends on its tokens alone, and is never a fault of a pragma. -/
lemma expands_readInstruction (h : ls'.map Lexeme.token = ls.map Lexeme.token) :
    (readInstruction place ls).Expands (readInstruction place' ls') := by
  cases ls with
  | nil =>
    rw [List.map_eq_nil_iff.mp h]
    exact .nothing
  | cons head arguments =>
    obtain ⟨head', arguments', rfl, hhead, harguments⟩ := List.map_eq_cons_iff.mp h
    have htext : head'.text = head.text := congrArg Token.text hhead
    rw [readInstruction, readInstruction, hhead]
    cases instruction? head.token with
    | none => exact .reject (by simp [Fault.kind]) (congrArg Fault.unknownInstruction htext)
    | some i =>
      simp only [readArguments_congr i harguments]
      cases hread : readArguments i arguments with
      | ok argument => exact .perform rfl
      | error fault => exact .reject (by simp [kind_of_readArguments hread]) rfl

lemma definition?_readInstruction : (readInstruction place ls).definition? = none := by
  cases ls with
  | nil => rfl
  | cons head arguments =>
    rw [readInstruction]
    cases instruction? head.token with
    | none => rfl
    | some i =>
      simp only
      cases readArguments i arguments <;> rfl

variable {pragma : String} {span : Span}

/-- A pragma that includes nothing says nothing, apart from what concerns pragmas. -/
lemma expands_readPragma_nothing
    (h : included? before (.pragma pragma :: ls.map Lexeme.token) = none) :
    (readPragma (definitionsIn before) place pragma span ls).Expands .nothing := by
  unfold readPragma
  split
  · exact .pragma rfl
  · rename_i hknown
    split
    · rename_i key value rest
      split
      · split
        · exact .define
        · exact .pragma rfl
      · split
        · exact .pragma rfl
        · have hif : pragma = "#if" := by tauto
          split
          · rename_i hbound
            exact absurd hbound (by simpa [included?, hif, Lexeme.text] using h)
          · exact .nothing
    · exact .pragma rfl

/-- A pragma that includes something says that. -/
lemma readPragma_of_included?
    (h : included? before (.pragma pragma :: ls.map Lexeme.token) = some ts) :
    ∃ rest : List Lexeme, rest.map Lexeme.token = ts ∧
      readPragma (definitionsIn before) place pragma span ls = readInstruction place rest := by
  rcases ls with _ | ⟨key, _ | ⟨value, _ | ⟨next, rest⟩⟩⟩
  · cases h
  · cases h
  · cases h
  · simp only [List.map_cons, included?, Token.pragma.injEq] at h
    split at h
    · rename_i hholds
      obtain ⟨rfl, hbound⟩ := hholds
      cases h
      exact ⟨next :: rest, rfl, if_pos hbound⟩
    · cases h

lemma expands_readPragma {head : Lexeme} (hhead : head.token = .pragma pragma)
    (h : ls'.map Lexeme.token = (included? before ((head :: ls).map Lexeme.token)).getD []) :
    (readPragma (definitionsIn before) place pragma span ls).Expands
      (readInstruction place' ls') := by
  rw [List.map_cons, hhead] at h
  cases hincluded : included? before (.pragma pragma :: ls.map Lexeme.token) with
  | none =>
    rw [hincluded, Option.getD_none, List.map_eq_nil_iff] at h
    rw [h]
    exact expands_readPragma_nothing hincluded
  | some ts =>
    obtain ⟨rest, hrest, hread⟩ := readPragma_of_included? hincluded
    rw [hincluded, Option.getD_some, ← hrest] at h
    rw [hread]
    exact expands_readInstruction h

lemma definition?_readPragma :
    (readPragma definitions place pragma span ls).definition? =
      definition? (.pragma pragma :: ls.map Lexeme.token) := by
  rcases ls with _ | ⟨key, _ | ⟨value, _ | ⟨next, rest⟩⟩⟩
  · unfold readPragma
    split <;> rfl
  · unfold readPragma
    split <;> rfl
  · simp only [definition?, List.map_cons, List.map_nil, Token.pragma.injEq]
    unfold readPragma
    split
    · rename_i hunknown
      rw [if_neg hunknown.1]
      rfl
    · by_cases hdefine : pragma = "#define"
      · simp only [hdefine, if_true]
        rfl
      · simp only [hdefine, if_false]
        rfl
  · unfold readPragma
    split
    · rfl
    · by_cases hdefine : pragma = "#define"
      · simp only [hdefine, if_true]
        rfl
      · simp only [hdefine, if_false]
        split
        · exact definition?_readInstruction
        · rfl

lemma definition?_statementOf (known : Known) (number : Nat) (h : '\n' ∉ line) :
    (statementOf known number line).definition? = definition? (tokens line) := by
  obtain ⟨ls, hpieces, htokens⟩ := exists_lexemes_of_notMem h
  rw [statementOf, hpieces, htokens]
  by_cases hpragma : beginsWithPragma (ls.map Lexeme.token) = true
  · obtain ⟨head, rest, pragma, rfl, hhead⟩ := exists_of_beginsWithPragma hpragma
    rw [readLine_pragma hhead, definition?_readPragma, List.map_cons, hhead]
  · have hplain := Bool.eq_false_of_not_eq_true hpragma
    rw [readLine_of_beginsWithPragma hplain, definition?_readInstruction,
      definition?_of_beginsWithPragma hplain]

/-- A line under the definitions before it says what its expansion says under any. -/
lemma expands_statementOf (hknown : known.definitions = definitionsIn before)
    (hline : '\n' ∉ line)
    (hplain : (included? before (tokens line)).any beginsWithPragma = false) :
    (statementOf known number line).Expands
      (statementOf known' number (expandLine before line)) := by
  obtain ⟨ls, hpieces, htokens⟩ := exists_lexemes_of_notMem hline
  obtain ⟨ls', hpieces', htokens'⟩ := exists_lexemes_of_notMem (notMem_expandLine hline)
  have hplain' := beginsWithPragma_expandLine hplain
  rw [htokens'] at hplain'
  rw [statementOf, statementOf, hknown, hpieces, hpieces', readLine_of_beginsWithPragma hplain']
  by_cases hpragma : beginsWithPragma (tokens line) = true
  · rw [tokens_expandLine hpragma, htokens] at htokens'
    rw [htokens] at hpragma
    obtain ⟨head, rest, pragma, rfl, hhead⟩ := exists_of_beginsWithPragma hpragma
    rw [readLine_pragma hhead]
    exact expands_readPragma hhead htokens'.symm
  · rw [expandLine, if_neg hpragma] at htokens'
    rw [htokens] at hpragma htokens'
    rw [readLine_of_beginsWithPragma (Bool.eq_false_of_not_eq_true hpragma)]
    exact expands_readInstruction htokens'.symm

/-! ### Reading a text and its expansion -/

lemma Known.definitions_after (known : Known) (statement : Statement) :
    (known.after statement).definitions = statement.definition?.toList ++ known.definitions := by
  cases statement <;> rfl

lemma definitionsIn_append :
    definitionsIn (before ++ [line]) =
      (definition? (tokens line)).toList ++ definitionsIn before := by
  rw [definitionsIn, List.reverse_append, List.reverse_singleton, List.singleton_append,
    List.filterMap_cons]
  cases definition? (tokens line) <;> rfl

/-- Lines say what their expansions say. -/
lemma expands_statementsOf (hknown : known.definitions = definitionsIn before)
    (hlines : ∀ line ∈ lines, '\n' ∉ line)
    (hplain : ∀ entry ∈ contexts before lines,
      (included? entry.1 (tokens entry.2)).any beginsWithPragma = false) :
    List.Forall₂ Statement.Expands (statementsOf known number lines)
      (statementsOf known' number (expandLines before lines)) := by
  induction lines generalizing before number known known' with
  | nil => exact .nil
  | cons line lines ih =>
    have hline := hlines line List.mem_cons_self
    have hhere := hplain (before, line) List.mem_cons_self
    have hexpand : expandLines before (line :: lines) =
        expandLine before line :: expandLines (before ++ [line]) lines := rfl
    rw [hexpand, statementsOf_cons, statementsOf_cons]
    refine .cons (expands_statementOf hknown hline hhere) (ih ?_ ?_ ?_)
    · rw [Known.definitions_after, definition?_statementOf known number hline, hknown,
        definitionsIn_append]
    · exact fun line hmem => hlines line (List.mem_cons_of_mem _ hmem)
    · exact fun entry hmem => hplain entry (List.mem_cons_of_mem _ hmem)

lemma Statement.Expands.operation {s s' : Statement} (h : s.Expands s') :
    s'.operation?.map Operation.content = s.operation?.map Operation.content := by
  cases h with
  | perform hop => exact congrArg some hop
  | nothing | define | pragma | reject => rfl

lemma Statement.Expands.error {s s' : Statement} (h : s.Expands s') :
    s'.error?.map ParseError.fault =
      (s.error?.map ParseError.fault).filter fun fault => fault.kind ≠ .pragma := by
  cases h with
  | pragma hkind => simp [error?, Option.filter, hkind]
  | reject hkind hfault => simp [error?, Option.filter, hkind, hfault]
  | nothing | define | perform => rfl

section

variable {statements statements' : List Statement}

lemma filterMap_of_expands {α : Type} {F F' : Statement → Option α}
    (h : List.Forall₂ Statement.Expands statements statements')
    (hF : ∀ {s s'}, s.Expands s' → F' s' = F s) :
    statements'.filterMap F' = statements.filterMap F := by
  induction h with
  | nil => rfl
  | cons hs _ ih => rw [List.filterMap_cons, List.filterMap_cons, hF hs, ih]

lemma sameContents_of_expands (h : List.Forall₂ Statement.Expands statements statements') :
    SameContents (statements'.filterMap Statement.operation?)
      (statements.filterMap Statement.operation?) := by
  rw [SameContents, List.map_filterMap, List.map_filterMap]
  exact filterMap_of_expands h Statement.Expands.operation

lemma faults_of_expands (h : List.Forall₂ Statement.Expands statements statements') :
    (statements'.filterMap Statement.error?).map ParseError.fault =
      ((statements.filterMap Statement.error?).map ParseError.fault).filter
        fun fault => fault.kind ≠ .pragma := by
  rw [List.map_filterMap, List.map_filterMap, List.filter_filterMap]
  exact filterMap_of_expands h Statement.Expands.error

end

/-- What is wrong with labels is not wrong with pragmas. -/
lemma filter_fault_labelErrors (ops : List Operation) :
    ((labelErrors ops).map ParseError.fault).filter (fun fault => fault.kind ≠ .pragma) =
      (labelErrors ops).map ParseError.fault := by
  rw [List.filter_eq_self]
  intro fault hfault
  obtain ⟨e, he, rfl⟩ := List.mem_map.mp hfault
  have hlabels := isAboutLabels_of_mem_labelErrors he
  revert hlabels
  cases e.fault <;> simp [Fault.isAboutLabels, Fault.kind]

lemma map_snd_contexts (before lines : List (List Char)) :
    (contexts before lines).map Prod.snd = lines := by
  induction lines generalizing before with
  | nil => rfl
  | cons line lines ih => exact congrArg (line :: ·) (ih (before ++ [line]))

lemma length_expandLines (before lines : List (List Char)) :
    (expandLines before lines).length = lines.length := by
  rw [expandLines, List.length_map, ← List.length_map Prod.snd, map_snd_contexts]

lemma splitLines_expansion (source : String) :
    splitLines (expansion source).toList = expandLines [] (splitLines source.toList) := by
  rw [expansion, String.toList_ofList]
  refine splitAtEach_intercalate ?_ fun line hline => ?_
  · have hne := splitAtEach_ne_nil '\n' source.toList
    rwa [← List.length_pos_iff, length_expandLines, List.length_pos_iff]
  · obtain ⟨entry, hentry, rfl⟩ := List.mem_map.mp hline
    have hmem := List.mem_map_of_mem (f := Prod.snd) hentry
    rw [map_snd_contexts] at hmem
    exact notMem_expandLine (notMem_of_mem_splitAtEach hmem)

/-- Pragmas are conditional inclusion. A text in which nothing that is included begins with a pragma
has an expansion of as many lines, which says the same operations with the same vocabulary, and in
which the same is wrong, apart from the pragmas. -/
theorem read_expansion {source : String}
    (h : ∀ entry ∈ contexts [] (splitLines source.toList),
      (included? entry.1 (tokens entry.2)).any beginsWithPragma = false) :
    (splitLines (expansion source).toList).length = (splitLines source.toList).length ∧
    SameContents (read (expansion source)).operations (read source).operations ∧
    (read (expansion source)).vocabulary = (read source).vocabulary ∧
    (read (expansion source)).errors.map ParseError.fault =
      ((read source).errors.map ParseError.fault).filter fun fault => fault.kind ≠ .pragma := by
  have hlines : ∀ line ∈ splitLines source.toList, '\n' ∉ line :=
    fun _ hline => notMem_of_mem_splitAtEach hline
  have hexpands : List.Forall₂ Statement.Expands (readStatements source.toList)
      (readStatements (expansion source).toList) := by
    rw [readStatements, readStatements, splitLines_expansion]
    exact expands_statementsOf rfl hlines h
  have hcontents : SameContents (read (expansion source)).operations (read source).operations := by
    rw [operations_read, operations_read]
    exact sameContents_of_expands hexpands
  refine ⟨?_, hcontents, ?_, ?_⟩
  · rw [splitLines_expansion, length_expandLines]
  · rw [vocabulary_read, vocabulary_read]
    exact hcontents.congr (f := fun ops => ops.foldl Vocabulary.learn Vocabulary.initial)
      (Vocabulary.foldl_learn_unplaced Vocabulary.initial)
  · have hlabels := hcontents.congr (f := fun ops => (labelErrors ops).map ParseError.fault)
      fault_labelErrors_unplaced
    rw [errors_read, errors_read, List.map_append, List.map_append, List.filter_append,
      faults_of_expands hexpands, hlabels, filter_fault_labelErrors]

/-- A key that is bound twice, a key shaped like a pragma, lexemes that touch, and pragmas that are
wrong. -/
def conditional : String :=
  "#define m a\n#if m a Label t # k\n#define m b\n#if m a Pop\n#define #if c\n#if #if c Push#x\n" ++
    "#once\n#define m\n Jump t\r"

theorem read_expansion_conditional :
    (∀ entry ∈ contexts [] (splitLines conditional.toList),
      (included? entry.1 (tokens entry.2)).any beginsWithPragma = false) ∧
    expansion conditional = "\nLabel t\n\n\n\nPush #x\n\n\n Jump t\r" ∧
    (read conditional).errors.map ParseError.fault =
      [.invalidNumber "#x", .unknownPragma "#once", .incompletePragma] ∧
    (splitLines (expansion conditional).toList).length = (splitLines conditional.toList).length ∧
    SameContents (read (expansion conditional)).operations (read conditional).operations ∧
    (read (expansion conditional)).vocabulary = (read conditional).vocabulary ∧
    (read (expansion conditional)).errors.map ParseError.fault =
      ((read conditional).errors.map ParseError.fault).filter
        fun fault => fault.kind ≠ .pragma := by
  have hplain : ∀ entry ∈ contexts [] (splitLines conditional.toList),
      (included? entry.1 (tokens entry.2)).any beginsWithPragma = false := by decide +kernel
  exact ⟨hplain, by decide +kernel, by decide +kernel, read_expansion hplain⟩

end Assembly

end ZeroWidth
