import ZeroWidth.Build.Render
import ZeroWidth.Proofs.Positions
import ZeroWidth.Proofs.Reports
import ZeroWidth.Proofs.Soundness

/-!
# Findings and the text they are about

Every finding of a check has a place in the text. Faults of reading stand where the reader met them
and those about labels where the operation stands; a stuck node is never the root of its graph, and
nodes and branches stem from operations, so errors and warnings of the check stand where one of
these does. From assembly text, the rendered form therefore quotes a line for each of them, and the
carets do not run past its end.
-/

namespace ZeroWidth

variable {config : Config} {S : Surface} {path : Option String} {source : String}
  {c : CheckedSource} {f : Finding}

/-! ### Reports -/

/-- All that a report is about are operations of the program. -/
structure Report.About (r : Report) (ops : List Operation) : Prop where
  errors   : ∀ e ∈ r.errors, ∃ op ∈ ops, op.span = e.span
  warnings : ∀ w ∈ r.warnings, ∃ op ∈ ops, op.span = w.span

lemma about_of_checkOperations {ops : List Operation} {strict : Bool} {passes : Nat}
    {checked : Checked} (hops : ∀ op ∈ ops, op.WellKinded)
    (h : checkOperations ops strict passes = .ok checked) : checked.report.About ops := by
  obtain ⟨b, g, r, resolved, hextract, hbuild, hresolve, rfl⟩ := exists_of_checkOperations h
  have hbuilt := EffectGraph.built_of_build (Branches.bounded_of_extract hops hextract) hbuild
  have hg := EffectGraph.stemsFrom_of_build hops hextract hbuild
  have hsat := EffectGraph.saturated_of_resolve hbuilt.mirrored hresolve
  refine ⟨fun e he => ?_, fun w hw => ?_⟩
  · obtain ⟨id, hid, rfl⟩ := List.mem_map.mp he
    obtain ⟨op, hop, horigin⟩ := hg.exists_op_of_mem_stuck hbuilt hsat hid
    exact ⟨op, hop, by simp [EffectGraph.explain, TypeError.of, horigin, Operation.origin]⟩
  · exact EffectGraph.exists_op_of_mem_warnings (hg.sameNodes hsat.nodes)
      (fun hop => Branches.mem_of_extract hops hextract hop) hw

/-! ### Checked sources -/

/-- What a check of a source comes to, unless it fails. -/
structure CheckedSource.Answers (c : CheckedSource) (S : Surface) (path : Option String)
    (source : String) : Prop where
  surface  : c.surface = S
  document : c.document = Document.ofText path source
  program  : c.program = S.read source
  report   : ∀ r, c.report = some r → r.About (S.read source).operations

lemma answers_of_checkSource (h : config.checkSource S path source = .ok c) :
    c.Answers S path source := by
  simp only [Config.checkSource] at h
  split at h
  · split at h
    · rename_i checked hcheck
      cases h
      refine ⟨rfl, rfl, rfl, ?_⟩
      rintro r ⟨⟩
      exact about_of_checkOperations
        (fun op hop => ((S.printable_read source).sayable op hop).wellKinded) hcheck
    · cases h
  · cases h
    exact ⟨rfl, rfl, rfl, nofun⟩

/-- Findings stand where operations and faults of reading do. -/
lemma CheckedSource.Answers.forall_findings {P : Span → Prop} (hc : c.Answers S path source)
    (hP : (S.read source).Spanned P) : ∀ f ∈ c.errors ++ c.warnings, P f.span := by
  have hop : ∀ {s : Span}, (∃ op ∈ (S.read source).operations, op.span = s) → P s := by
    rintro s ⟨op, hop, rfl⟩
    exact hP.operations op hop
  intro f hf
  simp only [errors, warnings, hc.program, List.mem_append, List.mem_map] at hf
  cases hreport : c.report with
  | none =>
    simp only [hreport] at hf
    rcases hf with (⟨e, he, rfl⟩ | hf) | hf
    · exact hP.errors e he
    · cases hf
    · cases hf
  | some r =>
    have hr := hc.report r hreport
    simp only [hreport, Option.map_some, Option.getD_some, List.mem_map] at hf
    rcases hf with (⟨e, he, rfl⟩ | ⟨e, he, rfl⟩) | ⟨w, hw, rfl⟩
    · exact hP.errors e he
    · exact hop (hr.errors e he)
    · exact hop (hr.warnings w hw)

/-! ### Quoted lines -/

/-- The lines stand in a text one below the other. -/
def ShownIn (part : List String) (text : String) : Prop :=
  ∃ lines : List String, part <:+: lines ∧ text = String.join (lines.map (· ++ "\n"))

lemma ShownIn.of_isInfix {part part' : List String} {text : String} (h : ShownIn part text)
    (hpart : part' <:+: part) : ShownIn part' text :=
  h.imp fun _ hlines => ⟨hpart.trans hlines.1, hlines.2⟩

def blanks (n : Nat) : String := String.ofList (List.replicate n ' ')

def carets (n : Nat) : String := String.ofList (List.replicate n '^')

/-- A finding lies in one line, and the line is shown behind its number. Below it stand as many
blanks as there are characters in front of the finding, and then carets, at least one and none past
the end of the line. In colour, the number and the bar are blue and the carets red. -/
structure CheckedSource.Quotes (c : CheckedSource) (f : Finding) (number line : String) :
    Prop where
  isNumber : number = toString (f.span.start.line + 1)
  isLine   : c.document.line? f.span.start.line = some line
  same     : f.span.stop.line = f.span.start.line
  lt       : f.span.start.column < f.span.stop.column
  within   : f.span.stop.column ≤ line.length
  plain    : ShownIn
    [number ++ " | " ++ line,
      blanks number.length ++ " | " ++ blanks f.span.start.column ++
        carets (f.span.stop.column - f.span.start.column)] (c.render .plain)
  coloured : ShownIn
    ["\x1b[34m" ++ number ++ "\x1b[0m \x1b[34m|\x1b[0m " ++ line,
      blanks number.length ++ " \x1b[34m|\x1b[0m " ++ blanks f.span.start.column ++
        "\x1b[31m" ++ carets (f.span.stop.column - f.span.start.column) ++ "\x1b[0m"]
    (c.render .coloured)

lemma isInfix_flatMap {α β : Type} (g : α → List β) {as : List α} {a : α} (ha : a ∈ as) :
    g a <:+: as.flatMap g := by
  obtain ⟨before, behind, rfl⟩ := List.append_of_mem ha
  exact ⟨before.flatMap g, behind.flatMap g, by simp⟩

/-- Each finding has an entry in the rendered text. -/
lemma CheckedSource.exists_shownIn_render (hf : f ∈ c.errors ++ c.warnings) (style : Style) :
    ∃ level, ShownIn (entry style c.document (decide (c.surface = .nossembly)) level f)
      (c.render style) := by
  rcases List.mem_append.mp hf with hf | hf
  · refine ⟨.error, _, ?_, rfl⟩
    rw [List.append_assoc]
    exact (isInfix_flatMap _ hf).trans (List.prefix_append _ _).isInfix
  · refine ⟨.warning, _, ?_, rfl⟩
    rw [List.append_assoc]
    exact (isInfix_flatMap _ hf).trans
      ((List.prefix_append _ _).isInfix.trans (List.suffix_append _ _).isInfix)

/-- A line that a finding is about is quoted in its entry. -/
lemma snippet_isInfix_entry {document : Document} {line : String}
    (hline : document.line? f.span.start.line = some line) (style : Style) (level : Level) :
    (snippet style f.span line).tail <:+: entry style document true level f := by
  simp only [entry, hline, if_true, Option.map_some, Option.getD_some]
  exact (List.tail_suffix _).isInfix.trans (List.suffix_append [_, _] _).isInfix

lemma caretCount_of_withinLine {s : Span} {text line : List Char} (hs : s.WithinLine text line)
    (quoted : String) : caretCount s quoted = s.stop.column - s.start.column := by
  have hlt := hs.lt
  rw [caretCount, if_pos hs.same]
  omega

lemma CheckedSource.Answers.quotes {line : List Char} (hc : c.Answers .nossembly path source)
    (hf : f ∈ c.errors ++ c.warnings) (hline : f.span.WithinLine source.toList line) :
    c.Quotes f (toString (f.span.start.line + 1)) (String.ofList line) := by
  have hquoted : c.document.line? f.span.start.line = some (String.ofList line) := by
    simp [hc.document, Document.ofText, Document.line?, hline.isLine]
  have hshown : ∀ style, ShownIn (snippet style f.span (String.ofList line)).tail
      (c.render style) := fun style => by
    obtain ⟨level, hshown⟩ := c.exists_shownIn_render hf style
    rw [hc.surface, decide_eq_true rfl] at hshown
    exact hshown.of_isInfix (snippet_isInfix_entry hquoted style level)
  have hcarets := caretCount_of_withinLine hline (String.ofList line)
  constructor
  case isNumber => rfl
  case isLine => exact hquoted
  case same => exact hline.same
  case lt => exact hline.lt
  case within => simpa using hline.le
  case plain =>
    have hbar : " | " = " " ++ ("|" ++ " ") := rfl
    have hplain := hshown .plain
    simp only [snippet, Style.paint, repeated, hcarets, String.append_assoc, List.tail_cons]
      at hplain
    simpa only [hbar, blanks, carets, String.append_assoc] using hplain
  case coloured =>
    have hblue : "\x1b[34m" = "\x1b[" ++ ("34" ++ "m") := rfl
    have hred : "\x1b[31m" = "\x1b[" ++ ("31" ++ "m") := rfl
    have hbar : " \x1b[34m|\x1b[0m " =
      " " ++ ("\x1b[" ++ ("34" ++ ("m" ++ ("|" ++ ("\x1b[0m" ++ " "))))) := rfl
    have hnumber : "\x1b[0m \x1b[34m|\x1b[0m " = "\x1b[0m" ++ " \x1b[34m|\x1b[0m " := rfl
    have hcoloured := hshown .coloured
    simp only [snippet, Style.paint, Colour.code, repeated, hcarets, String.append_assoc,
      List.tail_cons] at hcoloured
    simpa only [hnumber, hbar, hblue, hred, blanks, carets, String.append_assoc] using hcoloured

/-- Every finding of a check points into the text, those of the check itself at operations; and a
finding about assembly text is shown with the line it lies in. -/
theorem checkSource_points (h : config.checkSource S path source = .ok c) :
    c.program = S.read source ∧ c.document = Document.ofText path source ∧
      (∀ f ∈ c.errors ++ c.warnings, f.span.PointsInto source.toList) ∧
      (∀ r, c.report = some r → r.About (S.read source).operations) ∧
      (S = .nossembly → ∀ f ∈ c.errors ++ c.warnings, ∃ number line, c.Quotes f number line) := by
  have hc := answers_of_checkSource h
  refine ⟨hc.program, hc.document, hc.forall_findings (S.spanned_read source), hc.report, ?_⟩
  rintro rfl f hf
  obtain ⟨line, hline⟩ := hc.forall_findings (Assembly.spanned_read source) f hf
  exact ⟨_, _, hc.quotes hf hline⟩

/-- A pop in an indented line where the stack is empty, and another one behind the end of the
program, in lines that end with carriage returns. -/
def poppingTwice : String := " Pop\r\nEnd\r\nPop\r"

theorem poppingTwice_points :
    ∃ c, Config.default.checkSource .nossembly none poppingTwice = .ok c ∧
      (c.errors ++ c.warnings).map Finding.span = [Span.onLine 0 1 4, Span.onLine 2 0 3] ∧
      c.render .plain =
        "error[underflow]: Cannot perform pop as this would result in a stack underflow.\n" ++
        "  --> 1:1\n  |\n1 |  Pop\r\n  |  ^^^\n" ++
        "warning[unreachable]: This code is unreachable.\n" ++
        "  --> 3:0\n  |\n3 | Pop\r\n  | ^^^\n" ++
        "check <source> ... failed (1 errors, 1 warnings)\n" ∧
      (∀ f ∈ c.errors ++ c.warnings, f.span.PointsInto poppingTwice.toList) ∧
      ∀ f ∈ c.errors ++ c.warnings, ∃ number line, c.Quotes f number line := by
  have hvalue : (Config.default.checkSource .nossembly none poppingTwice).toOption.map
      (fun c => ((c.errors ++ c.warnings).map Finding.span, c.render .plain)) =
        some ([Span.onLine 0 1 4, Span.onLine 2 0 3],
          "error[underflow]: Cannot perform pop as this would result in a stack underflow.\n" ++
          "  --> 1:1\n  |\n1 |  Pop\r\n  |  ^^^\n" ++
          "warning[unreachable]: This code is unreachable.\n" ++
          "  --> 3:0\n  |\n3 | Pop\r\n  | ^^^\n" ++
          "check <source> ... failed (1 errors, 1 warnings)\n") := by decide +kernel
  obtain ⟨c, hcheck, hvalue⟩ := exists_ok_of_toOption_map hvalue
  obtain ⟨hspans, hrender⟩ := Prod.mk.inj hvalue
  obtain ⟨-, -, hpoints, -, hquotes⟩ := checkSource_points hcheck
  exact ⟨c, hcheck, hspans, hrender, hpoints, hquotes rfl⟩

end ZeroWidth
