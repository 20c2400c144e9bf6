import ZeroWidth.Proofs.Conversion
import ZeroWidth.Proofs.Reports

/-!
# Verdicts on converted programs

A program that is converted without losing annotations comes back under other names and in other
places, and its operations still stand one behind the other. So a check of it comes to the verdict
on the program: it fails in the same way, or finds the same at the same operations.
-/

namespace ZeroWidth

/-! ### Equal verdicts -/

/-- Checks that cannot be carried out for the same reason. -/
inductive CheckFailure.SameKind : CheckFailure → CheckFailure → Prop
  | undefinedLabel {name name' : Label} {span span' : Span} :
      SameKind (.undefinedLabel name span) (.undefinedLabel name' span')
  | duplicatedLabel {name name' : Label} {span span' : Span} :
      SameKind (.duplicatedLabel name span) (.duplicatedLabel name' span')
  | depthOutOfRange {depth depth' : Int64} {span span' : Span} :
      SameKind (.depthOutOfRange depth span) (.depthOutOfRange depth' span')
  | iterationLimit {passes passes' : Nat} :
      SameKind (.iterationLimit passes) (.iterationLimit passes')

/-- Of all operations, the one of the given index has this span, and no other. -/
def PointsAt (ops : List Operation) (span : Span) (i : Nat) : Prop :=
  ∀ j, (ops[j]?).map Operation.span = some span ↔ j = i

/-- Findings about two programs that are of one kind and point at operations of one index. -/
structure Finding.Matches (ops ops' : List Operation) (f f' : Finding) : Prop where
  kind  : f.kind = f'.kind
  index : ∃ i, PointsAt ops f.span i ∧ PointsAt ops' f'.span i

/-- Two checks that fail alike, or that report the same up to names and places. -/
inductive SameVerdict : Except BuildFailure CheckedSource → Except BuildFailure CheckedSource → Prop
  | failed {e e' : CheckFailure} (hkind : e.SameKind e') :
      SameVerdict (.error (.check e)) (.error (.check e'))
  | reported {c c' : CheckedSource} {report report' : Report} (hreport : c.report = some report)
      (hreport' : c'.report = some report')
      (herrors : List.Forall₂ (Finding.Matches c.program.operations c'.program.operations)
        (report.errors.map TypeError.finding) (report'.errors.map TypeError.finding))
      (hwarnings : List.Forall₂ (Finding.Matches c.program.operations c'.program.operations)
        (report.warnings.map TypeWarning.finding) (report'.warnings.map TypeWarning.finding)) :
      SameVerdict (.ok c) (.ok c')

/-! ### Relocated reports -/

section

variable {τ : Relocation} {ops : List Operation}

lemma CheckFailure.sameKind_relocate (e : CheckFailure) : e.SameKind (e.relocate τ) := by
  cases e with
  | undefinedLabel => exact .undefinedLabel
  | duplicatedLabel => exact .duplicatedLabel
  | depthOutOfRange => exact .depthOutOfRange
  | iterationLimit => exact .iterationLimit

lemma Ordered.pointsAt (h : Ordered ops) {i : Nat} {op : Operation} (hi : ops[i]? = some op) :
    PointsAt ops op.span i := by
  intro j
  rw [Option.map_eq_some_iff]
  constructor
  · rintro ⟨op', hj, hspan⟩
    exact (h.span_eq_iff hj hi).mp hspan
  · rintro rfl
    exact ⟨op, hi, rfl⟩

/-- A relocated operation keeps its index. -/
lemma Relocation.Faithful.exists_pointsAt (hτ : τ.Faithful ops) {span : Span}
    (hspan : ∃ op ∈ ops, op.span = span) :
    ∃ i, PointsAt ops span i ∧ PointsAt (ops.map (Operation.relocate τ)) (τ.place span) i := by
  obtain ⟨op, hop, rfl⟩ := hspan
  obtain ⟨i, hi, hi'⟩ := exists_index τ hop
  exact ⟨i, hτ.before.pointsAt hi, hτ.after.pointsAt hi'⟩

lemma Report.Echoes.matches_errors {report report' : Report} (hτ : τ.Faithful ops)
    (h : report.Echoes τ ops report') :
    List.Forall₂ (Finding.Matches ops (ops.map (Operation.relocate τ)))
      (report.errors.map TypeError.finding) (report'.errors.map TypeError.finding) := by
  rw [List.forall₂_map_left_iff, List.forall₂_map_right_iff]
  refine h.errors.imp fun e e' he => ⟨?_, ?_⟩
  · simp [TypeError.finding, he.kind]
  · have hindex := hτ.exists_pointsAt he.exists_op
    rwa [← he.span] at hindex

lemma Report.Echoes.matches_warnings {report report' : Report} (hτ : τ.Faithful ops)
    (h : report.Echoes τ ops report') :
    List.Forall₂ (Finding.Matches ops (ops.map (Operation.relocate τ)))
      (report.warnings.map TypeWarning.finding) (report'.warnings.map TypeWarning.finding) := by
  rw [h.warnings, List.forall₂_map_left_iff, List.forall₂_map_right_iff,
    List.forall₂_map_right_iff, List.forall₂_same]
  exact fun w hw => ⟨rfl, hτ.exists_pointsAt (h.exists_op w hw)⟩

/-- Operations that say the same up to names differ in their places besides. -/
lemma exists_relocation {ρ : Renaming} {ops' : List Operation}
    (h : SameContents ops' (ops.map (Operation.rename ρ)))
    (hspans : (ops.map Operation.span).Nodup) :
    ∃ τ : Relocation, ops' = ops.map (Operation.relocate τ) := by
  suffices hplace : ∃ place : Span → Span, ops' = ops.map (Operation.relocate ⟨ρ, place⟩) by
    obtain ⟨place, hops'⟩ := hplace
    exact ⟨⟨ρ, place⟩, hops'⟩
  induction ops generalizing ops' with
  | nil =>
    have hnil : ops' = [] := by simpa [SameContents] using h
    exact ⟨id, hnil⟩
  | cons op ops ih =>
    obtain ⟨op', ops', rfl, hop', hops'⟩ := List.map_eq_cons_iff.mp h
    obtain ⟨hspan, hspans⟩ := List.nodup_cons.mp hspans
    obtain ⟨place, rfl⟩ := ih hops' hspans
    -- the places of the others stay as they are, since none of them is that of `op`
    refine ⟨Function.update place op.span op'.span, List.cons_eq_cons.mpr ⟨?_, ?_⟩⟩
    · obtain ⟨hinstruction, hargument⟩ := Prod.mk.inj hop'
      obtain ⟨i', argument', span'⟩ := op'
      simp_all [Operation.relocate]
    · refine List.map_congr_left fun op'' hop'' => ?_
      have hne : op''.span ≠ op.span := fun heq => hspan (heq ▸ List.mem_map_of_mem hop'')
      simp [Operation.relocate, Function.update_of_ne hne]

end

/-! ### Checks of converted programs -/

lemma Ordered.nodup_span {ops : List Operation} (h : Ordered ops) :
    (ops.map Operation.span).Nodup := by
  refine List.pairwise_map.mpr (h.imp fun hlt heq => ?_)
  rw [heq] at hlt
  exact Cursor.lt_irrefl _ hlt

namespace Surface

lemma spoken_eq_self {T : Surface} {ops : List Operation}
    (h : T = whitespace → ∀ op ∈ ops, op.instruction.isAdvisory = false) : T.spoken ops = ops := by
  unfold spoken
  split
  · rename_i hT
    exact List.filter_eq_self.mpr fun op hop => by simp [h hT op hop]
  · rfl

/-- A trip that loses nothing relocates the operations. -/
lemma exists_relocation_trip {p : Program} (T : Surface) (hp : p.Printable)
    (hordered : Ordered p.operations) (hspoken : T.spoken p.operations = p.operations) :
    ∃ τ : Relocation, τ.Faithful p.operations ∧
      (T.trip p).operations = p.operations.map (Operation.relocate τ) := by
  obtain ⟨ρ, hcontents, -⟩ := T.exists_renaming_trip hp
  rw [hspoken] at hcontents
  obtain ⟨τ, hτ⟩ := exists_relocation hcontents hordered.nodup_span
  exact ⟨τ, ⟨hordered, hτ ▸ T.ordered_read (T.print p)⟩, hτ⟩

end Surface

lemma Program.strictness_of_relocate {p q : Program} {τ : Relocation}
    (h : q.operations = p.operations.map (Operation.relocate τ)) (strict : Bool) :
    q.strictness strict = p.strictness strict := by
  rw [strictness, strictness, isStrict, isStrict, h, List.any_map]
  rfl

lemma Config.checkSource_of_errors {S : Surface} {source : String}
    (h : (S.read source).errors = []) (config : Config) (path : Option String) :
    config.checkSource S path source =
      match (S.read source).check config.strict config.maxPasses with
      | .ok checked =>
        .ok ⟨S, Document.ofText path source, S.read source, some checked.report⟩
      | .error e    => .error (.check e) := by
  have hok : (S.read source).isOk = true := by simp [Program.isOk, h]
  exact if_pos hok

/-- Conversion keeps the verdict: a text without faults can be converted, and unless annotations are
lost on the way, checking what comes of it fails as checking the text does, or finds errors and
warnings of the same kinds, in the same order and at the same operations. -/
theorem checkSource_convert (S T : Surface) (x : String) (config : Config)
    (path path' : Option String) (hx : (S.read x).errors = [])
    (hadvisory : T = .whitespace →
      ∀ op ∈ (S.read x).operations, op.instruction.isAdvisory = false) :
    ∃ y, convert S x T = .ok y ∧
      SameVerdict (config.checkSource S path x) (config.checkSource T path' y) := by
  have hp := S.printable_read x
  have hy : (T.read (T.print (S.read x))).errors = [] :=
    T.errors_trip hp (Surface.labelErrors_read hx)
  obtain ⟨τ, hτ, hops⟩ :=
    T.exists_relocation_trip hp (S.ordered_read x) (Surface.spoken_eq_self hadvisory)
  change (T.read (T.print (S.read x))).operations = _ at hops
  refine ⟨T.print (S.read x), convert_of_errors hx T, ?_⟩
  have hechoed := echoed_checkOperations hτ (fun op hop => (hp.sayable op hop).wellKinded)
    ((S.read x).strictness config.strict) config.maxPasses
  rw [Config.checkSource_of_errors hx, Config.checkSource_of_errors hy, Program.check,
    Program.check, Program.strictness_of_relocate hops, hops]
  generalize checkOperations (S.read x).operations _ _ = outcome at hechoed
  generalize checkOperations ((S.read x).operations.map _) _ _ = outcome' at hechoed
  cases hechoed with
  | failed e => exact .failed e.sameKind_relocate
  | checked hreport =>
    refine .reported rfl rfl ?_ ?_
    · simpa only [hops] using hreport.matches_errors hτ
    · simpa only [hops] using hreport.matches_warnings hτ

/-- A sum that lacks an operand, behind code that nothing jumps to. -/
def lackingOperand : String := "Push 1\n Jump sum\nLabel unused\n Pop\nLabel sum # lacks one\n Add"

/-- The same sum in blanks. -/
def blankSum : String := "   \t\n\n \n  \n\n   \t\n \n\n\n    \n\t   "

/-- The kinds of all findings, errors first, with the index of the operation each of them is at. -/
def CheckedSource.kindsAt (c : CheckedSource) : List (String × Option Nat) :=
  match c.report with
  | some report =>
    (report.errors.map TypeError.finding ++ report.warnings.map TypeWarning.finding).map fun f =>
      (f.kind, c.program.operations.findIdx? fun op => op.span = f.span)
  | none        => []

theorem lackingOperand_convert :
    (Surface.nossembly.read lackingOperand).errors = [] ∧
    (∀ op ∈ (Surface.nossembly.read lackingOperand).operations,
      op.instruction.isAdvisory = false) ∧
    convert .nossembly lackingOperand .whitespace = .ok blankSum ∧
    SameVerdict (Config.default.checkSource .nossembly none lackingOperand)
      (Config.default.checkSource .whitespace none blankSum) ∧
    (Config.default.checkSource .nossembly none lackingOperand).toOption.map
      CheckedSource.kindsAt = some [("underflow", some 5), ("unreachable", some 2)] ∧
    (Config.default.checkSource .whitespace none blankSum).toOption.map
      CheckedSource.kindsAt = some [("underflow", some 5), ("unreachable", some 2)] := by
  have hread : (Surface.nossembly.read lackingOperand).errors = [] := by decide +kernel
  have hadvisory : ∀ op ∈ (Surface.nossembly.read lackingOperand).operations,
      op.instruction.isAdvisory = false := by decide +kernel
  have hblank : (convert .nossembly lackingOperand .whitespace).toOption = some blankSum := by
    decide +kernel
  obtain ⟨y, hy, hverdict⟩ := checkSource_convert .nossembly .whitespace lackingOperand .default
    none none hread fun _ => hadvisory
  rw [hy] at hblank
  obtain rfl := Option.some.inj hblank
  exact ⟨hread, hadvisory, hy, hverdict, by decide +kernel, by decide +kernel⟩

end ZeroWidth
