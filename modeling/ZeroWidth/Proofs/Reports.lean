import ZeroWidth.Proofs.Equivariance
import ZeroWidth.Proofs.Origins
import ZeroWidth.Proofs.Places
import ZeroWidth.Proofs.Saturation
import ZeroWidth.Typing.Check

/-!
# Reports under other names and in other places

A report is put in order by where operations start, and says nothing twice about one place. Both
survive a relocation that keeps operations one behind the other. The kind of an error depends on the
types that are offered, not on what they are called or where they come from. So a relocated program
gets the report of the program, relocated.
-/

namespace ZeroWidth

lemma mem_eraseReps {α : Type} [BEq α] [LawfulBEq α] {as : List α} {x : α} :
    x ∈ as.eraseReps ↔ x ∈ as := by
  have hloop : ∀ (as : List α) (a : α) (found : List α),
      x ∈ List.eraseRepsBy.loop (· == ·) a as found ↔ x = a ∨ x ∈ as ∨ x ∈ found := by
    intro as
    induction as with
    | nil =>
      intro a found
      simp [List.eraseRepsBy.loop, or_comm]
    | cons b as ih =>
      intro a found
      rw [List.eraseRepsBy.loop]
      by_cases hab : a = b
      · subst hab
        simp only [beq_self_eq_true, ih, List.mem_cons]
        tauto
      · have hne : (a == b) = false := by simpa using hab
        simp only [hne, ih, List.mem_cons]
        tauto
  cases as with
  | nil => rfl
  | cons a as => simpa [List.eraseReps, List.eraseRepsBy] using hloop as a []

/-! ### Operations in order -/

namespace Ordered

variable {ops : List Operation} {op op' : Operation} {i j : Nat}

lemma start_lt_iff (h : Ordered ops) (hi : ops[i]? = some op) (hj : ops[j]? = some op') :
    op.span.start < op'.span.start ↔ i < j := by
  have hlt : ∀ {i j : Nat} {op op' : Operation}, ops[i]? = some op → ops[j]? = some op' → i < j →
      op.span.start < op'.span.start := by
    intro i j op op' hi hj hij
    obtain ⟨hilt, rfl⟩ := List.getElem?_eq_some_iff.mp hi
    obtain ⟨hjlt, rfl⟩ := List.getElem?_eq_some_iff.mp hj
    exact List.pairwise_iff_getElem.mp h i j hilt hjlt hij
  refine ⟨fun hstart => ?_, hlt hi hj⟩
  by_contra hge
  rcases Nat.lt_or_eq_of_le (Nat.le_of_not_lt hge) with hji | rfl
  · exact Cursor.lt_irrefl _ (Cursor.lt_trans hstart (hlt hj hi hji))
  · rw [hi] at hj
    cases hj
    exact Cursor.lt_irrefl _ hstart

lemma start_eq_iff (h : Ordered ops) (hi : ops[i]? = some op) (hj : ops[j]? = some op') :
    op.span.start = op'.span.start ↔ i = j := by
  constructor
  · intro hstart
    have hij := h.start_lt_iff hi hj
    have hji := h.start_lt_iff hj hi
    rw [hstart] at hij hji
    have hirrefl := Cursor.lt_irrefl op'.span.start
    simp only [hirrefl, false_iff, Nat.not_lt] at hij hji
    exact Nat.le_antisymm hji hij
  · rintro rfl
    rw [hi] at hj
    cases hj
    rfl

lemma span_eq_iff (h : Ordered ops) (hi : ops[i]? = some op) (hj : ops[j]? = some op') :
    op.span = op'.span ↔ i = j := by
  constructor
  · intro hspan
    exact (h.start_eq_iff hi hj).mp (congrArg Span.start hspan)
  · rintro rfl
    rw [hi] at hj
    cases hj
    rfl

end Ordered

/-- The relocation keeps the operations one behind the other. -/
structure Relocation.Faithful (τ : Relocation) (ops : List Operation) : Prop where
  before : Ordered ops
  after  : Ordered (ops.map (Operation.relocate τ))

namespace Relocation.Faithful

variable {τ : Relocation} {ops : List Operation} {op op' : Operation}

lemma exists_index (τ : Relocation) (hop : op ∈ ops) :
    ∃ i : Nat, ops[i]? = some op ∧ (ops.map (Operation.relocate τ))[i]? = some (op.relocate τ) := by
  obtain ⟨i, hi⟩ := List.mem_iff_getElem?.mp hop
  exact ⟨i, hi, by rw [List.getElem?_map, hi, Option.map_some]⟩

lemma start_lt_iff (h : τ.Faithful ops) (hop : op ∈ ops) (hop' : op' ∈ ops) :
    (τ.place op.span).start < (τ.place op'.span).start ↔ op.span.start < op'.span.start := by
  obtain ⟨i, hi, hi'⟩ := exists_index τ hop
  obtain ⟨j, hj, hj'⟩ := exists_index τ hop'
  exact (h.after.start_lt_iff hi' hj').trans (h.before.start_lt_iff hi hj).symm

lemma start_eq_iff (h : τ.Faithful ops) (hop : op ∈ ops) (hop' : op' ∈ ops) :
    (τ.place op.span).start = (τ.place op'.span).start ↔ op.span.start = op'.span.start := by
  obtain ⟨i, hi, hi'⟩ := exists_index τ hop
  obtain ⟨j, hj, hj'⟩ := exists_index τ hop'
  exact (h.after.start_eq_iff hi' hj').trans (h.before.start_eq_iff hi hj).symm

lemma span_eq_iff (h : τ.Faithful ops) (hop : op ∈ ops) (hop' : op' ∈ ops) :
    τ.place op.span = τ.place op'.span ↔ op.span = op'.span := by
  obtain ⟨i, hi, hi'⟩ := exists_index τ hop
  obtain ⟨j, hj, hj'⟩ := exists_index τ hop'
  exact (h.after.span_eq_iff hi' hj').trans (h.before.span_eq_iff hi hj).symm

end Relocation.Faithful

/-! ### The order of stuck nodes -/

variable {τ : Relocation} {ops : List Operation}

namespace EffectGraph

variable {g : EffectGraph}

lemma reportedBefore_trans (g : EffectGraph) (a b c : Nat) (hab : g.reportedBefore a b = true)
    (hbc : g.reportedBefore b c = true) : g.reportedBefore a c = true := by
  unfold reportedBefore at *
  cases ha : g.startOf a <;> cases hb : g.startOf b <;> cases hc : g.startOf c <;>
    simp only [ha, hb, hc, decide_eq_true_eq, Bool.or_eq_true, Bool.and_eq_true,
      Bool.false_eq_true] at *
  case none.none.none => exact hab.trans hbc
  case some.some.some p q t =>
    rcases hab with hab | ⟨rfl, hab⟩
    · rcases hbc with hbc | ⟨rfl, -⟩
      · exact Or.inl (Cursor.lt_trans hab hbc)
      · exact Or.inl hab
    · exact hbc.imp_right fun hbc => ⟨hbc.1, hab.trans hbc.2⟩

lemma reportedBefore_total (g : EffectGraph) (a b : Nat) :
    (g.reportedBefore a b || g.reportedBefore b a) = true := by
  unfold reportedBefore
  cases ha : g.startOf a <;> cases hb : g.startOf b <;>
    simp only [Bool.or_eq_true, Bool.and_eq_true, decide_eq_true_eq, true_or, or_true]
  case none.none => exact Nat.le_total a b
  case some.some p q =>
    rcases Cursor.lt_trichotomy p q with hlt | rfl | hlt
    · exact Or.inl (Or.inl hlt)
    · exact (Nat.le_total a b).imp (fun hle => Or.inr ⟨rfl, hle⟩) fun hle => Or.inr ⟨rfl, hle⟩
    · exact Or.inr (Or.inl hlt)

/-- The nodes that are stuck are reported in their order. -/
lemma pairwise_stuck_of_resolve {passes : Nat} {resolved : Resolved}
    (h : g.resolve passes = .ok resolved) :
    resolved.stuck.Pairwise fun a b => resolved.graph.reportedBefore a b = true := by
  unfold resolve at h
  split at h
  · cases h
    exact List.pairwise_mergeSort (reportedBefore_trans _) (reportedBefore_total _) _
  · cases h

lemma reportedBefore_relocate (hτ : τ.Faithful ops) (hg : g.StemsFrom ops) :
    (g.relocate τ).reportedBefore = g.reportedBefore := by
  funext a b
  simp only [reportedBefore, startOf, origin?_relocate]
  cases ha : g.origin? a with
  | none => cases g.origin? b <;> rfl
  | some origin =>
    cases hb : g.origin? b with
    | none => rfl
    | some origin' =>
      obtain ⟨op, hop, rfl⟩ := hg.exists_op ha
      obtain ⟨op', hop', rfl⟩ := hg.exists_op hb
      have hlt := hτ.start_lt_iff hop hop'
      have heq := hτ.start_eq_iff hop hop'
      simp only [Option.map_some, Origin.relocate, Operation.origin, hlt, heq]

/-- The same nodes get stuck, and they are reported in the same order. -/
lemma resolve_relocate (hτ : τ.Faithful ops) (hg : g.StemsFrom ops) (hm : g.Mirrored)
    (passes : Nat) :
    (g.relocate τ).resolve passes =
      τ.outcome (fun resolved => ⟨resolved.graph.relocate τ, resolved.stuck⟩)
        (g.resolve passes) := by
  simp only [resolve, Resolution.start_relocate, Resolution.settle_relocate]
  cases hsettle : (Resolution.start g).settle passes with
  | none => rfl
  | some s =>
    have hs : s.graph.StemsFrom ops :=
      hg.sameNodes (saturated_of_settles hm (Resolution.settles_of_settle hsettle)).nodes
    simp only [Option.map_some, Relocation.outcome, Resolution.graph_relocate,
      Resolution.pending_relocate, reportedBefore_relocate hτ hs]

/-! ### The kinds of errors -/

/-- The types of the items that a node is offered, where an operation stands behind them. -/
def offered (g : EffectGraph) (id : Nat) : List Ty :=
  (g.parents id).filterMap fun parent =>
    if (g.origin? parent).isSome then g.pushed? parent else none

/-- The kind of error of a stuck node. -/
def faultKind (offered : List Ty) (effect : Option Effect) (strict : Bool) : TypeErrorKind :=
  if offered.isEmpty then .underflow
  else match effect with
    | some (.assert _) => if offered.all (· = .unknown) then .assertion else .mismatch
    | some (.pop _)    =>
      if strict && offered.any (· = .unknown) then .strictModeViolation else .mismatch
    | _                => .mismatch

/-- What a node is offered: an item for each push in front of it that an operation stands behind. -/
lemma mem_sightings {r : Registry} {id : Nat} {s : Sighting} :
    s ∈ g.sightings r id ↔ ∃ parent ∈ g.parents id, g.pushed? parent = some s.ty ∧
      g.origin? parent = some s.origin ∧ s.name = r.name s.ty := by
  simp only [sightings, Sighting.inOrder, mem_eraseReps, List.mem_mergeSort, List.mem_filterMap]
  refine exists_congr fun parent => and_congr_right fun _ => ?_
  unfold sighting? Sighting.of?
  split
  · rename_i ty origin hpushed horigin
    obtain ⟨origin', ty', name'⟩ := s
    simp only [hpushed, horigin, Option.some.injEq, Sighting.mk.injEq]
    constructor
    · rintro ⟨rfl, rfl, rfl⟩
      exact ⟨rfl, rfl, rfl⟩
    · rintro ⟨rfl, rfl, rfl⟩
      exact ⟨rfl, rfl, rfl⟩
  · rename_i hnone
    refine iff_of_false (by simp) ?_
    rintro ⟨hpushed, horigin, -⟩
    exact hnone _ _ hpushed horigin

lemma exists_sighting_iff {r : Registry} {id : Nat} {ty : Ty} :
    (∃ s ∈ g.sightings r id, s.ty = ty) ↔ ty ∈ g.offered id := by
  simp only [mem_sightings, offered, List.mem_filterMap]
  constructor
  · rintro ⟨s, ⟨parent, hparent, hpushed, horigin, -⟩, rfl⟩
    exact ⟨parent, hparent, by simp [horigin, hpushed]⟩
  · rintro ⟨parent, hparent, hty⟩
    split at hty
    · rename_i horigin
      obtain ⟨origin, horigin⟩ := Option.isSome_iff_exists.mp horigin
      exact ⟨⟨origin, ty, r.name ty⟩, ⟨parent, hparent, hty, horigin, rfl⟩, rfl⟩
    · cases hty

/-- The kind of an error depends on nothing but the types that are offered. -/
lemma kind_explain (g : EffectGraph) (r : Registry) (strict : Bool) (id : Nat) :
    (g.explain r strict id).fault.kind = faultKind (g.offered id) (g.effect? id) strict := by
  have hall : ∀ p : Ty → Bool, (g.sightings r id).all (fun s => p s.ty) = (g.offered id).all p := by
    intro p
    rw [Bool.eq_iff_iff, List.all_eq_true, List.all_eq_true]
    constructor
    · intro h ty hty
      obtain ⟨s, hs, rfl⟩ := exists_sighting_iff.mpr hty
      exact h s hs
    · intro h s hs
      exact h s.ty (exists_sighting_iff.mp ⟨s, hs, rfl⟩)
  have hany : ∀ p : Ty → Bool, (g.sightings r id).any (fun s => p s.ty) = (g.offered id).any p := by
    intro p
    rw [← Bool.not_inj_iff, List.not_any_eq_all_not, List.not_any_eq_all_not]
    exact hall fun ty => !p ty
  have hempty : (g.sightings r id).isEmpty = (g.offered id).isEmpty := by
    have hfalse := hall fun _ => false
    cases hsightings : g.sightings r id <;> cases hoffered : g.offered id <;>
      simp [hsightings, hoffered] at hfalse ⊢
  simp only [explain, TypeError.of, TypeFault.of, faultKind, hempty]
  split
  · rfl
  · cases g.effect? id with
    | none => rfl
    | some effect =>
      cases effect with
      | push ty | copy depth | swap => rfl
      | pop ty =>
        simp only [hany fun ty => ty = .unknown]
        split <;> rfl
      | assert ty =>
        simp only [hall fun ty => ty = .unknown]
        split <;> rfl

lemma offered_relocate (g : EffectGraph) (id : Nat) : (g.relocate τ).offered id = g.offered id := by
  simp [offered]

end EffectGraph

/-! ### Errors -/

/-- The errors are of one kind, and the second one is where the operation of the first one went. -/
structure TypeError.Echoes (τ : Relocation) (ops : List Operation) (e e' : TypeError) : Prop where
  kind      : e'.fault.kind = e.fault.kind
  span      : e'.span = τ.place e.span
  exists_op : ∃ op ∈ ops, op.span = e.span

namespace EffectGraph

variable {g h : EffectGraph} {b : Branches} {r r' : Registry} {strict : Bool} {stuck : List Nat}

/-- A stuck node is not the root, so it stems from an operation. -/
lemma StemsFrom.exists_op_of_mem_stuck (hg : g.StemsFrom ops) (hbuilt : g.Built b strict r)
    (hsat : g.Saturated h stuck) {id : Nat} (hid : id ∈ stuck) :
    ∃ op ∈ ops, h.origin? id = some op.origin := by
  obtain ⟨hreached, hpush, -⟩ := (hsat.stuck id).mp hid
  obtain ⟨effect, heffect⟩ :=
    exists_effect?_of_lt (hreached.lt_size hbuilt.mirrored (lt_size_of_effect? hbuilt.root))
  cases horigin : g.origin? id with
  | none =>
    have hpushes := hg.isPush heffect horigin
    simp [EffectGraph.isPush, heffect, hpushes] at hpush
  | some origin =>
    obtain ⟨op, hop, rfl⟩ := hg.exists_op horigin
    exact ⟨op, hop, (hsat.nodes.origin id).trans horigin⟩

lemma echoes_explain {id : Nat} (r r' : Registry) (strict : Bool)
    (hid : ∃ op ∈ ops, g.origin? id = some op.origin) :
    (g.explain r strict id).Echoes τ ops ((g.relocate τ).explain r' strict id) := by
  obtain ⟨op, hop, horigin⟩ := hid
  refine ⟨?_, ?_, op, hop, ?_⟩
  · simp [kind_explain, offered_relocate]
  · simp [explain, TypeError.of, horigin, Origin.relocate]
  · simp [explain, TypeError.of, horigin, Operation.origin]

lemma echoes_explain_all (τ : Relocation) (r r' : Registry) (strict : Bool)
    (hstuck : ∀ id ∈ stuck, ∃ op ∈ ops, g.origin? id = some op.origin) :
    List.Forall₂ (TypeError.Echoes τ ops) (stuck.map (g.explain r strict))
      (stuck.map ((g.relocate τ).explain r' strict)) := by
  rw [List.forall₂_map_left_iff, List.forall₂_map_right_iff, List.forall₂_same]
  exact fun id hid => echoes_explain r r' strict (hstuck id hid)

end EffectGraph

/-! ### Warnings -/

variable (τ) in
def TypeWarning.relocate (w : TypeWarning) : TypeWarning := { w with span := τ.place w.span }

/-- Two lists of errors speak of the same operations. -/
lemma mem_errored_iff (hτ : τ.Faithful ops) {errors errors' : List TypeError}
    (herrors : List.Forall₂ (TypeError.Echoes τ ops) errors errors') {op : Operation}
    (hop : op ∈ ops) :
    τ.place op.span ∈ (errors'.map TypeError.span).eraseDups ↔
      op.span ∈ (errors.map TypeError.span).eraseDups := by
  rw [List.mem_eraseDups, List.mem_eraseDups]
  induction herrors with
  | nil => simp
  | cons he _ ih =>
    obtain ⟨op', hop', hspan⟩ := he.exists_op
    simp only [List.map_cons, List.mem_cons, ih, he.span, ← hspan, hτ.span_eq_iff hop hop']

namespace EffectGraph

variable {g : EffectGraph}

lemma underflowWarning?_relocate (hg : g.StemsFrom ops) {errored errored' : List Span}
    (herrored : ∀ op ∈ ops, τ.place op.span ∈ errored' ↔ op.span ∈ errored) (id : Nat) :
    (g.relocate τ).underflowWarning? errored' id =
      (g.underflowWarning? errored id).map (TypeWarning.relocate τ) := by
  simp only [underflowWarning?, TypeWarning.underflow?, effect?_relocate, origin?_relocate,
    parents_relocate]
  cases g.effect? id with
  | none => rfl
  | some effect =>
    cases horigin : g.origin? id with
    | none => cases effect <;> rfl
    | some origin =>
      obtain ⟨op, hop, rfl⟩ := hg.exists_op horigin
      have hspan := herrored op hop
      cases effect with
      | push ty | assert ty | copy depth | swap => rfl
      | pop ty =>
        generalize (g.parents id).any (fun p => g.effect? p = some (.push .never)) = bottom
        by_cases hmem : op.span ∈ errored <;> cases bottom <;>
          simp [Origin.relocate, Operation.origin, hspan, hmem, TypeWarning.relocate]

lemma underflowWarnings_relocate (hτ : τ.Faithful ops) (hg : g.StemsFrom ops)
    {errors errors' : List TypeError}
    (herrors : List.Forall₂ (TypeError.Echoes τ ops) errors errors') :
    (g.relocate τ).underflowWarnings errors' =
      (g.underflowWarnings errors).map (TypeWarning.relocate τ) := by
  simp only [underflowWarnings, reachable_relocate, List.map_filterMap]
  exact List.filterMap_congr fun id _ =>
    underflowWarning?_relocate hg (fun op hop => mem_errored_iff hτ herrors hop) id

lemma unreachableWarnings_relocate (g : EffectGraph) (b : Branches) :
    (g.relocate τ).unreachableWarnings (b.relocate τ) =
      (g.unreachableWarnings b).map (TypeWarning.relocate τ) := by
  have henumerate : (b.relocate τ).arena.enumerate =
      b.arena.enumerate.map fun entry => (entry.1, entry.2.relocate τ) :=
    b.arena.enumerate_map (Branch.relocate τ)
  simp only [unreachableWarnings, Branches.reachable_relocate, fragment?_relocate, henumerate,
    List.filterMap_map, List.map_filterMap]
  refine List.filterMap_congr fun entry _ => ?_
  obtain ⟨id, branch⟩ := entry
  simp only [Function.comp_apply]
  split
  · rfl
  · cases hoperations : branch.operations <;>
      simp [Branch.relocate, hoperations, TypeWarning.relocate]

/-- Warnings are about operations of the program. -/
lemma exists_op_of_mem_warnings {b : Branches} (hg : g.StemsFrom ops)
    (hb : ∀ {id op}, op ∈ (b.get id).operations → op ∈ ops) {errors : List TypeError}
    {w : TypeWarning} (hw : w ∈ g.underflowWarnings errors ++ g.unreachableWarnings b) :
    ∃ op ∈ ops, op.span = w.span := by
  rcases List.mem_append.mp hw with hw | hw
  · obtain ⟨id, -, hid⟩ := List.mem_filterMap.mp hw
    unfold underflowWarning? TypeWarning.underflow? at hid
    split at hid
    · rename_i origin _ horigin
      obtain ⟨op, hop, rfl⟩ := hg.exists_op horigin
      split at hid
      · cases hid
        exact ⟨op, hop, rfl⟩
      · cases hid
    · cases hid
  · simp only [unreachableWarnings, List.mem_filterMap, Prod.exists] at hw
    obtain ⟨id, branch, hentry, hid⟩ := hw
    rw [← Branches.get_eq_of_mem_enumerate hentry] at hid
    split at hid
    · cases hid
    · obtain ⟨op, hop, rfl⟩ := Option.map_eq_some_iff.mp hid
      exact ⟨op, hb (List.mem_of_mem_head? hop), rfl⟩

end EffectGraph

/-! ### Checks -/

/-- The second report is the first one, relocated. -/
structure Report.Echoes (τ : Relocation) (ops : List Operation) (report report' : Report) :
    Prop where
  errors    : List.Forall₂ (TypeError.Echoes τ ops) report.errors report'.errors
  warnings  : report'.warnings = report.warnings.map (TypeWarning.relocate τ)
  exists_op : ∀ w ∈ report.warnings, ∃ op ∈ ops, op.span = w.span

/-- What comes of checking relocated operations. -/
inductive Echoed (τ : Relocation) (ops : List Operation) :
    Except CheckFailure Checked → Except CheckFailure Checked → Prop
  | failed (e : CheckFailure) : Echoed τ ops (.error e) (.error (e.relocate τ))
  | checked {c c' : Checked} (hreport : c.report.Echoes τ ops c'.report) :
      Echoed τ ops (.ok c) (.ok c')

/-- Checking relocated operations fails alike or comes to a relocated report. -/
lemma echoed_checkOperations (hτ : τ.Faithful ops) (hops : ∀ op ∈ ops, op.WellKinded)
    (strict : Bool) (passes : Nat) :
    Echoed τ ops (checkOperations ops strict passes)
      (checkOperations (ops.map (Operation.relocate τ)) strict passes) := by
  unfold checkOperations
  rw [Branches.extract_relocate τ hops]
  cases hextract : Branches.extract ops with
  | error e => exact .failed e
  | ok b =>
    have hbounded := Branches.bounded_of_extract hops hextract
    simp only [Relocation.outcome, bind, Except.bind]
    rw [EffectGraph.build_relocate]
    cases hbuild : EffectGraph.build b strict with
    | error e => exact .failed e
    | ok built =>
      obtain ⟨g, r⟩ := built
      have hbuilt := EffectGraph.built_of_build hbounded hbuild
      have hg := EffectGraph.stemsFrom_of_build hops hextract hbuild
      simp only [Relocation.outcome]
      rw [EffectGraph.resolve_relocate hτ hg hbuilt.mirrored]
      cases hresolve : g.resolve passes with
      | error e => exact .failed e
      | ok resolved =>
        have hsat := EffectGraph.saturated_of_resolve hbuilt.mirrored hresolve
        have hresolved := hg.sameNodes hsat.nodes
        have herrors := EffectGraph.echoes_explain_all τ r (r.relocate τ) strict
          fun id hid => hg.exists_op_of_mem_stuck hbuilt hsat hid
        refine .checked ⟨herrors, ?_, fun w hw => ?_⟩
        · simp only [Resolved.report, List.map_append]
          rw [EffectGraph.underflowWarnings_relocate hτ hresolved herrors,
            EffectGraph.unreachableWarnings_relocate]
        · exact EffectGraph.exists_op_of_mem_warnings hresolved
            (fun hop => Branches.mem_of_extract hops hextract hop) hw

end ZeroWidth
