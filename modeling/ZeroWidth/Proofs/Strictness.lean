import ZeroWidth.Proofs.Convergence
import ZeroWidth.Proofs.NodeMap
import ZeroWidth.Proofs.Soundness

/-!
# Strict checks restrict

A strict check asks for a cast where a lax one lets an item pass for anything: what has not been
cast is of type `unknown` to the one and of type `any` to the other. In all else the two build the
same graph, and whatever suits a node strictly suits it laxly. So strict resolving adds fewer edges.
It leaves more nodes stuck, and fewer of them in front of the bottom of the stack.
-/

namespace ZeroWidth

/-- Steps that a map commutes with do so one behind the other. -/
lemma bind_eq_map_bind {ε α β γ δ : Type} {f : α → β} {g : γ → δ} {x : Except ε α}
    {x' : Except ε β} {k : α → Except ε γ} {k' : β → Except ε δ} (hx : x' = x.map f)
    (hk : ∀ a, k' (f a) = (k a).map g) : x' >>= k' = (x >>= k).map g := by
  subst hx
  cases x with
  | error e => rfl
  | ok a => exact hk a

/-! ### Relaxed types and effects -/

/-- What has not been cast may be anything. -/
def Ty.relax : Ty → Ty
  | unknown => any
  | ty      => ty

lemma Ty.accepts_relax {expected found : Ty} (h : expected.accepts found = true) :
    expected.relax.accepts found.relax = true := by
  cases found with
  | never => cases h
  | unknown => rfl
  | any => rfl
  | int | char | custom id =>
    cases expected with
    | unknown => rfl
    | _ => exact h

namespace Effect

def relax : Effect → Effect
  | push ty   => push ty.relax
  | pop ty    => pop ty.relax
  | assert ty => assert ty.relax
  | effect    => effect

lemma isPush_relax (effect : Effect) : effect.relax.isPush = effect.isPush := by
  cases effect <;> rfl

lemma ty?_relax (effect : Effect) : effect.relax.ty? = effect.ty?.map Ty.relax := by
  cases effect <;> rfl

lemma lower_relax (effect : Effect) : effect.relax.lower = effect.lower.map relax := by
  cases effect with
  | copy depth => simp [relax, lower, Ty.relax]
  | _ => rfl

lemma flatMap_lower_relax (effects : List Effect) :
    (effects.map relax).flatMap lower = (effects.flatMap lower).map relax := by
  rw [List.flatMap_map, List.map_flatMap]
  simp only [lower_relax]

end Effect

namespace Operation

/-- No program can name the type of what has not been cast. -/
lemma annotatedType_ne_unknown (op : Operation) (r : Registry) :
    (op.annotatedType r).1 ≠ .unknown := by
  unfold annotatedType
  split
  · exact r.intern_ne_unknown _
  · simp

lemma relax_annotatedType (op : Operation) (r : Registry) :
    (op.annotatedType r).1.relax = (op.annotatedType r).1 := by
  have hne := op.annotatedType_ne_unknown r
  generalize (op.annotatedType r).1 = ty at hne ⊢
  cases ty with
  | unknown => exact absurd rfl hne
  | _ => rfl

/-- Without strictness, operations have the strict effects, relaxed. -/
lemma effects_relax (op : Operation) (r : Registry) :
    op.effects false r =
      (op.effects true r).map fun made => (made.1.map Effect.relax, made.2) := by
  unfold effects
  cases op.instruction
  case copy => cases op.depth <;> rfl
  case slide =>
    cases op.depth with
    | error e => rfl
    | ok depth => simp [Except.map, Effect.relax, Ty.relax]
  case cast =>
    simp only [Except.map, List.map_cons, List.map_nil, Effect.relax, relax_annotatedType]
    rfl
  case assert =>
    simp only [Except.map, List.map_cons, List.map_nil, Effect.relax, relax_annotatedType]
  all_goals rfl

lemma loweredEffects_relax (op : Operation) (r : Registry) :
    op.loweredEffects false r =
      (op.loweredEffects true r).map fun made => (made.1.map Effect.relax, made.2) := by
  rw [loweredEffects, loweredEffects, effects_relax]
  cases op.effects true r with
  | error e => rfl
  | ok made => simp [Except.map, Effect.flatMap_lower_relax]

end Operation

/-! ### Relaxed graphs -/

namespace EffectGraph

variable {g h h' : EffectGraph} {stuck stuck' : List Nat} {id u n : Nat}

def relax : EffectGraph → EffectGraph := map Effect.relax fun origin => origin

lemma origin?_relax (g : EffectGraph) (id : Nat) : g.relax.origin? id = g.origin? id := by
  rw [relax, origin?_map, Option.map_id']

lemma isPush_relax (g : EffectGraph) (id : Nat) : g.relax.isPush id = g.isPush id := by
  rw [relax, isPush, effect?_map, isPush]
  cases g.effect? id with
  | none => rfl
  | some effect => simp [Effect.isPush_relax]

lemma pushed?_relax (g : EffectGraph) (id : Nat) :
    g.relax.pushed? id = (g.pushed? id).map Ty.relax := by
  rw [relax, pushed?, effect?_map, pushed?]
  cases g.effect? id with
  | none => rfl
  | some effect => cases effect <;> rfl

lemma addOperations_relax (g : EffectGraph) (r : Registry) (span : Option (Nat × Nat))
    (ops : List Operation) :
    addOperations false g.relax r span ops =
      (addOperations true g r span ops).map fun made => (made.1.relax, made.2) := by
  induction ops generalizing g r span with
  | nil => rfl
  | cons op ops ih =>
    refine bind_eq_map_bind (op.loweredEffects_relax r) fun made => ?_
    have hfold := g.foldl_extend_map (f := Effect.relax) (k := fun origin => origin) span made.1
      op.origin
    rw [← relax] at hfold
    simp only [Operation.origin] at hfold
    simp only [hfold]
    exact ih _ made.2 _

lemma addBranches_relax (g : EffectGraph) (r : Registry) (branches : List (Nat × Branch)) :
    addBranches false g.relax r branches =
      (addBranches true g r branches).map fun made => (made.1.relax, made.2) := by
  induction branches generalizing g r with
  | nil => rfl
  | cons entry branches ih =>
    refine bind_eq_map_bind (addOperations_relax g r none entry.2.operations) fun made => ?_
    obtain ⟨g', r', span⟩ := made
    cases span with
    | none => exact ih g' r'
    | some ends => exact ih { g' with fragments := g'.fragments ++ [⟨entry.1, ends.1, ends.2⟩] } r'

lemma relax_initial : initial.relax = initial := by
  simp [initial, relax, map, Arena.map, Arena.alloc, Arena.empty, Node.map, Effect.relax, Ty.relax]

/-- Without strictness, a program has the strict graph, relaxed. -/
lemma build_relax (b : Branches) :
    build b false = (build b true).map fun made => (made.1.relax, made.2) := by
  have hadd := addBranches_relax initial .empty b.arena.enumerate
  rw [relax_initial] at hadd
  refine bind_eq_map_bind hadd fun made => ?_
  exact congrArg (fun g => Except.ok (g, made.2)) (made.1.stitch_map b)

/-! ### Relaxed rules -/

/-- What suits a node strictly suits it laxly. -/
lemma suits_relax (hsuits : g.suits u n = true) : g.relax.suits u n = true := by
  unfold suits at hsuits ⊢
  rw [relax, effect?_map, ← relax]
  cases heffect : g.effect? n with
  | none => simp [heffect] at hsuits
  | some effect =>
    simp only [heffect, Resolution.matching] at hsuits
    simp only [Option.map_some, Resolution.matching, Effect.ty?_relax, pushed?_relax]
    cases hty : effect.ty? with
    | none => simp [hty] at hsuits
    | some expected =>
      cases hpushed : g.pushed? u with
      | none => simp [hty, hpushed] at hsuits
      | some found =>
        simp only [hty, hpushed] at hsuits
        exact Ty.accepts_relax hsuits

lemma Passes.relax {E : Nat → Nat → Prop} (hpass : g.Passes E id u n) :
    g.relax.Passes E id u n := by
  cases hpass with
  | pop heffect hitem hsuits hunder hchild =>
    exact .pop (by rw [EffectGraph.relax, effect?_map, heffect]; rfl) hitem (suits_relax hsuits)
      hunder hchild
  | assert heffect hitem hsuits hchild =>
    exact .assert (by rw [EffectGraph.relax, effect?_map, heffect]; rfl) hitem (suits_relax hsuits)
      hchild

/-- The strict rules lead to fewer edges than the lax ones. -/
lemma Saturated.edge_le_relax (hsat : g.Saturated h stuck) (hsat' : g.relax.Saturated h' stuck') :
    h.Edge ≤ h'.Edge := by
  obtain ⟨hedge, hclosed⟩ := hsat'.least.1
  rw [relax, edge_map] at hedge
  refine hsat.least.2 ⟨hedge, fun id hid u n hpass => hclosed id ?_ u n hpass.relax⟩
  rw [relax, reached_map]
  exact hid

/-- What is stuck laxly is stuck strictly. -/
lemma Saturated.mem_stuck_of_relax (hsat : g.Saturated h stuck)
    (hsat' : g.relax.Saturated h' stuck') (hid : id ∈ stuck') : id ∈ stuck := by
  obtain ⟨hreached, hpush, hnone⟩ := (hsat'.stuck id).mp hid
  rw [relax, reached_map] at hreached
  rw [isPush_relax] at hpush
  refine (hsat.stuck id).mpr ⟨hreached, hpush, fun item hitem => ?_⟩
  by_contra hsuits
  have hsuits' := suits_relax (Bool.eq_true_of_not_eq_false hsuits)
  rw [hnone item (hsat.edge_le_relax hsat' item id hitem)] at hsuits'
  cases hsuits'

lemma Saturated.effect?_relax (hsat : g.Saturated h stuck) (hsat' : g.relax.Saturated h' stuck')
    (id : Nat) : h'.effect? id = (h.effect? id).map Effect.relax := by
  rw [hsat'.nodes.effect, hsat.nodes.effect]
  exact effect?_map g id

lemma Saturated.origin?_relax (hsat : g.Saturated h stuck) (hsat' : g.relax.Saturated h' stuck')
    (id : Nat) : h'.origin? id = h.origin? id := by
  rw [hsat'.nodes.origin, hsat.nodes.origin, EffectGraph.origin?_relax]

/-- What is warned of strictly is warned of laxly. -/
lemma Saturated.underflowWarning?_relax (hsat : g.Saturated h stuck)
    (hsat' : g.relax.Saturated h' stuck') {errored errored' : List Span}
    (herrored : ∀ span ∈ errored', span ∈ errored) {w : TypeWarning}
    (hw : h.underflowWarning? errored id = some w) : h'.underflowWarning? errored' id = some w := by
  obtain ⟨ty, origin, heffect, horigin, hspan, ⟨parent, hparent, hnever⟩, rfl⟩ :=
    underflowWarning?_eq_some_iff.mp hw
  refine underflowWarning?_eq_some_iff.mpr ⟨ty.relax, origin, ?_, ?_, fun hmem =>
    hspan (herrored _ hmem), ⟨parent, ?_, ?_⟩, rfl⟩
  · rw [hsat.effect?_relax hsat', heffect]
    rfl
  · rw [hsat.origin?_relax hsat', horigin]
  · exact hsat'.mirrored.edge_iff.mp
      (hsat.edge_le_relax hsat' parent id (hsat.mirrored.edge_iff.mpr hparent))
  · rw [hsat.effect?_relax hsat', hnever]
    rfl

end EffectGraph

lemma Effect.relax_relax (effect : Effect) : effect.relax.relax = effect.relax := by
  have hty : ∀ ty : Ty, ty.relax.relax = ty.relax := fun ty => by cases ty <;> rfl
  cases effect <;> simp [relax, hty]

/-! ### Strict and lax reports -/

namespace Checked

/-- The check warns that a node may find the bottom of the stack. -/
def Warns (c : Checked) (id : Nat) (w : TypeWarning) : Prop :=
  id ∈ c.graph.reachable.toList ∧
    c.graph.underflowWarning? (c.report.errors.map TypeError.span).eraseDups id = some w

/-- Two checks of the same nodes, of which the second finds less that is wrong, and warns of all
that the first one warns of. -/
structure Restricts (strict lax : Checked) : Prop where
  size     : lax.graph.size = strict.graph.size
  origin   : ∀ id, lax.graph.origin? id = strict.graph.origin? id
  /-- The effects are the same up to what the type of an item is that has not been cast. -/
  effect   : ∀ id, (lax.graph.effect? id).map Effect.relax =
    (strict.graph.effect? id).map Effect.relax
  stuck    : ∀ id ∈ lax.stuck, id ∈ strict.stuck
  errors   : strict.report.errors = [] → lax.report.errors = []
  warns    : ∀ id w, strict.Warns id w → lax.Warns id w
  warnings : ∀ i span, ⟨.mayUnderflow i, span⟩ ∈ strict.report.warnings →
    ⟨.mayUnderflow i, span⟩ ∈ lax.report.warnings

lemma Restricts.refl (c : Checked) : c.Restricts c where
  size     := rfl
  origin   := fun _ => rfl
  effect   := fun _ => rfl
  stuck    := fun _ hid => hid
  errors   := fun herrors => herrors
  warns    := fun _ _ hw => hw
  warnings := fun _ _ hw => hw

end Checked

open EffectGraph

variable {ops : List Operation} {strict : Bool} {passes passes' : Nat} {c c' : Checked}

/-- The warnings about the bottom of the stack are those about single nodes. -/
lemma mayUnderflow_mem_warnings_iff (hcheck : checkOperations ops strict passes = .ok c)
    {i : Instruction} {span : Span} :
    ⟨.mayUnderflow i, span⟩ ∈ c.report.warnings ↔ ∃ id, c.Warns id ⟨.mayUnderflow i, span⟩ := by
  obtain ⟨b, g, r, resolved, -, -, -, rfl⟩ := exists_of_checkOperations hcheck
  have hunreachable : ⟨.mayUnderflow i, span⟩ ∉ resolved.graph.unreachableWarnings b := by
    intro hmem
    obtain ⟨entry, -, hentry⟩ := List.mem_filterMap.mp hmem
    dsimp only at hentry
    split at hentry
    · cases hentry
    · obtain ⟨op, -, hop⟩ := Option.map_eq_some_iff.mp hentry
      cases hop
  simp only [Resolved.report, List.mem_append, hunreachable, or_false, underflowWarnings,
    List.mem_filterMap, Checked.Warns]

/-- Checks that are equally strict come to the same. -/
lemma checkOperations_unique (hcheck : checkOperations ops strict passes = .ok c)
    (hcheck' : checkOperations ops strict passes' = .ok c') : c = c' := by
  obtain ⟨b, g, r, resolved, hextract, hbuild, hresolve, rfl⟩ := exists_of_checkOperations hcheck
  obtain ⟨b', g', r', resolved', hextract', hbuild', hresolve', rfl⟩ :=
    exists_of_checkOperations hcheck'
  cases hextract.symm.trans hextract'
  cases hbuild.symm.trans hbuild'
  cases (resolve_of_le (Nat.le_max_left passes passes') hresolve).symm.trans
    (resolve_of_le (Nat.le_max_right passes passes') hresolve')
  rfl

section Relaxed

variable {g : EffectGraph} {b : Branches} {r : Registry} {resolved resolved' : Resolved}
  (hsat : g.Saturated resolved.graph resolved.stuck)
  (hsat' : g.relax.Saturated resolved'.graph resolved'.stuck)

include hsat hsat'

/-- An operation that has an error under a lax check has one under a strict check. -/
lemma mem_errored_of_relax {span : Span}
    (hspan : span ∈ ((resolved'.report b r false).errors.map TypeError.span).eraseDups) :
    span ∈ ((resolved.report b r true).errors.map TypeError.span).eraseDups := by
  simp only [Resolved.report, List.mem_eraseDups, List.map_map, List.mem_map] at hspan ⊢
  obtain ⟨id, hid, rfl⟩ := hspan
  refine ⟨id, hsat.mem_stuck_of_relax hsat' hid, ?_⟩
  simp only [Function.comp_apply, explain, TypeError.of, hsat.origin?_relax hsat']

lemma errors_eq_nil_of_relax (herrors : (resolved.report b r true).errors = []) :
    (resolved'.report b r false).errors = [] := by
  have hnone : resolved.stuck = [] := List.map_eq_nil_iff.mp herrors
  refine List.map_eq_nil_iff.mpr (List.eq_nil_iff_forall_not_mem.mpr fun id hid => ?_)
  have hmem := hsat.mem_stuck_of_relax hsat' hid
  rw [hnone] at hmem
  cases hmem

/-- A strict check warns of no more than a lax one, though it has more errors to keep quiet for. -/
lemma warns_of_relax {id : Nat} {w : TypeWarning}
    (hw : Checked.Warns ⟨b, resolved.graph, r, resolved.stuck, resolved.report b r true⟩ id w) :
    Checked.Warns ⟨b, resolved'.graph, r, resolved'.stuck, resolved'.report b r false⟩ id w := by
  obtain ⟨hreached, hw⟩ := hw
  constructor
  · rw [mem_reachable_iff hsat.mirrored, Reached, hsat.nodes.root] at hreached
    rw [mem_reachable_iff hsat'.mirrored, Reached, hsat'.nodes.root]
    exact Relation.ReflTransGen.mono (hsat.edge_le_relax hsat') _ _ hreached
  · exact hsat.underflowWarning?_relax hsat' (fun _ => mem_errored_of_relax hsat hsat') hw

end Relaxed

/-- A lax check resolves the relaxed graph of the strict one. -/
lemma restricts_of_checkOperations (hstrict : checkOperations ops true passes = .ok c)
    (hlax : checkOperations ops false passes' = .ok c') : c.Restricts c' := by
  have hwarnings := @mayUnderflow_mem_warnings_iff ops true passes c hstrict
  have hwarnings' := @mayUnderflow_mem_warnings_iff ops false passes' c' hlax
  obtain ⟨b, g, r, resolved, hextract, hbuild, hresolve, rfl⟩ := exists_of_checkOperations hstrict
  obtain ⟨b', g', r', resolved', hextract', hbuild', hresolve', rfl⟩ :=
    exists_of_checkOperations hlax
  cases hextract.symm.trans hextract'
  rw [build_relax, hbuild] at hbuild'
  cases hbuild'
  have hm := mirrored_of_build hbuild
  have hsat := saturated_of_resolve hm hresolve
  have hsat' : g.relax.Saturated resolved'.graph resolved'.stuck :=
    saturated_of_resolve hm.map hresolve'
  constructor
  case size =>
    rw [hsat'.nodes.size, hsat.nodes.size]
    exact size_map g
  case origin => exact hsat.origin?_relax hsat'
  case effect =>
    intro id
    rw [hsat.effect?_relax hsat', Option.map_map]
    exact congrArg (fun f => Option.map f _) (funext Effect.relax_relax)
  case stuck => exact fun id => hsat.mem_stuck_of_relax hsat'
  case errors => exact errors_eq_nil_of_relax hsat hsat'
  case warns => exact fun id w => warns_of_relax hsat hsat'
  case warnings =>
    intro i span hmem
    obtain ⟨id, hid⟩ := hwarnings.mp hmem
    exact hwarnings'.mpr ⟨id, warns_of_relax hsat hsat' hid⟩

/-- A check that is less strict finds the same nodes. What is stuck then is stuck under the stricter
check as well, so that a program without errors has none under a less strict check either; and
whatever the stricter check warns of, as a pop that may underflow, the less strict one warns of. -/
theorem checkOperations_restricts {strict lax : Bool} (hle : lax ≤ strict)
    (hstrict : checkOperations ops strict passes = .ok c)
    (hlax : checkOperations ops lax passes' = .ok c') : c.Restricts c' := by
  cases strict with
  | false =>
    obtain rfl : lax = false := Bool.eq_false_of_le_false hle
    rw [checkOperations_unique hstrict hlax]
    exact .refl c'
  | true =>
    cases lax with
    | false => exact restricts_of_checkOperations hstrict hlax
    | true =>
      rw [checkOperations_unique hstrict hlax]
      exact .refl c'

/-- A loop that empties the stack, and behind it an item that is written without having been
cast. -/
def uncast : List Operation := Machine.onLines [
  (.push, some (.number 1)),
  (.cast, some (.type "Int")),
  (.label, some (.label "loop")),
  (.pop, none),
  (.push, some (.number 2)),
  (.cast, some (.type "Int")),
  (.jumpZero, some (.label "loop")),
  (.push, some (.number 3)),
  (.writeInt, none)]

theorem uncast_restricts : ∃ c c', checkOperations uncast true 20 = .ok c ∧
    checkOperations uncast false 20 = .ok c' ∧ c.stuck = [10] ∧ c'.stuck = [] ∧
    c.report.warnings = [⟨.mayUnderflow .pop, .onLine 3 0 1⟩] ∧ c.Restricts c' := by
  have hstrict : (checkOperations uncast true 20).toOption.map
      (fun c => (c.stuck, c.report.warnings)) =
        some ([10], [⟨.mayUnderflow .pop, .onLine 3 0 1⟩]) := by decide +kernel
  have hlax : (checkOperations uncast false 20).toOption.map Checked.stuck = some [] := by
    decide +kernel
  obtain ⟨c, hstrict, hvalue⟩ := exists_ok_of_toOption_map hstrict
  obtain ⟨hstuck, hwarnings⟩ := Prod.mk.inj hvalue
  obtain ⟨c', hlax, hstuck'⟩ := exists_ok_of_toOption_map hlax
  exact ⟨c, c', hstrict, hlax, hstuck, hstuck', hwarnings,
    checkOperations_restricts (by decide) hstrict hlax⟩

end ZeroWidth
