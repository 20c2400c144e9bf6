import ZeroWidth.Proofs.Simulation
import ZeroWidth.Typing.Check

/-!
# What the findings of a check say about runs

A run that performs a pop or an assertion shows that the check does not call it an error: there are
no false alarms. A run that comes to a pop with nothing on the stack shows that the check reports
the operation, as an error or as one that may underflow.
-/

namespace ZeroWidth

namespace EffectGraph

/-- The resolved graph has an edge from what lies on top of the stack. -/
lemma Stacked.top {E : Nat → Nat → Prop} {start n top : Nat} {rest : List Nat}
    (h : Stacked E start [start] n (top :: rest)) : E top n := by
  cases h with
  | floor hn => exact hn
  | item _ hn => exact hn

variable {g h : EffectGraph} {stuck nodes : List Nat} {n top : Nat}

lemma Saturated.edge_top (hsat : g.Saturated h stuck) (hroot : g.isPush g.root = true)
    (harrives : g.Arrives g.root [g.root] n (top :: nodes)) : h.Edge top n := by
  have hstacked := hsat.stacked .refl ((floor_of_isPush hroot).symm ▸ harrives)
  rw [floor_of_isPush hroot] at hstacked
  exact hstacked.top

lemma Built.isPush_root {b : Branches} {strict : Bool} {r : Registry} (hg : g.Built b strict r) :
    g.isPush g.root = true := by
  simp [isPush, hg.root, Effect.isPush]

lemma exists_suits_of_perform {nodes' : List Nat} (hperform : g.perform n nodes = some nodes')
    (hpush : g.isPush n = false) : ∃ top rest, nodes = top :: rest ∧ g.suits top n = true := by
  rcases perform_cases hperform with ⟨hpush', -⟩ | ⟨-, top, -, hsuits, rfl⟩ |
    ⟨-, top, rest, -, hsuits, rfl, -⟩
  · rw [hpush] at hpush'
    cases hpush'
  · exact ⟨top, nodes', rfl, hsuits⟩
  · exact ⟨top, rest, rfl, hsuits⟩

/-- A node that some walk performs is not stuck. -/
lemma Saturated.notMem_stuck {nodes' : List Nat} (hsat : g.Saturated h stuck)
    (hroot : g.isPush g.root = true) (harrives : g.Arrives g.root [g.root] n nodes)
    (hperform : g.perform n nodes = some nodes') : n ∉ stuck := by
  intro hmem
  obtain ⟨-, hpush, hnone⟩ := (hsat.stuck n).mp hmem
  obtain ⟨top, rest, rfl, hsuits⟩ := exists_suits_of_perform hperform hpush
  rw [hnone top (hsat.edge_top hroot harrives)] at hsuits
  cases hsuits

/-- What is warned of: a pop that has the bottom of the stack in front of it and whose operation has
no error. -/
lemma underflowWarning?_eq_some_iff {errored : List Span} {w : TypeWarning} :
    g.underflowWarning? errored n = some w ↔
      ∃ ty origin, g.effect? n = some (.pop ty) ∧ g.origin? n = some origin ∧
        origin.span ∉ errored ∧ (∃ parent ∈ g.parents n, g.effect? parent = some (.push .never)) ∧
        w = ⟨.mayUnderflow origin.instruction, origin.span⟩ := by
  constructor
  · intro hw
    unfold underflowWarning? TypeWarning.underflow? at hw
    split at hw
    · rename_i ty origin heffect horigin
      split at hw
      · rename_i hcond
        cases hw
        obtain ⟨parent, hparent, hnever⟩ := List.any_eq_true.mp hcond.2
        exact ⟨ty, origin, heffect, horigin, hcond.1, ⟨parent, hparent, of_decide_eq_true hnever⟩,
          rfl⟩
      · cases hw
    · cases hw
  · rintro ⟨ty, origin, heffect, horigin, herrored, ⟨parent, hparent, hnever⟩, rfl⟩
    have hany : (g.parents n).any (fun p => g.effect? p = some (.push .never)) = true :=
      List.any_eq_true.mpr ⟨parent, hparent, decide_eq_true hnever⟩
    simp only [underflowWarning?, TypeWarning.underflow?, heffect, horigin, hany]
    exact if_pos ⟨herrored, trivial⟩

/-- A pop behind the bottom of the stack has an error or a warning. -/
lemma underflow_reported {ty : Ty} {origin : Origin} (errors : List TypeError) (hm : g.Mirrored)
    (hroot : g.effect? g.root = some (.push .never)) (heffect : g.effect? n = some (.pop ty))
    (horigin : g.origin? n = some origin) (hedge : g.Edge g.root n) :
    (∃ e ∈ errors, e.span = origin.span) ∨
      ⟨.mayUnderflow origin.instruction, origin.span⟩ ∈ g.underflowWarnings errors := by
  by_cases herrored : origin.span ∈ (errors.map TypeError.span).eraseDups
  · rw [List.mem_eraseDups, List.mem_map] at herrored
    exact Or.inl herrored
  · refine Or.inr (List.mem_filterMap.mpr ⟨n, ?_, ?_⟩)
    · exact (mem_reachable_iff hm).mpr (Relation.ReflTransGen.single hedge)
    · exact underflowWarning?_eq_some_iff.mpr ⟨ty, origin, heffect, horigin, herrored,
        ⟨g.root, hm.edge_iff.mp hedge, hroot⟩, rfl⟩

end EffectGraph

lemma exists_of_checkOperations {ops : List Operation} {strict : Bool} {passes : Nat}
    {checked : Checked} (h : checkOperations ops strict passes = .ok checked) :
    ∃ b g r resolved, Branches.extract ops = .ok b ∧ EffectGraph.build b strict = .ok (g, r) ∧
      g.resolve passes = .ok resolved ∧
      checked = ⟨b, resolved.graph, r, resolved.stuck, resolved.report b r strict⟩ := by
  obtain ⟨b, hextract, h⟩ := exists_of_bind_eq_ok h
  obtain ⟨⟨g, r⟩, hbuild, h⟩ := exists_of_bind_eq_ok h
  obtain ⟨resolved, hresolve, h⟩ := exists_of_bind_eq_ok h
  cases h
  exact ⟨b, g, r, resolved, hextract, hbuild, hresolve, rfl⟩

lemma checkOperations_of_resolve {ops : List Operation} {strict : Bool} {passes : Nat}
    {b : Branches} {g : EffectGraph} {r : Registry} {resolved : Resolved}
    (hextract : Branches.extract ops = .ok b) (hbuild : EffectGraph.build b strict = .ok (g, r))
    (hresolve : g.resolve passes = .ok resolved) : checkOperations ops strict passes =
      .ok ⟨b, resolved.graph, r, resolved.stuck, resolved.report b r strict⟩ := by
  simp only [checkOperations, hextract, hbuild, hresolve, bind, Except.bind]

namespace Machine

open EffectGraph

variable {m : Machine} {b : Branches} {g : EffectGraph} {passes : Nat} {resolved : Resolved}
  {s : State}

lemma charted_of_build (hops : ∀ op ∈ m.operations, op.WellKinded)
    (hextract : Branches.extract m.operations = .ok b)
    (hbuild : EffectGraph.build b m.strict = .ok (g, m.registry)) : m.Charted b g :=
  have hbounded := Branches.bounded_of_extract hops hextract
  ⟨Branches.laid_of_extract hops hextract, hbounded, built_of_build hbounded hbuild⟩

/-- If some run performs an effect, be it a pop or an assertion, the node of it is not stuck. -/
theorem notMem_stuck_of_perform (hops : ∀ op ∈ m.operations, op.WellKinded)
    (hextract : Branches.extract m.operations = .ok b)
    (hbuild : EffectGraph.build b m.strict = .ok (g, m.registry))
    (hresolve : g.resolve passes = .ok resolved) (hruns : m.Runs s) {effect : Effect}
    (heffect : m.effect? s = some effect) {stack : List Ty}
    (hperform : effect.perform s.stack = some stack) :
    ∃ op node, m.operations[s.position]? = some op ∧ m.node? b resolved.graph s = some node ∧
      resolved.graph.effect? node = some effect ∧ resolved.graph.origin? node = some op.origin ∧
      node ∉ resolved.stuck := by
  have hm := charted_of_build hops hextract hbuild
  have hsat := saturated_of_resolve hm.built.mirrored hresolve
  obtain ⟨op, hop, -⟩ := exists_of_effect? heffect
  obtain ⟨node, nodes, hnode, heffect', horigin, harrives, hcarries, -⟩ :=
    (tracked_of_runs hm hruns).arrives hm hop heffect
  obtain ⟨nodes', hperform', -⟩ := hcarries.perform heffect' hperform
  refine ⟨op, node, hop, ?_, (hsat.nodes.effect node).trans heffect',
    (hsat.nodes.origin node).trans horigin,
    hsat.notMem_stuck hm.built.isPush_root harrives hperform'⟩
  simpa only [node?, hsat.nodes.fragment?] using hnode

/-- Operations that stand on lines of their own. -/
def onLines (contents : List (Instruction × Option Argument)) : List Operation :=
  contents.zipIdx.map fun (content, line) => ⟨content.1, content.2, .onLine line 0 1⟩

/-- A subroutine that may call itself and leaves the stack as it was. Behind the first call a number
is written as a character, which is an error. -/
def nesting : List Operation := onLines [
  (.push, some (.number 1)),
  (.call, some (.label "f")),
  (.cast, some (.type "Int")),
  (.writeChar, none),
  (.stop, none),
  (.label, some (.label "f")),
  (.push, some (.number 2)),
  (.jumpZero, some (.label "g")),
  (.call, some (.label "f")),
  (.label, some (.label "g")),
  (.ret, none)]

def nestingMachine : Machine := ⟨nesting, false, .empty⟩

/-- A run that comes to the conditional jump for the second time, within the second call. -/
lemma runs_nesting : nestingMachine.Runs ⟨7, 0, [9, 2], [.any, .any]⟩ := by
  have h₁ : nestingMachine.Runs ⟨0, 1, [], [.any]⟩ :=
    .single (.effect rfl rfl)
  have h₂ : nestingMachine.Runs ⟨5, 0, [2], [.any]⟩ :=
    (h₁.tail (.control rfl rfl (.goOn (by decide)))).tail (.control rfl rfl (.call rfl rfl))
  have h₃ : nestingMachine.Runs ⟨7, 0, [2], [.any, .any]⟩ :=
    ((h₂.tail (.control rfl rfl (.goOn (by decide)))).tail (.effect rfl rfl)).tail
      (.control rfl rfl (.goOn (by decide)))
  have h₄ : nestingMachine.Runs ⟨5, 0, [9, 2], [.any]⟩ :=
    ((h₃.tail (.effect rfl rfl)).tail (.control rfl rfl (.goOn (by decide)))).tail
      (.control rfl rfl (.call rfl rfl))
  exact ((h₄.tail (.control rfl rfl (.goOn (by decide)))).tail (.effect rfl rfl)).tail
    (.control rfl rfl (.goOn (by decide)))

theorem nesting_notMem_stuck :
    (∀ op ∈ nesting, op.WellKinded) ∧
    nestingMachine.Runs ⟨7, 0, [9, 2], [.any, .any]⟩ ∧
    nestingMachine.effect? ⟨7, 0, [9, 2], [.any, .any]⟩ = some (.pop .int) ∧
    Effect.perform (.pop .int) [.any, .any] = some [.any] ∧ ∃ b g resolved,
      Branches.extract nesting = .ok b ∧ EffectGraph.build b false = .ok (g, .empty) ∧
      g.resolve 9 = .ok resolved ∧ resolved.stuck = [6] ∧ ∃ op node, nesting[7]? = some op ∧
        nestingMachine.node? b resolved.graph ⟨7, 0, [9, 2], [.any, .any]⟩ = some node ∧
        resolved.graph.effect? node = some (.pop .int) ∧
        resolved.graph.origin? node = some op.origin ∧ node ∉ resolved.stuck := by
  have hops : ∀ op ∈ nestingMachine.operations, op.WellKinded := by decide
  have hvalue : (checkOperations nesting false 9).toOption.map (fun c => (c.registry, c.stuck)) =
      some (.empty, [6]) := by decide +kernel
  obtain ⟨checked, hcheck, hvalue⟩ := exists_ok_of_toOption_map hvalue
  obtain ⟨b, g, r, resolved, hextract, hbuild, hresolve, rfl⟩ := exists_of_checkOperations hcheck
  obtain ⟨rfl, hstuck⟩ := Prod.mk.inj hvalue
  exact ⟨hops, runs_nesting, rfl, rfl, b, g, resolved, hextract, hbuild, hresolve, hstuck,
    notMem_stuck_of_perform hops hextract hbuild hresolve runs_nesting rfl rfl⟩

end Machine

namespace Program

open EffectGraph

/-- The machine that runs a program as it is checked. -/
def machine (p : Program) (strict : Bool) (r : Registry) : Machine :=
  ⟨p.operations, p.strictness strict, r⟩

/-- If some run comes to a pop with nothing on the stack, the operation is reported: as an error, or
as one that may underflow. -/
theorem check_reports_underflow {p : Program} {strict : Bool} {passes : Nat} {checked : Checked}
    (hops : ∀ op ∈ p.operations, op.WellKinded) (hcheck : p.check strict passes = .ok checked)
    {s : Machine.State} (hruns : (p.machine strict checked.registry).Runs s) {op : Operation}
    (hop : p.operations[s.position]? = some op) {ty : Ty}
    (heffect : (p.machine strict checked.registry).effect? s = some (.pop ty))
    (hstack : s.stack = []) :
    (∃ e ∈ checked.report.errors, e.span = op.span) ∨
      ⟨.mayUnderflow op.instruction, op.span⟩ ∈ checked.report.warnings := by
  obtain ⟨b, g, r, resolved, hextract, hbuild, hresolve, rfl⟩ := exists_of_checkOperations hcheck
  have hm : (p.machine strict r).Charted b g := Machine.charted_of_build hops hextract hbuild
  have hsat := saturated_of_resolve hm.built.mirrored hresolve
  obtain ⟨node, nodes, -, heffect', horigin, harrives, hcarries, -⟩ :=
    (Machine.tracked_of_runs hm hruns).arrives hm hop heffect
  obtain ⟨above, rfl, habove⟩ := hcarries
  rw [hstack, List.forall₂_nil_right_iff] at habove
  subst habove
  have hedge : resolved.graph.Edge g.root node := hsat.edge_top hm.built.isPush_root harrives
  have hbottom := (hsat.nodes.effect g.root).trans hm.built.root
  rw [← hsat.nodes.root] at hedge hbottom
  exact (underflow_reported _ hsat.mirrored hbottom
    ((hsat.nodes.effect node).trans heffect') ((hsat.nodes.origin node).trans horigin)
    hedge).imp_right (List.mem_append_left _)

/-- A loop calls a subroutine that pops an item, but only one has been pushed. -/
def draining : Program := .ofOperations (Machine.onLines [
  (.push, some (.number 1)),
  (.label, some (.label "loop")),
  (.call, some (.label "f")),
  (.jump, some (.label "loop")),
  (.label, some (.label "f")),
  (.pop, none),
  (.ret, none)])

/-- A run that comes to the pop for the second time. -/
lemma runs_draining : (draining.machine false .empty).Runs ⟨5, 0, [3], []⟩ := by
  have h₁ : (draining.machine false .empty).Runs ⟨1, 0, [], [.any]⟩ :=
    .tail (.single (.effect rfl rfl)) (.control rfl rfl (.goOn (by decide)))
  have h₂ : (draining.machine false .empty).Runs ⟨5, 0, [3], [.any]⟩ :=
    ((h₁.tail (.control rfl rfl (.goOn (by decide)))).tail (.control rfl rfl (.call rfl rfl))).tail
      (.control rfl rfl (.goOn (by decide)))
  have h₃ : (draining.machine false .empty).Runs ⟨3, 0, [], []⟩ :=
    ((h₂.tail (.effect rfl rfl)).tail (.control rfl rfl (.goOn (by decide)))).tail
      (.control rfl rfl (.ret rfl))
  have h₄ : (draining.machine false .empty).Runs ⟨2, 0, [], []⟩ :=
    (h₃.tail (.control rfl rfl (.jump (by decide) rfl))).tail
      (.control rfl rfl (.goOn (by decide)))
  exact (h₄.tail (.control rfl rfl (.call rfl rfl))).tail (.control rfl rfl (.goOn (by decide)))

theorem draining_reports_underflow :
    (∀ op ∈ draining.operations, op.WellKinded) ∧ ∃ checked,
      draining.check false 9 = .ok checked ∧
      (draining.machine false checked.registry).Runs ⟨5, 0, [3], []⟩ ∧
      (draining.machine false checked.registry).effect? ⟨5, 0, [3], []⟩ = some (.pop .any) ∧
      checked.report.errors = [] ∧
      ((∃ e ∈ checked.report.errors, e.span = .onLine 5 0 1) ∨
        ⟨.mayUnderflow .pop, .onLine 5 0 1⟩ ∈ checked.report.warnings) := by
  have hops : ∀ op ∈ draining.operations, op.WellKinded := by decide
  have hvalue : (draining.check false 9).toOption.map (fun c => (c.registry, c.report.errors)) =
      some (.empty, []) := by decide +kernel
  obtain ⟨checked, hcheck, hvalue⟩ := exists_ok_of_toOption_map hvalue
  obtain ⟨hregistry, herrors⟩ := Prod.mk.inj hvalue
  have hruns : (draining.machine false checked.registry).Runs ⟨5, 0, [3], []⟩ :=
    hregistry ▸ runs_draining
  exact ⟨hops, checked, hcheck, hruns, rfl, herrors,
    check_reports_underflow hops hcheck hruns rfl rfl rfl⟩

end Program

end ZeroWidth
