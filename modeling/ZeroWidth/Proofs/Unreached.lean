import ZeroWidth.Proofs.DeadCode
import ZeroWidth.Proofs.Passage

/-!
# Warnings about code that is not reached

A check warns about branches that control never gets to, as far as they have nodes in the graph.
In terms of operations: it warns about the runs of operations which control does not get to and
some of which have effects, once each and where the run begins. So what control gets to is never
under a warning, and an effect that control does not get to always is.
-/

namespace ZeroWidth

/-- The position lies in the branch. -/
def Branches.Holds (b : Branches) (start : Nat → Nat) (id position : Nat) : Prop :=
  ∃ slot < (b.get id).operations.length, start id + slot = position

namespace EffectGraph

variable {g h : EffectGraph} {b : Branches} {strict : Bool} {r : Registry} {id : Nat}

lemma branchItems_ne_nil_iff :
    branchItems b strict r id ≠ [] ↔
      ∃ op ∈ (b.get id).operations, op.effectsUnder strict r ≠ [] := by
  simp [branchItems, Operation.items, List.flatMap_eq_nil_iff]

lemma Built.isSome_fragment?_iff (hg : g.Built b strict r) :
    (g.fragment? id).isSome = true ↔
      ∃ op ∈ (b.get id).operations, op.effectsUnder strict r ≠ [] := by
  rw [← branchItems_ne_nil_iff]
  cases hf : g.fragment? id with
  | none => simp [hg.none hf]
  | some f => simp [(hg.length hf).1]

/-- The branches that are warned about: they are not reached and have nodes. -/
def unreached (g : EffectGraph) (b : Branches) : List Nat :=
  (List.range b.size).filter fun id => !b.reachable.contains id && (g.fragment? id).isSome

lemma unreachableWarnings_eq (g : EffectGraph) (b : Branches) :
    g.unreachableWarnings b = (g.unreached b).filterMap fun id =>
      (b.get id).operations.head?.map fun op => ⟨.unreachable, op.span⟩ := by
  rw [unreachableWarnings, Branches.enumerate_eq, List.filterMap_map, unreached,
    List.filterMap_filter]
  refine List.filterMap_congr fun id _ => ?_
  show (if _ || (g.fragment? id).isNone then _ else _) = _
  cases b.reachable.contains id <;> cases g.fragment? id <;> rfl

lemma mem_unreached (hb : b.Bounded) (hg : g.Built b strict r) :
    id ∈ g.unreached b ↔
      ¬ b.Live id ∧ ∃ op ∈ (b.get id).operations, op.effectsUnder strict r ≠ [] := by
  rw [unreached, List.mem_filter, Bool.and_eq_true, hg.isSome_fragment?_iff, Bool.not_eq_true',
    ← Bool.not_eq_true, hb.contains_reachable, List.mem_range, and_iff_right_iff_imp]
  rintro ⟨-, op, hop, -⟩
  by_contra hge
  rw [Branches.get_of_size_le (Nat.le_of_not_lt hge)] at hop
  cases hop

lemma SameNodes.unreached (hgh : g.SameNodes h) (b : Branches) : h.unreached b = g.unreached b := by
  simp only [EffectGraph.unreached, hgh.fragment?]

lemma pairwise_unreached (g : EffectGraph) (b : Branches) : (g.unreached b).Pairwise (· < ·) :=
  List.pairwise_lt_range.filter _

end EffectGraph

lemma EffectGraph.caution_ne_of_mem_underflowWarnings {g : EffectGraph} {errors : List TypeError}
    {w : TypeWarning} (hw : w ∈ g.underflowWarnings errors) : w.caution.kind ≠ "unreachable" := by
  obtain ⟨id, -, hw⟩ := List.mem_filterMap.mp hw
  unfold underflowWarning? TypeWarning.underflow? at hw
  split at hw
  · split at hw
    · cases hw
      exact of_decide_eq_true rfl
    · cases hw
  · cases hw

lemma warningsOf_unreachable (s : Resolved) (b : Branches) (r : Registry) (strict : Bool) :
    (s.report b r strict).warningsOf "unreachable" = s.graph.unreachableWarnings b := by
  rw [Report.warningsOf, Resolved.report, List.filter_append,
    List.filter_eq_nil_iff.mpr fun w hw => ?_, List.nil_append, List.filter_eq_self]
  · intro w hw
    rw [EffectGraph.caution_of_mem_unreachableWarnings hw]
    decide
  · simpa using EffectGraph.caution_ne_of_mem_underflowWarnings hw

/-- A check warns of exactly what is not reached: the branches warned about, in the order of their
numbers, are those to whose operations control does not get and some of whose operations have
effects. -/
structure Checked.WarnsOfUnreached (c : Checked) (ops : List Operation) (strict : Bool)
    (start : Nat → Nat) (warned : List Nat) : Prop where
  cut       : c.branches.Cut start ops
  ordered   : warned.Pairwise (· < ·)
  mem_iff   : ∀ id, id ∈ warned ↔ (∀ i, c.branches.Holds start id i → ¬ GetsTo ops i) ∧
    ∃ op ∈ (c.branches.get id).operations, op.effectsUnder strict c.registry ≠ []
  warnings  : (c.report.warningsOf "unreachable").map some = warned.map fun id =>
    (c.branches.get id).operations.head?.map fun op => ⟨.unreachable, op.span⟩
  reached   : ∀ i, GetsTo ops i → ∀ id ∈ warned, ¬ c.branches.Holds start id i
  unreached : ∀ i op, ops[i]? = some op → ¬ GetsTo ops i → op.effectsUnder strict c.registry ≠ [] →
    ∃ id ∈ warned, c.branches.Holds start id i

namespace Branches.Mapped

variable {b : Branches} {start : Nat → Nat} {ops : List Operation} {op : Operation} {id i : Nat}

lemma live_iff_of_holds (h : b.Mapped start ops) (hops : ∀ op ∈ ops, op.WellKinded)
    (hi : b.Holds start id i) : b.Live id ↔ GetsTo ops i := by
  obtain ⟨slot, hslot, rfl⟩ := hi
  exact h.live_iff_getsTo hops hslot

/-- A branch with operations is not live exactly if control gets to none of them. -/
lemma not_live_iff (h : b.Mapped start ops) (hops : ∀ op ∈ ops, op.WellKinded)
    (hop : op ∈ (b.get id).operations) :
    ¬ b.Live id ↔ ∀ i, b.Holds start id i → ¬ GetsTo ops i := by
  refine ⟨fun hlive i hi => (h.live_iff_of_holds hops hi).not.mp hlive, fun hnone => ?_⟩
  have hfirst : b.Holds start id (start id) := ⟨0, List.length_pos_of_mem hop, rfl⟩
  exact (h.live_iff_of_holds hops hfirst).not.mpr (hnone _ hfirst)

lemma exists_holds (h : b.Mapped start ops) (hop : ops[i]? = some op) :
    ∃ id, b.Holds start id i ∧ op ∈ (b.get id).operations := by
  obtain ⟨⟨id, slot⟩, ⟨hslot, rfl⟩, -⟩ := h.cut.unique i (List.getElem?_eq_some_iff.mp hop).1
  have hat := h.cut.getElem?_position (List.getElem?_eq_getElem hslot)
  cases hat.symm.trans hop
  exact ⟨id, ⟨slot, hslot, rfl⟩, List.getElem_mem hslot⟩

end Branches.Mapped

namespace Program

open EffectGraph

/-- Warnings about unreachable code are exact: there is one for each branch whose operations are not
reached and have an effect among them, at the first of them. -/
theorem check_warns_unreached {p : Program} {strict : Bool} {passes : Nat} {c : Checked}
    (hops : ∀ op ∈ p.operations, op.WellKinded) (h : p.check strict passes = .ok c) :
    ∃ start warned, c.WarnsOfUnreached p.operations (p.strictness strict) start warned := by
  obtain ⟨b, g, r, resolved, hextract, hbuild, hresolve, rfl⟩ := exists_of_checkOperations h
  obtain ⟨start, hmapped⟩ := Branches.exists_mapped_of_extract hops hextract
  have hb := Branches.extract_bounded hextract
  have hnodes := (saturated_of_resolve (mirrored_of_build hbuild) hresolve).nodes
  have hwarned (id : Nat) : id ∈ resolved.graph.unreached b ↔
      (∀ i, b.Holds start id i → ¬ GetsTo p.operations i) ∧
        ∃ op ∈ (b.get id).operations, op.effectsUnder (p.strictness strict) r ≠ [] := by
    rw [hnodes.unreached, mem_unreached hb (built_of_build hb hbuild)]
    exact and_congr_left fun ⟨op, hop, _⟩ => hmapped.not_live_iff hops hop
  refine ⟨start, resolved.graph.unreached b, hmapped.cut, pairwise_unreached _ b, hwarned, ?_, ?_,
    ?_⟩
  · rw [warningsOf_unreachable, unreachableWarnings_eq,
      List.map_filterMap_some_eq_filter_map_isSome, List.filter_eq_self]
    intro first hfirst
    obtain ⟨id, hid, rfl⟩ := List.mem_map.mp hfirst
    obtain ⟨-, op, hop, -⟩ := (hwarned id).mp hid
    simpa using List.ne_nil_of_mem hop
  · intro i hi id hid hholds
    exact ((hwarned id).mp hid).1 i hholds hi
  · intro i op hop hi heffects
    obtain ⟨id, hholds, hmem⟩ := hmapped.exists_holds hop
    have hlive := (hmapped.live_iff_of_holds hops hholds).not.mpr hi
    exact ⟨id, (hwarned id).mpr ⟨(hmapped.not_live_iff hops hmem).mp hlive, op, hmem, heffects⟩,
      hholds⟩

/-- Code that only leads to itself and falls through to what is reached, a loop of no effects that
nothing leads to, and a copy behind a jump. -/
def deserted : Program := .ofOperations (Machine.onLines [
  (.push, some (.number 1)),
  (.jump, some (.label "out")),
  (.label, some (.label "lost")),
  (.push, some (.number 2)),
  (.jumpZero, some (.label "lost")),
  (.label, some (.label "out")),
  (.call, some (.label "sub")),
  (.stop, none),
  (.label, some (.label "idle")),
  (.jump, some (.label "idle")),
  (.duplicate, none),
  (.label, some (.label "sub")),
  (.pop, none),
  (.ret, none)])

theorem deserted_warns_unreached :
    (∀ op ∈ deserted.operations, op.WellKinded) ∧
      ∃ c, deserted.check false 30 = .ok c ∧
        c.report.warnings = [⟨.unreachable, .onLine 2 0 1⟩, ⟨.unreachable, .onLine 10 0 1⟩] ∧
        ∃ start warned,
          c.WarnsOfUnreached deserted.operations (deserted.strictness false) start warned := by
  have hops : ∀ op ∈ deserted.operations, op.WellKinded := by decide
  have hvalue : (deserted.check false 30).toOption.map (fun c => c.report.warnings) =
      some [⟨.unreachable, .onLine 2 0 1⟩, ⟨.unreachable, .onLine 10 0 1⟩] := by decide +kernel
  obtain ⟨c, hcheck, hwarnings⟩ := exists_ok_of_toOption_map hvalue
  exact ⟨hops, c, hcheck, hwarnings, check_warns_unreached hops hcheck⟩

end Program

end ZeroWidth
