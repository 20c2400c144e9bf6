import ZeroWidth.Proofs.GuardedResolution
import ZeroWidth.Proofs.Soundness

/-!
# The integrity of the effect graph

A check never looks up a branch or a node that is not there: it does what its guarded form does,
which would stop at such a look-up. The graph that it builds stays intact while it is resolved. Its
edges are entered on both of their sides and lead to nodes, none of them is removed, and no node
changes or comes into reach.
-/

namespace ZeroWidth

/-! ### Reports -/

namespace EffectGraph

variable {g : EffectGraph} {id : Nat}

def explainGuarded (g : EffectGraph) (r : Registry) (strict : Bool) (id : Nat) :
    Guarded TypeError := do
  let node ← g.lookUp id
  let found ← node.parents.mapM fun parent =>
    (g.lookUp parent).map fun node => Sighting.of? r node.effect.pushed? node.origin
  .ok (.of r strict (some node.effect) node.origin (Sighting.inOrder found.reduceOption))

def underflowWarningGuarded (g : EffectGraph) (errored : List Span) (id : Nat) :
    Guarded (Option TypeWarning) := do
  let node ← g.lookUp id
  let bottoms ← node.parents.mapM fun parent =>
    (g.lookUp parent).map fun node => decide (node.effect = .push .never)
  .ok (TypeWarning.underflow? errored (some node.effect) node.origin (bottoms.any (·)))

def underflowWarningsGuarded (g : EffectGraph) (errors : List TypeError) :
    Guarded (List TypeWarning) := do
  let reached ← g.reachableGuarded
  let warnings ← reached.toList.mapM
    (g.underflowWarningGuarded (errors.map TypeError.span).eraseDups)
  .ok warnings.reduceOption

def unreachableWarningsGuarded (g : EffectGraph) (b : Branches) : Guarded (List TypeWarning) := do
  let reached ← b.reachableGuarded
  .ok (b.arena.enumerate.filterMap fun (id, branch) =>
    if reached.contains id || (g.fragment? id).isNone then none
    else branch.operations.head?.map fun op => ⟨.unreachable, op.span⟩)

/-- A node that there is, with all that is to be read off its parents. -/
lemma Mirrored.exists_lookUp {α : Type} (hm : g.Mirrored) (hid : id < g.size) {f : Node → α}
    {f' : Nat → α} (hf : ∀ {id node}, g.node? id = some node → f node = f' id) :
    ∃ node, g.node? id = some node ∧
      node.parents.mapM (fun parent => (g.lookUp parent).map f) = .ok ((g.parents id).map f') := by
  obtain ⟨node, hnode⟩ := exists_node?_of_lt_size hid
  refine ⟨node, hnode, ?_⟩
  rw [parents_of_node? hnode]
  refine Guarded.mapM_eq_ok fun parent hparent => ?_
  obtain ⟨parentNode, hparentNode⟩ := exists_node?_of_lt_size
    (hm.lt_size_left (hm.edge_iff.mpr (show parent ∈ g.parents id by rwa [parents_of_node? hnode])))
  rw [lookUp_of_node? hparentNode, ← hf hparentNode]
  rfl

lemma Mirrored.explainGuarded_eq (hm : g.Mirrored) (hid : id < g.size) (r : Registry)
    (strict : Bool) : g.explainGuarded r strict id = .ok (g.explain r strict id) := by
  have hsighting : ∀ {id node}, g.node? id = some node →
      Sighting.of? r node.effect.pushed? node.origin = g.sighting? r id := fun hnode => by
    rw [sighting?, pushed?, effect?_of_node? hnode, origin?_of_node? hnode]
    rfl
  obtain ⟨node, hnode, hfound⟩ := hm.exists_lookUp hid hsighting
  rw [explainGuarded, lookUp_of_node? hnode, Guarded.ok_bind, hfound, explain,
    effect?_of_node? hnode, origin?_of_node? hnode, sightings]
  exact congrArg (fun found => Except.ok (TypeError.of _ _ _ _ (Sighting.inOrder found)))
    List.filterMap_map

lemma Mirrored.underflowWarningGuarded_eq (hm : g.Mirrored) (hid : id < g.size)
    (errored : List Span) :
    g.underflowWarningGuarded errored id = .ok (g.underflowWarning? errored id) := by
  have hbottom : ∀ {id node}, g.node? id = some node →
      decide (node.effect = .push .never) = decide (g.effect? id = some (.push .never)) :=
    fun hnode => decide_eq_decide.mpr (by rw [effect?_of_node? hnode, Option.some_inj])
  obtain ⟨node, hnode, hbottoms⟩ := hm.exists_lookUp hid hbottom
  rw [underflowWarningGuarded, lookUp_of_node? hnode, Guarded.ok_bind, hbottoms,
    underflowWarning?, effect?_of_node? hnode, origin?_of_node? hnode]
  exact congrArg (fun bottom => Except.ok (TypeWarning.underflow? _ _ _ bottom)) List.any_map

lemma Mirrored.underflowWarningsGuarded_eq (hm : g.Mirrored) (hroot : g.root < g.size)
    (errors : List TypeError) :
    g.underflowWarningsGuarded errors = .ok (g.underflowWarnings errors) := by
  have hwarnings := Guarded.mapM_eq_ok fun id (hid : id ∈ g.reachable.toList) =>
    hm.underflowWarningGuarded_eq (((mem_reachable_iff hm).mp hid).lt_size hm hroot)
      (errors.map TypeError.span).eraseDups
  rw [underflowWarningsGuarded, hm.reachableGuarded_eq hroot, Guarded.ok_bind, hwarnings]
  exact congrArg Except.ok List.filterMap_map

lemma unreachableWarningsGuarded_eq {b : Branches} (hb : b.Bounded) (g : EffectGraph) :
    g.unreachableWarningsGuarded b = .ok (g.unreachableWarnings b) := by
  rw [unreachableWarningsGuarded, hb.reachableGuarded_eq]
  rfl

end EffectGraph

def Resolved.reportGuarded (resolved : Resolved) (b : Branches) (r : Registry) (strict : Bool) :
    Guarded Report := do
  let errors ← resolved.stuck.mapM (resolved.graph.explainGuarded r strict)
  let mayUnderflow ← resolved.graph.underflowWarningsGuarded errors
  let unreachable ← resolved.graph.unreachableWarningsGuarded b
  .ok ⟨errors, mayUnderflow ++ unreachable⟩

/-- A check that stops at a look-up of what is not there. -/
def checkGuarded (ops : List Operation) (strict : Bool) (passes : Nat) : Guarded Checked := do
  let branches ← Branches.extractGuarded ops
  let (graph, registry) ← EffectGraph.buildGuarded branches strict
  let resolved ← graph.resolveGuarded passes
  let report ← resolved.reportGuarded branches registry strict
  .ok ⟨branches, resolved.graph, registry, resolved.stuck, report⟩

open EffectGraph

lemma Resolved.reportGuarded_eq {resolved : Resolved} {b : Branches} (hb : b.Bounded)
    (hm : resolved.graph.Mirrored) (hroot : resolved.graph.root < resolved.graph.size)
    (hstuck : ∀ id ∈ resolved.stuck, id < resolved.graph.size) (r : Registry) (strict : Bool) :
    resolved.reportGuarded b r strict = .ok (resolved.report b r strict) := by
  have herrors := Guarded.mapM_eq_ok fun id hid =>
    hm.explainGuarded_eq (hstuck id hid) r strict
  rw [reportGuarded, herrors, Guarded.ok_bind, hm.underflowWarningsGuarded_eq hroot,
    Guarded.ok_bind, unreachableWarningsGuarded_eq hb]
  rfl

lemma checkGuarded_eq (ops : List Operation) (strict : Bool) (passes : Nat) :
    checkGuarded ops strict passes = .of (checkOperations ops strict passes) := by
  rw [checkGuarded, checkOperations, Branches.extractGuarded_eq]
  refine Guarded.of_bind_eq fun b hextract => ?_
  have hb := Branches.extract_bounded hextract
  rw [buildGuarded_eq hb]
  refine Guarded.of_bind_eq ?_
  rintro ⟨g, r⟩ hbuild
  have hm := mirrored_of_build hbuild
  have hroot := lt_size_of_effect? (built_of_build hb hbuild).root
  change (g.resolveGuarded passes >>= _) = _
  rw [hm.resolveGuarded_eq hroot]
  refine Guarded.of_bind_eq fun resolved hresolve => ?_
  have hsat := saturated_of_resolve hm hresolve
  have hroot' : resolved.graph.root < resolved.graph.size :=
    hsat.nodes.root ▸ hsat.nodes.size ▸ hroot
  rw [Resolved.reportGuarded_eq hb hsat.mirrored hroot' fun id hid =>
    hsat.nodes.size ▸ ((hsat.stuck id).mp hid).1.lt_size hm hroot]
  rfl

/-! ### Passes -/

namespace Resolution

variable {g : EffectGraph} {s t : Resolution} {todo : List Nat} {id : Nat}

lemma Underway.edge_le_visit (h : Underway g s (id :: todo)) (found : Bool) :
    s.graph.Edge ≤ (Resolution.visit (s, found) id).1.graph.Edge := by
  cases hmatched : isMatched s.graph id with
  | true =>
    have hpush := (h.nodes.isPush id).trans (h.waiting id (Or.inr List.mem_cons_self)).2
    rw [visit_of_isMatched hmatched]
    exact fun a b hedge => ((grows_advance h.mirrored hpush).edge a b).mpr (Or.inl hedge)
  | false =>
    rw [visit_of_not_isMatched hmatched]

lemma Underway.edge_le_visits (h : Underway g s todo) (found : Bool) :
    s.graph.Edge ≤ (todo.foldl Resolution.visit (s, found)).1.graph.Edge := by
  induction todo generalizing s found with
  | nil => exact le_refl _
  | cons id todo ih => exact (h.edge_le_visit found).trans (ih (h.visit found) _)

lemma Underway.edge_le_pass (h : Underway g s []) : s.graph.Edge ≤ s.pass.1.graph.Edge :=
  (h.begin (List.Perm.refl _)).edge_le_visits false

/-- Nothing waits any more, or the next pass is the last one, or resolution goes on behind it. -/
lemma after_cases (s : Resolution) :
    (∀ passes, s.after passes = s) ∨ (∀ passes, s.after (passes + 1) = s.pass.1) ∨
      ∀ passes, s.after (passes + 1) = s.pass.1.after passes := by
  by_cases hempty : s.pending.isEmpty = true
  · refine Or.inl fun passes => ?_
    cases passes with
    | zero => rfl
    | succ passes => rw [after, if_pos hempty]
  · cases hpass : s.pass with
    | mk t found =>
      cases found with
      | false => exact Or.inr (Or.inl fun passes => by rw [after, if_neg hempty, hpass])
      | true => exact Or.inr (Or.inr fun passes => by rw [after, if_neg hempty, hpass])

lemma Underway.after (h : Underway g s []) (passes : Nat) : Underway g (s.after passes) [] := by
  induction passes generalizing s with
  | zero => exact h
  | succ passes ih =>
    rcases after_cases s with hafter | hafter | hafter
    · rw [hafter]
      exact h
    · rw [hafter]
      exact h.pass
    · rw [hafter]
      exact ih h.pass

lemma Underway.edge_le_after_succ (h : Underway g s []) (passes : Nat) :
    (s.after passes).graph.Edge ≤ (s.after (passes + 1)).graph.Edge := by
  induction passes generalizing s with
  | zero =>
    rcases after_cases s with hafter | hafter | hafter
    · rw [hafter, hafter]
    · rw [hafter]
      exact h.edge_le_pass
    · rw [hafter]
      exact h.edge_le_pass
  | succ passes ih =>
    rcases after_cases s with hafter | hafter | hafter
    · rw [hafter, hafter]
    · rw [hafter, hafter]
    · rw [hafter, hafter]
      exact ih h.pass

lemma Underway.edge_le_after (h : Underway g s []) {passes more : Nat} (hle : passes ≤ more) :
    (s.after passes).graph.Edge ≤ (s.after more).graph.Edge := by
  induction hle with
  | refl => exact le_refl _
  | step _ ih => exact ih.trans (h.edge_le_after_succ _)

/-- A state that has settled is the one after the passes. -/
lemma after_of_settle {passes : Nat} (h : s.settle passes = some t) : s.after passes = t := by
  induction passes generalizing s with
  | zero =>
    unfold settle at h
    split at h
    · cases h
      rfl
    · cases h
  | succ passes ih =>
    unfold settle at h
    unfold after
    split at h
    · rename_i hempty
      cases h
      rw [if_pos hempty]
    · rename_i hempty
      rw [if_neg hempty]
      cases hpass : s.pass with
      | mk t found =>
        rw [hpass] at h
        cases found with
        | true => exact ih h
        | false => exact Option.some.inj h

end Resolution

/-! ### Graphs -/

namespace EffectGraph

/-- The graph after at most so many passes of resolution. -/
def afterPasses (g : EffectGraph) (passes : Nat) : EffectGraph :=
  ((Resolution.start g).after passes).graph

/-- In a graph over the branches `b`, edges are entered on both of their sides, and all ids are
those of nodes and branches that there are. -/
structure Intact (g : EffectGraph) (b : Branches) : Prop where
  mirrored  : ∀ m n, n ∈ g.children m ↔ m ∈ g.parents n
  children  : ∀ m, ∀ n ∈ g.children m, n < g.size
  parents   : ∀ n, ∀ m ∈ g.parents n, m < g.size
  fragments : ∀ f ∈ g.fragments, f.branch < b.size ∧ f.head < g.size ∧ f.tail < g.size

/-- The graph `h` has the nodes of `g`, all of its edges, and none that lead to more nodes. -/
structure GrownTo (g h : EffectGraph) : Prop where
  nodes     : g.SameNodes h
  children  : ∀ m n, n ∈ g.children m → n ∈ h.children m
  parents   : ∀ m n, m ∈ g.parents n → m ∈ h.parents n
  reachable : ∀ id, id ∈ h.reachable.toList ↔ id ∈ g.reachable.toList

variable {g : EffectGraph} {b : Branches} {strict : Bool} {r : Registry}

lemma fragments_lt_of_build (hbuild : build b strict = .ok (g, r)) :
    ∀ f ∈ g.fragments, f.branch < b.size ∧ f.head < g.size ∧ f.tail < g.size := by
  obtain ⟨⟨g₀, r₀⟩, hadd, hbuild⟩ := exists_of_bind_eq_ok hbuild
  cases hbuild
  obtain ⟨hg, hembeds⟩ := fragmented_of_addBranches hadd
  have hstitched :=
    hg.embeds (hg.embeds_stitch (lt_size_of_effect? hembeds.bottom) b) (fragments_stitch g₀ b)
  refine fun f hf => ⟨?_, hstitched.lt_size f hf⟩
  by_contra hbranch
  apply (hstitched.length f hf).1
  rw [branchItems, Branches.get_of_size_le (Nat.le_of_not_lt hbranch)]
  rfl

lemma intact_afterPasses (hbuild : build b strict = .ok (g, r)) (passes : Nat) :
    (g.afterPasses passes).Intact b := by
  have hend := (Resolution.underway_start (mirrored_of_build hbuild)).after passes
  refine ⟨hend.mirrored, fun m n hn => hend.mirrored.lt_size_right hn,
    fun n m hm => hend.mirrored.lt_size_left (hend.mirrored.edge_iff.mpr hm), ?_⟩
  unfold afterPasses
  rw [hend.nodes.fragments, hend.nodes.size]
  exact fragments_lt_of_build hbuild

lemma grownTo_afterPasses (hm : g.Mirrored) {passes more : Nat} (hle : passes ≤ more) :
    (g.afterPasses passes).GrownTo (g.afterPasses more) := by
  have hstart := Resolution.underway_start hm
  have hbefore := hstart.after passes
  have hbehind := hstart.after more
  have hedge := hstart.edge_le_after hle
  refine ⟨hbefore.nodes.symm.trans hbehind.nodes, hedge, fun m n hmn => ?_, fun id => ?_⟩
  · exact hbehind.mirrored.edge_iff.mp (hedge m n (hbefore.mirrored.edge_iff.mpr hmn))
  · exact (mem_reachable_iff hbehind.mirrored).trans (hbehind.reached_iff.trans
      (hbefore.reached_iff.symm.trans (mem_reachable_iff hbefore.mirrored).symm))

lemma afterPasses_of_resolve {passes : Nat} {resolved : Resolved}
    (hresolve : g.resolve passes = .ok resolved) : resolved.graph = g.afterPasses passes := by
  unfold resolve at hresolve
  split at hresolve
  · rename_i s hsettle
    cases hresolve
    rw [afterPasses, Resolution.after_of_settle hsettle]
  · cases hresolve

end EffectGraph

/-- A check looks up no branch and no node that is not there, whatever the operations are like. The
graph is intact when it is built and after any number of passes; later ones only add edges, and the
one that is reported on is the last of them. -/
theorem checkOperations_intact (ops : List Operation) (strict : Bool) (passes : Nat) :
    checkGuarded ops strict passes = .of (checkOperations ops strict passes) ∧
      ∀ b g r, Branches.extract ops = .ok b → build b strict = .ok (g, r) →
        b.Bounded ∧ g.afterPasses 0 = g ∧ (∀ k, (g.afterPasses k).Intact b) ∧
          (∀ j k, j ≤ k → (g.afterPasses j).GrownTo (g.afterPasses k)) ∧
          ∀ checked, checkOperations ops strict passes = .ok checked →
            checked.branches = b ∧ checked.graph = g.afterPasses passes := by
  refine ⟨checkGuarded_eq ops strict passes, fun b g r hextract hbuild => ?_⟩
  refine ⟨Branches.extract_bounded hextract, rfl, intact_afterPasses hbuild,
    fun j k hle => grownTo_afterPasses (mirrored_of_build hbuild) hle, fun checked hcheck => ?_⟩
  obtain ⟨b', g', r', resolved, hextract', hbuild', hresolve, rfl⟩ :=
    exists_of_checkOperations hcheck
  rw [hextract] at hextract'
  cases hextract'
  rw [hbuild] at hbuild'
  cases hbuild'
  exact ⟨rfl, afterPasses_of_resolve hresolve⟩

/-- A label that is given no name leads back into the branch of the empty label. -/
def reentering : List Operation :=
  [⟨.label, some (.label ""), .nowhere⟩, ⟨.push, some (.number 1), .nowhere⟩,
    ⟨.push, some (.number 2), .nowhere⟩, ⟨.label, none, .nowhere⟩, ⟨.pop, none, .nowhere⟩]

theorem reentering_intact :
    (∃ op ∈ reentering, ¬ op.WellKinded) ∧
      ∃ b g r, Branches.extract reentering = .ok b ∧ build b false = .ok (g, r) ∧
        g.children 1 = [2] ∧ (g.afterPasses 1).children 1 = [2, 1] ∧
        ∀ k, (g.afterPasses k).Intact b ∧ g.GrownTo (g.afterPasses k) := by
  have hedges : (Branches.extract reentering >>= fun b => build b false).toOption.map
      (fun built => (built.1.children 1, (built.1.afterPasses 1).children 1)) =
        some ([2], [2, 1]) := by decide +kernel
  obtain ⟨⟨g, r⟩, hbuilt, hedges⟩ := exists_ok_of_toOption_map hedges
  obtain ⟨b, hextract, hbuild⟩ := exists_of_bind_eq_ok hbuilt
  obtain ⟨hbefore, hbehind⟩ := Prod.mk.inj hedges
  obtain ⟨-, hgraphs⟩ := checkOperations_intact reentering false defaultPasses
  obtain ⟨-, -, hintact, hgrown, -⟩ := hgraphs b g r hextract hbuild
  exact ⟨by decide, b, g, r, hextract, hbuild, hbefore, hbehind,
    fun k => ⟨hintact k, hgrown 0 k (Nat.zero_le k)⟩⟩

end ZeroWidth
