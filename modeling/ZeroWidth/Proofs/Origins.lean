import ZeroWidth.Proofs.Partition
import ZeroWidth.Proofs.Stitching

/-!
# Where nodes come from

The branches of a program hold operations of the program and no others. So every node of its graph
stems from one of them, apart from the root, which is a push.
-/

namespace ZeroWidth

/-! ### Branches -/

namespace Branches

variable {b : Branches} {id : Nat} {op : Operation} {ops : List Operation}

/-- Branches hold the operations of the program alone. -/
lemma mem_of_extract (hops : ∀ op ∈ ops, op.WellKinded) (h : extract ops = .ok b)
    (hop : op ∈ (b.get id).operations) : op ∈ ops := by
  obtain ⟨start, hmapped⟩ := exists_mapped_of_extract hops h
  exact hmapped.cut.mem hop

end Branches

/-! ### Nodes -/

namespace EffectGraph

variable {g h : EffectGraph} {ops : List Operation} {strict : Bool} {r r' : Registry}

/-- Every node stems from one of the operations, apart from pushes that stem from none. -/
structure StemsFrom (g : EffectGraph) (ops : List Operation) : Prop where
  exists_op : ∀ {id origin}, g.origin? id = some origin → ∃ op ∈ ops, op.origin = origin
  isPush    : ∀ {id effect}, g.effect? id = some effect → g.origin? id = none →
    effect.isPush = true

lemma StemsFrom.sameNodes (hg : g.StemsFrom ops) (hgh : g.SameNodes h) : h.StemsFrom ops where
  exists_op := fun {id _} horigin => hg.exists_op (hgh.origin id ▸ horigin)
  isPush    := fun {id _} heffect horigin =>
    hg.isPush (hgh.effect id ▸ heffect) (hgh.origin id ▸ horigin)

lemma stemsFrom_initial (ops : List Operation) : initial.StemsFrom ops := by
  have hnode : ∀ {id node}, initial.node? id = some node → node = ⟨.push .never, none, [], []⟩ := by
    intro id node hnode
    rw [node?_initial] at hnode
    split at hnode
    · exact (Option.some.inj hnode).symm
    · cases hnode
  constructor
  · intro id origin horigin
    obtain ⟨node, hid, heq⟩ := Option.bind_eq_some_iff.mp horigin
    rw [hnode hid] at heq
    cases heq
  · intro id effect heffect _
    obtain ⟨node, hid, rfl⟩ := Option.map_eq_some_iff.mp heffect
    rw [hnode hid]
    rfl

lemma StemsFrom.addNode (hg : g.StemsFrom ops) {op : Operation} (hop : op ∈ ops) (effect : Effect) :
    (g.addNode effect (some op.origin)).2.StemsFrom ops := by
  have hnode := g.node?_addNode effect (some op.origin)
  constructor
  · intro id origin horigin
    rw [origin?, hnode] at horigin
    split at horigin
    · cases horigin
      exact ⟨op, hop, rfl⟩
    · exact hg.exists_op horigin
  · intro id effect' heffect horigin
    rw [effect?, hnode] at heffect
    rw [origin?, hnode] at horigin
    split at heffect
    · rename_i hid
      rw [if_pos hid] at horigin
      cases horigin
    · rename_i hid
      rw [if_neg hid] at horigin
      exact hg.isPush heffect horigin

lemma StemsFrom.extend (hg : g.StemsFrom ops) {op : Operation} (hop : op ∈ ops)
    (span : Option (Nat × Nat)) (effect : Effect) :
    (g.extend span effect op.origin).1.StemsFrom ops := by
  cases span with
  | none => exact hg.addNode hop effect
  | some ends => exact (hg.addNode hop effect).sameNodes (sameNodes_link _ _ _)

lemma StemsFrom.foldl_extend (hg : g.StemsFrom ops) {op : Operation} (hop : op ∈ ops)
    (span : Option (Nat × Nat)) (effects : List Effect) :
    (effects.foldl (fun (g, span) effect => g.extend span effect op.origin)
      (g, span)).1.StemsFrom ops := by
  induction effects generalizing g span with
  | nil => exact hg
  | cons effect effects ih => exact ih (hg.extend hop span effect) _

lemma StemsFrom.addOperations {added : List Operation} {span span' : Option (Nat × Nat)}
    (hg : g.StemsFrom ops) (hadded : ∀ op ∈ added, op ∈ ops)
    (hadd : addOperations strict g r span added = .ok (h, r', span')) : h.StemsFrom ops := by
  induction added generalizing g r span with
  | nil =>
    cases hadd
    exact hg
  | cons op added ih =>
    obtain ⟨⟨effects, r₁⟩, -, hadd⟩ := exists_of_bind_eq_ok hadd
    exact ih (hg.foldl_extend (hadded op List.mem_cons_self) span effects)
      (fun op hop => hadded op (List.mem_cons_of_mem _ hop)) hadd

lemma StemsFrom.addBranches {branches : List (Nat × Branch)} (hg : g.StemsFrom ops)
    (hbranches : ∀ entry ∈ branches, ∀ op ∈ entry.2.operations, op ∈ ops)
    (hadd : addBranches strict g r branches = .ok (h, r')) : h.StemsFrom ops := by
  induction branches generalizing g r with
  | nil =>
    cases hadd
    exact hg
  | cons entry branches ih =>
    obtain ⟨⟨g₁, r₁, span⟩, hops, hadd⟩ := exists_of_bind_eq_ok hadd
    have hg₁ := hg.addOperations (hbranches entry List.mem_cons_self) hops
    refine ih ?_ (fun entry hentry => hbranches entry (List.mem_cons_of_mem _ hentry)) hadd
    cases span with
    | none => exact hg₁
    | some ends => exact ⟨hg₁.exists_op, hg₁.isPush⟩

/-- The nodes of the graph of a program stem from its operations. -/
lemma stemsFrom_of_build {b : Branches} (hops : ∀ op ∈ ops, op.WellKinded)
    (hextract : Branches.extract ops = .ok b) (hbuild : build b strict = .ok (g, r)) :
    g.StemsFrom ops := by
  obtain ⟨⟨g₀, r₀⟩, hadd, hbuild⟩ := exists_of_bind_eq_ok hbuild
  cases hbuild
  have hg₀ : g₀.StemsFrom ops := by
    refine (stemsFrom_initial ops).addBranches (fun entry hentry op hop => ?_) hadd
    obtain ⟨id, branch⟩ := entry
    rw [← Branches.get_eq_of_mem_enumerate hentry] at hop
    exact Branches.mem_of_extract hops hextract hop
  rw [stitch_eq_linkEach]
  exact hg₀.sameNodes (sameNodes_linkEach _ _)

end EffectGraph

end ZeroWidth
