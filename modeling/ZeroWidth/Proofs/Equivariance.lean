import ZeroWidth.Proofs.NodeMap
import ZeroWidth.Typing.Resolution

/-!
# Resolving under other names and in other places

A relocated program has the effect graph of the program but for where its nodes come from, and
resolving a graph never asks where they come from. So the two are resolved side by side, pass by
pass, and the same nodes get stuck.
-/

namespace ZeroWidth

variable {τ : Relocation}

variable (τ) in
def Origin.relocate (origin : Origin) : Origin := { origin with span := τ.place origin.span }

variable (τ) in
def Node.relocate (node : Node) : Node :=
  { node with origin := node.origin.map (Origin.relocate τ) }

namespace EffectGraph

variable (τ) in
def relocate (g : EffectGraph) : EffectGraph := { g with nodes := g.nodes.map (Node.relocate τ) }

/-! ### What is kept -/

section

variable (g : EffectGraph)

@[simp]
lemma size_relocate : (g.relocate τ).size = g.size := Arena.size_map _ g.nodes

@[simp]
lemma node?_relocate (id : Nat) : (g.relocate τ).node? id = (g.node? id).map (Node.relocate τ) :=
  Arena.get?_map _ g.nodes id

@[simp]
lemma effect?_relocate (id : Nat) : (g.relocate τ).effect? id = g.effect? id := by
  simp only [effect?, node?_relocate, Option.map_map]
  rfl

@[simp]
lemma origin?_relocate (id : Nat) :
    (g.relocate τ).origin? id = (g.origin? id).map (Origin.relocate τ) := by
  simp only [origin?, node?_relocate]
  cases g.node? id <;> rfl

@[simp]
lemma parents_relocate (id : Nat) : (g.relocate τ).parents id = g.parents id := by
  simp only [parents, node?_relocate, Option.map_map]
  rfl

@[simp]
lemma children_relocate : (g.relocate τ).children = g.children := by
  funext id
  simp only [children, node?_relocate, Option.map_map]
  rfl

@[simp]
lemma isPush_relocate (id : Nat) : (g.relocate τ).isPush id = g.isPush id := by
  simp [isPush]

@[simp]
lemma pushed?_relocate (id : Nat) : (g.relocate τ).pushed? id = g.pushed? id := by
  simp [pushed?]

@[simp]
lemma fragment?_relocate (branch : Nat) :
    (g.relocate τ).fragment? branch = g.fragment? branch := rfl

@[simp]
lemma root_relocate : (g.relocate τ).root = g.root := rfl

@[simp]
lemma reachable_relocate : (g.relocate τ).reachable = g.reachable := by
  simp [reachable]

end

/-! ### Building -/

lemma link_relocate (g : EffectGraph) (parent child : Nat) :
    (g.relocate τ).link parent child = (g.link parent child).relocate τ :=
  g.link_map (f := id) (k := Origin.relocate τ) parent child

lemma foldl_extend_relocate (τ : Relocation) (g : EffectGraph) (span : Option (Nat × Nat))
    (effects : List Effect) (origin : Origin) :
    effects.foldl (fun (g, span) effect => g.extend span effect (origin.relocate τ))
        (g.relocate τ, span) =
      (fun (g, span) => (g.relocate τ, span))
        (effects.foldl (fun (g, span) effect => g.extend span effect origin) (g, span)) := by
  have hfold := g.foldl_extend_map (f := id) (k := Origin.relocate τ) span effects origin
  rw [List.map_id] at hfold
  exact hfold

lemma addOperations_relocate (strict : Bool) (g : EffectGraph) (r : Registry)
    (span : Option (Nat × Nat)) (ops : List Operation) :
    addOperations strict (g.relocate τ) (r.relocate τ) span (ops.map (Operation.relocate τ)) =
      τ.outcome (fun (g, r, span) => (g.relocate τ, r.relocate τ, span))
        (addOperations strict g r span ops) := by
  induction ops generalizing g r span with
  | nil => rfl
  | cons op ops ih =>
    refine Relocation.outcome_bind (op.loweredEffects_relocate strict r) ?_
    rintro ⟨effects, r'⟩ -
    have hfold := foldl_extend_relocate τ g span effects ⟨op.instruction, op.span⟩
    simp only [Origin.relocate] at hfold
    simp only [Operation.instruction_relocate, Operation.span_relocate, hfold]
    exact ih _ r' _

lemma addBranches_relocate (τ : Relocation) (strict : Bool) (g : EffectGraph) (r : Registry)
    (branches : List (Nat × Branch)) :
    addBranches strict (g.relocate τ) (r.relocate τ)
        (branches.map fun (id, branch) => (id, branch.relocate τ)) =
      τ.outcome (fun (g, r) => (g.relocate τ, r.relocate τ)) (addBranches strict g r branches) := by
  induction branches generalizing g r with
  | nil => rfl
  | cons entry branches ih =>
    obtain ⟨id, branch⟩ := entry
    refine Relocation.outcome_bind (addOperations_relocate strict g r none branch.operations) ?_
    rintro ⟨g', r', span⟩ -
    cases span with
    | none => exact ih g' r'
    | some ends => exact ih { g' with fragments := g'.fragments ++ [⟨id, ends.1, ends.2⟩] } r'

lemma linkEach_relocate (g : EffectGraph) (links : List (Nat × List Nat)) :
    (g.relocate τ).linkEach links = (g.linkEach links).relocate τ :=
  g.linkEach_map (f := id) (k := Origin.relocate τ) links

lemma stitch_relocate (g : EffectGraph) (b : Branches) :
    (g.relocate τ).stitch (b.relocate τ) = (g.stitch b).relocate τ := by
  have hflow : (b.relocate τ).flow = b.flow := by
    rw [Branches.flow, Branches.flow, Branches.reachable_relocate, Branches.resumptions_relocate,
      Branches.successors_relocate]
  have hlinks : (g.relocate τ).links (b.relocate τ) = g.links b := by
    simp only [links, hflow, Branches.reachable_relocate, Branches.size_relocate]
    rfl
  rw [stitch_eq_linkEach, stitch_eq_linkEach, hlinks, linkEach_relocate]

lemma relocate_initial : initial.relocate τ = initial := by
  simp [initial, relocate, Arena.map, Arena.alloc, Arena.empty, Node.relocate]

/-- The graph of relocated branches is the graph of the branches, relocated. -/
lemma build_relocate (τ : Relocation) (b : Branches) (strict : Bool) :
    build (b.relocate τ) strict =
      τ.outcome (fun (g, r) => (g.relocate τ, r.relocate τ)) (build b strict) := by
  have hadd := addBranches_relocate τ strict initial .empty b.arena.enumerate
  rw [relocate_initial, Registry.relocate_empty, ← Arena.enumerate_map] at hadd
  refine Relocation.outcome_bind hadd ?_
  rintro ⟨g, r⟩ -
  simp only [stitch_relocate, Relocation.outcome]

end EffectGraph

/-! ### Resolving -/

namespace Resolution

variable (τ) in
def relocate (s : Resolution) : Resolution := { s with graph := s.graph.relocate τ }

lemma start_relocate (g : EffectGraph) : start (g.relocate τ) = (start g).relocate τ := by
  simp [start, relocate]

@[simp]
lemma graph_relocate (s : Resolution) : (s.relocate τ).graph = s.graph.relocate τ := rfl

@[simp]
lemma pending_relocate (s : Resolution) : (s.relocate τ).pending = s.pending := rfl

lemma enter_relocate (s : Resolution) (source child : Nat) :
    (s.relocate τ).enter source child = (s.enter source child).relocate τ := by
  have hwakes : wakes (s.graph.relocate τ) source child = wakes s.graph source child := by
    simp [wakes]
  simp only [enter, graph_relocate, pending_relocate, hwakes, EffectGraph.link_relocate]
  cases wakes s.graph source child <;> rfl

lemma enterAll_relocate (s : Resolution) (sources children : List Nat) :
    (s.relocate τ).enterAll sources children = (s.enterAll sources children).relocate τ := by
  have hchildren : ∀ (s : Resolution) (source : Nat),
      children.foldl (fun s child => s.enter source child) (s.relocate τ) =
        (children.foldl (fun s child => s.enter source child) s).relocate τ := fun s source => by
    induction children generalizing s with
    | nil => rfl
    | cons child children ih => rw [List.foldl_cons, List.foldl_cons, enter_relocate, ih]
  induction sources generalizing s with
  | nil => rfl
  | cons source sources ih =>
    simp only [enterAll, List.foldl_cons] at ih ⊢
    rw [hchildren, ih]

lemma sources_relocate (g : EffectGraph) (effect : Effect) (item : Nat) :
    sources (g.relocate τ) effect item = sources g effect item := by
  simp [sources]

lemma matching_relocate (g : EffectGraph) (effect : Effect) :
    matching (g.relocate τ) effect = matching g effect := by
  funext item
  simp [matching]

lemma isMatched_relocate (g : EffectGraph) (id : Nat) :
    isMatched (g.relocate τ) id = isMatched g id := by
  simp only [isMatched, EffectGraph.node?_relocate, matching_relocate]
  cases g.node? id <;> rfl

lemma advance_relocate (s : Resolution) (id : Nat) :
    (s.relocate τ).advance id = (s.advance id).relocate τ := by
  simp only [advance, graph_relocate, EffectGraph.node?_relocate]
  cases s.graph.node? id with
  | none => rfl
  | some node =>
    simp only [Option.map_some, Node.relocate, matching_relocate]
    -- the edges change while the items are let through, their sources are looked up each time
    generalize node.parents.filter (matching s.graph node.effect) = items
    induction items generalizing s with
    | nil => rfl
    | cons item items ih =>
      rw [List.foldl_cons, List.foldl_cons, graph_relocate, sources_relocate, enterAll_relocate, ih]

lemma visit_relocate (s : Resolution) (matched : Bool) (id : Nat) :
    visit (s.relocate τ, matched) id =
      (fun (s, matched) => (s.relocate τ, matched)) (visit (s, matched) id) := by
  simp only [visit, graph_relocate, isMatched_relocate, advance_relocate]
  cases isMatched s.graph id <;> rfl

lemma foldl_visit_relocate (s : Resolution) (matched : Bool) (ids : List Nat) :
    ids.foldl visit (s.relocate τ, matched) =
      (fun (s, matched) => (s.relocate τ, matched)) (ids.foldl visit (s, matched)) := by
  induction ids generalizing s matched with
  | nil => rfl
  | cons id ids ih => rw [List.foldl_cons, List.foldl_cons, visit_relocate, ih]

lemma pass_relocate (s : Resolution) :
    (s.relocate τ).pass = (fun (s, matched) => (s.relocate τ, matched)) s.pass :=
  foldl_visit_relocate { s with pending := .empty } false s.pending.toList

/-- Pass by pass, a relocated graph is resolved like the graph. -/
lemma settle_relocate (passes : Nat) (s : Resolution) :
    settle passes (s.relocate τ) = (settle passes s).map (relocate τ) := by
  induction passes generalizing s with
  | zero => by_cases h : s.pending.isEmpty = true <;> simp [settle, h]
  | succ passes ih =>
    by_cases h : s.pending.isEmpty = true
    · simp [settle, h]
    · simp only [settle, pending_relocate, h, pass_relocate]
      obtain ⟨s', matched⟩ := s.pass
      cases matched with
      | true => exact ih s'
      | false => rfl

end Resolution

end ZeroWidth
