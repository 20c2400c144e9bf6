import ZeroWidth.Proofs.Relocation
import ZeroWidth.Proofs.Stitching

/-!
# Graphs with other effects and origins

How a graph is built and linked does not depend on what its nodes do or where they come from. So
changing the effects and the origins of all nodes commutes with adding nodes and with linking them.
-/

namespace ZeroWidth

/-- A node with another effect and another origin. -/
def Node.map (f : Effect → Effect) (k : Origin → Origin) (node : Node) : Node :=
  { node with effect := f node.effect, origin := node.origin.map k }

namespace EffectGraph

def map (f : Effect → Effect) (k : Origin → Origin) (g : EffectGraph) : EffectGraph :=
  { g with nodes := g.nodes.map (Node.map f k) }

variable {f : Effect → Effect} {k : Origin → Origin} (g : EffectGraph)

/-! ### What is kept -/

@[simp]
lemma size_map : (g.map f k).size = g.size := Arena.size_map _ g.nodes

lemma node?_map (id : Nat) : (g.map f k).node? id = (g.node? id).map (Node.map f k) :=
  Arena.get?_map _ g.nodes id

@[simp]
lemma effect?_map (id : Nat) : (g.map f k).effect? id = (g.effect? id).map f := by
  simp only [effect?, node?_map, Option.map_map]
  rfl

@[simp]
lemma origin?_map (id : Nat) : (g.map f k).origin? id = (g.origin? id).map k := by
  simp only [origin?, node?_map]
  cases g.node? id <;> rfl

@[simp]
lemma parents_map (id : Nat) : (g.map f k).parents id = g.parents id := by
  simp only [parents, node?_map, Option.map_map]
  rfl

@[simp]
lemma children_map : (g.map f k).children = g.children := by
  funext id
  simp only [children, node?_map, Option.map_map]
  rfl

lemma edge_map : (g.map f k).Edge = g.Edge := by
  funext a b
  rw [Edge, children_map, Edge]

lemma reached_map : (g.map f k).Reached = g.Reached := by
  rw [Reached, Reached, edge_map]
  rfl

lemma Mirrored.map {g : EffectGraph} (hm : g.Mirrored) : (g.map f k).Mirrored := fun a b => by
  rw [children_map, parents_map]
  exact hm a b

/-! ### Building -/

lemma addNode_map (effect : Effect) (origin : Option Origin) :
    (g.map f k).addNode (f effect) (origin.map k) =
      ((g.addNode effect origin).1, (g.addNode effect origin).2.map f k) := by
  have hnode : Node.map f k ⟨effect, origin, [], []⟩ = ⟨f effect, origin.map k, [], []⟩ := rfl
  simp only [addNode, map, Arena.alloc_map _ hnode]

lemma link_map (parent child : Nat) :
    (g.map f k).link parent child = (g.link parent child).map f k := by
  simp only [link, map, mk.injEq, and_true]
  rw [Arena.modify_map (g := fun node => { node with children := appendNew node.children child })
      (Node.map f k) fun _ => rfl,
    Arena.modify_map (g := fun node => { node with parents := appendNew node.parents parent })
      (Node.map f k) fun _ => rfl]

lemma linkAll_map (parent : Nat) (children : List Nat) :
    (g.map f k).linkAll parent children = (g.linkAll parent children).map f k := by
  induction children generalizing g with
  | nil => rfl
  | cons child children ih =>
    simp only [linkAll, List.foldl_cons] at ih ⊢
    rw [link_map, ih]

lemma linkEach_map (links : List (Nat × List Nat)) :
    (g.map f k).linkEach links = (g.linkEach links).map f k := by
  induction links generalizing g with
  | nil => rfl
  | cons link links ih =>
    simp only [linkEach, List.foldl_cons] at ih ⊢
    rw [linkAll_map, ih]

lemma extend_map (span : Option (Nat × Nat)) (effect : Effect) (origin : Origin) :
    (g.map f k).extend span (f effect) (k origin) =
      ((g.extend span effect origin).1.map f k, (g.extend span effect origin).2) := by
  have hadd := g.addNode_map (f := f) (k := k) effect (some origin)
  rw [Option.map_some] at hadd
  simp only [extend, hadd]
  cases span with
  | none => rfl
  | some ends => simp [link_map]

lemma foldl_extend_map (span : Option (Nat × Nat)) (effects : List Effect) (origin : Origin) :
    (effects.map f).foldl (fun (g, span) effect => g.extend span effect (k origin))
        (g.map f k, span) =
      (fun (g, span) => (g.map f k, span))
        (effects.foldl (fun (g, span) effect => g.extend span effect origin) (g, span)) := by
  induction effects generalizing g span with
  | nil => rfl
  | cons effect effects ih => simp only [List.map_cons, List.foldl_cons, extend_map, ih]

/-- Graphs are stitched together by their fragments alone. -/
lemma stitch_map (b : Branches) : (g.map f k).stitch b = (g.stitch b).map f k := by
  have hlinks : (g.map f k).links b = g.links b := rfl
  rw [stitch_eq_linkEach, stitch_eq_linkEach, hlinks, linkEach_map]

end EffectGraph

end ZeroWidth
