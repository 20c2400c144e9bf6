import Mathlib.Order.Basic
import ZeroWidth.Proofs.Search
import ZeroWidth.Typing.EffectGraph

/-!
# Edges of the effect graph

A graph enters every edge twice, with the children of its parent and with the parents of its child.
A graph in which both entries agree is mirrored; then all of its edges are between nodes that there
are. Linking keeps a graph mirrored, adds the one edge and leaves the nodes themselves alone.
-/

namespace ZeroWidth

namespace EffectGraph

variable {g h k : EffectGraph}

/-- `child` may happen just behind `parent`. -/
def Edge (g : EffectGraph) (parent child : Nat) : Prop := child ∈ g.children parent

/-- Every edge is entered on both of its sides. -/
def Mirrored (g : EffectGraph) : Prop := ∀ a b, b ∈ g.children a ↔ a ∈ g.parents b

/-- Edges lead from the root to the node. -/
def Reached (g : EffectGraph) : Nat → Prop := Relation.ReflTransGen g.Edge g.root

/-- Two graphs with the same nodes, whatever their edges. -/
structure SameNodes (g h : EffectGraph) : Prop where
  root      : h.root = g.root
  size      : h.size = g.size
  effect    : ∀ id, h.effect? id = g.effect? id
  origin    : ∀ id, h.origin? id = g.origin? id
  fragments : h.fragments = g.fragments

namespace SameNodes

lemma refl (g : EffectGraph) : SameNodes g g := ⟨rfl, rfl, fun _ => rfl, fun _ => rfl, rfl⟩

lemma trans (hgh : SameNodes g h) (hhk : SameNodes h k) : SameNodes g k where
  root      := hhk.root.trans hgh.root
  size      := hhk.size.trans hgh.size
  effect    := fun id => (hhk.effect id).trans (hgh.effect id)
  origin    := fun id => (hhk.origin id).trans (hgh.origin id)
  fragments := hhk.fragments.trans hgh.fragments

lemma isPush (hgh : SameNodes g h) (id : Nat) : h.isPush id = g.isPush id := by
  simp only [EffectGraph.isPush, hgh.effect]

lemma pushed? (hgh : SameNodes g h) (id : Nat) : h.pushed? id = g.pushed? id := by
  simp only [EffectGraph.pushed?, hgh.effect]

lemma fragment? (hgh : SameNodes g h) (branch : Nat) :
    h.fragment? branch = g.fragment? branch := by
  simp only [EffectGraph.fragment?, hgh.fragments]

end SameNodes

/-! ### Nodes that there are -/

lemma node?_eq_none_iff {id : Nat} : g.node? id = none ↔ g.size ≤ id := Arena.get?_eq_none_iff

lemma lt_size_of_node? {id : Nat} {node : Node} (h : g.node? id = some node) : id < g.size := by
  by_contra hle
  rw [node?_eq_none_iff.mpr (Nat.le_of_not_lt hle)] at h
  cases h

lemma lt_size_of_mem_children {a b : Nat} (h : b ∈ g.children a) : a < g.size := by
  by_contra hle
  rw [children, node?_eq_none_iff.mpr (Nat.le_of_not_lt hle)] at h
  simp at h

lemma lt_size_of_mem_parents {a b : Nat} (h : a ∈ g.parents b) : b < g.size := by
  by_contra hle
  rw [parents, node?_eq_none_iff.mpr (Nat.le_of_not_lt hle)] at h
  simp at h

lemma lt_size_of_effect? {id : Nat} {effect : Effect} (h : g.effect? id = some effect) :
    id < g.size := by
  obtain ⟨node, hnode, -⟩ := Option.map_eq_some_iff.mp h
  exact lt_size_of_node? hnode

lemma exists_effect?_of_lt {id : Nat} (h : id < g.size) : ∃ effect, g.effect? id = some effect := by
  cases hnode : g.node? id with
  | none => exact absurd h (Nat.not_lt.mpr (node?_eq_none_iff.mp hnode))
  | some node => exact ⟨node.effect, by rw [effect?, hnode, Option.map_some]⟩

lemma isPush_of_pushed? {id : Nat} {ty : Ty} (h : g.pushed? id = some ty) : g.isPush id = true := by
  obtain ⟨effect, heffect, hpushed⟩ := Option.bind_eq_some_iff.mp h
  cases effect with
  | push ty => simp [isPush, heffect, Effect.isPush]
  | _ => cases hpushed

lemma isPush_eq_false_of_effect? {id : Nat} {effect : Effect} (h : g.effect? id = some effect)
    (heffect : effect.isPush = false) : g.isPush id = false := by
  simp [isPush, h, heffect]

namespace Mirrored

lemma edge_iff (hm : g.Mirrored) {a b : Nat} : g.Edge a b ↔ a ∈ g.parents b := hm a b

lemma lt_size_left (_ : g.Mirrored) {a b : Nat} (he : g.Edge a b) : a < g.size :=
  lt_size_of_mem_children he

lemma lt_size_right (hm : g.Mirrored) {a b : Nat} (he : g.Edge a b) : b < g.size :=
  lt_size_of_mem_parents (hm.edge_iff.mp he)

end Mirrored

lemma Reached.lt_size {id : Nat} (hid : g.Reached id) (hm : g.Mirrored) (hroot : g.root < g.size) :
    id < g.size := by
  cases hid with
  | refl => exact hroot
  | tail _ hedge => exact hm.lt_size_right hedge

/-- It suffices to look at the nodes that there are. -/
lemma mirrored_iff : g.Mirrored ↔
    (∀ a < g.size, ∀ b ∈ g.children a, a ∈ g.parents b) ∧
      ∀ b < g.size, ∀ a ∈ g.parents b, b ∈ g.children a := by
  constructor
  · intro hm
    exact ⟨fun a _ b hb => (hm a b).mp hb, fun b _ a ha => (hm a b).mpr ha⟩
  · rintro ⟨hchildren, hparents⟩ a b
    exact ⟨fun hb => hchildren a (lt_size_of_mem_children hb) b hb,
      fun ha => hparents b (lt_size_of_mem_parents ha) a ha⟩

instance (g : EffectGraph) : Decidable g.Mirrored := decidable_of_iff _ mirrored_iff.symm

/-- The search from the root finds the nodes that edges lead to. -/
theorem mem_reachable_iff (hm : g.Mirrored) {id : Nat} :
    id ∈ g.reachable.toList ↔ g.Reached id := by
  unfold reachable
  by_cases hroot : g.root < g.size
  · exact mem_breadthFirst_iff (fun a _ b hb => hm.lt_size_right hb) hroot
  · -- a start that is no node leads nowhere
    have hchildren : g.children g.root = [] := by
      rw [children, node?_eq_none_iff.mpr (Nat.le_of_not_lt hroot)]
      rfl
    rw [breadthFirst_of_next_eq_nil hchildren g.size, IdSet.mem_toList_insert, IdSet.toList_empty,
      List.mem_nil_iff, or_false]
    constructor
    · rintro rfl
      exact Relation.ReflTransGen.refl
    · intro h
      rcases Relation.ReflTransGen.cases_head h with rfl | ⟨b, hb, -⟩
      · rfl
      · exact absurd (hm.lt_size_left hb) hroot

/-! ### Adding nodes -/

@[simp]
lemma size_addNode (g : EffectGraph) (effect : Effect) (origin : Option Origin) :
    (g.addNode effect origin).2.size = g.size + 1 :=
  Arena.size_alloc g.nodes _

lemma node?_addNode (g : EffectGraph) (effect : Effect) (origin : Option Origin) (id : Nat) :
    (g.addNode effect origin).2.node? id =
      if id = g.size then some ⟨effect, origin, [], []⟩ else g.node? id :=
  Arena.get?_alloc g.nodes _ id

/-- At first there is the root, and no edge. -/
lemma node?_initial (id : Nat) :
    initial.node? id = if id = 0 then some ⟨.push .never, none, [], []⟩ else none := by
  simp only [initial, node?, Arena.get?_alloc, Arena.get?_empty, Arena.size_empty]

lemma not_edge_initial (a b : Nat) : ¬ initial.Edge a b := by
  rw [Edge, children, node?_initial]
  split <;> simp

/-- A new node has no edges yet. -/
lemma edge_addNode {effect : Effect} {origin : Option Origin} {a b : Nat} :
    (g.addNode effect origin).2.Edge a b ↔ g.Edge a b := by
  simp only [Edge, children, node?_addNode]
  split
  · rename_i ha
    rw [node?_eq_none_iff.mpr (Nat.le_of_eq ha.symm)]
    simp
  · rfl

lemma mem_parents_addNode {effect : Effect} {origin : Option Origin} {a b : Nat} :
    a ∈ (g.addNode effect origin).2.parents b ↔ a ∈ g.parents b := by
  simp only [parents, node?_addNode]
  split
  · rename_i hb
    rw [node?_eq_none_iff.mpr (Nat.le_of_eq hb.symm)]
    simp
  · rfl

lemma Mirrored.addNode (hm : g.Mirrored) (effect : Effect) (origin : Option Origin) :
    (g.addNode effect origin).2.Mirrored := by
  intro a b
  rw [mem_parents_addNode, ← hm a b]
  exact edge_addNode

/-! ### Linking -/

lemma node?_link (g : EffectGraph) (parent child id : Nat) :
    (g.link parent child).node? id = (g.node? id).map fun node =>
      { node with
        children := if parent = id then appendNew node.children child else node.children
        parents  := if child = id then appendNew node.parents parent else node.parents } := by
  simp only [link, node?, Arena.get?_modify]
  by_cases hp : parent = id <;> by_cases hc : child = id <;>
    simp only [hp, hc, if_true, if_false] <;> cases g.nodes.get? id <;> rfl

@[simp]
lemma size_link (g : EffectGraph) (parent child : Nat) : (g.link parent child).size = g.size := by
  simp [link, size]

lemma sameNodes_link (g : EffectGraph) (parent child : Nat) :
    SameNodes g (g.link parent child) where
  root      := rfl
  size      := size_link g parent child
  effect    := fun id => by
    simp only [effect?, node?_link, Option.map_map]
    rfl
  origin    := fun id => by
    simp only [origin?, node?_link, Option.bind_map]
    rfl
  fragments := rfl

lemma mem_children_link {parent child a b : Nat} :
    b ∈ (g.link parent child).children a ↔
      b ∈ g.children a ∨ (a = parent ∧ b = child ∧ parent < g.size) := by
  simp only [children, node?_link]
  cases hnode : g.node? a with
  | none =>
    have hle := node?_eq_none_iff.mp hnode
    simp only [Option.map_none, Option.getD_none, List.not_mem_nil, false_or, false_iff]
    omega
  | some node =>
    have hlt : a < g.size := lt_size_of_node? hnode
    by_cases hp : parent = a
    · subst hp
      simp [mem_appendNew, hlt]
    · simp [hp, Ne.symm hp]

lemma mem_parents_link {parent child a b : Nat} :
    a ∈ (g.link parent child).parents b ↔
      a ∈ g.parents b ∨ (a = parent ∧ b = child ∧ child < g.size) := by
  simp only [parents, node?_link]
  cases hnode : g.node? b with
  | none =>
    have hle := node?_eq_none_iff.mp hnode
    simp only [Option.map_none, Option.getD_none, List.not_mem_nil, false_or, false_iff]
    omega
  | some node =>
    have hlt : b < g.size := lt_size_of_node? hnode
    by_cases hc : child = b
    · subst hc
      simp [mem_appendNew, hlt]
    · simp [hc, Ne.symm hc]

lemma edge_link {parent child : Nat} (hp : parent < g.size) {a b : Nat} :
    (g.link parent child).Edge a b ↔ g.Edge a b ∨ (a = parent ∧ b = child) := by
  rw [Edge, mem_children_link, Edge]
  tauto

lemma Mirrored.link (hm : g.Mirrored) {parent child : Nat} (hp : parent < g.size)
    (hc : child < g.size) : (g.link parent child).Mirrored := by
  intro a b
  rw [mem_children_link, mem_parents_link, hm a b]
  tauto

lemma sameNodes_linkAll (g : EffectGraph) (parent : Nat) (ids : List Nat) :
    SameNodes g (g.linkAll parent ids) := by
  induction ids generalizing g with
  | nil => exact SameNodes.refl g
  | cons id ids ih => exact (sameNodes_link g parent id).trans (ih (g.link parent id))

lemma edge_linkAll {parent : Nat} (hp : parent < g.size) {ids : List Nat} {a b : Nat} :
    (g.linkAll parent ids).Edge a b ↔ g.Edge a b ∨ (a = parent ∧ b ∈ ids) := by
  induction ids generalizing g with
  | nil => simp [linkAll]
  | cons id ids ih =>
    rw [show g.linkAll parent (id :: ids) = (g.link parent id).linkAll parent ids from rfl,
      ih (by simpa using hp), edge_link hp, List.mem_cons]
    tauto

lemma Mirrored.linkAll (hm : g.Mirrored) {parent : Nat} (hp : parent < g.size) {ids : List Nat}
    (hids : ∀ id ∈ ids, id < g.size) : (g.linkAll parent ids).Mirrored := by
  induction ids generalizing g with
  | nil => exact hm
  | cons id ids ih =>
    apply ih (hm.link hp (hids id List.mem_cons_self))
    · simpa using hp
    · intro other hother
      simpa using hids other (List.mem_cons_of_mem _ hother)

end EffectGraph

end ZeroWidth
