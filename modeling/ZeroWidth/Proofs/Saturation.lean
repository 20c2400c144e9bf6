import Mathlib.Order.Bounds.Basic
import ZeroWidth.Proofs.Edges
import ZeroWidth.Typing.Resolution

/-!
# Resolution saturates the effect graph

Resolving a graph adds edges by two rules, one for pops and one for assertions. What it leaves is
the least set of edges that has those of the graph and that the two rules do not lead out of, in
whatever order nodes are looked at.

Each node that takes something is either waiting to be looked at or closed: the rules add nothing
more at it. A node is made to wait again only when it gains an item as a parent. It may also gain a
child, or an item it has may gain a parent; then the edges that the rules ask for at it are those
that the node which is just looked at adds itself, and no second look is needed.
-/

namespace ZeroWidth

lemma exists_ok_of_toOption_map {ε α β : Type} {x : Except ε α} {f : α → β} {y : β}
    (h : x.toOption.map f = some y) : ∃ a, x = .ok a ∧ f a = y := by
  cases x with
  | error _ => simp [Except.toOption] at h
  | ok a => exact ⟨a, rfl, by simpa [Except.toOption] using h⟩

namespace EffectGraph

/-- Whether node `id` will do with what `item` pushes. -/
def suits (g : EffectGraph) (item id : Nat) : Bool :=
  match g.effect? id with
  | some effect => Resolution.matching g effect item
  | none        => false

/-- What a node lets through to its children if the edges are `E`: a pop what lies beneath an item
that suits it, an assertion the item itself. -/
inductive Passes (g : EffectGraph) (E : Nat → Nat → Prop) (id : Nat) : Nat → Nat → Prop where
  | pop {ty : Ty} {under item child : Nat} (heffect : g.effect? id = some (.pop ty))
      (hitem : E item id) (hsuits : g.suits item id = true) (hunder : E under item)
      (hchild : E id child) : Passes g E id under child
  | assert {ty : Ty} {item child : Nat} (heffect : g.effect? id = some (.assert ty))
      (hitem : E item id) (hsuits : g.suits item id = true) (hchild : E id child) :
      Passes g E id item child

/-- What the nodes that are reached let through is among the edges `E` already. -/
def ClosedUnder (g : EffectGraph) (E : Nat → Nat → Prop) : Prop :=
  ∀ id, g.Reached id → ∀ u n, g.Passes E id u n → E u n

/-! ### Suiting and passing -/

section Rules

variable {g h : EffectGraph} {E : Nat → Nat → Prop} {id u v n : Nat}

lemma suits_eq {effect : Effect} (heffect : g.effect? id = some effect) (item : Nat) :
    g.suits item id = Resolution.matching g effect item := by
  simp only [suits, heffect]

/-- Only an item suits a node. -/
lemma isPush_of_suits (hsuits : g.suits v id = true) : g.isPush v = true := by
  unfold suits at hsuits
  split at hsuits
  · unfold Resolution.matching at hsuits
    split at hsuits
    · rename_i hpushed
      exact isPush_of_pushed? hpushed
    · cases hsuits
  · cases hsuits

lemma SameNodes.matching (hgh : SameNodes g h) (effect : Effect) (item : Nat) :
    Resolution.matching h effect item = Resolution.matching g effect item := by
  simp only [Resolution.matching, hgh.pushed?]

lemma SameNodes.suits (hgh : SameNodes g h) (item id : Nat) :
    h.suits item id = g.suits item id := by
  simp only [EffectGraph.suits, hgh.effect, hgh.matching]

/-- Passing depends on the nodes and on `E`, not on the edges of the graph. -/
lemma SameNodes.passes (hgh : SameNodes g h) (hpass : g.Passes E id u n) :
    h.Passes E id u n := by
  cases hpass with
  | pop heffect hitem hsuits hunder hchild =>
    exact .pop ((hgh.effect id).trans heffect) hitem ((hgh.suits _ id).trans hsuits) hunder hchild
  | assert heffect hitem hsuits hchild =>
    exact .assert ((hgh.effect id).trans heffect) hitem ((hgh.suits _ id).trans hsuits) hchild

lemma SameNodes.symm (hgh : SameNodes g h) : SameNodes h g :=
  ⟨hgh.root.symm, hgh.size.symm, fun id => (hgh.effect id).symm, fun id => (hgh.origin id).symm,
    hgh.fragments.symm⟩

lemma Passes.mono {F : Nat → Nat → Prop} (hEF : E ≤ F) (hpass : g.Passes E id u n) :
    g.Passes F id u n := by
  cases hpass with
  | pop heffect hitem hsuits hunder hchild =>
    exact .pop heffect (hEF _ _ hitem) hsuits (hEF _ _ hunder) (hEF _ _ hchild)
  | assert heffect hitem hsuits hchild =>
    exact .assert heffect (hEF _ _ hitem) hsuits (hEF _ _ hchild)

/-- What is passed is passed to a child. -/
lemma Passes.child (hpass : g.Passes E id u n) : E id n := by
  cases hpass with
  | pop _ _ _ _ hchild => exact hchild
  | assert _ _ _ hchild => exact hchild

/-- What is passed to one child is passed to all. -/
lemma Passes.to_child (hpass : g.Passes E id u v) (hchild : E id n) : g.Passes E id u n := by
  cases hpass with
  | pop heffect hitem hsuits hunder _ => exact .pop heffect hitem hsuits hunder hchild
  | assert heffect hitem hsuits _ => exact .assert heffect hitem hsuits hchild

/-- A node that passes something on has a parent that suits it. -/
lemma Passes.exists_suits (hpass : g.Passes E id u n) :
    ∃ item, E item id ∧ g.suits item id = true := by
  cases hpass with
  | pop _ hitem hsuits _ _ => exact ⟨_, hitem, hsuits⟩
  | assert _ hitem hsuits _ => exact ⟨_, hitem, hsuits⟩

/-- An assertion passes items on, a pop passes on what it finds. -/
lemma Passes.pop_of_not_isPush (hpass : g.Passes E id u n) (hu : g.isPush u = false) :
    ∃ ty item, g.effect? id = some (.pop ty) ∧ E item id ∧ g.suits item id = true ∧ E u item := by
  cases hpass with
  | pop heffect hitem hsuits hunder _ => exact ⟨_, _, heffect, hitem, hsuits, hunder⟩
  | assert _ _ hsuits _ =>
    rw [isPush_of_suits hsuits] at hu
    cases hu

/-- The node has a parent that suits it, as the resolver looks it up. -/
lemma isMatched_iff (hm : g.Mirrored) :
    Resolution.isMatched g id = true ↔ ∃ item, g.Edge item id ∧ g.suits item id = true := by
  unfold Resolution.isMatched
  split
  · rename_i node hnode
    have heffect : g.effect? id = some node.effect := by simp [effect?, hnode]
    have hparents : g.parents id = node.parents := by simp [parents, hnode]
    simp only [List.any_eq_true, suits_eq heffect, hm.edge_iff, hparents]
  · rename_i hnode
    have hle := node?_eq_none_iff.mp hnode
    simp only [Bool.false_eq_true, false_iff]
    rintro ⟨item, hedge, -⟩
    have := hm.lt_size_right hedge
    omega

end Rules

end EffectGraph

namespace Resolution

open EffectGraph

/-! ### Growth

All that happens to a state while a node is looked at: edges are added, and nodes that gain an item
as a parent are made to wait. -/

/-- A node that takes something gains an item by the edges `new`. -/
def Woken (g : EffectGraph) (new : Nat → Nat → Prop) (id : Nat) : Prop :=
  g.isPush id = false ∧ ∃ item, g.isPush item = true ∧ new item id ∧ ¬ g.Edge item id

/-- The state `t` has the edges `new` more than `s`, and waits for what they wake. -/
structure Grows (s t : Resolution) (new : Nat → Nat → Prop) : Prop where
  nodes    : s.graph.SameNodes t.graph
  mirrored : t.graph.Mirrored
  edge     : ∀ a b, t.graph.Edge a b ↔ s.graph.Edge a b ∨ new a b
  pending  : ∀ id, id ∈ t.pending.toList ↔ id ∈ s.pending.toList ∨ Woken s.graph new id
  nodup    : s.pending.toList.Nodup → t.pending.toList.Nodup

namespace Grows

variable {s t r : Resolution} {new new' : Nat → Nat → Prop}

lemma refl (hm : s.graph.Mirrored) : Grows s s fun _ _ => False where
  nodes    := SameNodes.refl s.graph
  mirrored := hm
  edge     := fun a b => by simp
  pending  := fun id => by simp [Woken]
  nodup    := fun h => h

lemma trans (hst : Grows s t new) (htr : Grows t r new') :
    Grows s r fun a b => new a b ∨ new' a b where
  nodes    := hst.nodes.trans htr.nodes
  mirrored := htr.mirrored
  edge     := fun a b => by rw [htr.edge, hst.edge, or_assoc]
  pending  := fun id => by
    rw [htr.pending, hst.pending, or_assoc]
    apply or_congr_right
    simp only [Woken, hst.nodes.isPush, hst.edge]
    constructor
    · rintro (⟨hid, item, hitem, hnew, hold⟩ | ⟨hid, item, hitem, hnew, hold⟩)
      · exact ⟨hid, item, hitem, Or.inl hnew, hold⟩
      · exact ⟨hid, item, hitem, Or.inr hnew, fun h => hold (Or.inl h)⟩
    · rintro ⟨hid, item, hitem, hnew, hold⟩
      by_cases h : new item id
      · exact Or.inl ⟨hid, item, hitem, h, hold⟩
      · exact Or.inr ⟨hid, item, hitem, hnew.resolve_left h, fun h' => h'.elim hold h⟩
  nodup    := fun h => htr.nodup (hst.nodup h)

/-- Only the edges that were not there before matter. -/
lemma congr (hst : Grows s t new)
    (hnew : ∀ a b, s.graph.Edge a b ∨ new a b ↔ s.graph.Edge a b ∨ new' a b) :
    Grows s t new' where
  nodes    := hst.nodes
  mirrored := hst.mirrored
  edge     := fun a b => by rw [hst.edge, hnew]
  pending  := fun id => by
    rw [hst.pending]
    apply or_congr_right
    simp only [Woken]
    apply and_congr_right
    intro _
    apply exists_congr
    intro item
    have := hnew item id
    tauto
  nodup    := hst.nodup

end Grows

variable {s t : Resolution}

lemma wakes_iff (hm : s.graph.Mirrored) {source child : Nat} :
    wakes s.graph source child = true ↔ s.graph.isPush child = false ∧
      s.graph.isPush source = true ∧ ¬ s.graph.Edge source child := by
  simp only [wakes, Bool.and_eq_true, Bool.not_eq_true', List.contains_eq_mem,
    decide_eq_false_iff_not, hm.edge_iff, and_assoc]

lemma grows_enter (hm : s.graph.Mirrored) {source child : Nat} (hsource : source < s.graph.size)
    (hchild : child < s.graph.size) :
    Grows s (s.enter source child) fun a b => a = source ∧ b = child := by
  have hgraph : (s.enter source child).graph = s.graph.link source child := by
    unfold enter
    split <;> rfl
  refine ⟨?_, ?_, ?_, ?_, ?_⟩
  · rw [hgraph]
    exact sameNodes_link s.graph source child
  · rw [hgraph]
    exact hm.link hsource hchild
  · intro a b
    rw [hgraph]
    exact edge_link hsource
  · intro id
    have hwoken : Woken s.graph (fun a b => a = source ∧ b = child) id ↔
        id = child ∧ wakes s.graph source child = true := by
      rw [wakes_iff hm]
      constructor
      · rintro ⟨hid, item, hitem, ⟨rfl, rfl⟩, hold⟩
        exact ⟨rfl, hid, hitem, hold⟩
      · rintro ⟨rfl, hid, hitem, hold⟩
        exact ⟨hid, source, hitem, ⟨rfl, rfl⟩, hold⟩
    rw [hwoken]
    unfold enter
    split
    · rename_i hw
      simp only [IdSet.mem_toList_insert, hw, and_true, or_comm]
    · rename_i hw
      simp [hw]
  · intro hnd
    unfold enter
    split
    · exact IdSet.nodup_toList_insert hnd child
    · exact hnd

/-- A fold of growing steps grows by what all of them add. -/
lemma grows_foldl {step : Resolution → Nat → Resolution} (adds : Nat → Nat → Nat → Prop)
    {count : Nat} (hstep : ∀ s id, s.graph.Mirrored → s.graph.size = count → id < count →
      Grows s (step s id) (adds id))
    (ids : List Nat) (hm : s.graph.Mirrored) (hsize : s.graph.size = count)
    (hids : ∀ id ∈ ids, id < count) :
    Grows s (ids.foldl step s) fun a b => ∃ id ∈ ids, adds id a b := by
  induction ids generalizing s with
  | nil => exact (Grows.refl hm).congr fun a b => by simp
  | cons id ids ih =>
    have hfirst := hstep s id hm hsize (hids id List.mem_cons_self)
    have hrest := ih hfirst.mirrored (hfirst.nodes.size.trans hsize)
      fun other hother => hids other (List.mem_cons_of_mem id hother)
    exact (hfirst.trans hrest).congr fun a b => by simp

lemma grows_enterAll (hm : s.graph.Mirrored) {sources children : List Nat}
    (hsources : ∀ u ∈ sources, u < s.graph.size) (hchildren : ∀ n ∈ children, n < s.graph.size) :
    Grows s (s.enterAll sources children) fun a b => a ∈ sources ∧ b ∈ children := by
  have hinner : ∀ t source, t.graph.Mirrored → t.graph.size = s.graph.size →
      source < s.graph.size →
      Grows t (children.foldl (fun t child => t.enter source child) t)
        fun a b => ∃ child ∈ children, a = source ∧ b = child := by
    intro t source hm hsize hsource
    apply grows_foldl (fun child a b => a = source ∧ b = child) _ children hm hsize hchildren
    intro r child hm hsize hchild
    exact grows_enter hm (hsize ▸ hsource) (hsize ▸ hchild)
  apply (grows_foldl (fun source a b => ∃ child ∈ children, a = source ∧ b = child) hinner
    sources hm rfl hsources).congr
  intro a b
  apply or_congr_right
  constructor
  · rintro ⟨source, hsource, child, hchild, rfl, rfl⟩
    exact ⟨hsource, hchild⟩
  · rintro ⟨ha, hb⟩
    exact ⟨a, ha, b, hb, rfl, rfl⟩

lemma mem_sources_assert {g : EffectGraph} {ty : Ty} {item u : Nat} :
    u ∈ sources g (.assert ty) item ↔ u = item := by
  simp [sources]

lemma mem_sources_pop {g : EffectGraph} (hm : g.Mirrored) {ty : Ty} {item u : Nat} :
    u ∈ sources g (.pop ty) item ↔ g.Edge u item := by
  simp [sources, hm.edge_iff]

lemma sources_lt_size {g : EffectGraph} (hm : g.Mirrored) {effect : Effect} {item u : Nat}
    (hitem : item < g.size) (hu : u ∈ sources g effect item) : u < g.size := by
  unfold sources at hu
  split at hu
  · rwa [List.mem_singleton.mp hu]
  · exact hm.lt_size_left (hm.edge_iff.mpr hu)

/-- Edges that were added for one item only add sources for another that are linked already. -/
lemma mem_sources_grown {new : Nat → Nat → Prop} (hst : Grows s t new) (hm : s.graph.Mirrored)
    {effect : Effect} {item u : Nat} :
    u ∈ sources t.graph effect item →
      u ∈ sources s.graph effect item ∨ new u item := by
  unfold sources
  split
  · exact Or.inl
  · rw [← hm.edge_iff, ← hst.mirrored.edge_iff, hst.edge]
    exact fun h => h

lemma mem_sources_of_mem {new : Nat → Nat → Prop} (hst : Grows s t new) (hm : s.graph.Mirrored)
    {effect : Effect} {item u : Nat} (hu : u ∈ sources s.graph effect item) :
    u ∈ sources t.graph effect item := by
  unfold sources at hu ⊢
  split at hu
  · exact hu
  · rw [← hm.edge_iff] at hu
    rw [← hst.mirrored.edge_iff, hst.edge]
    exact Or.inl hu

/-- The sources of an item are looked up when its turn comes. What the earlier items have added to
them has been linked to all children then. -/
lemma grows_items (effect : Effect) (children items : List Nat)
    (hm : s.graph.Mirrored) (hitems : ∀ item ∈ items, item < s.graph.size)
    (hchildren : ∀ n ∈ children, n < s.graph.size) :
    Grows s (items.foldl (fun s item => s.enterAll (sources s.graph effect item) children) s)
      fun u n => n ∈ children ∧ ∃ item ∈ items, u ∈ sources s.graph effect item := by
  induction items generalizing s with
  | nil => exact (Grows.refl hm).congr fun a b => by simp
  | cons item items ih =>
    have hitem := hitems item List.mem_cons_self
    have hfirst : Grows s (s.enterAll (sources s.graph effect item) children)
        fun u n => u ∈ sources s.graph effect item ∧ n ∈ children :=
      grows_enterAll hm (fun u hu => sources_lt_size hm hitem hu) hchildren
    have hrest := ih hfirst.mirrored
      (fun v hv => hfirst.nodes.size ▸ hitems v (List.mem_cons_of_mem _ hv))
      (fun n hn => hfirst.nodes.size ▸ hchildren n hn)
    apply (hfirst.trans hrest).congr
    intro u n
    apply or_congr_right
    constructor
    · rintro (⟨hu, hn⟩ | ⟨hn, v, hv, hu⟩)
      · exact ⟨hn, item, List.mem_cons_self, hu⟩
      · rcases mem_sources_grown hfirst hm hu with hu | ⟨hu, -⟩
        · exact ⟨hn, v, List.mem_cons_of_mem _ hv, hu⟩
        · exact ⟨hn, item, List.mem_cons_self, hu⟩
    · rintro ⟨hn, v, hv, hu⟩
      rcases List.mem_cons.mp hv with rfl | hv
      · exact Or.inl ⟨hu, hn⟩
      · exact Or.inr ⟨hn, v, hv, mem_sources_of_mem hfirst hm hu⟩

/-- What a node lets through comes from the sources of the items that suit it. -/
lemma passes_iff_sources {g : EffectGraph} (hm : g.Mirrored) {id : Nat} {effect : Effect}
    (heffect : g.effect? id = some effect) (hid : g.isPush id = false) {u n : Nat} :
    g.Passes g.Edge id u n ↔ g.Edge id n ∧
      ∃ item, (g.Edge item id ∧ g.suits item id = true) ∧ u ∈ sources g effect item := by
  constructor
  · intro hpass
    cases hpass with
    | pop heffect' hitem hsuits hunder hchild =>
      rw [heffect, Option.some.injEq] at heffect'
      exact ⟨hchild, _, ⟨hitem, hsuits⟩, heffect' ▸ (mem_sources_pop hm).mpr hunder⟩
    | assert heffect' hitem hsuits hchild =>
      rw [heffect, Option.some.injEq] at heffect'
      exact ⟨hchild, _, ⟨hitem, hsuits⟩, heffect' ▸ mem_sources_assert.mpr rfl⟩
  · rintro ⟨hchild, item, ⟨hitem, hsuits⟩, hu⟩
    cases effect with
    | push ty => simp [isPush, heffect, Effect.isPush] at hid
    | pop ty => exact .pop heffect hitem hsuits ((mem_sources_pop hm).mp hu) hchild
    | assert ty =>
      rw [mem_sources_assert.mp hu]
      exact .assert heffect hitem hsuits hchild
    | copy depth => simp [suits_eq heffect, matching, Effect.ty?] at hsuits
    | swap => simp [suits_eq heffect, matching, Effect.ty?] at hsuits

/-- Looking at a node that takes something adds exactly what it lets through. -/
lemma grows_advance (hm : s.graph.Mirrored) {id : Nat} (hid : s.graph.isPush id = false) :
    Grows s (s.advance id) (s.graph.Passes s.graph.Edge id) := by
  unfold advance
  split
  · rename_i node hnode
    have heffect : s.graph.effect? id = some node.effect := by simp [effect?, hnode]
    have hparents : ∀ u, u ∈ node.parents ↔ s.graph.Edge u id := by
      intro u
      rw [hm.edge_iff]
      simp [parents, hnode]
    have hchildren : ∀ n, n ∈ node.children ↔ s.graph.Edge id n := by
      intro n
      simp [Edge, children, hnode]
    apply (grows_items node.effect node.children
      (node.parents.filter (matching s.graph node.effect)) hm ?_ ?_).congr
    · intro u n
      rw [passes_iff_sources hm heffect hid]
      simp only [hchildren, List.mem_filter, hparents, ← suits_eq heffect]
    · intro item hitem
      exact hm.lt_size_left ((hparents item).mp (List.mem_filter.mp hitem).1)
    · intro n hn
      exact hm.lt_size_right ((hchildren n).mp hn)
  · rename_i hnode
    apply (Grows.refl hm).congr
    intro u n
    apply or_congr_right
    simp only [false_iff]
    intro hpass
    have := lt_size_of_mem_children hpass.child
    have := node?_eq_none_iff.mp hnode
    omega

/-! ### Closed nodes -/

/-- The node has an item that suits it, and what it lets through is linked. -/
structure Settled (g : EffectGraph) (id : Nat) : Prop where
  suited : ∃ item, g.Edge item id ∧ g.suits item id = true
  closed : ∀ u n, g.Passes g.Edge id u n → g.Edge u n

section Settled

variable {id q : Nat} (hst : Grows s t (s.graph.Passes s.graph.Edge id))
include hst

/-- A node that is not woken has no new item that suits it. -/
lemma edge_of_not_woken (hq : s.graph.isPush q = false)
    (hwoken : ¬ Woken s.graph (s.graph.Passes s.graph.Edge id) q) {item : Nat}
    (hitem : t.graph.Edge item q) (hsuits : s.graph.suits item q = true) :
    s.graph.Edge item q := by
  rcases (hst.edge item q).mp hitem with hold | hnew
  · exact hold
  · by_contra hold
    exact hwoken ⟨hq, item, isPush_of_suits hsuits, hnew, hold⟩

lemma suited_mono (hsuited : ∃ item, s.graph.Edge item q ∧ s.graph.suits item q = true) :
    ∃ item, t.graph.Edge item q ∧ t.graph.suits item q = true := by
  obtain ⟨item, hitem, hsuits⟩ := hsuited
  exact ⟨item, (hst.edge item q).mpr (Or.inl hitem), (hst.nodes.suits item q).trans hsuits⟩

/-- The node that is looked at is closed behind that, unless it wakes itself. -/
lemma settled_of_grows (hid : s.graph.isPush id = false)
    (hsuited : ∃ item, s.graph.Edge item id ∧ s.graph.suits item id = true)
    (hwoken : ¬ Woken s.graph (s.graph.Passes s.graph.Edge id) id) : Settled t.graph id := by
  refine ⟨suited_mono hst hsuited, ?_⟩
  intro u n hpass
  rw [hst.edge]
  -- a new edge out of the node leads to a child that it has already
  have hchild : s.graph.Edge id n :=
    ((hst.edge id n).mp hpass.child).elim (fun h => h) Passes.child
  cases hst.nodes.symm.passes hpass with
  | pop heffect hitem hsuits hunder _ =>
    have hitem := edge_of_not_woken hst hid hwoken hitem hsuits
    rcases (hst.edge _ _).mp hunder with hunder | hunder
    · exact Or.inr (.pop heffect hitem hsuits hunder hchild)
    · exact Or.inr (hunder.to_child hchild)
  | assert heffect hitem hsuits _ =>
    exact Or.inr (.assert heffect (edge_of_not_woken hst hid hwoken hitem hsuits) hsuits hchild)

/-- A closed node stays closed while another one is looked at, unless it is woken. -/
lemma Settled.of_grows (hsettled : Settled s.graph q) (hq : s.graph.isPush q = false)
    (hwoken : ¬ Woken s.graph (s.graph.Passes s.graph.Edge id) q) : Settled t.graph q := by
  refine ⟨suited_mono hst hsettled.suited, ?_⟩
  intro u n hpass
  rw [hst.edge]
  cases hst.nodes.symm.passes hpass with
  | pop heffect hitem hsuits hunder hchild =>
    have hitem := edge_of_not_woken hst hq hwoken hitem hsuits
    rcases (hst.edge _ _).mp hchild with hchild | hchild
    · rcases (hst.edge _ _).mp hunder with hunder | hunder
      · exact Or.inl (hsettled.closed u n (.pop heffect hitem hsuits hunder hchild))
      · -- the item has gained a parent from `id`, so `id` lies beneath it and leads to `n` too
        have hover : s.graph.Edge id n :=
          hsettled.closed id n (.pop heffect hitem hsuits hunder.child hchild)
        exact Or.inr (hunder.to_child hover)
    · rcases (hst.edge _ _).mp hunder with hunder | hunder
      · -- `q` has gained a child from `id`, which took an item that `q` precedes
        obtain ⟨ty', item', heffect', hitem', hsuits', hbelow⟩ := hchild.pop_of_not_isPush hq
        have hover : s.graph.Edge u item' :=
          hsettled.closed u item' (.pop heffect hitem hsuits hunder hbelow)
        exact Or.inr (.pop heffect' hitem' hsuits' hover hchild.child)
      · exact Or.inr (hunder.to_child hchild.child)
  | assert heffect hitem hsuits hchild =>
    have hitem := edge_of_not_woken hst hq hwoken hitem hsuits
    rcases (hst.edge _ _).mp hchild with hchild | hchild
    · exact Or.inl (hsettled.closed u n (.assert heffect hitem hsuits hchild))
    · obtain ⟨ty', item', heffect', hitem', hsuits', hbelow⟩ := hchild.pop_of_not_isPush hq
      have hover : s.graph.Edge u item' :=
        hsettled.closed u item' (.assert heffect hitem hsuits hbelow)
      exact Or.inr (.pop heffect' hitem' hsuits' hover hchild.child)

end Settled

/-! ### Visits and passes -/

/-- What holds on the way of resolving `g`, while the nodes `todo` are still to be looked at in this
pass. -/
structure Underway (g : EffectGraph) (s : Resolution) (todo : List Nat) : Prop where
  nodes     : g.SameNodes s.graph
  mirrored  : s.graph.Mirrored
  grown     : g.Edge ≤ s.graph.Edge
  derivable : ∀ E, g.Edge ≤ E → g.ClosedUnder E → s.graph.Edge ≤ E
  waiting   : ∀ id, id ∈ s.pending.toList ∨ id ∈ todo → g.Reached id ∧ g.isPush id = false
  settled   : ∀ id, g.Reached id → g.isPush id = false → id ∉ s.pending.toList → id ∉ todo →
    Settled s.graph id
  nodup     : s.pending.toList.Nodup

variable {g : EffectGraph} {todo : List Nat} {id : Nat}

/-- The rules lead from nodes that are reached to such nodes only. -/
lemma closedUnder_reached (g : EffectGraph) :
    g.ClosedUnder fun a b => g.Reached a → g.Reached b := by
  intro id _ u n hpass hu
  cases hpass with
  | pop _ hitem _ hunder hchild => exact hchild (hitem (hunder hu))
  | assert _ hitem _ hchild => exact hchild (hitem hu)

lemma Underway.reached (h : Underway g s todo) {a b : Nat} (hedge : s.graph.Edge a b)
    (ha : g.Reached a) : g.Reached b :=
  h.derivable (fun a b => g.Reached a → g.Reached b) (fun _ _ hedge ha => ha.tail hedge)
    (closedUnder_reached g) a b hedge ha

/-- A node that finds nothing waits for the next pass. -/
lemma Underway.wait (h : Underway g s (id :: todo)) :
    Underway g { s with pending := s.pending.insert id } todo where
  nodes     := h.nodes
  mirrored  := h.mirrored
  grown     := h.grown
  derivable := h.derivable
  waiting   := by
    intro other hother
    apply h.waiting
    rw [List.mem_cons]
    rw [IdSet.mem_toList_insert] at hother
    tauto
  settled   := by
    intro other hreached hpush hpending htodo
    rw [IdSet.mem_toList_insert, not_or] at hpending
    apply h.settled other hreached hpush hpending.2
    rw [List.mem_cons, not_or]
    exact ⟨hpending.1, htodo⟩
  nodup     := IdSet.nodup_toList_insert h.nodup id

/-- A node that finds something goes on. -/
lemma Underway.advance (h : Underway g s (id :: todo))
    (hmatched : isMatched s.graph id = true) : Underway g (s.advance id) todo := by
  obtain ⟨hreached, hpush⟩ := h.waiting id (Or.inr List.mem_cons_self)
  have hpush' : ∀ {x}, g.isPush x = false → s.graph.isPush x = false := fun hx =>
    (h.nodes.isPush _).trans hx
  have hst := grows_advance h.mirrored (hpush' hpush)
  refine ⟨h.nodes.trans hst.nodes, hst.mirrored, ?_, ?_, ?_, ?_, hst.nodup h.nodup⟩
  · intro a b hedge
    exact (hst.edge a b).mpr (Or.inl (h.grown a b hedge))
  · intro E hE hclosed a b hedge
    rcases (hst.edge a b).mp hedge with hold | hnew
    · exact h.derivable E hE hclosed a b hold
    · exact hclosed id hreached a b (h.nodes.symm.passes (hnew.mono (h.derivable E hE hclosed)))
  · rintro other (hother | hother)
    · rcases (hst.pending other).mp hother with hold | ⟨hother, item, -, hnew, -⟩
      · exact h.waiting other (Or.inl hold)
      · exact ⟨h.reached hnew.child hreached, (h.nodes.isPush other).symm.trans hother⟩
    · exact h.waiting other (Or.inr (List.mem_cons_of_mem id hother))
  · intro other hother hotherPush hpending htodo
    rw [hst.pending, not_or] at hpending
    by_cases heq : other = id
    · subst heq
      exact settled_of_grows hst (hpush' hpush) ((isMatched_iff h.mirrored).mp hmatched) hpending.2
    · apply Settled.of_grows hst _ (hpush' hotherPush) hpending.2
      apply h.settled other hother hotherPush hpending.1
      rw [List.mem_cons, not_or]
      exact ⟨heq, htodo⟩

lemma visit_of_isMatched (hmatched : isMatched s.graph id = true) (found : Bool) :
    visit (s, found) id = (s.advance id, true) := if_pos hmatched

lemma visit_of_not_isMatched (hmatched : isMatched s.graph id = false) (found : Bool) :
    visit (s, found) id = ({ s with pending := s.pending.insert id }, found) :=
  if_neg (Bool.eq_false_iff.mp hmatched)

lemma Underway.visit (h : Underway g s (id :: todo)) (found : Bool) :
    Underway g (Resolution.visit (s, found) id).1 todo := by
  cases hmatched : isMatched s.graph id with
  | true =>
    rw [visit_of_isMatched hmatched]
    exact h.advance hmatched
  | false =>
    rw [visit_of_not_isMatched hmatched]
    exact h.wait

/-- A run of visits gets through what is to be done. -/
lemma Underway.visits (h : Underway g s todo) (found : Bool) :
    Underway g (todo.foldl Resolution.visit (s, found)).1 [] := by
  induction todo generalizing s found with
  | nil => exact h
  | cons id todo ih => exact ih (h.visit found) _

lemma visits_true (s : Resolution) (todo : List Nat) : (todo.foldl visit (s, true)).2 = true := by
  induction todo generalizing s with
  | nil => rfl
  | cons id todo ih =>
    rw [List.foldl_cons]
    cases hmatched : isMatched s.graph id with
    | true => rw [visit_of_isMatched hmatched, ih]
    | false => rw [visit_of_not_isMatched hmatched, ih]

/-- A run of visits that finds nothing changes no edge, and all that was to be done waits again. -/
lemma visits_eq_false {found : Bool} (h : todo.foldl visit (s, found) = (t, false)) :
    (∀ id ∈ todo, isMatched s.graph id = false) ∧ t.graph = s.graph ∧
      t.pending = s.pending.insertAll todo := by
  induction todo generalizing s found with
  | nil =>
    simp only [List.foldl_nil, Prod.mk.injEq] at h
    rw [← h.1]
    exact ⟨by simp, rfl, rfl⟩
  | cons id todo ih =>
    rw [List.foldl_cons] at h
    cases hmatched : isMatched s.graph id with
    | true =>
      have htrue := visits_true (s.advance id) todo
      rw [visit_of_isMatched hmatched] at h
      rw [h] at htrue
      cases htrue
    | false =>
      rw [visit_of_not_isMatched hmatched] at h
      obtain ⟨hrest, hgraph, hpending⟩ := ih h
      refine ⟨?_, hgraph, hpending⟩
      intro other hother
      rcases List.mem_cons.mp hother with rfl | hother
      · exact hmatched
      · exact hrest other hother

/-- Resolution in which every pass looks at the pending nodes in an order of its own. -/
inductive Settles : Resolution → Resolution → Prop where
  | idle {s : Resolution} (hempty : s.pending.toList = []) : Settles s s
  | stuck {s t : Resolution} {order : List Nat} (horder : order.Perm s.pending.toList)
      (hpass : order.foldl visit ({ s with pending := .empty }, false) = (t, false)) : Settles s t
  | next {s t r : Resolution} {order : List Nat} (horder : order.Perm s.pending.toList)
      (hpass : order.foldl visit ({ s with pending := .empty }, false) = (t, true))
      (hrest : Settles t r) : Settles s r

/-- The order in which nodes came to wait is one of the orders. -/
lemma settles_of_settle {passes : Nat} (h : s.settle passes = some t) : Settles s t := by
  induction passes generalizing s with
  | zero =>
    unfold settle at h
    split at h
    · rename_i hempty
      cases h
      exact .idle (IdSet.isEmpty_iff.mp hempty)
    · cases h
  | succ passes ih =>
    unfold settle at h
    split at h
    · rename_i hempty
      cases h
      exact .idle (IdSet.isEmpty_iff.mp hempty)
    · split at h
      · rename_i r hpass
        exact .next (List.Perm.refl _) hpass (ih h)
      · rename_i r hpass
        cases h
        exact .stuck (List.Perm.refl _) hpass

/-- A pass begins with all that was waiting to be done. -/
lemma Underway.begin {order : List Nat} (h : Underway g s [])
    (horder : order.Perm s.pending.toList) : Underway g { s with pending := .empty } order where
  nodes     := h.nodes
  mirrored  := h.mirrored
  grown     := h.grown
  derivable := h.derivable
  waiting   := by
    rintro id (hid | hid)
    · simp at hid
    · exact h.waiting id (Or.inl (horder.mem_iff.mp hid))
  settled   := by
    intro id hreached hpush _ htodo
    exact h.settled id hreached hpush (fun hid => htodo (horder.mem_iff.mpr hid)) (by simp)
  nodup     := List.nodup_nil

lemma Underway.settles (h : Underway g s []) (hst : Settles s t) :
    Underway g t [] ∧ ∀ id ∈ t.pending.toList, isMatched t.graph id = false := by
  induction hst with
  | idle hempty => exact ⟨h, by simp [hempty]⟩
  | @stuck s t order horder hpass =>
    have hend := (h.begin horder).visits false
    rw [hpass] at hend
    obtain ⟨hunmatched, hgraph, hpending⟩ := visits_eq_false hpass
    refine ⟨hend, ?_⟩
    intro id hid
    rw [hpending, IdSet.mem_toList_insertAll] at hid
    rw [hgraph]
    exact hunmatched id (hid.resolve_left (by simp))
  | @next s t r order horder hpass _ ih =>
    have hend := (h.begin horder).visits false
    rw [hpass] at hend
    exact ih hend

lemma underway_start (hm : g.Mirrored) : Underway g (start g) [] where
  nodes     := SameNodes.refl g
  mirrored  := hm
  grown     := le_refl _
  derivable := fun E hE _ => hE
  waiting   := by
    rintro id (hid | hid)
    · simpa [start, IdSet.mem_toList_ofList, mem_reachable_iff hm] using hid
    · simp at hid
  settled   := by
    intro id hreached hpush hpending _
    exact absurd (by simp [start, IdSet.mem_toList_ofList, mem_reachable_iff hm, hreached, hpush])
      hpending
  nodup     := IdSet.nodup_toList_ofList _

end Resolution

namespace EffectGraph

/-- The graph `h` has the nodes of `g` and the edges that the rules come to, and `stuck` has the
nodes for which nothing suits among them. -/
structure Saturated (g h : EffectGraph) (stuck : List Nat) : Prop where
  nodes    : g.SameNodes h
  mirrored : h.Mirrored
  least    : IsLeast {E | g.Edge ≤ E ∧ g.ClosedUnder E} h.Edge
  nodup    : stuck.Nodup
  stuck    : ∀ id, id ∈ stuck ↔
    g.Reached id ∧ g.isPush id = false ∧ ∀ item, h.Edge item id → g.suits item id = false

variable {g h : EffectGraph}

lemma saturated_of_settles {t : Resolution} (hm : g.Mirrored)
    (hst : (Resolution.start g).Settles t) : g.Saturated t.graph t.pending.toList := by
  obtain ⟨hend, hunmatched⟩ := (Resolution.underway_start hm).settles hst
  have hnone : ∀ id ∈ t.pending.toList, ∀ item, t.graph.Edge item id →
      g.suits item id = false := by
    intro id hid item hitem
    by_contra hsuits
    have hmatched := (isMatched_iff hend.mirrored).mpr
      ⟨item, hitem, (hend.nodes.suits item id).trans (Bool.eq_true_of_not_eq_false hsuits)⟩
    rw [hunmatched id hid] at hmatched
    cases hmatched
  refine ⟨hend.nodes, hend.mirrored, ⟨⟨hend.grown, ?_⟩, ?_⟩, hend.nodup, ?_⟩
  · intro id hreached u n hpass
    obtain ⟨item, hitem, hsuits⟩ := hpass.exists_suits
    have hpush : g.isPush id = false := by
      cases hpass with
      | pop heffect => exact isPush_eq_false_of_effect? heffect rfl
      | assert heffect => exact isPush_eq_false_of_effect? heffect rfl
    have hpending : id ∉ t.pending.toList := by
      intro hid
      rw [hnone id hid item hitem] at hsuits
      cases hsuits
    exact (hend.settled id hreached hpush hpending (by simp)).closed u n (hend.nodes.passes hpass)
  · rintro E ⟨hE, hclosed⟩
    exact hend.derivable E hE hclosed
  · intro id
    constructor
    · intro hid
      obtain ⟨hreached, hpush⟩ := hend.waiting id (Or.inl hid)
      exact ⟨hreached, hpush, hnone id hid⟩
    · rintro ⟨hreached, hpush, hnothing⟩
      by_contra hid
      obtain ⟨item, hitem, hsuits⟩ := (hend.settled id hreached hpush hid (by simp)).suited
      rw [hend.nodes.suits, hnothing item hitem] at hsuits
      cases hsuits

lemma settles_of_resolve {passes : Nat} {resolved : Resolved}
    (h : g.resolve passes = .ok resolved) :
    ∃ t, (Resolution.start g).Settles t ∧ resolved.graph = t.graph ∧
      resolved.stuck.Perm t.pending.toList := by
  unfold resolve at h
  split at h
  · rename_i t hsettle
    cases h
    exact ⟨t, Resolution.settles_of_settle hsettle, rfl, List.mergeSort_perm _ _⟩
  · cases h

lemma saturated_of_resolve {passes : Nat} {resolved : Resolved} (hm : g.Mirrored)
    (h : g.resolve passes = .ok resolved) : g.Saturated resolved.graph resolved.stuck := by
  obtain ⟨t, hst, hgraph, hperm⟩ := settles_of_resolve h
  obtain ⟨hnodes, hmirrored, hleast, hnodup, hstuck⟩ := saturated_of_settles hm hst
  rw [← hgraph] at hnodes hmirrored hleast hstuck
  exact ⟨hnodes, hmirrored, hleast, hperm.nodup_iff.mpr hnodup,
    fun id => hperm.mem_iff.trans (hstuck id)⟩

lemma SameNodes.closedUnder (hgh : SameNodes g h) (hedge : h.Edge = g.Edge)
    {E : Nat → Nat → Prop} : h.ClosedUnder E ↔ g.ClosedUnder E := by
  have hreached : h.Reached = g.Reached := by rw [Reached, Reached, hedge, hgh.root]
  simp only [ClosedUnder, hreached]
  constructor
  · intro hclosed id hid u n hpass
    exact hclosed id hid u n (hgh.passes hpass)
  · intro hclosed id hid u n hpass
    exact hclosed id hid u n (hgh.symm.passes hpass)

/-- Resolving a graph leaves the least set of edges that has the edges of the graph and is closed
under the rules; the stuck nodes are those that are reached, take something and have no parent that
suits them. Neither depends on the order in which edges were entered or nodes are looked at: from
any graph with the same nodes and edges, with the pending nodes of each pass in any order, the same
edges and the same stuck nodes come out. -/
theorem resolve_saturates {passes : Nat} {resolved : Resolved} (hm : g.Mirrored)
    (h : g.resolve passes = .ok resolved) :
    IsLeast {E | g.Edge ≤ E ∧ g.ClosedUnder E} resolved.graph.Edge ∧
    (∀ id, id ∈ resolved.stuck ↔ g.Reached id ∧ g.isPush id = false ∧
      ∀ item, resolved.graph.Edge item id → g.suits item id = false) ∧
    resolved.stuck.Nodup ∧ resolved.graph.Mirrored ∧ g.SameNodes resolved.graph ∧
    ∀ (other : EffectGraph) (t : Resolution), g.SameNodes other → other.Mirrored →
      other.Edge = g.Edge → (Resolution.start other).Settles t →
      t.graph.Edge = resolved.graph.Edge ∧ ∀ id, id ∈ t.pending.toList ↔ id ∈ resolved.stuck := by
  obtain ⟨hnodes, hmirrored, hleast, hnodup, hstuck⟩ := saturated_of_resolve hm h
  refine ⟨hleast, hstuck, hnodup, hmirrored, hnodes, ?_⟩
  intro other t hsame hother hedge hst
  have hend := saturated_of_settles hother hst
  have hleast' := hend.least
  simp only [hedge, hsame.closedUnder hedge] at hleast'
  have hedges : t.graph.Edge = resolved.graph.Edge := hleast'.unique hleast
  refine ⟨hedges, ?_⟩
  intro id
  rw [hend.stuck, hstuck, hedges, Reached, Reached, hedge, hsame.root, hsame.isPush]
  simp only [hsame.suits]

/-- An item, a pop that may be repeated or go back to the item, and an assertion behind the pop. -/
def looping : EffectGraph :=
  let g := (initial.addNode (.push .int) none).2
  let g := (g.addNode (.pop .int) none).2
  let g := (g.addNode (.assert .char) none).2
  ((((g.link g.root 1).link 1 2).link 2 2).link 2 1).link 2 3

theorem looping_saturates :
    looping.Mirrored ∧ ∃ resolved, looping.resolve 5 = .ok resolved ∧ resolved.stuck = [3] ∧
      IsLeast {E | looping.Edge ≤ E ∧ looping.ClosedUnder E} resolved.graph.Edge ∧
      ∀ id, id ∈ resolved.stuck ↔ looping.Reached id ∧ looping.isPush id = false ∧
        ∀ item, resolved.graph.Edge item id → looping.suits item id = false := by
  have hm : looping.Mirrored := by decide
  have hstuck : (looping.resolve 5).toOption.map Resolved.stuck = some [3] := by decide +kernel
  obtain ⟨resolved, hok, hstuck⟩ := exists_ok_of_toOption_map hstuck
  obtain ⟨hleast, hmem, -⟩ := resolve_saturates hm hok
  exact ⟨hm, resolved, hok, hstuck, hleast, hmem⟩

end EffectGraph

end ZeroWidth
