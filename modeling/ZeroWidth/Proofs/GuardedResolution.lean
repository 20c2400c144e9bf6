import ZeroWidth.Proofs.GuardedGraph
import ZeroWidth.Proofs.Saturation

/-!
# Guarded look-ups: resolving the effect graph

In a mirrored graph all ids that nodes mention are those of nodes. Resolution keeps a graph mirrored
and looks only at nodes that are reached, so its guarded form never stops for want of a node.
-/

namespace ZeroWidth

namespace Resolution

open EffectGraph

variable {g : EffectGraph} {s : Resolution} {id item source child : Nat} {todo : List Nat}

/-! ### Edges -/

def startGuarded (g : EffectGraph) : Guarded Resolution := do
  let reached ← g.reachableGuarded
  let taking ← reached.toList.filterM fun id => (g.lookUp id).map fun node => !node.effect.isPush
  .ok ⟨g, IdSet.ofList taking⟩

def enterGuarded (s : Resolution) (source child : Nat) : Guarded Resolution := do
  let childNode ← s.graph.lookUp child
  let sourceNode ← s.graph.lookUp source
  let graph ← s.graph.linkGuarded source child
  .ok (if !childNode.effect.isPush && sourceNode.effect.isPush
      && !childNode.parents.contains source then ⟨graph, s.pending.insert child⟩
    else ⟨graph, s.pending⟩)

def enterAllGuarded (s : Resolution) (sources children : List Nat) : Guarded Resolution :=
  sources.foldlM (fun s source => children.foldlM (fun s child => s.enterGuarded source child) s) s

lemma startGuarded_eq (hm : g.Mirrored) (hroot : g.root < g.size) :
    startGuarded g = .ok (start g) := by
  have hfilter : g.reachable.toList.filterM
      (fun id => (g.lookUp id).map fun node => !node.effect.isPush) =
      .ok (g.reachable.toList.filter fun id => !g.isPush id) := by
    refine Guarded.filterM_eq_ok fun id hid => ?_
    obtain ⟨node, hnode⟩ := exists_node?_of_lt_size
      (((mem_reachable_iff hm).mp hid).lt_size hm hroot)
    rw [lookUp_of_node? hnode, isPush, effect?_of_node? hnode]
    rfl
  rw [startGuarded, hm.reachableGuarded_eq hroot, Guarded.ok_bind, hfilter]
  rfl

lemma enterGuarded_eq (hsource : source < s.graph.size) (hchild : child < s.graph.size) :
    s.enterGuarded source child = .ok (s.enter source child) := by
  obtain ⟨sourceNode, hsourceNode⟩ := exists_node?_of_lt_size hsource
  obtain ⟨childNode, hchildNode⟩ := exists_node?_of_lt_size hchild
  rw [enterGuarded, lookUp_of_node? hchildNode, Guarded.ok_bind, lookUp_of_node? hsourceNode,
    Guarded.ok_bind, linkGuarded_of_lt hsource hchild]
  rw [enter, wakes, isPush, isPush, effect?_of_node? hsourceNode, effect?_of_node? hchildNode,
    parents_of_node? hchildNode]
  rfl

lemma size_enter (s : Resolution) (source child : Nat) :
    (s.enter source child).graph.size = s.graph.size := by
  unfold enter
  split <;> exact size_link s.graph source child

lemma enterAllGuarded_eq {sources children : List Nat} (hsources : ∀ u ∈ sources, u < s.graph.size)
    (hchildren : ∀ n ∈ children, n < s.graph.size) :
    s.enterAllGuarded sources children = .ok (s.enterAll sources children) := by
  have hkept : ∀ t : Resolution, t.graph.size = s.graph.size → ∀ source,
      (children.foldl (fun t child => t.enter source child) t).graph.size = s.graph.size :=
    fun t ht source => List.foldlRecOn (motive := fun t : Resolution => t.graph.size = s.graph.size)
      _ _ ht fun t ht child _ => (size_enter t source child).trans ht
  refine Guarded.foldlM_eq_ok (fun t => t.graph.size = s.graph.size) (fun t ht source hsource => ?_)
    (fun t ht source _ => hkept t ht source) rfl
  exact Guarded.foldlM_eq_ok (fun t => t.graph.size = s.graph.size)
    (fun t ht child hchild => enterGuarded_eq (ht ▸ hsources source hsource)
      (ht ▸ hchildren child hchild))
    (fun t ht child _ => (size_enter t source child).trans ht) ht

/-! ### Visits -/

def sourcesGuarded (g : EffectGraph) (effect : Effect) (item : Nat) : Guarded (List Nat) :=
  match effect with
  | .assert _ => .ok [item]
  | _         => (g.lookUp item).map Node.parents

def matchingGuarded (g : EffectGraph) (effect : Effect) (item : Nat) : Guarded Bool :=
  (g.lookUp item).map fun node =>
    match effect.ty?, node.effect.pushed? with
    | some expected, some found => expected.accepts found
    | _,             _          => false

/-- Lets `items` through to `children`. -/
def admitGuarded (s : Resolution) (effect : Effect) (items children : List Nat) :
    Guarded Resolution :=
  items.foldlM (fun s item => do
    let sources ← sourcesGuarded s.graph effect item
    s.enterAllGuarded sources children) s

def visitGuarded (s : Resolution × Bool) (id : Nat) : Guarded (Resolution × Bool) := do
  let node ← s.1.graph.lookUp id
  let items ← node.parents.filterM (matchingGuarded s.1.graph node.effect)
  if items.isEmpty then .ok ({ s.1 with pending := s.1.pending.insert id }, s.2)
  else do
    let s ← s.1.admitGuarded node.effect items node.children
    .ok (s, true)

lemma sourcesGuarded_eq (hitem : item < g.size) (effect : Effect) :
    sourcesGuarded g effect item = .ok (sources g effect item) := by
  obtain ⟨node, hnode⟩ := exists_node?_of_lt_size hitem
  unfold sourcesGuarded sources
  rw [lookUp_of_node? hnode, parents_of_node? hnode]
  cases effect <;> rfl

lemma matchingGuarded_eq (hitem : item < g.size) (effect : Effect) :
    matchingGuarded g effect item = .ok (matching g effect item) := by
  obtain ⟨node, hnode⟩ := exists_node?_of_lt_size hitem
  rw [matchingGuarded, lookUp_of_node? hnode, matching, pushed?, effect?_of_node? hnode]
  rfl

lemma admitGuarded_eq (hm : s.graph.Mirrored) (effect : Effect) {items children : List Nat}
    (hitems : ∀ u ∈ items, u < s.graph.size) (hchildren : ∀ n ∈ children, n < s.graph.size) :
    s.admitGuarded effect items children =
      .ok (items.foldl (fun s item => s.enterAll (sources s.graph effect item) children) s) := by
  have hsources : ∀ t : Resolution, t.graph.Mirrored ∧ t.graph.size = s.graph.size →
      ∀ item ∈ items, ∀ u ∈ sources t.graph effect item, u < t.graph.size :=
    fun t ht item hitem u hu => sources_lt_size ht.1 (ht.2 ▸ hitems item hitem) hu
  refine Guarded.foldlM_eq_ok (fun t => t.graph.Mirrored ∧ t.graph.size = s.graph.size)
    (fun t ht item hitem => ?_) (fun t ht item hitem => ?_) ⟨hm, rfl⟩
  · rw [sourcesGuarded_eq (ht.2 ▸ hitems item hitem)]
    exact enterAllGuarded_eq (hsources t ht item hitem) (ht.2 ▸ hchildren)
  · have hgrows := grows_enterAll ht.1 (hsources t ht item hitem) (ht.2 ▸ hchildren)
    exact ⟨hgrows.mirrored, hgrows.nodes.size.trans ht.2⟩

lemma visitGuarded_eq (hm : s.graph.Mirrored) (hid : id < s.graph.size) (found : Bool) :
    visitGuarded (s, found) id = .ok (visit (s, found) id) := by
  obtain ⟨node, hnode⟩ := exists_node?_of_lt_size hid
  have hparents : ∀ u ∈ node.parents, u < s.graph.size := fun u hu =>
    hm.lt_size_left (hm.edge_iff.mpr (by rwa [parents_of_node? hnode]))
  have hchildren : ∀ n ∈ node.children, n < s.graph.size := fun n hn =>
    hm.lt_size_right (show n ∈ s.graph.children id by rwa [children_of_node? hnode])
  have hitems := Guarded.filterM_eq_ok fun u hu => matchingGuarded_eq (hparents u hu) node.effect
  have hmatched : isMatched s.graph id =
      !(node.parents.filter (matching s.graph node.effect)).isEmpty := by
    rw [isMatched, hnode, Bool.eq_iff_iff]
    simp
  rw [visitGuarded, lookUp_of_node? hnode, Guarded.ok_bind, hitems, Guarded.ok_bind]
  cases hempty : (node.parents.filter (matching s.graph node.effect)).isEmpty with
  | true =>
    rw [visit_of_not_isMatched (by rw [hmatched, hempty]; rfl), if_pos rfl]
  | false =>
    rw [visit_of_isMatched (by rw [hmatched, hempty]; rfl), advance, hnode,
      if_neg Bool.false_ne_true,
      admitGuarded_eq hm node.effect (fun u hu => hparents u (List.mem_filter.mp hu).1) hchildren]
    rfl

/-! ### Passes -/

def passGuarded (s : Resolution) : Guarded (Resolution × Bool) :=
  s.pending.toList.foldlM visitGuarded ({ s with pending := .empty }, false)

def settleGuarded : (passes : Nat) → Resolution → Guarded (Option Resolution)
  | 0,          s => .ok (if s.pending.isEmpty then some s else none)
  | passes + 1, s =>
    if s.pending.isEmpty then .ok (some s)
    else do
      match ← s.passGuarded with
      | (s, true)  => settleGuarded passes s
      | (s, false) => .ok (some s)

/-- Resolution brings no node into reach. -/
lemma Underway.reached_iff (h : Underway g s todo) : s.graph.Reached id ↔ g.Reached id := by
  rw [EffectGraph.Reached, h.nodes.root]
  constructor
  · intro hid
    induction hid with
    | refl => exact .refl
    | tail _ hedge ih => exact h.reached hedge ih
  · exact Relation.ReflTransGen.mono h.grown _ _

lemma Underway.lt_size (h : Underway g s todo) (hroot : g.root < g.size)
    (hid : id ∈ s.pending.toList ∨ id ∈ todo) : id < s.graph.size :=
  (h.reached_iff.mpr (h.waiting id hid).1).lt_size h.mirrored (h.nodes.root ▸ h.nodes.size ▸ hroot)

lemma Underway.visitsGuarded_eq (h : Underway g s todo) (hroot : g.root < g.size)
    (found : Bool) :
    todo.foldlM visitGuarded (s, found) = .ok (todo.foldl Resolution.visit (s, found)) := by
  induction todo generalizing s found with
  | nil => rfl
  | cons id todo ih =>
    rw [List.foldlM_cons,
      visitGuarded_eq h.mirrored (h.lt_size hroot (Or.inr List.mem_cons_self))]
    exact ih (h.visit found) _

lemma Underway.passGuarded_eq (h : Underway g s []) (hroot : g.root < g.size) :
    s.passGuarded = .ok s.pass :=
  (h.begin (List.Perm.refl _)).visitsGuarded_eq hroot false

lemma Underway.pass (h : Underway g s []) : Underway g s.pass.1 [] :=
  (h.begin (List.Perm.refl _)).visits false

lemma Underway.settleGuarded_eq (h : Underway g s []) (hroot : g.root < g.size) (passes : Nat) :
    s.settleGuarded passes = .ok (s.settle passes) := by
  induction passes generalizing s with
  | zero => rfl
  | succ passes ih =>
    unfold settleGuarded settle
    split
    · rfl
    · rw [h.passGuarded_eq hroot]
      cases hpass : s.pass with
      | mk t found =>
        have ht : Underway g t [] := by
          have hend := h.pass
          rwa [hpass] at hend
        cases found with
        | true => exact ih ht
        | false => rfl

end Resolution

namespace EffectGraph

/-! ### Stuck nodes -/

/-- The order of stuck nodes, by where they start and by id. -/
def keyBefore (a b : Option Cursor × Nat) : Bool :=
  match a.1, b.1 with
  | none,   none   => a.2 ≤ b.2
  | none,   some _ => true
  | some _, none   => false
  | some p, some q => p < q || (p = q && a.2 ≤ b.2)

def resolveGuarded (g : EffectGraph) (passes : Nat) : Guarded Resolved := do
  let s ← Resolution.startGuarded g
  match ← s.settleGuarded passes with
  | some s => do
    let keys ← s.pending.toList.mapM fun id => (s.graph.lookUp id).map fun node =>
      (node.origin.map fun o => o.span.start, id)
    .ok ⟨s.graph, (keys.mergeSort keyBefore).map Prod.snd⟩
  | none   => .error (.failure (.iterationLimit passes))

lemma mapM_keys {g : EffectGraph} {ids : List Nat} (hids : ∀ id ∈ ids, id < g.size) :
    ids.mapM (fun id => (g.lookUp id).map fun node => (node.origin.map fun o => o.span.start, id)) =
      .ok (ids.map fun id => (g.startOf id, id)) := by
  refine Guarded.mapM_eq_ok fun id hid => ?_
  obtain ⟨node, hnode⟩ := exists_node?_of_lt_size (hids id hid)
  rw [lookUp_of_node? hnode, startOf, origin?_of_node? hnode]
  rfl

lemma map_snd_mergeSort_keys (g : EffectGraph) (ids : List Nat) :
    ((ids.map fun id => (g.startOf id, id)).mergeSort keyBefore).map Prod.snd =
      ids.mergeSort g.reportedBefore := by
  have hsort : (ids.mergeSort g.reportedBefore).map (fun id => (g.startOf id, id)) =
      (ids.map fun id => (g.startOf id, id)).mergeSort keyBefore :=
    List.map_mergeSort fun a _ b _ => rfl
  rw [← hsort, List.map_map]
  exact List.map_id _

lemma Mirrored.resolveGuarded_eq {g : EffectGraph} (hm : g.Mirrored) (hroot : g.root < g.size)
    (passes : Nat) : g.resolveGuarded passes = .of (g.resolve passes) := by
  have hstart := Resolution.underway_start hm
  rw [resolveGuarded, Resolution.startGuarded_eq hm hroot, Guarded.ok_bind,
    hstart.settleGuarded_eq hroot, Guarded.ok_bind, resolve]
  cases hsettle : (Resolution.start g).settle passes with
  | none => rfl
  | some s =>
    have hend := (hstart.settles (Resolution.settles_of_settle hsettle)).1
    dsimp only
    rw [mapM_keys fun id hid => hend.lt_size hroot (Or.inl hid), Guarded.ok_bind,
      map_snd_mergeSort_keys]
    rfl

end EffectGraph

end ZeroWidth
