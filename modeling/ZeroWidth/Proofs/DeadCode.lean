import ZeroWidth.Proofs.Checkable
import ZeroWidth.Proofs.Liveness
import ZeroWidth.Proofs.Lockstep
import ZeroWidth.Proofs.Numbering
import ZeroWidth.Proofs.Placing

/-!
# Dead code and the report

A branch that control never gets to has nodes like any other, with numbers in between those of other
branches and types of its own in the registry. But it is not stitched to anything. Two programs with
the same ways for control, and the same operations wherever control gets to, have graphs that are in
step on the nodes of live branches: so whatever their dead code is, the two are resolved together,
and the same is reported about them.
-/

namespace ZeroWidth

namespace Branches

variable {b b' : Branches}

/-- Where control goes from each branch: where it jumps or calls to, where it falls through to, and
whether it calls or returns. -/
def outline (b : Branches) : List (Option Nat × Option Nat × Bool × Bool) :=
  b.arena.toList.map fun branch => (branch.target, branch.next, branch.calls, branch.returns)

lemma getD_outline (b : Branches) (id : Nat) :
    b.outline[id]?.getD (none, none, false, false) =
      ((b.get id).target, (b.get id).next, (b.get id).calls, (b.get id).returns) := by
  rw [outline, List.getElem?_map, Arena.toList, Array.getElem?_toList, get, Arena.get?]
  cases b.arena.entries[id]? <;> rfl

lemma sameWays_of_outline (h : b'.outline = b.outline) : b.SameWays b' := by
  have hget : ∀ id, _ := fun id => (getD_outline b' id).symm.trans (h ▸ getD_outline b id)
  simp only [Prod.mk.injEq] at hget
  exact ⟨by simpa [outline, Arena.toList, size, Arena.size] using congrArg List.length h,
    fun id => (hget id).1, fun id => (hget id).2.1, fun id => (hget id).2.2.1,
    fun id => (hget id).2.2.2⟩

end Branches

namespace EffectGraph

variable {g g' h : EffectGraph} {b : Branches} {strict : Bool} {r r' : Registry}
  {items items' : Nat → List (Effect × Origin)} {id k n count : Nat}

/-! ### Chains that are not stitched -/

/-- What new nodes, links and fragments keep. -/
structure Kept (P : EffectGraph → Prop) : Prop where
  addNode   : ∀ {g} effect origin, P g → P (g.addNode effect origin).2
  link      : ∀ {g} parent child, P g → P (g.link parent child)
  fragments : ∀ {g : EffectGraph} fragments, P g → P { g with fragments }

namespace Kept

variable {P : EffectGraph → Prop} {span span' : Option (Nat × Nat)}

lemma extend (hP : Kept P) (hg : P g) (span : Option (Nat × Nat)) (effect : Effect)
    (origin : Origin) : P (g.extend span effect origin).1 := by
  cases span with
  | none => exact hP.addNode effect _ hg
  | some ends => exact hP.link _ _ (hP.addNode effect _ hg)

lemma foldl_extend (hP : Kept P) (hg : P g) (span : Option (Nat × Nat)) (effects : List Effect)
    (origin : Origin) :
    P (effects.foldl (fun (g, span) effect => g.extend span effect origin) (g, span)).1 := by
  induction effects generalizing g span with
  | nil => exact hg
  | cons effect effects ih => exact ih (hP.extend hg span effect origin) _

lemma addOperations (hP : Kept P) {ops : List Operation} (hg : P g)
    (hadd : addOperations strict g r span ops = .ok (h, r', span')) : P h := by
  induction ops generalizing g r span with
  | nil =>
    cases hadd
    exact hg
  | cons op ops ih =>
    obtain ⟨⟨effects, r₁⟩, -, hadd⟩ := exists_of_bind_eq_ok hadd
    exact ih (hP.foldl_extend hg span effects op.origin) hadd

lemma addBranches (hP : Kept P) {branches : List (Nat × Branch)} (hg : P g)
    (hadd : addBranches strict g r branches = .ok (h, r')) : P h := by
  induction branches generalizing g r with
  | nil =>
    cases hadd
    exact hg
  | cons entry branches ih =>
    obtain ⟨⟨g₁, r₁, span⟩, hops, hadd⟩ := exists_of_bind_eq_ok hadd
    have hg₁ := hP.addOperations hg hops
    cases span with
    | none => exact ih hg₁ hadd
    | some ends => exact ih (hP.fragments _ hg₁) hadd

end Kept

/-- No edge is entered twice, and the root stems from no operation. -/
structure Plain (g : EffectGraph) : Prop where
  nodup : ∀ {n node}, g.node? n = some node → node.parents.Nodup ∧ node.children.Nodup
  size  : 0 < g.size
  root  : g.origin? 0 = none

lemma nodup_appendNew {ids : List Nat} (h : ids.Nodup) (id : Nat) : (appendNew ids id).Nodup := by
  unfold appendNew
  split
  · exact h
  · rename_i hid
    exact List.nodup_append.mpr ⟨h, by simp, fun a ha b hb hab => hid (by simp_all)⟩

lemma plain_initial : initial.Plain := by
  refine ⟨fun {n node} hnode => ?_, by decide, rfl⟩
  rw [node?_initial] at hnode
  split at hnode
  · cases hnode
    exact ⟨List.nodup_nil, List.nodup_nil⟩
  · cases hnode

lemma kept_plain : Kept Plain where
  addNode {g} effect origin hg := by
    have hsize := hg.size
    refine ⟨fun {n node} hnode => ?_, by rw [size_addNode]; omega, ?_⟩
    · rw [node?_addNode] at hnode
      split at hnode
      · cases hnode
        exact ⟨List.nodup_nil, List.nodup_nil⟩
      · exact hg.nodup hnode
    · rw [origin?, node?_addNode, if_neg hsize.ne]
      exact hg.root
  link {g} parent child hg := by
    have hsame := g.sameNodes_link parent child
    refine ⟨fun {n node} hnode => ?_, hsame.size ▸ hg.size, (hsame.origin _).trans hg.root⟩
    · rw [node?_link, Option.map_eq_some_iff] at hnode
      obtain ⟨node, hnode, rfl⟩ := hnode
      obtain ⟨hparents, hchildren⟩ := hg.nodup hnode
      dsimp only
      constructor
      · split
        · exact nodup_appendNew hparents parent
        · exact hparents
      · split
        · exact nodup_appendNew hchildren child
        · exact hchildren
  fragments _ hg := ⟨hg.nodup, hg.size, hg.root⟩

/-- The chains of branches before they are stitched together: every node is linked to the one
behind it in its branch. -/
structure Strung (g : EffectGraph) (items : Nat → List (Effect × Origin)) (count : Nat) : Prop where
  plain    : g.Plain
  numbered : g.Numbered items count
  beyond   : ∀ {id}, count ≤ id → items id = []
  mirrored : g.Mirrored
  root     : g.root = 0
  bottom   : g.effect? 0 = some (.push .never)
  item     : ∀ {id k item}, (items id)[k]? = some item →
    g.effect? (nodeAt items id k) = some item.1 ∧ g.origin? (nodeAt items id k) = some item.2
  edge_iff : ∀ {a c}, g.Edge a c ↔
    ∃ id k, k + 1 < (items id).length ∧ a = nodeAt items id k ∧ c = nodeAt items id (k + 1)

/-- A graph is built of chains by linking them. -/
lemma exists_strung_of_build (hb : b.Bounded) (hbuild : build b strict = .ok (g, r)) :
    ∃ g₀ : EffectGraph, g₀.Strung (branchItems b strict r) b.size ∧
      g = g₀.linkEach (g₀.links b) := by
  have hnumbered := numbered_of_build hbuild
  have hitem : ∀ {id k item}, (branchItems b strict r id)[k]? = some item → _ :=
    fun hget => item_of_build hb hbuild hget
  obtain ⟨⟨g₀, r₀⟩, hadd, hbuild⟩ := exists_of_bind_eq_ok hbuild
  cases hbuild
  obtain ⟨hg, hembeds⟩ := fragmented_of_addBranches hadd
  have hrows := inRows_initial.addBranches hadd
  have hsame := sameNodes_linkEach g₀ (g₀.links b)
  rw [← stitch_eq_linkEach] at hsame
  have hnumbered : g₀.Numbered (branchItems b strict r) b.size :=
    ⟨hsame.size.symm.trans hnumbered.size, hsame.fragments.symm.trans hnumbered.fragments⟩
  refine ⟨g₀, ?_, stitch_eq_linkEach g₀ b⟩
  constructor
  case plain => exact kept_plain.addBranches plain_initial hadd
  case numbered => exact hnumbered
  case beyond => exact branchItems_of_size_le
  case mirrored => exact hembeds.mirrored (by decide)
  case root => exact hembeds.root
  case bottom => exact hembeds.effect rfl
  case item =>
    intro id k item hget
    rw [← hsame.effect, ← hsame.origin]
    exact hitem hget
  case edge_iff =>
    intro a c
    constructor
    · intro hedge
      obtain ⟨rfl, row, hrow, hle, hle'⟩ := hrows.edge hedge
      obtain ⟨f, hf, rfl⟩ := List.mem_map.mp (by simpa [rows] using hrow)
      obtain ⟨hpos, hf⟩ := eq_of_fragmentAt (hnumbered.mem_fragments.mp hf).2
      rw [hf, Fragment.row] at hle hle'
      simp only [nodeAt] at hle hle' ⊢
      exact ⟨f.branch, a - firstNode (branchItems b strict r) f.branch, by omega, by omega,
        by omega⟩
    · rintro ⟨id, k, hk, rfl, rfl⟩
      have hf := (hnumbered.fragment?_eq (fun _ => branchItems_of_size_le) id).trans
        (fragmentAt_of_lt hk)
      exact (hg.chain _ (mem_of_fragment? hf).1).edge hk

/-! ### Nodes of live branches -/

/-- The roots correspond, and the nodes of the same effect of a live branch. -/
inductive Alongside (b : Branches) (items items' : Nat → List (Effect × Origin)) :
    Nat → Nat → Prop
  | root : Alongside b items items' 0 0
  | node {id k : Nat} (hlive : b.Live id) (hk : k < (items id).length) :
      Alongside b items items' (nodeAt items id k) (nodeAt items' id k)

lemma keepsOrder_alongside
    (hlength : ∀ {id}, b.Live id → (items id).length = (items' id).length) :
    KeepsOrder (Alongside b items items') := by
  intro a a' c c' ha hc
  cases ha with
  | root =>
    cases hc with
    | root => rfl
    | @node id k => exact iff_of_true (root_lt_nodeAt items id k).le (root_lt_nodeAt items' id k).le
  | @node id k hlive hk =>
    cases hc with
    | root =>
      exact iff_of_false (root_lt_nodeAt items id k).not_ge (root_lt_nodeAt items' id k).not_ge
    | @node id₁ k₁ hlive₁ hk₁ =>
      -- dead branches in between move nodes apart, but never past each other
      rcases Nat.lt_trichotomy id id₁ with hlt | rfl | hlt
      · exact iff_of_true (nodeAt_lt_nodeAt (Or.inl hlt) hk).le
          (nodeAt_lt_nodeAt (Or.inl hlt) (hlength hlive ▸ hk)).le
      · rw [nodeAt, nodeAt, nodeAt, nodeAt, Nat.add_le_add_iff_left, Nat.add_le_add_iff_left]
      · exact iff_of_false (nodeAt_lt_nodeAt (Or.inl hlt) hk₁).not_ge
          (nodeAt_lt_nodeAt (Or.inl hlt) (hlength hlive₁ ▸ hk₁)).not_ge

section InStep

variable {R : Nat → Nat → Prop} {l l' : List Nat} {a a' : Nat} {p : Prop}

lemma eq_singleton_of_mem_iff (hnodup : l.Nodup) (hl : ∀ c, c ∈ l ↔ c = a) : l = [a] := by
  simp only [← List.mem_singleton] at hl
  have hperm := (List.perm_ext_iff_of_nodup hnodup (List.nodup_singleton a)).mpr hl
  exact List.perm_singleton.mp hperm

/-- Lists that hold at most one id, and do so together. -/
lemma forall₂_of_mem_iff (hnodup : l.Nodup) (hnodup' : l'.Nodup) (hl : ∀ c, c ∈ l ↔ p ∧ c = a)
    (hl' : ∀ c, c ∈ l' ↔ p ∧ c = a') (hR : p → R a a') : List.Forall₂ R l l' := by
  by_cases hp : p
  · simp only [hp, true_and] at hl hl'
    rw [eq_singleton_of_mem_iff hnodup hl, eq_singleton_of_mem_iff hnodup' hl']
    exact .cons (hR hp) .nil
  · simp only [hp, false_and, iff_false] at hl hl'
    rw [List.eq_nil_iff_forall_not_mem.mpr hl, List.eq_nil_iff_forall_not_mem.mpr hl']
    exact .nil

/-- Nodes are in step if all that can be asked of them is. -/
lemma exists_inStep {n' : Nat} {effect effect' : Effect} (heffect : g.effect? n = some effect)
    (heffect' : g'.effect? n' = some effect') (halike : Effect.Alike r r' effect effect')
    (horigin : g.origin? n = g'.origin? n')
    (hparents : List.Forall₂ R (g.parents n) (g'.parents n'))
    (hchildren : List.Forall₂ R (g.children n) (g'.children n')) :
    ∃ node node', g.node? n = some node ∧ g'.node? n' = some node' ∧ node.InStep R r r' node' := by
  obtain ⟨node, hnode, rfl⟩ := Option.map_eq_some_iff.mp heffect
  obtain ⟨node', hnode', rfl⟩ := Option.map_eq_some_iff.mp heffect'
  simp only [origin?, parents, children, hnode, hnode', Option.bind_some, Option.map_some,
    Option.getD_some] at horigin hparents hchildren
  exact ⟨node, node', hnode, hnode', halike, horigin, hparents, hchildren⟩

end InStep

namespace Strung

lemma nodup_parents (hg : g.Strung items count) (n : Nat) : (g.parents n).Nodup := by
  rw [parents]
  cases hnode : g.node? n with
  | none => exact List.nodup_nil
  | some node => exact (hg.plain.nodup hnode).1

lemma nodup_children (hg : g.Strung items count) (n : Nat) : (g.children n).Nodup := by
  rw [children]
  cases hnode : g.node? n with
  | none => exact List.nodup_nil
  | some node => exact (hg.plain.nodup hnode).2

lemma mem_children_nodeAt (hg : g.Strung items count) (hk : k < (items id).length) {c : Nat} :
    c ∈ g.children (nodeAt items id k) ↔
      k + 1 < (items id).length ∧ c = nodeAt items id (k + 1) := by
  rw [show c ∈ g.children _ ↔ _ from hg.edge_iff]
  constructor
  · rintro ⟨id₁, k₁, hk₁, heq, rfl⟩
    obtain ⟨rfl, rfl⟩ := nodeAt_inj hk (Nat.lt_of_succ_lt hk₁) heq
    exact ⟨hk₁, rfl⟩
  · rintro ⟨hk, rfl⟩
    exact ⟨id, k, hk, rfl, rfl⟩

lemma mem_parents_nodeAt (hg : g.Strung items count) (hk : k < (items id).length) {a : Nat} :
    a ∈ g.parents (nodeAt items id k) ↔ 0 < k ∧ a = nodeAt items id (k - 1) := by
  rw [← hg.mirrored, show _ ∈ g.children a ↔ _ from hg.edge_iff]
  constructor
  · rintro ⟨id₁, k₁, hk₁, rfl, heq⟩
    obtain ⟨rfl, rfl⟩ := nodeAt_inj hk hk₁ heq
    exact ⟨Nat.succ_pos k₁, rfl⟩
  · rintro ⟨hpos, rfl⟩
    exact ⟨id, k - 1, by omega, rfl, by rw [Nat.sub_add_cancel hpos]⟩

lemma children_root (hg : g.Strung items count) : g.children 0 = [] := by
  refine List.eq_nil_iff_forall_not_mem.mpr fun c hc => ?_
  obtain ⟨id, k, -, hroot, -⟩ := hg.edge_iff.mp hc
  exact (root_lt_nodeAt items id k).ne hroot

lemma parents_root (hg : g.Strung items count) : g.parents 0 = [] := by
  refine List.eq_nil_iff_forall_not_mem.mpr fun a ha => ?_
  obtain ⟨id, k, -, -, hroot⟩ := hg.edge_iff.mp ((hg.mirrored a 0).mpr ha)
  exact (root_lt_nodeAt items id (k + 1)).ne hroot

/-- The chains of live branches are in step, if these have alike effects. -/
lemma inStep (hg : g.Strung items count) (hg' : g'.Strung items' count)
    (hitems : ∀ {id}, b.Live id → List.Forall₂ (Operation.ItemAlike r r') (items id) (items' id)) :
    g.InStep (Alongside b items items') r r' g' := by
  intro n n' hn
  cases hn with
  | root =>
    have horigin := hg.plain.root.trans hg'.plain.root.symm
    refine exists_inStep hg.bottom hg'.bottom (.push (.builtin (by simp))) horigin ?_ ?_
    · rw [hg.parents_root, hg'.parents_root]
      exact .nil
    · rw [hg.children_root, hg'.children_root]
      exact .nil
  | @node id k hlive hk =>
    have hlength := (hitems hlive).length_eq
    have hk' : k < (items' id).length := hlength ▸ hk
    have hitem := List.getElem?_eq_getElem hk
    obtain ⟨item', hitem', halike⟩ := exists_getElem?_of_forall₂ (hitems hlive) hitem
    obtain ⟨heffect, horigin⟩ := hg.item hitem
    obtain ⟨heffect', horigin'⟩ := hg'.item hitem'
    refine exists_inStep heffect heffect' halike.1 (horigin.trans (halike.2 ▸ horigin'.symm)) ?_ ?_
    · exact forall₂_of_mem_iff (hg.nodup_parents _) (hg'.nodup_parents _)
        (fun _ => hg.mem_parents_nodeAt hk) (fun _ => hg'.mem_parents_nodeAt hk')
        fun _ => .node hlive (by omega)
    · exact forall₂_of_mem_iff (hg.nodup_children _) (hg'.nodup_children _)
        (fun _ => hg.mem_children_nodeAt hk)
        (fun _ => hlength ▸ hg'.mem_children_nodeAt hk') fun hk => .node hlive hk

lemma fragment?_eq (hg : g.Strung items count) (id : Nat) : g.fragment? id = fragmentAt items id :=
  hg.numbered.fragment?_eq (fun _ => hg.beyond) id

end Strung

/-! ### Links between live branches -/

lemma rel_fragmentAt (hlength : (items id).length = (items' id).length) (hlive : b.Live id) :
    Option.Rel (Fragment.InStep (Alongside b items items')) (fragmentAt items id)
      (fragmentAt items' id) := by
  rcases Nat.eq_zero_or_pos (items id).length with hzero | hpos
  · rw [fragmentAt_eq_none_iff.mpr (List.length_eq_zero_iff.mp hzero),
      fragmentAt_eq_none_iff.mpr (List.length_eq_zero_iff.mp (hlength ▸ hzero))]
    exact .none
  · rw [fragmentAt_of_lt hpos, fragmentAt_of_lt (hlength ▸ hpos), ← hlength]
    exact .some ⟨rfl, .node hlive hpos, .node hlive (by omega)⟩

/-- The links from the end of a fragment. -/
def linksBehind (g : EffectGraph) (b : Branches) (f : Fragment) : List (Nat × List Nat) :=
  if b.reachable.contains f.branch then
    (b.flow f.branch).map fun next => (f.tail, g.heads b.flow b.size next)
  else []

/-- What is dead is linked to nothing. -/
lemma linksBehind_of_dead (hb : b.Bounded) {f : Fragment} (hdead : ¬ b.Live f.branch) :
    g.linksBehind b f = [] :=
  if_neg (mt hb.contains_reachable.mp hdead)

namespace Strung

variable (hg : g.Strung items count) (hg' : g'.Strung items' count)
  (hlength : ∀ {id}, b.Live id → (items id).length = (items' id).length)

include hg hg' hlength

lemma rel_fragment? (hlive : b.Live id) :
    Option.Rel (Fragment.InStep (Alongside b items items')) (g.fragment? id) (g'.fragment? id) := by
  rw [hg.fragment?_eq, hg'.fragment?_eq]
  exact rel_fragmentAt (hlength hlive) hlive

lemma through_eq (hlive : b.Live id) : g.through b id = g'.through b id := by
  have hrel := hg.rel_fragment? hg' hlength hlive
  unfold through
  generalize g.fragment? id = f at hrel
  generalize g'.fragment? id = f' at hrel
  cases hrel <;> rfl

/-- Control comes from a live branch to the same first nodes. -/
lemma heads (hb : b.Bounded) (hlive : b.Live id) :
    List.Forall₂ (Alongside b items items') (g.heads b.flow b.size id)
      (g'.heads b.flow b.size id) := by
  have hclosed : ∀ {id next}, b.Live id → next ∈ g.through b id → b.Live next := by
    intro id next hlive hnext
    unfold through at hnext
    split at hnext
    · cases hnext
    · exact hb.live_of_mem_flow hlive hnext
  have hvisited : ∀ other ∈ (depthFirst (g.through b) b.size .empty [id]).toList,
      b.Live other := by
    intro other hother
    obtain hnone | ⟨start, hstart, hleads⟩ := depthFirst_sound b.size .empty [id] hother
    · cases hnone
    · obtain rfl := List.mem_singleton.mp hstart
      clear hother
      induction hleads with
      | refl => exact hlive
      | tail _ hnext ih => exact hclosed ih hnext
  have hhead : ∀ ⦃id id' : Nat⦄, id = id' ∧ b.Live id → Option.Rel (Alongside b items items')
      ((g.fragment? id).map Fragment.head) ((g'.fragment? id').map Fragment.head) := by
    rintro id _ ⟨rfl, hlive⟩
    have hrel := hg.rel_fragment? hg' hlength hlive
    generalize g.fragment? id = f at hrel
    generalize g'.fragment? id = f' at hrel
    cases hrel with
    | none => exact .none
    | some hf => exact .some hf.head
  -- the two searches visit the same branches, all of them live
  have hsame : depthFirst (g.through b) b.size .empty [id] =
      depthFirst (g'.through b) b.size .empty [id] :=
    depthFirst_congr (hg.through_eq hg' hlength) hclosed b.size .empty (by simpa using hlive)
  change List.Forall₂ _
    ((depthFirst (g.through b) b.size .empty [id]).toList.filterMap fun id =>
      (g.fragment? id).map Fragment.head)
    ((depthFirst (g'.through b) b.size .empty [id]).toList.filterMap fun id =>
      (g'.fragment? id).map Fragment.head)
  rw [← hsame]
  exact List.rel_filterMap hhead (List.forall₂_same.mpr fun other hother =>
    ⟨rfl, hvisited other hother⟩)

lemma linksBehind (hb : b.Bounded) {f f' : Fragment}
    (hf : f.InStep (Alongside b items items') f') (hlive : b.Live f.branch) :
    List.Forall₂ (LinksInStep (Alongside b items items')) (g.linksBehind b f)
      (g'.linksBehind b f') := by
  have hreached : b.reachable.contains f.branch = true := hb.contains_reachable.mpr hlive
  rw [EffectGraph.linksBehind, EffectGraph.linksBehind, ← hf.branch, if_pos hreached,
    if_pos hreached, List.forall₂_map_left_iff, List.forall₂_map_right_iff, List.forall₂_same]
  exact fun next hnext =>
    ⟨hf.tail, hg.heads hg' hlength hb (hb.live_of_mem_flow hlive hnext)⟩

/-- The fragments of live branches are linked in step, and no others are linked. -/
lemma links (hb : b.Bounded) :
    List.Forall₂ (LinksInStep (Alongside b items items')) (g.links b) (g'.links b) := by
  have hroot : Alongside b items items' g.root g'.root := by
    rw [hg.root, hg'.root]
    exact .root
  refine List.rel_append ?_ (.cons ⟨hroot, hg.heads hg' hlength hb .refl⟩ .nil)
  -- both graphs have their fragments in the order of the branches, so that each branch is looked at
  -- in both of them at once; a dead one may have a fragment in one graph only
  change List.Forall₂ _ (g.fragments.flatMap (g.linksBehind b))
    (g'.fragments.flatMap (g'.linksBehind b))
  rw [hg.numbered.fragments, hg'.numbered.fragments, List.filterMap_eq_flatMap_toList,
    List.filterMap_eq_flatMap_toList, List.flatMap_assoc, List.flatMap_assoc]
  refine List.rel_flatMap (List.forall₂_same.mpr fun id _ => rfl) ?_
  rintro id _ rfl
  beta_reduce
  have hbranch : ∀ {items : Nat → List (Effect × Origin)} {f : Fragment},
      fragmentAt items id = some f → f.branch = id := fun hf => by rw [(eq_of_fragmentAt hf).2]
  by_cases hlive : b.Live id
  · have hrel := rel_fragmentAt (hlength hlive) hlive
    have hbranch := @hbranch items
    generalize fragmentAt items id = f at hrel hbranch
    generalize fragmentAt items' id = f' at hrel
    cases hrel with
    | none => exact .nil
    | some hf =>
      rw [Option.toList_some, Option.toList_some, List.flatMap_singleton, List.flatMap_singleton]
      exact hg.linksBehind hg' hlength hb hf (by rwa [hbranch rfl])
  · have hnil : ∀ {g : EffectGraph} {items : Nat → List (Effect × Origin)},
        (fragmentAt items id).toList.flatMap (g.linksBehind b) = [] := by
      intro g items
      refine List.flatMap_eq_nil_iff.mpr fun f hf => linksBehind_of_dead hb ?_
      rwa [hbranch (Option.mem_toList.mp hf)]
    rw [hnil, hnil]
    exact .nil

end Strung

/-! ### Programs with other dead code -/

variable {b' : Branches}

lemma links_of_sameWays (g : EffectGraph) (hways : b.SameWays b') : g.links b' = g.links b := by
  rw [links, links, hways.reachable_eq, hways.flow_eq, hways.size]

lemma forall₂_branchItems (hbuild : build b strict = .ok (g, r))
    (hbuild' : build b' strict = .ok (g', r'))
    (hops : (b'.get id).operations = (b.get id).operations) :
    List.Forall₂ (Operation.ItemAlike r r') (branchItems b strict r id)
      (branchItems b' strict r' id) := by
  rw [branchItems, branchItems, hops]
  exact Operation.forall₂_flatMap_items (fun op hop => settled_of_build hbuild hop)
    fun op hop => settled_of_build hbuild' (hops ▸ hop)

/-- Graphs of programs that have the same live branches are in step. -/
theorem inStep_of_build (hb : b.Bounded) (hb' : b'.Bounded) (hways : b.SameWays b')
    (hops : ∀ {id}, b.Live id → (b'.get id).operations = (b.get id).operations)
    (hbuild : build b strict = .ok (g, r)) (hbuild' : build b' strict = .ok (g', r')) :
    g.InStep (Alongside b (branchItems b strict r) (branchItems b' strict r')) r r' g' ∧
      KeepsOrder (Alongside b (branchItems b strict r) (branchItems b' strict r')) := by
  have hitems : ∀ {id}, b.Live id → List.Forall₂ (Operation.ItemAlike r r')
      (branchItems b strict r id) (branchItems b' strict r' id) :=
    fun hlive => forall₂_branchItems hbuild hbuild' (hops hlive)
  have hlength : ∀ {id}, b.Live id →
      (branchItems b strict r id).length = (branchItems b' strict r' id).length :=
    fun hlive => (hitems hlive).length_eq
  have horder := keepsOrder_alongside hlength
  obtain ⟨g₀, hg, rfl⟩ := exists_strung_of_build hb hbuild
  obtain ⟨g₀', hg', rfl⟩ := exists_strung_of_build hb' hbuild'
  rw [hways.size] at hg'
  rw [links_of_sameWays g₀' hways]
  exact ⟨(hg.inStep hg' hitems).linkEach horder.biUnique (hg.links hg' hlength hb), horder⟩

end EffectGraph

/-- The warnings of a kind. -/
def Report.warningsOf (report : Report) (kind : String) : List TypeWarning :=
  report.warnings.filter fun w => w.caution.kind = kind

lemma EffectGraph.caution_of_mem_unreachableWarnings {g : EffectGraph} {b : Branches}
    {w : TypeWarning} (hw : w ∈ g.unreachableWarnings b) : w.caution = .unreachable := by
  simp only [unreachableWarnings, List.mem_filterMap, Prod.exists] at hw
  obtain ⟨id, branch, -, hw⟩ := hw
  split at hw
  · cases hw
  · obtain ⟨op, -, rfl⟩ := Option.map_eq_some_iff.mp hw
    rfl

lemma warningsOf_report (s : Resolved) (b : Branches) (r : Registry) (strict : Bool) :
    (s.report b r strict).warningsOf "underflow_warn" =
      (s.graph.underflowWarnings (s.report b r strict).errors).filter
        fun w => w.caution.kind = "underflow_warn" := by
  have hunreachable : (s.graph.unreachableWarnings b).filter
      (fun w => w.caution.kind = "underflow_warn") = [] := by
    refine List.filter_eq_nil_iff.mpr fun w hw => ?_
    rw [EffectGraph.caution_of_mem_unreachableWarnings hw]
    decide
  rw [Report.warningsOf, Resolved.report, List.filter_append, hunreachable, List.append_nil]

namespace Program

open EffectGraph

/-- Dead code is not reported on, apart from its being dead. If control goes the same ways in two
programs, and they have the same operations in all branches that control gets to, they are both
given up or both checked, with the same errors and the same warnings about underflows. -/
theorem check_ignores_dead {p p' : Program} {strict strict' : Bool} {b b' : Branches}
    (hops : ∀ op ∈ p.operations, op.WellKinded) (hops' : ∀ op ∈ p'.operations, op.WellKinded)
    (hshallow : ∀ op ∈ p.operations, ¬ op.TooDeep)
    (hshallow' : ∀ op ∈ p'.operations, ¬ op.TooDeep)
    (hstrict : p'.strictness strict' = p.strictness strict)
    (hextract : Branches.extract p.operations = .ok b)
    (hextract' : Branches.extract p'.operations = .ok b') (houtline : b'.outline = b.outline)
    (hlive : ∀ id ∈ b.reachable.toList, (b'.get id).operations = (b.get id).operations)
    (passes : Nat) :
    (∃ failure, p.check strict passes = .error failure ∧
      p'.check strict' passes = .error failure) ∨
    (∃ c c', p.check strict passes = .ok c ∧ p'.check strict' passes = .ok c' ∧
      c.report.errors.map TypeError.finding = c'.report.errors.map TypeError.finding ∧
      c.report.warningsOf "underflow_warn" = c'.report.warningsOf "underflow_warn") := by
  rw [check, check, hstrict]
  generalize p.strictness strict = strict
  have hb := Branches.extract_bounded hextract
  have hb' := Branches.extract_bounded hextract'
  obtain ⟨⟨g, r⟩, hbuild⟩ := (depthChecked_build hops hextract strict).exists_ok hshallow
  obtain ⟨⟨g', r'⟩, hbuild'⟩ := (depthChecked_build hops' hextract' strict).exists_ok hshallow'
  obtain ⟨hstep, horder⟩ := inStep_of_build hb hb'
    (Branches.sameWays_of_outline houtline)
    (fun hid => hlive _ (IdSet.contains_iff.mp (hb.contains_reachable.mpr hid))) hbuild hbuild'
  have hm := mirrored_of_build hbuild
  have hm' := mirrored_of_build hbuild'
  have hroot : Alongside b (branchItems b strict r) (branchItems b' strict r') g.root g'.root := by
    rw [root_of_build hbuild, root_of_build hbuild']
    exact .root
  rcases hstep.resolve horder hroot hm hm' passes with
    ⟨s, s', hresolve, hresolve', hresolved⟩ | ⟨failure, hresolve, hresolve'⟩
  · have hsat := saturated_of_resolve hm hresolve
    have hsat' := saturated_of_resolve hm' hresolve'
    rw [← hsat.nodes.root, ← hsat'.nodes.root] at hroot
    have hreachable :=
      hresolved.graph.reachable horder.biUnique hroot hsat.mirrored hsat'.mirrored
    have hfindings := hresolved.finding_errors b b' strict
    have hspans : (s.report b r strict).errors.map TypeError.span =
        (s'.report b' r' strict).errors.map TypeError.span := by
      have hspans := congrArg (List.map Finding.span) hfindings
      rwa [List.map_map, List.map_map] at hspans
    refine Or.inr ⟨_, _, checkOperations_of_resolve hextract hbuild hresolve,
      checkOperations_of_resolve hextract' hbuild' hresolve', hfindings, ?_⟩
    rw [warningsOf_report, warningsOf_report, hresolved.underflowWarnings_eq hreachable hspans]
  · refine Or.inl ⟨failure, ?_, ?_⟩
    · simp only [checkOperations, hextract, hbuild, hresolve, bind, Except.bind]
    · simp only [checkOperations, hextract', hbuild', hresolve', bind, Except.bind]

/-- One path brings an item to the end and the other does not, where an item is popped and another
one is not of the type that is asserted. In front of the end stands code that nothing leads to. -/
def haunted (dead : List (Instruction × Option Argument)) : Program := .ofOperations
  (Machine.onLines [
    (.push, some (.number 1)),
    (.push, some (.number 2)),
    (.jumpZero, some (.label "end")),
    (.pop, none),
    (.jump, some (.label "end")),
    (.label, some (.label "lost"))]
  ++ dead.map (fun content => ⟨content.1, content.2, .onLine 6 0 1⟩) ++ [
    ⟨.label, some (.label "end"), .onLine 7 0 1⟩,
    ⟨.pop, none, .onLine 8 0 1⟩,
    ⟨.push, some (.number 3), .onLine 9 0 1⟩,
    ⟨.cast, some (.type "Coin"), .onLine 10 0 1⟩,
    ⟨.assert, some (.type "Note"), .onLine 11 0 1⟩])

/-- Code that would shift all numbers of nodes and of types. -/
def ghost : List (Instruction × Option Argument) :=
  [(.push, some (.number 4)), (.cast, some (.type "Ghost")), (.assert, some (.type "Note"))]

theorem haunted_ignores_dead : ∃ c c', (haunted ghost).check false 30 = .ok c ∧
    (haunted []).check false 30 = .ok c' ∧ c.stuck = [12] ∧ c'.stuck = [8] ∧
    c.registry.names.toList = ["Ghost", "Note", "Coin"] ∧
    c'.registry.names.toList = ["Coin", "Note"] ∧
    c.report.warnings = [⟨.mayUnderflow .pop, .onLine 8 0 1⟩, ⟨.unreachable, .onLine 5 0 1⟩] ∧
    c'.report.warnings = [⟨.mayUnderflow .pop, .onLine 8 0 1⟩] ∧
    c.report.errors.map TypeError.finding = c'.report.errors.map TypeError.finding ∧
    c.report.warningsOf "underflow_warn" = c'.report.warningsOf "underflow_warn" := by
  have hcheck : ((haunted ghost).check false 30).toOption.map
      (fun c => decide (c.stuck = [12] ∧ c.registry.names.toList = ["Ghost", "Note", "Coin"] ∧
        c.report.warnings =
          [⟨.mayUnderflow .pop, .onLine 8 0 1⟩, ⟨.unreachable, .onLine 5 0 1⟩])) = some true := by
    decide +kernel
  have hcheck' : ((haunted []).check false 30).toOption.map
      (fun c => decide (c.stuck = [8] ∧ c.registry.names.toList = ["Coin", "Note"] ∧
        c.report.warnings = [⟨.mayUnderflow .pop, .onLine 8 0 1⟩])) = some true := by
    decide +kernel
  have hbranches : (Branches.extract (haunted ghost).operations).toOption.bind (fun b =>
      (Branches.extract (haunted []).operations).toOption.map fun b' =>
        decide (b'.outline = b.outline ∧
          ∀ id ∈ b.reachable.toList, (b'.get id).operations = (b.get id).operations)) =
        some true := by
    decide +kernel
  obtain ⟨c, hcheck, hvalue⟩ := exists_ok_of_toOption_map hcheck
  obtain ⟨c', hcheck', hvalue'⟩ := exists_ok_of_toOption_map hcheck'
  obtain ⟨b, -, -, -, hextract, -⟩ := exists_of_checkOperations hcheck
  obtain ⟨b', -, -, -, hextract', -⟩ := exists_of_checkOperations hcheck'
  obtain ⟨hstuck, hnames, hwarnings⟩ := of_decide_eq_true hvalue
  obtain ⟨hstuck', hnames', hwarnings'⟩ := of_decide_eq_true hvalue'
  rw [hextract, hextract'] at hbranches
  obtain ⟨houtline, hlive⟩ := of_decide_eq_true (Option.some.inj hbranches)
  have hops : ∀ op ∈ (haunted ghost).operations, op.WellKinded ∧ ¬ op.TooDeep := by decide
  have hops' : ∀ op ∈ (haunted []).operations, op.WellKinded ∧ ¬ op.TooDeep := by decide
  have hstrict : (haunted []).strictness false = (haunted ghost).strictness false := by decide
  obtain ⟨failure, hfails, -⟩ | ⟨c₁, c₁', hc, hc', herrors, hunderflows⟩ :=
    check_ignores_dead (fun op hop => (hops op hop).1) (fun op hop => (hops' op hop).1)
      (fun op hop => (hops op hop).2) (fun op hop => (hops' op hop).2) hstrict hextract hextract'
      houtline hlive 30
  · cases hcheck.symm.trans hfails
  · cases hcheck.symm.trans hc
    cases hcheck'.symm.trans hc'
    exact ⟨c, c', hcheck, hcheck', hstuck, hstuck', hnames, hnames', hwarnings, hwarnings', herrors,
      hunderflows⟩

end Program

end ZeroWidth
