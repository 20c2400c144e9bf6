import ZeroWidth.Proofs.GuardedBranches

/-!
# Guarded look-ups: building the effect graph

A new node is linked to the end of its chain, which is a node already; and fragments are stitched
together at their ends, once all nodes are there. So the guarded forms of what builds a graph never
stop for want of a node.
-/

namespace ZeroWidth

namespace EffectGraph

variable {g : EffectGraph} {b : Branches} {id : Nat} {span : Option (Nat × Nat)}

/-! ### Nodes and links -/

def lookUp (g : EffectGraph) (id : Nat) : Guarded Node := g.nodes.lookUp id

def linkGuarded (g : EffectGraph) (parent child : Nat) : Guarded EffectGraph := do
  let nodes ← g.nodes.modifyGuarded parent fun node =>
    { node with children := appendNew node.children child }
  let nodes ← nodes.modifyGuarded child fun node =>
    { node with parents := appendNew node.parents parent }
  .ok { g with nodes }

def linkAllGuarded (g : EffectGraph) (parent : Nat) (children : List Nat) : Guarded EffectGraph :=
  children.foldlM (fun g child => g.linkGuarded parent child) g

def reachableGuarded (g : EffectGraph) : Guarded IdSet :=
  breadthFirstGuarded (fun id => (g.lookUp id).map Node.children) g.size 0
    (IdSet.empty.insert g.root)

lemma exists_node?_of_lt_size (hid : id < g.size) : ∃ node, g.node? id = some node :=
  Arena.exists_get?_of_lt hid

lemma lookUp_of_node? {node : Node} (hnode : g.node? id = some node) : g.lookUp id = .ok node :=
  Arena.lookUp_of_get? hnode

section

variable {node : Node} (hnode : g.node? id = some node)

include hnode

lemma effect?_of_node? : g.effect? id = some node.effect := by
  rw [effect?, hnode]
  rfl

lemma origin?_of_node? : g.origin? id = node.origin := by
  rw [origin?, hnode]
  rfl

lemma parents_of_node? : g.parents id = node.parents := by
  rw [parents, hnode]
  rfl

lemma children_of_node? : g.children id = node.children := by
  rw [children, hnode]
  rfl

end

lemma linkGuarded_of_lt {parent child : Nat} (hparent : parent < g.size) (hchild : child < g.size) :
    g.linkGuarded parent child = .ok (g.link parent child) := by
  rw [linkGuarded, Arena.modifyGuarded_of_lt hparent, Guarded.ok_bind,
    Arena.modifyGuarded_of_lt (by rwa [Arena.size_modify])]
  rfl

lemma linkAllGuarded_of_lt {parent : Nat} {ids : List Nat} (hparent : parent < g.size)
    (hids : ∀ id ∈ ids, id < g.size) :
    g.linkAllGuarded parent ids = .ok (g.linkAll parent ids) := by
  refine Guarded.foldlM_eq_ok (fun h => h.size = g.size) (fun h hh id hid => ?_)
    (fun h hh id _ => (size_link h parent id).trans hh) rfl
  exact linkGuarded_of_lt (hh ▸ hparent) (hh ▸ hids id hid)

lemma Mirrored.reachableGuarded_eq (hm : g.Mirrored) (hroot : g.root < g.size) :
    g.reachableGuarded = .ok g.reachable := by
  refine breadthFirstGuarded_eq (fun id hid => ?_) (fun a _ b hb => hm.lt_size_right hb) hroot
  obtain ⟨node, hnode⟩ := exists_node?_of_lt_size hid
  rw [lookUp_of_node? hnode, children_of_node? hnode]
  rfl

/-! ### Fragments -/

def extendGuarded (g : EffectGraph) (span : Option (Nat × Nat)) (effect : Effect)
    (origin : Origin) : Guarded (EffectGraph × Option (Nat × Nat)) :=
  let (id, g) := g.addNode effect (some origin)
  match span with
  | none              => .ok (g, some (id, id))
  | some (head, tail) => do
    let g ← g.linkGuarded tail id
    .ok (g, some (head, id))

def addOperationsGuarded (strict : Bool) (g : EffectGraph) (r : Registry)
    (span : Option (Nat × Nat)) :
    List Operation → Guarded (EffectGraph × Registry × Option (Nat × Nat))
  | []        => .ok (g, r, span)
  | op :: ops => do
    let (effects, r) ← .of (op.loweredEffects strict r)
    let (g, span) ← effects.foldlM
      (fun (g, span) effect => g.extendGuarded span effect ⟨op.instruction, op.span⟩) (g, span)
    addOperationsGuarded strict g r span ops

def addBranchesGuarded (strict : Bool) (g : EffectGraph) (r : Registry) :
    List (Nat × Branch) → Guarded (EffectGraph × Registry)
  | []                   => .ok (g, r)
  | (id, branch) :: rest => do
    let (g, r, span) ← addOperationsGuarded strict g r none branch.operations
    let g := match span with
      | none              => g
      | some (head, tail) => { g with fragments := g.fragments ++ [⟨id, head, tail⟩] }
    addBranchesGuarded strict g r rest

/-- The chain that is to be lengthened ends in a node. -/
def EndsWithin (g : EffectGraph) (span : Option (Nat × Nat)) : Prop :=
  ∀ ends ∈ span, ends.2 < g.size

lemma extendGuarded_eq (hspan : g.EndsWithin span) (effect : Effect) (origin : Origin) :
    g.extendGuarded span effect origin = .ok (g.extend span effect origin) := by
  cases span with
  | none => rfl
  | some ends =>
    have hlt : ends.2 < (g.addNode effect (some origin)).2.size := by
      rw [size_addNode]
      exact Nat.lt_succ_of_lt (hspan ends rfl)
    have hnew : g.size < (g.addNode effect (some origin)).2.size := by
      rw [size_addNode]
      exact Nat.lt_succ_self _
    change ((g.addNode effect (some origin)).2.linkGuarded ends.2 g.size >>= _) = _
    rw [linkGuarded_of_lt hlt hnew]
    rfl

lemma endsWithin_extend (g : EffectGraph) (span : Option (Nat × Nat)) (effect : Effect)
    (origin : Origin) :
    (g.extend span effect origin).1.EndsWithin (g.extend span effect origin).2 := by
  intro ends hends
  rw [size_extend]
  cases span <;> cases hends <;> exact Nat.lt_succ_self _

lemma endsWithin_foldl (hspan : g.EndsWithin span) (effects : List Effect) (origin : Origin) :
    EndsWithin
      (effects.foldl (fun state effect => state.1.extend state.2 effect origin) (g, span)).1
      (effects.foldl (fun state effect => state.1.extend state.2 effect origin) (g, span)).2 := by
  induction effects generalizing g span with
  | nil => exact hspan
  | cons effect effects ih => exact ih (endsWithin_extend g span effect origin)

lemma addOperationsGuarded_eq (strict : Bool) (r : Registry) (hspan : g.EndsWithin span)
    (ops : List Operation) :
    addOperationsGuarded strict g r span ops = .of (addOperations strict g r span ops) := by
  induction ops generalizing g r span with
  | nil => rfl
  | cons op ops ih =>
    rw [addOperationsGuarded, addOperations]
    refine Guarded.of_bind_eq fun lowered _ => ?_
    have hfold : lowered.1.foldlM
        (fun state effect => extendGuarded state.1 state.2 effect ⟨op.instruction, op.span⟩)
          (g, span) =
        .ok (lowered.1.foldl
          (fun state effect => state.1.extend state.2 effect ⟨op.instruction, op.span⟩)
          (g, span)) :=
      Guarded.foldlM_eq_ok (fun state => EndsWithin state.1 state.2)
        (fun state hstate effect _ => extendGuarded_eq hstate effect _)
        (fun state _ effect _ => endsWithin_extend state.1 state.2 effect _) hspan
    change (lowered.1.foldlM _ (g, span) >>= _) = _
    rw [hfold]
    exact ih _ (endsWithin_foldl hspan lowered.1 _)

lemma addBranchesGuarded_eq (strict : Bool) (g : EffectGraph) (r : Registry)
    (branches : List (Nat × Branch)) :
    addBranchesGuarded strict g r branches = .of (addBranches strict g r branches) := by
  induction branches generalizing g r with
  | nil => rfl
  | cons entry branches ih =>
    rw [addBranchesGuarded, addBranches, addOperationsGuarded_eq strict r (by simp [EndsWithin])]
    exact Guarded.of_bind_eq fun added _ => ih _ _

/-! ### Stitching -/

def headsGuarded (g : EffectGraph) (successors : Successors) (bound : Nat)
    (branch : Nat) : Guarded (List Nat) := do
  let through := fun id => if (g.fragment? id).isSome then .ok [] else successors.lookUp id
  let visited ← depthFirstGuarded through bound .empty [branch]
  .ok (visited.toList.filterMap fun id => (g.fragment? id).map Fragment.head)

/-- Links a node in `h` to what control comes to in each of some branches, by the fragments of
`g`. -/
def linkHeadsGuarded (g : EffectGraph) (successors : Successors) (bound : Nat)
    (h : EffectGraph) (parent : Nat) (branches : List Nat) : Guarded EffectGraph :=
  branches.foldlM (fun h branch => do
    let heads ← g.headsGuarded successors bound branch
    h.linkAllGuarded parent heads) h

def stitchGuarded (g : EffectGraph) (b : Branches) : Guarded EffectGraph := do
  let reached ← b.reachableGuarded
  let resumptions ← b.resumptionsGuarded reached
  let successors := b.successors resumptions
  let stitched ← g.fragments.foldlM
    (fun h fragment =>
      if reached.contains fragment.branch then do
        let followers ← successors.lookUp fragment.branch
        g.linkHeadsGuarded successors b.size h fragment.tail followers
      else .ok h) g
  let heads ← g.headsGuarded successors b.size Branches.entry
  stitched.linkAllGuarded g.root heads

def buildGuarded (b : Branches) (strict : Bool) : Guarded (EffectGraph × Registry) := do
  let (g, r) ← addBranchesGuarded strict initial .empty b.arena.enumerate
  let g ← g.stitchGuarded b
  .ok (g, r)

lemma headsGuarded_eq (hb : b.Bounded) (hid : id < b.size) :
    g.headsGuarded (b.successors (b.resumptions b.reachable)) b.size id =
      .ok (g.heads b.flow b.size id) := by
  have hsearch : depthFirstGuarded
      (fun id => if (g.fragment? id).isSome then .ok []
        else (b.successors (b.resumptions b.reachable)).lookUp id) b.size .empty [id] =
      .ok (depthFirst (g.through b) b.size .empty [id]) := by
    refine depthFirstGuarded_eq (fun other hother => ?_) (fun other _ next hnext => ?_) hid
    · unfold through
      split
      · rfl
      · exact Branches.lookUp_successors hother _
    · unfold through at hnext
      split at hnext
      · cases hnext
      · exact hb.flow_lt hnext
  rw [headsGuarded, hsearch]
  rfl

lemma linkHeadsGuarded_eq (hb : b.Bounded)
    (hfragments : ∀ f ∈ g.fragments, f.head < g.size ∧ f.tail < g.size) {h : EffectGraph}
    (hh : h.size = g.size) {parent : Nat} (hparent : parent < g.size) {branches : List Nat}
    (hbranches : ∀ branch ∈ branches, branch < b.size) :
    g.linkHeadsGuarded (b.successors (b.resumptions b.reachable)) b.size h parent branches =
      .ok (branches.foldl (fun h branch => h.linkAll parent (g.heads b.flow b.size branch)) h) := by
  refine Guarded.foldlM_eq_ok (fun h => h.size = g.size) (fun h hh branch hbranch => ?_)
    (fun h hh branch _ => (sameNodes_linkAll h parent _).size.trans hh) hh
  rw [headsGuarded_eq hb (hbranches branch hbranch)]
  exact linkAllGuarded_of_lt (hh ▸ hparent)
    fun id hid => hh ▸ heads_lt hfragments b.flow b.size branch id hid

lemma size_foldl_linkAll (h : EffectGraph) (parent : Nat) (heads : Nat → List Nat)
    (branches : List Nat) :
    (branches.foldl (fun h branch => h.linkAll parent (heads branch)) h).size = h.size := by
  induction branches generalizing h with
  | nil => rfl
  | cons branch branches ih => exact (ih _).trans (sameNodes_linkAll h parent _).size

/-- The links of one fragment to what control comes to behind it. -/
def linkFragment (g : EffectGraph) (b : Branches) (h : EffectGraph) (f : Fragment) : EffectGraph :=
  if b.reachable.contains f.branch then
    (b.flow f.branch).foldl (fun h next => h.linkAll f.tail (g.heads b.flow b.size next)) h
  else h

lemma size_linkFragment (g : EffectGraph) (b : Branches) (h : EffectGraph) (f : Fragment) :
    (g.linkFragment b h f).size = h.size := by
  unfold linkFragment
  split
  · exact size_foldl_linkAll h f.tail _ _
  · rfl

/-- All links are between nodes that there are, and links add no nodes. -/
lemma stitchGuarded_eq (hb : b.Bounded) (hroot : g.root < g.size)
    (hfragments : ∀ f ∈ g.fragments, f.head < g.size ∧ f.tail < g.size) :
    g.stitchGuarded b = .ok (g.stitch b) := by
  have hstep : ∀ h : EffectGraph, h.size = g.size → ∀ f ∈ g.fragments,
      (if b.reachable.contains f.branch then do
        let followers ← (b.successors (b.resumptions b.reachable)).lookUp f.branch
        g.linkHeadsGuarded (b.successors (b.resumptions b.reachable)) b.size h f.tail
          followers
      else .ok h) = Except.ok (g.linkFragment b h f) := by
    intro h hh f hf
    unfold linkFragment
    split
    · rename_i hreached
      rw [Branches.lookUp_successors (hb.live_lt (hb.contains_reachable.mp hreached))]
      exact linkHeadsGuarded_eq hb hfragments hh (hfragments f hf).2 fun next => hb.flow_lt
    · rfl
  have hkept : ∀ h : EffectGraph, h.size = g.size → ∀ f ∈ g.fragments,
      (g.linkFragment b h f).size = g.size :=
    fun h hh f _ => (size_linkFragment g b h f).trans hh
  have hsize : (g.fragments.foldl (g.linkFragment b) g).size = g.size :=
    List.foldlRecOn (motive := fun h : EffectGraph => h.size = g.size) _ _ rfl hkept
  rw [stitchGuarded, hb.reachableGuarded_eq, Guarded.ok_bind, hb.resumptionsGuarded_eq,
    Guarded.ok_bind]
  dsimp only
  rw [Guarded.foldlM_eq_ok (fun h => h.size = g.size) hstep hkept rfl, Guarded.ok_bind,
    headsGuarded_eq hb hb.entry_lt]
  exact linkAllGuarded_of_lt (hsize ▸ hroot)
    fun id hid => hsize ▸ heads_lt hfragments b.flow b.size Branches.entry id hid

lemma buildGuarded_eq (hb : b.Bounded) (strict : Bool) :
    buildGuarded b strict = .of (build b strict) := by
  rw [buildGuarded, build, addBranchesGuarded_eq]
  refine Guarded.of_bind_eq fun built hadd => ?_
  obtain ⟨hg, hembeds⟩ := fragmented_of_addBranches hadd
  change (built.1.stitchGuarded b >>= _) = _
  rw [stitchGuarded_eq hb (lt_size_of_effect? hembeds.bottom) hg.lt_size]
  rfl

end EffectGraph

end ZeroWidth
