import ZeroWidth.Typing.Branch
import ZeroWidth.Typing.Effect

/-!
# The effect graph

The stack effects of a program as nodes; the parents of a node are those that may have happened just
before it. The root pushes `never`, the bottom of the stack. Each branch contributes a chain of
nodes, its fragment; the fragments of reached branches are then stitched together along the flow of
control, looking through branches that have no effect.
-/

namespace ZeroWidth

/-- The operation a node stems from. -/
structure Origin where
  instruction : Instruction
  span        : Span
deriving DecidableEq

structure Node where
  effect   : Effect
  /-- Only the root stems from no operation. -/
  origin   : Option Origin
  parents  : List Nat
  children : List Nat
deriving DecidableEq

/-- The first and the last node of a branch. -/
structure Fragment where
  branch : Nat
  head   : Nat
  tail   : Nat
deriving DecidableEq

structure EffectGraph where
  nodes     : Arena Node
  root      : Nat
  fragments : List Fragment

namespace EffectGraph

def size (g : EffectGraph) : Nat := g.nodes.size

def node? (g : EffectGraph) (id : Nat) : Option Node := g.nodes.get? id

def effect? (g : EffectGraph) (id : Nat) : Option Effect := (g.node? id).map Node.effect

def origin? (g : EffectGraph) (id : Nat) : Option Origin := (g.node? id).bind Node.origin

def parents (g : EffectGraph) (id : Nat) : List Nat := ((g.node? id).map Node.parents).getD []

def children (g : EffectGraph) (id : Nat) : List Nat := ((g.node? id).map Node.children).getD []

/-- Whether a node puts something on the stack. -/
def isPush (g : EffectGraph) (id : Nat) : Bool := ((g.effect? id).map Effect.isPush).getD false

/-- The type a node puts on the stack, if it does. -/
def pushed? (g : EffectGraph) (id : Nat) : Option Ty := (g.effect? id).bind Effect.pushed?

/-- A new node, not linked to any other. -/
def addNode (g : EffectGraph) (effect : Effect) (origin : Option Origin) : Nat × EffectGraph :=
  let (id, nodes) := g.nodes.alloc ⟨effect, origin, [], []⟩
  (id, { g with nodes })

/-- An edge, entered on both of its sides. -/
def link (g : EffectGraph) (parent child : Nat) : EffectGraph :=
  let nodes := g.nodes.modify parent fun node =>
    { node with children := appendNew node.children child }
  { g with nodes := nodes.modify child fun node =>
      { node with parents := appendNew node.parents parent } }

def linkAll (g : EffectGraph) (parent : Nat) (children : List Nat) : EffectGraph :=
  children.foldl (fun g child => g.link parent child) g

/-- The nodes that can be reached from the root, breadth first. -/
def reachable (g : EffectGraph) : IdSet :=
  breadthFirst g.children g.size 0 (IdSet.empty.insert g.root)

/-! ### Fragments -/

/-- The root alone. -/
def initial : EffectGraph :=
  let (root, nodes) := Arena.empty.alloc ⟨.push .never, none, [], []⟩
  ⟨nodes, root, []⟩

/-- A node behind the chain that ends in `span`, which is lengthened by it. -/
def extend (g : EffectGraph) (span : Option (Nat × Nat)) (effect : Effect) (origin : Origin) :
    EffectGraph × Option (Nat × Nat) :=
  let (id, g) := g.addNode effect (some origin)
  match span with
  | none              => (g, some (id, id))
  | some (head, tail) => (g.link tail id, some (head, id))

/-- The chain of a list of operations, behind what `span` has of it already. -/
def addOperations (strict : Bool) (g : EffectGraph) (r : Registry) (span : Option (Nat × Nat)) :
    List Operation → Except CheckFailure (EffectGraph × Registry × Option (Nat × Nat))
  | []        => .ok (g, r, span)
  | op :: ops => do
    let (effects, r) ← op.loweredEffects strict r
    let (g, span) := effects.foldl
      (fun (g, span) effect => g.extend span effect ⟨op.instruction, op.span⟩) (g, span)
    addOperations strict g r span ops

/-- The fragments of branches; a branch without effects has none. -/
def addBranches (strict : Bool) (g : EffectGraph) (r : Registry) :
    List (Nat × Branch) → Except CheckFailure (EffectGraph × Registry)
  | []                   => .ok (g, r)
  | (id, branch) :: rest => do
    let (g, r, span) ← addOperations strict g r none branch.operations
    let g := match span with
      | none              => g
      | some (head, tail) => { g with fragments := g.fragments ++ [⟨id, head, tail⟩] }
    addBranches strict g r rest

def fragment? (g : EffectGraph) (branch : Nat) : Option Fragment :=
  g.fragments.find? fun f => f.branch = branch

/-- The first nodes control comes to from a branch on, looking through branches without effects. -/
def heads (g : EffectGraph) (successors : Nat → List Nat) (bound : Nat) (branch : Nat) : List Nat :=
  let through := fun id => if (g.fragment? id).isSome then [] else successors id
  (depthFirst through bound .empty [branch]).toList.filterMap fun id =>
    (g.fragment? id).map Fragment.head

/-- Links the fragments of reached branches to what control comes to behind them, and the root to
what it comes to first. Dead code is left alone: it must not feed its stack into live code. -/
def stitch (g : EffectGraph) (b : Branches) : EffectGraph :=
  let reached := b.reachable
  let successors := b.successors (b.resumptions reached)
  let heads := g.heads successors.after b.size
  let stitched := g.fragments.foldl
    (fun g fragment =>
      if reached.contains fragment.branch then
        (successors.after fragment.branch).foldl
          (fun g next => g.linkAll fragment.tail (heads next)) g
      else g) g
  stitched.linkAll g.root (heads Branches.entry)

/-- The graph of a program given by its branches, and the types it mentions. -/
def build (b : Branches) (strict : Bool) : Except CheckFailure (EffectGraph × Registry) := do
  let (g, r) ← addBranches strict initial .empty b.arena.enumerate
  .ok (g.stitch b, r)

end EffectGraph

end ZeroWidth
