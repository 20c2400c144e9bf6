import ZeroWidth.Typing.EffectGraph

/-!
# Resolving the effect graph

A pop takes away what its parents pushed, so that what lies beneath comes to lie in front of what
runs next: each parent of an item that a pop can take becomes a parent of the children of the pop.
An assertion leaves the item where it is, and the item itself becomes a parent of what runs next.
Nodes that take something are worked off in passes. A node whose children gain an item to look at
makes these children pending again; a pass in which nothing matches is the last, and the nodes that
are pending then are stuck.
-/

namespace ZeroWidth

/-- A graph on the way to being resolved, with the nodes still to be looked at. -/
structure Resolution where
  graph   : EffectGraph
  pending : IdSet

namespace Resolution

/-- All reachable nodes that take something are pending at first. -/
def start (g : EffectGraph) : Resolution :=
  ⟨g, IdSet.ofList (g.reachable.toList.filter fun id => !g.isPush id)⟩

/-- Whether an edge gives a node that takes something an item it has not looked at. -/
def wakes (g : EffectGraph) (source child : Nat) : Bool :=
  !g.isPush child && g.isPush source && !(g.parents child).contains source

/-- Enters one edge. -/
def enter (s : Resolution) (source child : Nat) : Resolution :=
  if wakes s.graph source child then ⟨s.graph.link source child, s.pending.insert child⟩
  else ⟨s.graph.link source child, s.pending⟩

/-- Enters the edges from every source to every child. -/
def enterAll (s : Resolution) (sources children : List Nat) : Resolution :=
  sources.foldl (fun s source => children.foldl (fun s child => s.enter source child) s) s

/-- What a node with this effect lets through from an item it matches. -/
def sources (g : EffectGraph) (effect : Effect) (item : Nat) : List Nat :=
  match effect with
  | .assert _ => [item]
  | _         => g.parents item

/-- Whether a node with this effect will do with what `item` pushes. -/
def matching (g : EffectGraph) (effect : Effect) (item : Nat) : Bool :=
  match effect.ty?, g.pushed? item with
  | some expected, some found => expected.accepts found
  | _,             _          => false

/-- Whether the node has a parent that it matches. -/
def isMatched (g : EffectGraph) (id : Nat) : Bool :=
  match g.node? id with
  | some node => node.parents.any (matching g node.effect)
  | none      => false

/-- Lets every matching parent of a node through to its children. -/
def advance (s : Resolution) (id : Nat) : Resolution :=
  match s.graph.node? id with
  | some node =>
    (node.parents.filter (matching s.graph node.effect)).foldl
      (fun s item => s.enterAll (sources s.graph node.effect item) node.children) s
  | none      => s

/-- Looks at one node: it goes on if something matches, and stays pending otherwise. The flag says
whether anything has matched so far. -/
def visit (s : Resolution × Bool) (id : Nat) : Resolution × Bool :=
  if isMatched s.1.graph id then (s.1.advance id, true)
  else ({ s.1 with pending := s.1.pending.insert id }, s.2)

/-- Looks at every pending node once, in order. -/
def pass (s : Resolution) : Resolution × Bool :=
  s.pending.toList.foldl visit ({ s with pending := .empty }, false)

/-- Runs passes until nothing is pending or nothing matches any more. The pending nodes of the
result are the stuck ones; there is no result if the passes run out. -/
def settle : (passes : Nat) → Resolution → Option Resolution
  | 0,          s => if s.pending.isEmpty then some s else none
  | passes + 1, s =>
    if s.pending.isEmpty then some s
    else match s.pass with
      | (s, true)  => settle passes s
      | (s, false) => some s

/-- The state after at most so many passes, settled or not. -/
def after : (passes : Nat) → Resolution → Resolution
  | 0,          s => s
  | passes + 1, s =>
    if s.pending.isEmpty then s
    else match s.pass with
      | (s, true)  => after passes s
      | (s, false) => s

end Resolution

/-- A resolved graph and the nodes for which nothing on the stack will do. -/
structure Resolved where
  graph : EffectGraph
  stuck : List Nat

namespace EffectGraph

def startOf (g : EffectGraph) (id : Nat) : Option Cursor := (g.origin? id).map fun o => o.span.start

/-- Nodes are reported by where they start in the source, those without an origin first, and by id
among those that start at the same place. -/
def reportedBefore (g : EffectGraph) (a b : Nat) : Bool :=
  match g.startOf a, g.startOf b with
  | none,   none   => a ≤ b
  | none,   some _ => true
  | some _, none   => false
  | some p, some q => p < q || (p = q && a ≤ b)

/-- Resolves a graph in at most so many passes. -/
def resolve (g : EffectGraph) (passes : Nat) : Except CheckFailure Resolved :=
  match (Resolution.start g).settle passes with
  | some s => .ok ⟨s.graph, s.pending.toList.mergeSort s.graph.reportedBefore⟩
  | none   => .error (.iterationLimit passes)

end EffectGraph

end ZeroWidth
