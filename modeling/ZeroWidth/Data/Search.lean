import ZeroWidth.Data.IdSet

/-!
# Searching a graph

Two ways to collect the ids that can be reached along `next`. Depth first keeps a stack and visits
what is pushed last first; breadth first reads the growing set itself as its queue, since the order
of first discovery is the order of visiting. Both take a bound on the number of ids there are to
visit: each visit is a new id, so a bound that no run of visits exceeds changes nothing.
-/

namespace ZeroWidth

/-- Visits the top of the stack unless it was visited, then what follows it, then the rest. -/
def depthFirst (next : Nat → List Nat) : (bound : Nat) → IdSet → (stack : List Nat) → IdSet
  | 0,         visited, _     => visited
  | bound + 1, visited, stack =>
    match stack.dropWhile visited.contains with
    | []         => visited
    | id :: rest => depthFirst next bound (visited.insert id) (next id ++ rest)

/-- Reads the members from place `place` on, adding what follows each of them at the end. -/
def breadthFirst (next : Nat → List Nat) : (bound : Nat) → (place : Nat) → IdSet → IdSet
  | 0,         _,     found => found
  | bound + 1, place, found =>
    match found.order[place]? with
    | none    => found
    | some id => breadthFirst next bound (place + 1) (found.insertAll (next id))

end ZeroWidth
