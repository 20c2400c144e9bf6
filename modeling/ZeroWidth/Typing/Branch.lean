import ZeroWidth.Data.Arena
import ZeroWidth.Data.OrderedMap
import ZeroWidth.Data.Search
import ZeroWidth.Typing.Failure

/-!
# Branches

A branch is a straight run of operations. A label begins one; a jump, a call, a return or an end
finishes one, and stays in it. The entry branch comes first, then one branch for each label in the
order of definition, then the nameless ones as they open. Where control goes from the end of a
branch is kept as the branch it jumps or calls to and the branch it falls through to or comes back
to.
-/

namespace ZeroWidth

structure Branch where
  label      : Option Label
  operations : List Operation
  /-- Where a jump, a conditional jump or a call goes. -/
  target     : Option Nat
  /-- Where control falls through to, or resumes after a call. -/
  next       : Option Nat
  calls      : Bool
  returns    : Bool
deriving DecidableEq

namespace Branch

def empty : Branch := ⟨none, [], none, none, false, false⟩

def append (b : Branch) (op : Operation) : Branch :=
  { b with operations := b.operations ++ [op] }

end Branch

structure Branches where
  arena  : Arena Branch
  /-- The branch each label begins, in order of definition. -/
  labels : List (Label × Nat)

/-- Where control goes after each branch. -/
abbrev Successors := OrderedMap Nat (List Nat)

/-- Where control goes after one branch. It goes nowhere from what is no branch. -/
def Successors.after (s : Successors) (id : Nat) : List Nat := (s.get? id).getD []

namespace Branches

/-- Execution begins in the first branch. -/
def entry : Nat := 0

/-- The branch of an id. There is an empty one where no branch is. -/
def get (b : Branches) (id : Nat) : Branch := (b.arena.get? id).getD Branch.empty

def size (b : Branches) : Nat := b.arena.size

def modify (b : Branches) (id : Nat) (f : Branch → Branch) : Branches :=
  { b with arena := b.arena.modify id f }

/-- A new branch without a label. -/
def openBranch (b : Branches) : Nat × Branches :=
  let (id, arena) := b.arena.alloc Branch.empty
  (id, { b with arena })

/-- The entry branch alone. -/
def initial : Branches := ⟨(Arena.empty.alloc Branch.empty).2, []⟩

/-- Makes room for the branch of the label that an operation defines. -/
def declare (b : Branches) (op : Operation) : Except CheckFailure Branches :=
  match op.definedLabel? with
  | none      => .ok b
  | some name =>
    match b.labels.lookup name with
    | some _ => .error (.duplicatedLabel name op.span)
    | none   =>
      let (id, arena) := b.arena.alloc { Branch.empty with label := some name }
      .ok ⟨arena, b.labels ++ [(name, id)]⟩

/-- The branch an operation refers to. An operation without a label refers to the empty one. -/
def resolve (b : Branches) (op : Operation) : Except CheckFailure Nat :=
  let name := op.label?.getD ""
  match b.labels.lookup name with
  | some id => .ok id
  | none    => .error (.undefinedLabel name op.span)

/-- Puts an operation at the end of branch `current`; gives the branch that comes after it. -/
def place (b : Branches) (current : Nat) (op : Operation) : Except CheckFailure (Branches × Nat) :=
  match op.instruction with
  | .label => do
    let target ← b.resolve op
    let b := b.modify current fun branch => { branch with next := some target }
    .ok (b.modify target (·.append op), target)
  | .jump => do
    let target ← b.resolve op
    let b := b.modify current fun branch => { branch.append op with target := some target }
    let (next, b) := b.openBranch
    .ok (b, next)
  | .jumpZero | .jumpNegative => do
    let target ← b.resolve op
    let (next, b) := b.openBranch
    let b := b.modify current fun branch =>
      { branch.append op with target := some target, next := some next }
    .ok (b, next)
  | .call => do
    let target ← b.resolve op
    let (next, b) := b.openBranch
    let b := b.modify current fun branch =>
      { branch.append op with target := some target, next := some next, calls := true }
    .ok (b, next)
  | .ret =>
    let b := b.modify current fun branch => { branch.append op with returns := true }
    let (next, b) := b.openBranch
    .ok (b, next)
  | .stop =>
    let b := b.modify current (·.append op)
    let (next, b) := b.openBranch
    .ok (b, next)
  | _ => .ok (b.modify current (·.append op), current)

/-- Puts operations one after the other. -/
def placeAll (b : Branches) (current : Nat) : List Operation → Except CheckFailure Branches
  | []        => .ok b
  | op :: ops => do
    let (b, current) ← b.place current op
    b.placeAll current ops

/-- The branches of a list of operations. -/
def extract (ops : List Operation) : Except CheckFailure Branches := do
  let b ← ops.foldlM declare initial
  b.placeAll entry ops

/-! ### Reaching branches -/

/-- Where control may get to from a branch, whether or not a call comes back. -/
def followers (b : Branches) (id : Nat) : List Nat :=
  (b.get id).next.toList ++ (b.get id).target.toList

/-- The branches control may get to from the entry, in the order they are visited. -/
def reachable (b : Branches) : IdSet := depthFirst b.followers b.size .empty [entry]

/-- Where control may get to from a branch within one subroutine: calls are stepped over, and a
return ends it. -/
def subroutineFollowers (b : Branches) (id : Nat) : List Nat :=
  let branch := b.get id
  if branch.returns then []
  else (if branch.calls then [] else branch.target.toList) ++ branch.next.toList

/-- The returning branches of the subroutine that begins with a branch. -/
def returnsFrom (b : Branches) (id : Nat) : List Nat :=
  (depthFirst b.subroutineFollowers b.size .empty [id]).toList.filter fun id => (b.get id).returns

/-- Where a branch leads by itself: a call to its callee alone, a return nowhere. -/
def ownSuccessors (branch : Branch) : List Nat :=
  if branch.calls then branch.target.toList
  else if branch.returns then []
  else branch.target.toList ++ branch.next.toList

/-- For each call in a reached branch, the returns of its callee with the branch they resume at. -/
def resumptions (b : Branches) (reached : IdSet) : List (Nat × Nat) :=
  b.arena.enumerate.flatMap fun (id, branch) =>
    if branch.calls && reached.contains id then
      match branch.target, branch.next with
      | some callee, some after => (b.returnsFrom callee).map fun ret => (ret, after)
      | _,           _          => []
    else []

/-- Enters every branch with where it leads by itself, and then adds the resumptions of all reached
calls to the branches they are of. -/
def successors (b : Branches) (resumptions : List (Nat × Nat)) : Successors :=
  let own : Successors := b.arena.enumerate.foldl
    (fun own (id, branch) => own.insert id (ownSuccessors branch).eraseDups) .empty
  resumptions.foldl (fun all (ret, after) => all.modify ret (appendNew · after)) own

end Branches

end ZeroWidth
