import ZeroWidth.Program.Basic
import ZeroWidth.Typing.Report

/-!
# Checking a program

A check splits the operations into branches, builds their effect graph, resolves it and reports what
is stuck or doubtful.
-/

namespace ZeroWidth

/-- The number of passes after which a check is given up, unless it is told otherwise. -/
def defaultPasses : Nat := 10000

/-- All that a check has produced. -/
structure Checked where
  branches : Branches
  graph    : EffectGraph
  registry : Registry
  stuck    : List Nat
  report   : Report

/-- Checks operations. -/
def checkOperations (ops : List Operation) (strict : Bool) (passes : Nat) :
    Except CheckFailure Checked := do
  let branches ← Branches.extract ops
  let (graph, registry) ← EffectGraph.build branches strict
  let resolved ← graph.resolve passes
  .ok ⟨branches, resolved.graph, registry, resolved.stuck,
    resolved.report branches registry strict⟩

namespace Program

/-- Whether a program is checked strictly: if that is asked for, or if the program does. -/
def strictness (p : Program) (strict : Bool) : Bool := strict || p.isStrict

def check (p : Program) (strict : Bool) (passes : Nat) : Except CheckFailure Checked :=
  checkOperations p.operations (p.strictness strict) passes

end Program

end ZeroWidth
