import ZeroWidth.Program.Fault
import ZeroWidth.Typing.Resolution

/-!
# Reports

What a check has to say about a program. A stuck node is an error, and why it is stuck is read off
the items that its parents push. A pop that may run on the bottom of the stack, and code that no
path from the entry reaches, are warnings.
-/

namespace ZeroWidth

/-- An item that a node was offered: where it was pushed, and its type with the name of it. -/
structure Sighting where
  origin : Origin
  ty     : Ty
  name   : String
deriving DecidableEq

namespace Sighting

/-- What a node offers to those behind it, if it pushes something and stems from an operation. -/
def of? (r : Registry) (pushed : Option Ty) (origin : Option Origin) : Option Sighting :=
  match pushed, origin with
  | some ty, some origin => some ⟨origin, ty, r.name ty⟩
  | _,       _           => none

/-- Items by where they were pushed; the same one is not listed twice in a row. -/
def inOrder (found : List Sighting) : List Sighting :=
  (found.mergeSort fun a b => decide (a.origin.span.start ≤ b.origin.span.start)).eraseReps

def text (s : Sighting) : String :=
  quoted s.name ++ " comes from L" ++ s.origin.span.start.text ++ "."

/-- The different types among the items, by name. -/
def union (found : List Sighting) : String :=
  " | ".intercalate (found.map Sighting.name).eraseDups

/-- Where all the items come from, one a line. -/
def list (found : List Sighting) : String := "\n".intercalate (found.map Sighting.text)

end Sighting

inductive TypeErrorKind where
  | underflow
  | mismatch
  | assertion
  | strictModeViolation
deriving DecidableEq

def TypeErrorKind.text : TypeErrorKind → String
  | underflow           => "underflow"
  | mismatch            => "mismatch"
  | assertion           => "assertion"
  | strictModeViolation => "strict_mode_violation"

/-- Why a node is stuck. -/
inductive TypeFault where
  /-- Nothing is on the stack. -/
  | underflow (during : Option Instruction)
  /-- None of the items will do. -/
  | mismatch (during : Option Instruction) (found : List Sighting)
  /-- None of the items is of the asserted type. -/
  | assertionMismatch (expected : String) (found : List Sighting)
  /-- The item of which a type is asserted has never been cast. -/
  | assertionOnUncast (expected : String)
  /-- An item is used in a strict program without having been cast. -/
  | useOfUncast
deriving DecidableEq

namespace TypeFault

/-- Why a node is stuck, by its effect and the items that it is offered. -/
def of (r : Registry) (strict : Bool) (effect : Option Effect) (during : Option Instruction)
    (found : List Sighting) : TypeFault :=
  if found.isEmpty then .underflow during
  else match effect with
    | some (.assert expected) =>
      if found.all fun s => s.ty = .unknown then .assertionOnUncast (r.name expected)
      else .assertionMismatch (r.name expected) found
    | some (.pop _) =>
      if strict && found.any fun s => s.ty = .unknown then .useOfUncast
      else .mismatch during found
    | _ => .mismatch during found

def kind : TypeFault → TypeErrorKind
  | underflow _           => .underflow
  | mismatch _ _          => .mismatch
  | assertionMismatch _ _ => .mismatch
  | assertionOnUncast _   => .assertion
  | useOfUncast           => .strictModeViolation

/-- What the program was doing, in the middle of a sentence. -/
def deed (during : Option Instruction) : String := (during.map Instruction.verb).getD ""

def message : TypeFault → String
  | underflow during                 =>
    "Cannot perform " ++ deed during ++ " as this would result in a stack underflow."
  | mismatch during found            =>
    "Cannot perform " ++ deed during ++ " as the top item on the stack is of type "
      ++ quoted (Sighting.union found) ++ ".\n\n" ++ Sighting.list found
  | assertionMismatch expected found =>
    "Attempted to assert type " ++ quoted expected ++ ", but the top item of the stack is of type "
      ++ quoted (Sighting.union found) ++ ".\n\n" ++ Sighting.list found
  | assertionOnUncast expected       =>
    "Cannot assert type " ++ expected ++ " on a value that was never cast."
  | useOfUncast                      =>
    "When using strict mode, all types pushed to the stack must be cast prior to use"

end TypeFault

structure TypeError where
  fault : TypeFault
  span  : Span
deriving DecidableEq

namespace TypeError

/-- The error of a stuck node, by its effect and origin and the items that it is offered. -/
def of (r : Registry) (strict : Bool) (effect : Option Effect) (origin : Option Origin)
    (found : List Sighting) : TypeError :=
  ⟨.of r strict effect (origin.map Origin.instruction) found,
    (origin.map Origin.span).getD Span.nowhere⟩

def finding (e : TypeError) : Finding := ⟨e.fault.kind.text, e.fault.message, e.span⟩

end TypeError

inductive Caution where
  /-- On some path the stack is empty when this runs. -/
  | mayUnderflow (during : Instruction)
  | unreachable
deriving DecidableEq

namespace Caution

def kind : Caution → String
  | mayUnderflow _ => "underflow_warn"
  | unreachable    => "unreachable"

def message : Caution → String
  | mayUnderflow during => "Performing " ++ during.verb ++ " may result in a stack underflow."
  | unreachable         => "This code is unreachable."

end Caution

structure TypeWarning where
  caution : Caution
  span    : Span
deriving DecidableEq

namespace TypeWarning

/-- The warning about a node of this effect and origin, which may or may not come right behind the
bottom of the stack. It is for pops, and for operations that have no error. -/
def underflow? (errored : List Span) (effect : Option Effect) (origin : Option Origin)
    (bottom : Bool) : Option TypeWarning :=
  match effect, origin with
  | some (.pop _), some origin =>
    if origin.span ∉ errored ∧ bottom then some ⟨.mayUnderflow origin.instruction, origin.span⟩
    else none
  | _, _ => none

def finding (w : TypeWarning) : Finding := ⟨w.caution.kind, w.caution.message, w.span⟩

end TypeWarning

structure Report where
  errors   : List TypeError
  warnings : List TypeWarning
deriving DecidableEq

def Report.isOk (r : Report) : Bool := r.errors.isEmpty

namespace EffectGraph

def sighting? (g : EffectGraph) (r : Registry) (parent : Nat) : Option Sighting :=
  Sighting.of? r (g.pushed? parent) (g.origin? parent)

/-- The items a node is offered by its parents. -/
def sightings (g : EffectGraph) (r : Registry) (id : Nat) : List Sighting :=
  Sighting.inOrder ((g.parents id).filterMap (g.sighting? r))

/-- The error of a stuck node. -/
def explain (g : EffectGraph) (r : Registry) (strict : Bool) (id : Nat) : TypeError :=
  .of r strict (g.effect? id) (g.origin? id) (g.sightings r id)

/-- The warning about a pop that may find the bottom of the stack. -/
def underflowWarning? (g : EffectGraph) (errored : List Span) (id : Nat) : Option TypeWarning :=
  TypeWarning.underflow? errored (g.effect? id) (g.origin? id)
    ((g.parents id).any fun parent => g.effect? parent = some (.push .never))

/-- The warnings about pops, apart from those whose operation has an error already. -/
def underflowWarnings (g : EffectGraph) (errors : List TypeError) : List TypeWarning :=
  let errored := (errors.map TypeError.span).eraseDups
  g.reachable.toList.filterMap (g.underflowWarning? errored)

/-- The warnings about branches that have effects and that control never gets to. -/
def unreachableWarnings (g : EffectGraph) (b : Branches) : List TypeWarning :=
  let reached := b.reachable
  b.arena.enumerate.filterMap fun (id, branch) =>
    if reached.contains id || (g.fragment? id).isNone then none
    else branch.operations.head?.map fun op => ⟨.unreachable, op.span⟩

end EffectGraph

/-- The report on a resolved graph. -/
def Resolved.report (resolved : Resolved) (b : Branches) (r : Registry) (strict : Bool) : Report :=
  let errors := resolved.stuck.map (resolved.graph.explain r strict)
  ⟨errors, resolved.graph.underflowWarnings errors ++ resolved.graph.unreachableWarnings b⟩

end ZeroWidth
