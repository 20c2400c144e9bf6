import Mathlib.Logic.Relation
import ZeroWidth.Proofs.Fragments

/-!
# The typed stack machine

Operations are run on a stack of types: a position, the positions that calls come back to, and the
types of the items. An operation has its effects one after the other, and then hands control on. A
pop or an assertion needs an item that it accepts; a conditional jump may go either way.
-/

namespace ZeroWidth

/-- What an effect does to the types on the stack, the top of which comes first. -/
def Effect.perform : Effect → List Ty → Option (List Ty)
  | push ty,   stack       => some (ty :: stack)
  | pop ty,    top :: rest => if ty.accepts top then some rest else none
  | assert ty, top :: rest => if ty.accepts top then some (top :: rest) else none
  | _,         _           => none

lemma Effect.isPush_eq_false_of_perform {effect : Effect} {stack : List Ty}
    (h : effect.perform stack = none) : effect.isPush = false := by
  cases effect with
  | push ty => cases h
  | _ => rfl

/-- All that an effect can do to a stack. -/
lemma Effect.perform_eq_some {effect : Effect} {stack stack' : List Ty}
    (h : effect.perform stack = some stack') :
    (∃ ty, effect = .push ty ∧ stack' = ty :: stack) ∨
    (∃ ty top, effect = .pop ty ∧ ty.accepts top = true ∧ stack = top :: stack') ∨
    ∃ ty top rest, effect = .assert ty ∧ ty.accepts top = true ∧ stack = top :: rest ∧
      stack' = top :: rest := by
  cases effect with
  | push ty =>
    cases h
    exact Or.inl ⟨ty, rfl, rfl⟩
  | pop ty =>
    cases stack with
    | nil => cases h
    | cons top rest =>
      simp only [perform] at h
      split at h
      · rename_i haccepts
        cases h
        exact Or.inr (Or.inl ⟨ty, top, rfl, haccepts, rfl⟩)
      · cases h
  | assert ty =>
    cases stack with
    | nil => cases h
    | cons top rest =>
      simp only [perform] at h
      split at h
      · rename_i haccepts
        cases h
        exact Or.inr (Or.inr ⟨ty, top, rest, rfl, haccepts, rfl, rfl⟩)
      · cases h
  | copy _ => cases h
  | swap => cases h

/-- Operations to run, strictly or not, and the registry that numbers their types. -/
structure Machine where
  operations : List Operation
  strict     : Bool
  registry   : Registry

namespace Machine

structure State where
  position : Nat
  /-- The number of effects that the operation at the position has had. -/
  done     : Nat
  /-- The positions to come back to, the latest first. -/
  calls    : List Nat
  stack    : List Ty
deriving DecidableEq

def start : State := ⟨0, 0, [], []⟩

/-- The effects of the operation at a position. -/
def effects (m : Machine) (position : Nat) : List Effect :=
  (m.operations[position]?).elim [] fun op => op.effectsUnder m.strict m.registry

/-- The effect that a state is about to have. -/
def effect? (m : Machine) (s : State) : Option Effect := (m.effects s.position)[s.done]?

/-- The position of the label that an operation names. -/
def destination? (m : Machine) (op : Operation) : Option Nat :=
  op.label?.bind fun name => m.operations.findIdx? fun other => other.definedLabel? = some name

/-- Where control goes after an operation, and the calls that are open then. -/
inductive Transfer (m : Machine) (op : Operation) (position : Nat) :
    List Nat → Nat → List Nat → Prop where
  | goOn {calls : List Nat} (hop : op.instruction ∉ [.jump, .call, .ret, .stop]) :
      Transfer m op position calls (position + 1) calls
  | jump {calls : List Nat} {target : Nat}
      (hop : op.instruction ∈ [.jump, .jumpZero, .jumpNegative])
      (htarget : m.destination? op = some target) : Transfer m op position calls target calls
  | call {calls : List Nat} {target : Nat} (hop : op.instruction = .call)
      (htarget : m.destination? op = some target) :
      Transfer m op position calls target ((position + 1) :: calls)
  | ret {back : Nat} {calls : List Nat} (hop : op.instruction = .ret) :
      Transfer m op position (back :: calls) back calls

inductive Step (m : Machine) : State → State → Prop where
  | effect {s : State} {effect : Effect} {stack : List Ty} (heffect : m.effect? s = some effect)
      (hperform : effect.perform s.stack = some stack) :
      Step m s { s with done := s.done + 1, stack }
  | control {s : State} {op : Operation} {position : Nat} {calls : List Nat}
      (hop : m.operations[s.position]? = some op)
      (hdone : s.done = (m.effects s.position).length)
      (htransfer : m.Transfer op s.position s.calls position calls) :
      Step m s ⟨position, 0, calls, s.stack⟩

/-- Some run from the start comes to the state. -/
def Runs (m : Machine) : State → Prop := Relation.ReflTransGen m.Step start

variable {m : Machine} {s : State} {op : Operation} {effect : Effect}

lemma effects_of_getElem? {position : Nat} (hop : m.operations[position]? = some op) :
    m.effects position = op.effectsUnder m.strict m.registry := by
  rw [effects, hop, Option.elim_some]

lemma exists_of_effect? (h : m.effect? s = some effect) :
    ∃ op, m.operations[s.position]? = some op ∧
      (op.effectsUnder m.strict m.registry)[s.done]? = some effect := by
  unfold effect? at h
  cases hop : m.operations[s.position]? with
  | none => simp [effects, hop] at h
  | some op => exact ⟨op, rfl, effects_of_getElem? hop ▸ h⟩

/-- A jump goes to an operation that defines the label it names. -/
lemma exists_of_destination? {target : Nat} (h : m.destination? op = some target) :
    ∃ other, m.operations[target]? = some other ∧ other.instruction = .label ∧
      other.labelName = op.labelName := by
  obtain ⟨name, hname, htarget⟩ := Option.bind_eq_some_iff.mp h
  obtain ⟨hlt, hdefined, -⟩ := List.findIdx?_eq_some_iff_getElem.mp htarget
  refine ⟨_, List.getElem?_eq_getElem hlt, ?_⟩
  have hdefined := of_decide_eq_true hdefined
  unfold Operation.definedLabel? at hdefined
  split at hdefined
  · rename_i hlabel
    exact ⟨hlabel, by rw [Operation.labelName, Operation.labelName, hdefined, hname]⟩
  · cases hdefined

end Machine

end ZeroWidth
