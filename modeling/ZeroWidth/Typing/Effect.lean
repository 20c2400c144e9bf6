import ZeroWidth.Typing.Failure
import ZeroWidth.Typing.Ty

/-!
# Stack effects

What an operation does to the stack of types, as a list of effects in the order they happen. Copying
and swapping are then lowered to pops and pushes: the depth they need is kept exactly, the items
they move come back as `any`.
-/

namespace ZeroWidth

inductive Effect where
  | push (ty : Ty)
  | pop (ty : Ty)
  | assert (ty : Ty)
  | copy (depth : Nat)
  | swap
deriving DecidableEq

namespace Effect

def isPush : Effect → Bool
  | push _ => true
  | _      => false

/-- The type that is pushed, if one is. -/
def pushed? : Effect → Option Ty
  | push ty => some ty
  | _       => none

/-- The type that is pushed, popped or asserted. -/
def ty? : Effect → Option Ty
  | push ty | pop ty | assert ty => some ty
  | copy _ | swap                => none

def text : Effect → String
  | push ty    => "push(" ++ ty.text ++ ")"
  | pop ty     => "pop(" ++ ty.text ++ ")"
  | assert ty  => "assert(" ++ ty.text ++ ")"
  | copy depth => "copy(" ++ toString depth ++ ")"
  | swap       => "swap"

/-- The pops and pushes an effect comes to. -/
def lower : Effect → List Effect
  | copy depth => List.replicate (depth + 1) (pop .any) ++ List.replicate (depth + 2) (push .any)
  | swap       => [pop .any, pop .any, push .any, push .any]
  | effect     => [effect]

end Effect

/-- The deepest stack item that may be copied or slid to; every level costs nodes of the graph. -/
def maxDepth : Nat := 65535

namespace Operation

/-- The depth an operation reaches to: its number, or zero if it has none. -/
def depth (op : Operation) : Except CheckFailure Nat :=
  let n := op.number?.getD 0
  if 0 ≤ n.toInt ∧ n.toInt ≤ maxDepth then .ok n.toInt.toNat
  else .error (.depthOutOfRange n op.span)

/-- The type an operation is annotated with: `any` if it names none. -/
def annotatedType (op : Operation) (r : Registry) : Ty × Registry :=
  match op.type? with
  | some name => r.intern name
  | none      => (.any, r)

/-- The effects of an operation, and the registry that knows the types they mention. -/
def effects (op : Operation) (strict : Bool) (r : Registry) :
    Except CheckFailure (List Effect × Registry) :=
  match op.instruction with
  | .readChar | .readInt | .writeInt                    => .ok ([.pop .int], r)
  | .writeChar                                          => .ok ([.pop .char], r)
  | .push                                               => .ok ([.push (.fresh strict)], r)
  | .duplicate                                          => .ok ([.copy 0], r)
  | .copy                                               =>
    op.depth.map fun depth => ([.copy depth], r)
  | .swap                                               => .ok ([.swap], r)
  | .pop                                                => .ok ([.pop .any], r)
  | .slide                                              =>
    op.depth.map fun depth => (List.replicate (depth + 1) (.pop .any) ++ [.push .any], r)
  | .add | .subtract | .multiply | .divide | .mod       =>
    .ok ([.pop .int, .pop .int, .push .int], r)
  | .jumpZero | .jumpNegative                           => .ok ([.pop .int], r)
  | .store                                              => .ok ([.pop .any, .pop .int], r)
  | .retrieve                                           =>
    .ok ([.pop .int, .push (.fresh strict)], r)
  | .cast                                               =>
    let (ty, r) := op.annotatedType r
    .ok ([.pop (.fresh strict), .push ty], r)
  | .assert                                             =>
    let (ty, r) := op.annotatedType r
    .ok ([.assert ty], r)
  | .label | .call | .jump | .ret | .stop | .strict     => .ok ([], r)

/-- The effects of an operation in pops, pushes and assertions alone. -/
def loweredEffects (op : Operation) (strict : Bool) (r : Registry) :
    Except CheckFailure (List Effect × Registry) :=
  (op.effects strict r).map fun (effects, r) => (effects.flatMap Effect.lower, r)

end Operation

end ZeroWidth
