import ZeroWidth.Data.Arena
import ZeroWidth.Data.OrderedMap
import ZeroWidth.Program.Operation

/-!
# Types of stack items

`never` is the bottom of the stack, `any` the type of items that may be anything, `unknown` that of
items a strict program has not cast yet. All others differ from each other and from these. Custom
types are known by the order their names were first met in.
-/

namespace ZeroWidth

inductive Ty where
  | never
  | any
  | unknown
  | int
  | char
  | custom (id : Nat)
deriving DecidableEq

namespace Ty

/-- The types a program can name without introducing them. `unknown` is not one of them: a program
that writes its name gets a custom type of that name. -/
def builtin? : TypeName → Option Ty
  | "Never" => some never
  | "Any"   => some any
  | "Int"   => some int
  | "Char"  => some char
  | _       => none

/-- The type of a new item. -/
def fresh (strict : Bool) : Ty := if strict then unknown else any

/-- The name of a custom type that has none. -/
def anonymous (id : Nat) : String := "TypeSym#" ++ toString id

/-- A type without regard to the names of custom types. -/
def text : Ty → String
  | never     => "Never"
  | any       => "Any"
  | unknown   => "Unknown"
  | int       => "Int"
  | char      => "Char"
  | custom id => "Custom(" ++ anonymous id ++ ")"

/-- Whether an item of type `found` will do where `expected` is asked for. -/
def accepts (expected found : Ty) : Bool :=
  match found with
  | never   => false
  | unknown => expected = unknown
  | any     => true
  | _       => expected = any || expected = unknown || found = expected

end Ty

/-- The names of custom types by the order they were met in, and the other way round. -/
structure Registry where
  names  : Arena TypeName
  lookup : OrderedMap TypeName Nat
deriving DecidableEq

namespace Registry

def empty : Registry := ⟨.empty, .empty⟩

/-- The type of a name, and the registry that knows it. -/
def intern (r : Registry) (name : TypeName) : Ty × Registry :=
  match Ty.builtin? name with
  | some ty => (ty, r)
  | none    =>
    match r.lookup.get? name with
    | some id => (.custom id, r)
    | none    =>
      let (id, names) := r.names.alloc name
      (.custom id, ⟨names, r.lookup.insert name id⟩)

/-- The name of a type. -/
def name (r : Registry) : Ty → String
  | .custom id => (r.names.get? id).getD (Ty.anonymous id)
  | ty         => ty.text

end Registry

end ZeroWidth
