import ZeroWidth.Proofs.Layout
import ZeroWidth.Proofs.Registry
import ZeroWidth.Proofs.Renaming
import ZeroWidth.Typing.EffectGraph

/-!
# Operations under other names and in other places

A relocation renames labels and types and moves operations to other places of a source. Branches
are laid out by which labels are equal, and types are told apart by which names are, so a relocated
program has the branches and the effects of the program, relocated. It fails if the program does,
and in the same way.
-/

namespace ZeroWidth

/-- Other names, and other places. -/
structure Relocation where
  names : Renaming
  place : Span → Span

variable (τ : Relocation)

def Operation.relocate (op : Operation) : Operation :=
  { op.rename τ.names with span := τ.place op.span }

def CheckFailure.relocate : CheckFailure → CheckFailure
  | undefinedLabel name span   => undefinedLabel (τ.names.labels name) (τ.place span)
  | duplicatedLabel name span  => duplicatedLabel (τ.names.labels name) (τ.place span)
  | depthOutOfRange depth span => depthOutOfRange depth (τ.place span)
  | iterationLimit passes      => iterationLimit passes

/-- What comes of a step, with its result and its failure relocated. -/
def Relocation.outcome {α β : Type} (f : α → β) :
    Except CheckFailure α → Except CheckFailure β
  | .ok a    => .ok (f a)
  | .error e => .error (e.relocate τ)

variable {τ}

/-- Steps that commute with relocation do so one behind the other. -/
lemma Relocation.outcome_bind {α β γ δ : Type} {f : α → β} {g : γ → δ}
    {x : Except CheckFailure α} {x' : Except CheckFailure β} {k : α → Except CheckFailure γ}
    {k' : β → Except CheckFailure δ} (hx : x' = τ.outcome f x)
    (hk : ∀ a, x = .ok a → k' (f a) = τ.outcome g (k a)) : x' >>= k' = τ.outcome g (x >>= k) := by
  subst hx
  cases x with
  | error e => rfl
  | ok a => exact hk a rfl

/-! ### Operations -/

namespace Operation

variable (op : Operation)

@[simp]
lemma instruction_relocate : (op.relocate τ).instruction = op.instruction := rfl

@[simp]
lemma span_relocate : (op.relocate τ).span = τ.place op.span := rfl

@[simp]
lemma label?_relocate : (op.relocate τ).label? = op.label?.map τ.names.labels :=
  op.label?_rename τ.names

@[simp]
lemma type?_relocate : (op.relocate τ).type? = op.type?.map τ.names.types :=
  op.type?_rename τ.names

@[simp]
lemma definedLabel?_relocate :
    (op.relocate τ).definedLabel? = op.definedLabel?.map τ.names.labels :=
  op.definedLabel?_rename τ.names

@[simp]
lemma number?_relocate : (op.relocate τ).number? = op.number? := by
  obtain ⟨i, argument, span⟩ := op
  cases argument with
  | none => rfl
  | some argument => cases argument <;> rfl

end Operation

/-! ### Arenas -/

namespace Arena

variable {α β : Type} (f : α → β)

def map (a : Arena α) : Arena β := ⟨a.entries.map f⟩

@[simp]
lemma size_map (a : Arena α) : (a.map f).size = a.size := by
  simp [map, size]

@[simp]
lemma get?_map (a : Arena α) (id : Nat) : (a.map f).get? id = (a.get? id).map f := by
  simp [map, get?]

lemma alloc_map {x : α} {y : β} (h : f x = y) (a : Arena α) :
    (a.map f).alloc y = ((a.alloc x).1, (a.alloc x).2.map f) := by
  simp [map, alloc, size, h]

lemma modify_map {g : α → α} {g' : β → β} (h : ∀ x, g' (f x) = f (g x)) (a : Arena α) (id : Nat) :
    (a.map f).modify id g' = (a.modify id g).map f := by
  simp only [map, modify, mk.injEq]
  ext i : 1
  · simp
  · rename_i hi
    by_cases heq : id = i <;> simp [Array.getElem_modify, heq, h]

lemma enumerate_map (a : Arena α) :
    (a.map f).enumerate = a.enumerate.map fun (id, x) => (id, f x) := by
  simp [map, enumerate, toList, List.zipIdx_map, Function.comp_def]

end Arena

/-! ### Branches -/

variable (τ) in
def Branch.relocate (branch : Branch) : Branch :=
  { branch with
    label      := branch.label.map τ.names.labels
    operations := branch.operations.map (Operation.relocate τ) }

namespace Branches

variable {b : Branches} {current : Nat} {op : Operation} {ops : List Operation}

variable (τ) in
def relocate (b : Branches) : Branches :=
  ⟨b.arena.map (Branch.relocate τ), b.labels.map fun (name, id) => (τ.names.labels name, id)⟩

@[simp]
lemma size_relocate (b : Branches) : (b.relocate τ).size = b.size := Arena.size_map _ b.arena

@[simp]
lemma get_relocate (b : Branches) (id : Nat) : (b.relocate τ).get id = (b.get id).relocate τ := by
  simp only [get, relocate, Arena.get?_map]
  cases b.arena.get? id <;> rfl

lemma lookup_relocate (b : Branches) (name : Label) :
    (b.relocate τ).labels.lookup (τ.names.labels name) = b.labels.lookup name := by
  simp only [relocate]
  induction b.labels with
  | nil => rfl
  | cons entry labels ih =>
    obtain ⟨other, id⟩ := entry
    by_cases h : name = other
    · subst h
      simp
    · have hne : (τ.names.labels name == τ.names.labels other) = false := by simpa using h
      have hne' : (name == other) = false := by simpa using h
      rw [List.map_cons, List.lookup_cons, List.lookup_cons, hne, hne', ih]

lemma relocate_initial : initial.relocate τ = initial := by
  simp [initial, relocate, Arena.map, Arena.alloc, Arena.empty, Branch.relocate, Branch.empty]

lemma modify_relocate {f f' : Branch → Branch}
    (h : ∀ branch, f' (branch.relocate τ) = (f branch).relocate τ) (b : Branches) (id : Nat) :
    (b.relocate τ).modify id f' = (b.modify id f).relocate τ := by
  simp [modify, relocate, Arena.modify_map (Branch.relocate τ) h]

lemma openBranch_relocate (b : Branches) :
    (b.relocate τ).openBranch = (b.openBranch.1, b.openBranch.2.relocate τ) := by
  have hempty : Branch.empty.relocate τ = Branch.empty := rfl
  simp only [openBranch, relocate, Arena.alloc_map _ hempty]

lemma declare_relocate (b : Branches) (op : Operation) :
    (b.relocate τ).declare (op.relocate τ) = τ.outcome (relocate τ) (b.declare op) := by
  simp only [declare, Operation.definedLabel?_relocate]
  cases op.definedLabel? with
  | none => rfl
  | some name =>
    have hbranch : Branch.relocate τ { Branch.empty with label := some name } =
        { Branch.empty with label := some (τ.names.labels name) } := rfl
    simp only [Option.map_some, lookup_relocate]
    cases b.labels.lookup name with
    | some id => rfl
    | none => simp [relocate, Relocation.outcome, Arena.alloc_map _ hbranch]

lemma foldlM_declare_relocate (τ : Relocation) (b : Branches) (ops : List Operation) :
    (ops.map (Operation.relocate τ)).foldlM declare (b.relocate τ) =
      τ.outcome (relocate τ) (ops.foldlM declare b) := by
  induction ops generalizing b with
  | nil => rfl
  | cons op ops ih =>
    rw [List.map_cons, List.foldlM_cons, List.foldlM_cons]
    exact Relocation.outcome_bind (declare_relocate b op) fun b' _ => ih b'

/-- An operation that names a label is resolved to the same branch. -/
lemma resolve_relocate (b : Branches) {name : Label} (hop : op.label? = some name) :
    (b.relocate τ).resolve (op.relocate τ) = τ.outcome id (b.resolve op) := by
  simp only [resolve, Operation.label?_relocate, hop, Option.map_some, Option.getD_some,
    lookup_relocate]
  cases b.labels.lookup name <;> rfl

lemma append_relocate (τ : Relocation) (branch : Branch) (op : Operation) :
    (branch.relocate τ).append (op.relocate τ) = (branch.append op).relocate τ := by
  simp [Branch.append, Branch.relocate]

/-- A relocated operation is put where the operation is put. -/
lemma place_relocate (b : Branches) (current : Nat) (hop : op.WellKinded) :
    (b.relocate τ).place current (op.relocate τ) =
      τ.outcome (fun (b, next) => (b.relocate τ, next)) (b.place current op) := by
  have hresolve : op.instruction.argKind = .label →
      (b.relocate τ).resolve (op.relocate τ) = τ.outcome id (b.resolve op) := fun hi => by
    obtain ⟨name, hname⟩ := Option.isSome_iff_exists.mp (op.isSome_label?_iff.mpr (hop.trans hi))
    exact b.resolve_relocate hname
  have happend := fun branch => append_relocate τ branch op
  unfold place
  rw [Operation.instruction_relocate]
  split
  case h_1 hi =>
    refine Relocation.outcome_bind (hresolve (by rw [hi]; rfl)) fun target _ => ?_
    simp only [id, Relocation.outcome]
    rw [modify_relocate (f := fun branch => { branch with next := some target }) fun _ => rfl,
      modify_relocate happend]
  case h_2 hi =>
    refine Relocation.outcome_bind (hresolve (by rw [hi]; rfl)) fun target _ => ?_
    simp only [id, Relocation.outcome]
    rw [modify_relocate (f := fun branch => { branch.append op with target := some target })
      fun branch => by rw [happend]; rfl, openBranch_relocate]
  case h_3 hi | h_4 hi =>
    refine Relocation.outcome_bind (hresolve (by rw [hi]; rfl)) fun target _ => ?_
    simp only [id, Relocation.outcome, openBranch_relocate]
    rw [modify_relocate (f := fun branch =>
      { branch.append op with target := some target, next := some b.openBranch.1 })
      fun branch => by rw [happend]; rfl]
  case h_5 hi =>
    refine Relocation.outcome_bind (hresolve (by rw [hi]; rfl)) fun target _ => ?_
    simp only [id, Relocation.outcome, openBranch_relocate]
    rw [modify_relocate (f := fun branch =>
      { branch.append op with target := some target, next := some b.openBranch.1, calls := true })
      fun branch => by rw [happend]; rfl]
  case h_6 hi =>
    simp only [Relocation.outcome]
    rw [modify_relocate (f := fun branch => { branch.append op with returns := true })
      fun branch => by rw [happend]; rfl, openBranch_relocate]
  case h_7 hi =>
    simp only [Relocation.outcome]
    rw [modify_relocate happend, openBranch_relocate]
  case h_8 =>
    simp only [Relocation.outcome]
    rw [modify_relocate happend]

lemma placeAll_relocate (b : Branches) (current : Nat) (hops : ∀ op ∈ ops, op.WellKinded) :
    (b.relocate τ).placeAll current (ops.map (Operation.relocate τ)) =
      τ.outcome (relocate τ) (b.placeAll current ops) := by
  induction ops generalizing b current with
  | nil => rfl
  | cons op ops ih =>
    refine Relocation.outcome_bind (place_relocate b current (hops op List.mem_cons_self)) ?_
    rintro ⟨b', next⟩ -
    exact ih b' next fun op hop => hops op (List.mem_cons_of_mem _ hop)

/-- The branches of relocated operations are those of the operations, relocated. -/
lemma extract_relocate (τ : Relocation) (hops : ∀ op ∈ ops, op.WellKinded) :
    extract (ops.map (Operation.relocate τ)) = τ.outcome (relocate τ) (extract ops) := by
  have hdeclare := foldlM_declare_relocate τ initial ops
  rw [relocate_initial] at hdeclare
  exact Relocation.outcome_bind hdeclare fun b _ => placeAll_relocate b entry hops

/-! ### Ways between branches -/

lemma followers_relocate (b : Branches) : (b.relocate τ).followers = b.followers := by
  funext id
  simp [followers, Branch.relocate]

lemma reachable_relocate (b : Branches) : (b.relocate τ).reachable = b.reachable := by
  rw [reachable, reachable, followers_relocate, size_relocate]

lemma returnsFrom_relocate (b : Branches) : (b.relocate τ).returnsFrom = b.returnsFrom := by
  have hfollowers : (b.relocate τ).subroutineFollowers = b.subroutineFollowers := by
    funext id
    simp [subroutineFollowers, Branch.relocate]
  funext id
  simp [returnsFrom, hfollowers, Branch.relocate]

lemma resumptions_relocate (b : Branches) (reached : IdSet) :
    (b.relocate τ).resumptions reached = b.resumptions reached := by
  simp only [resumptions, returnsFrom_relocate]
  rw [show (b.relocate τ).arena.enumerate = _ from b.arena.enumerate_map (Branch.relocate τ),
    List.flatMap_map]
  rfl

lemma successors_relocate (b : Branches) (resumptions : List (Nat × Nat)) :
    (b.relocate τ).successors resumptions = b.successors resumptions := by
  rw [successors, successors,
    show (b.relocate τ).arena.enumerate = _ from b.arena.enumerate_map (Branch.relocate τ),
    List.foldl_map]
  rfl

end Branches

/-! ### Types and effects -/

lemma Renaming.types_of_builtin? (ρ : Renaming) {name : TypeName} (h : Ty.builtin? name ≠ none) :
    ρ.types name = name := by
  have hpairs : ∀ name ∈ ["Never", "Any", "Int", "Char"],
      ∃ pair ∈ Vocabulary.builtinTypes, pair.1 = name := by decide
  obtain ⟨pair, hpair, rfl⟩ := hpairs name (not_not.mp (Ty.builtin?_eq_none_iff.not.mp h))
  exact ρ.builtin pair hpair

/-- Renaming makes no built-in type of a custom one, nor the other way round. -/
lemma builtin?_rename (ρ : Renaming) (name : TypeName) :
    Ty.builtin? (ρ.types name) = Ty.builtin? name := by
  by_cases h : Ty.builtin? (ρ.types name) = none
  · rw [h]
    by_contra hname
    exact hname (ρ.types_of_builtin? (Ne.symm hname) ▸ h).symm
  · rw [ρ.types.injective (ρ.types_of_builtin? h)]

namespace Registry

variable (τ) in
def relocate (r : Registry) : Registry :=
  ⟨r.names.map τ.names.types, r.lookup.rename τ.names.types id⟩

variable (τ) in
lemma relocate_empty : empty.relocate τ = empty := by
  simp [empty, relocate, Arena.map, Arena.empty, OrderedMap.rename, OrderedMap.empty]

lemma intern_relocate (r : Registry) (name : TypeName) :
    (r.relocate τ).intern (τ.names.types name) =
      ((r.intern name).1, (r.intern name).2.relocate τ) := by
  have hlookup : (r.relocate τ).lookup.get? (τ.names.types name) = r.lookup.get? name := by
    simp [relocate, OrderedMap.get?_rename]
  simp only [intern, builtin?_rename, hlookup]
  cases Ty.builtin? name with
  | some ty => rfl
  | none =>
    cases r.lookup.get? name with
    | some id => rfl
    | none =>
      have hinsert := OrderedMap.insert_rename τ.names.types id r.lookup name r.names.size
      simpa [relocate, Arena.map, Arena.alloc, Arena.size] using hinsert

end Registry

namespace Operation

lemma depth_relocate (op : Operation) : (op.relocate τ).depth = τ.outcome id op.depth := by
  simp only [depth, number?_relocate, span_relocate]
  split <;> rfl

lemma annotatedType_relocate (op : Operation) (r : Registry) :
    (op.relocate τ).annotatedType (r.relocate τ) =
      ((op.annotatedType r).1, (op.annotatedType r).2.relocate τ) := by
  simp only [annotatedType, type?_relocate]
  cases op.type? with
  | none => rfl
  | some name => exact Registry.intern_relocate r name

/-- Relocated operations have the effects of the operations: custom types keep their numbers. -/
lemma effects_relocate (op : Operation) (strict : Bool) (r : Registry) :
    (op.relocate τ).effects strict (r.relocate τ) =
      τ.outcome (fun (effects, r) => (effects, r.relocate τ)) (op.effects strict r) := by
  unfold effects
  rw [instruction_relocate]
  cases op.instruction
  case copy | slide =>
    rw [depth_relocate]
    cases op.depth <;> rfl
  case cast | assert =>
    simp only [annotatedType_relocate]
    rfl
  all_goals rfl

lemma loweredEffects_relocate (op : Operation) (strict : Bool) (r : Registry) :
    (op.relocate τ).loweredEffects strict (r.relocate τ) =
      τ.outcome (fun (effects, r) => (effects, r.relocate τ)) (op.loweredEffects strict r) := by
  rw [loweredEffects, loweredEffects, effects_relocate]
  cases op.effects strict r <;> rfl

end Operation

end ZeroWidth
