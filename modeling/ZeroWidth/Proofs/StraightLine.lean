import ZeroWidth.Proofs.Checkable
import ZeroWidth.Proofs.StackMachine

/-!
# Straight-line runs

Operations that do nothing but hand control on to the next one can be run one after the other on a
stack of types. The rules are those of the instructions, one for each, without a graph and without
effects. A run gets stuck where it finds nothing on the stack, or an item that will not do. Having
the effects of the operations one after the other comes to the same.
-/

namespace ZeroWidth

lemma exists_of_map_eq_ok {ε α β : Type} {x : Except ε α} {f : α → β} {y : β}
    (h : x.map f = .ok y) : ∃ a, x = .ok a ∧ f a = y := by
  cases x with
  | error _ => cases h
  | ok a => exact ⟨a, rfl, Except.ok.inj h⟩

lemma eq_error_of_map_eq_error {ε α β : Type} {x : Except ε α} {f : α → β} {e : ε}
    (h : x.map f = .error e) : x = .error e := by
  cases x with
  | error _ =>
    cases h
    rfl
  | ok _ => cases h

/-- Whether control comes to the instruction from the one before and goes on to the one behind. -/
def Instruction.isStraight : Instruction → Bool
  | label | call | jump | jumpZero | jumpNegative | ret | stop => false
  | _                                                          => true

namespace Straight

/-- Why a run is stuck: nothing is on the stack, or what is on top of it will not do. -/
inductive Stop where
  | empty
  | unfit (top : Ty)
deriving DecidableEq

/-- The types of the items, the top of which comes first, and the types that have been named. -/
structure State where
  stack    : List Ty
  registry : Registry
deriving DecidableEq

def start : State := ⟨[], .empty⟩

/-- Takes one item off the stack. -/
def take (expected : Ty) : List Ty → Except Stop (List Ty)
  | []          => .error .empty
  | top :: rest => if expected.accepts top then .ok rest else .error (.unfit top)

/-- Takes items off the stack, of which nothing is expected. -/
def takeAny : (count : Nat) → List Ty → Except Stop (List Ty)
  | 0,         stack => .ok stack
  | count + 1, stack => take .any stack >>= takeAny count

/-- The item at the depth is copied. All items down to it have been touched then. -/
def copy (depth : Nat) (stack : List Ty) : Except Stop (List Ty) :=
  (takeAny (depth + 1) stack).map (List.replicate (depth + 2) .any ++ ·)

/-- How far down the stack an operation reaches. -/
def reach (op : Operation) : Nat := (op.number?.getD 0).toInt.toNat

/-- What an operation does to the stack. Casts and assertions are annotated with a type. -/
def act (strict : Bool) (op : Operation) (ty : Ty) (stack : List Ty) :
    Except Stop (List Ty) :=
  match op.instruction with
  | .push                                         => .ok (.fresh strict :: stack)
  | .copy                                         => copy (reach op) stack
  | .duplicate                                    => copy 0 stack
  | .swap                                         => (takeAny 2 stack).map ([.any, .any] ++ ·)
  | .pop                                          => take .any stack
  | .slide                                        => (takeAny (reach op + 1) stack).map (.any :: ·)
  | .add | .subtract | .multiply | .divide | .mod =>
    (take .int stack >>= take .int).map (.int :: ·)
  | .store                                        => take .any stack >>= take .int
  | .retrieve                                     => (take .int stack).map (.fresh strict :: ·)
  | .readChar | .readInt | .writeInt              => take .int stack
  | .writeChar                                    => take .char stack
  | .cast                                         =>
    (take (.fresh strict) stack).map (ty :: ·)
  | .assert                                       => (take ty stack).map fun _ => stack
  | .strict                                       => .ok stack
  -- these hand control on in other ways
  | .label | .call | .jump | .jumpZero | .jumpNegative | .ret | .stop => .ok stack

/-- The type that an operation is about, and the types that have been named then. -/
def annotated (op : Operation) (r : Registry) : Ty × Registry :=
  if op.instruction = .cast ∨ op.instruction = .assert then op.annotatedType r else (.any, r)

def step (strict : Bool) (s : State) (op : Operation) : Except Stop State :=
  (act strict op (annotated op s.registry).1 s.stack).map fun stack =>
    ⟨stack, (annotated op s.registry).2⟩

/-- Runs operations one after the other, from an empty stack. -/
def run (strict : Bool) (ops : List Operation) : Except Stop State := ops.foldlM (step strict) start

/-! ### Effects one after the other -/

/-- Why nothing can be done with a stack. -/
def Stop.of : List Ty → Stop
  | []       => .empty
  | top :: _ => .unfit top

/-- What an effect does to a stack, or why it cannot. -/
def attempt (stack : List Ty) (effect : Effect) : Except Stop (List Ty) :=
  match effect.perform stack with
  | some stack' => .ok stack'
  | none        => .error (.of stack)

def attemptAll (effects : List Effect) (stack : List Ty) : Except Stop (List Ty) :=
  effects.foldlM attempt stack

variable {op : Operation} {strict : Bool} {effects effects' : List Effect} {effect : Effect}
  {stack stack' : List Ty} {stop : Stop}

@[simp]
lemma attempt_push (stack : List Ty) (ty : Ty) : attempt stack (.push ty) = .ok (ty :: stack) := rfl

@[simp]
lemma attempt_pop (stack : List Ty) (ty : Ty) : attempt stack (.pop ty) = take ty stack := by
  cases stack with
  | nil => rfl
  | cons top rest =>
    simp only [attempt, Effect.perform, take]
    cases ty.accepts top <;> rfl

@[simp]
lemma attempt_assert (stack : List Ty) (ty : Ty) :
    attempt stack (.assert ty) = (take ty stack).map fun _ => stack := by
  cases stack with
  | nil => rfl
  | cons top rest =>
    simp only [attempt, Effect.perform, take]
    cases ty.accepts top <;> rfl

@[simp]
lemma attemptAll_cons (effect : Effect) (effects : List Effect) (stack : List Ty) :
    attemptAll (effect :: effects) stack = attempt stack effect >>= attemptAll effects := rfl

lemma attemptAll_append (effects effects' : List Effect) (stack : List Ty) :
    attemptAll (effects ++ effects') stack = attemptAll effects stack >>= attemptAll effects' :=
  List.foldlM_append

lemma attemptAll_replicate_pop (count : Nat) (stack : List Ty) :
    attemptAll (List.replicate count (.pop .any)) stack = takeAny count stack := by
  induction count generalizing stack with
  | zero => rfl
  | succ count ih =>
    rw [List.replicate_succ, attemptAll_cons, attempt_pop, takeAny]
    exact congrArg (take .any stack >>= ·) (funext ih)

lemma attemptAll_replicate_push (count : Nat) (ty : Ty) (stack : List Ty) :
    attemptAll (List.replicate count (.push ty)) stack =
      .ok (List.replicate count ty ++ stack) := by
  induction count generalizing stack with
  | zero => rfl
  | succ count ih =>
    rw [List.replicate_succ, attemptAll_cons, attempt_push]
    refine (ih (ty :: stack)).trans ?_
    rw [List.replicate_succ', List.append_assoc]
    rfl

/-- Whatever is taken off comes back as `any`, but not as many items. -/
lemma attemptAll_exchange (taken left : Nat) (stack : List Ty) :
    attemptAll (List.replicate taken (.pop .any) ++ List.replicate left (.push .any)) stack =
      (takeAny taken stack).map (List.replicate left .any ++ ·) := by
  rw [attemptAll_append, attemptAll_replicate_pop]
  cases takeAny taken stack with
  | error stop => rfl
  | ok stack' => exact attemptAll_replicate_push left .any stack'

lemma attemptAll_pop (ty : Ty) (stack : List Ty) : attemptAll [.pop ty] stack = take ty stack := by
  rw [attemptAll_cons, attempt_pop]
  cases take ty stack <;> rfl

lemma attemptAll_pop_push (ty ty' : Ty) (stack : List Ty) :
    attemptAll [.pop ty, .push ty'] stack = (take ty stack).map (ty' :: ·) := by
  rw [attemptAll_cons, attempt_pop]
  cases take ty stack <;> rfl

lemma attemptAll_assert (ty : Ty) (stack : List Ty) :
    attemptAll [.assert ty] stack = (take ty stack).map fun _ => stack := by
  rw [attemptAll_cons, attempt_assert]
  cases take ty stack <;> rfl

/-- Effects that get stuck do so at one of them, with the stack that those before it have left. -/
lemma exists_of_attemptAll_eq_error (h : attemptAll effects stack = .error stop) :
    ∃ before effect after stack', effects = before ++ effect :: after ∧
      attemptAll before stack = .ok stack' ∧ effect.perform stack' = none ∧ stop = .of stack' := by
  induction effects generalizing stack with
  | nil => cases h
  | cons effect effects ih =>
    cases hperform : effect.perform stack with
    | none =>
      rw [attemptAll_cons, attempt, hperform] at h
      exact ⟨[], effect, effects, stack, rfl, rfl, hperform, (Except.error.inj h).symm⟩
    | some stack₁ =>
      have hattempt : attempt stack effect = .ok stack₁ := by rw [attempt, hperform]
      rw [attemptAll_cons, hattempt] at h
      obtain ⟨before, effect', after, stack', rfl, hbefore, hstuck, hstop⟩ := ih h
      refine ⟨effect :: before, effect', after, stack', rfl, ?_, hstuck, hstop⟩
      rw [attemptAll_cons, hattempt]
      exact hbefore

lemma attemptAll_concat_eq_ok
    (h : attemptAll (effects ++ [effect]) stack = .ok stack') :
    ∃ stack₁, attemptAll effects stack = .ok stack₁ ∧ effect.perform stack₁ = some stack' := by
  rw [attemptAll_append] at h
  obtain ⟨stack₁, hfront, hlast⟩ := exists_of_bind_eq_ok h
  refine ⟨stack₁, hfront, ?_⟩
  rw [attemptAll_cons, attempt] at hlast
  cases hperform : effect.perform stack₁ with
  | none =>
    rw [hperform] at hlast
    cases hlast
  | some stack₂ =>
    rw [hperform] at hlast
    exact congrArg some (Except.ok.inj hlast)

/-! ### Operations and their effects -/

lemma depth_eq_reach (hop : op.instruction = .copy ∨ op.instruction = .slide)
    (hshallow : ¬ op.TooDeep) : op.depth = .ok (reach op) := by
  cases hdepth : op.depth with
  | error e =>
    have hchecked := Operation.depthChecked_depth hop
    rw [hdepth] at hchecked
    cases hchecked with
    | error hmem hdeep _ => exact absurd (List.mem_singleton.mp hmem ▸ hdeep) hshallow
  | ok depth =>
    simp only [Operation.depth] at hdepth
    split at hdepth
    · rw [← Except.ok.inj hdepth, reach]
    · cases hdepth

lemma flatMap_lower_replicate_pop (count : Nat) :
    (List.replicate count (.pop .any)).flatMap Effect.lower = List.replicate count (.pop .any) := by
  simp [List.flatMap_replicate, Effect.lower]

/-- Having the effects of an operation comes to what the operation does. -/
lemma exists_loweredEffects (hop : op.instruction.isStraight = true) (hshallow : ¬ op.TooDeep)
    (strict : Bool) (r : Registry) :
    ∃ effects, op.loweredEffects strict r = .ok (effects, (annotated op r).2) ∧
      ∀ stack, attemptAll effects stack = act strict op (annotated op r).1 stack := by
  have hdepth := @depth_eq_reach op
  unfold Operation.loweredEffects Operation.effects annotated act
  cases hi : op.instruction
  case copy =>
    rw [hdepth (Or.inl hi) hshallow]
    refine ⟨_, rfl, fun stack => ?_⟩
    rw [List.flatMap_singleton]
    exact attemptAll_exchange (reach op + 1) (reach op + 2) stack
  case slide =>
    rw [hdepth (Or.inr hi) hshallow]
    refine ⟨_, rfl, fun stack => ?_⟩
    rw [List.flatMap_append, flatMap_lower_replicate_pop]
    exact attemptAll_exchange (reach op + 1) 1 stack
  case duplicate => exact ⟨_, rfl, attemptAll_exchange 1 2⟩
  case swap => exact ⟨_, rfl, attemptAll_exchange 2 2⟩
  case readChar | readInt | writeInt | writeChar | pop => exact ⟨_, rfl, attemptAll_pop _⟩
  case retrieve | cast => exact ⟨_, rfl, attemptAll_pop_push _ _⟩
  case add | subtract | multiply | divide | mod =>
    refine ⟨_, rfl, fun stack => ?_⟩
    refine (attemptAll_append [.pop .int] [.pop .int, .push .int] stack).trans ?_
    rw [attemptAll_pop]
    cases take .int stack with
    | error stop => rfl
    | ok stack' => exact attemptAll_pop_push .int .int stack'
  case store =>
    refine ⟨_, rfl, fun stack => ?_⟩
    refine (attemptAll_append [.pop .any] [.pop .int] stack).trans ?_
    rw [attemptAll_pop]
    exact congrArg (take .any stack >>= ·) (funext (attemptAll_pop .int))
  case assert => exact ⟨_, rfl, attemptAll_assert _⟩
  case push | strict => exact ⟨_, rfl, fun stack => rfl⟩
  case label | call | jump | jumpZero | jumpNegative | ret | stop =>
    simp [hi, Instruction.isStraight] at hop

/-- The types that have been named behind operations. -/
def named (r : Registry) (ops : List Operation) : Registry :=
  ops.foldl (fun r op => (annotated op r).2) r

lemma grows_annotated (op : Operation) (r : Registry) :
    r.Grows (annotated op r).2 := by
  unfold annotated
  split
  · exact op.grows_annotatedType r
  · exact .refl _

lemma grows_named (r : Registry) (ops : List Operation) : r.Grows (named r ops) := by
  induction ops generalizing r with
  | nil => exact .refl _
  | cons op ops ih => exact (grows_annotated op r).trans (ih _)

variable {ops : List Operation} {r final : Registry} {s s' : State}

/-- Having the effects of an operation, as they are in the end, comes to a step. -/
lemma step_eq (hop : op.instruction.isStraight = true) (hshallow : ¬ op.TooDeep)
    (hfinal : (annotated op s.registry).2.Grows final) :
    step strict s op = (attemptAll (op.effectsUnder strict final) s.stack).map
      (⟨·, (annotated op s.registry).2⟩) := by
  obtain ⟨effects, heffects, hact⟩ := exists_loweredEffects hop hshallow strict s.registry
  rw [Operation.effectsUnder_of_loweredEffects heffects hfinal, hact, step]

/-- Having the effects of operations, as they are in the end, comes to a run of the operations. -/
lemma foldlM_step (hops : ∀ op ∈ ops, op.instruction.isStraight = true)
    (hshallow : ∀ op ∈ ops, ¬ op.TooDeep) (hfinal : (named s.registry ops).Grows final) :
    ops.foldlM (step strict) s =
      (attemptAll (ops.flatMap fun op => op.effectsUnder strict final) s.stack).map
        (⟨·, named s.registry ops⟩) := by
  induction ops generalizing s with
  | nil => rfl
  | cons op ops ih =>
    rw [List.foldlM_cons, List.flatMap_cons, attemptAll_append, step_eq (hops op List.mem_cons_self)
      (hshallow op List.mem_cons_self) ((grows_named _ ops).trans hfinal)]
    cases attemptAll (op.effectsUnder strict final) s.stack with
    | error stop => rfl
    | ok stack =>
      exact @ih ⟨stack, (annotated op s.registry).2⟩
        (fun op hop => hops op (List.mem_cons_of_mem _ hop))
        (fun op hop => hshallow op (List.mem_cons_of_mem _ hop)) hfinal

/-- A run that gets stuck does so at one of the operations. -/
lemma exists_of_run_eq_error (h : run strict ops = .error stop) :
    ∃ before op after s, ops = before ++ op :: after ∧ run strict before = .ok s ∧
      step strict s op = .error stop := by
  suffices hfold : ∀ s, ops.foldlM (step strict) s = .error stop → ∃ before op after s',
      ops = before ++ op :: after ∧ before.foldlM (step strict) s = .ok s' ∧
        step strict s' op = .error stop from hfold start h
  clear h
  induction ops with
  | nil =>
    intro s h
    cases h
  | cons op ops ih =>
    intro s h
    cases hstep : step strict s op with
    | error stop' =>
      rw [List.foldlM_cons, hstep] at h
      cases h
      exact ⟨[], op, ops, s, rfl, rfl, hstep⟩
    | ok s₁ =>
      rw [List.foldlM_cons, hstep] at h
      obtain ⟨before, op', after, s', rfl, hbefore, hstuck⟩ := ih s₁ h
      refine ⟨op :: before, op', after, s', rfl, ?_, hstuck⟩
      rw [List.foldlM_cons, hstep]
      exact hbefore

lemma map_fst_items (ops : List Operation) (strict : Bool) (r : Registry) :
    (ops.flatMap fun op => op.items strict r).map Prod.fst =
      ops.flatMap fun op => op.effectsUnder strict r := by
  rw [List.map_flatMap]
  simp [Operation.items, Function.comp_def]

/-- A run has the effects of all operations. -/
lemma attemptAll_of_run (hops : ∀ op ∈ ops, op.instruction.isStraight = true)
    (hshallow : ∀ op ∈ ops, ¬ op.TooDeep) (hfinal : (named .empty ops).Grows final)
    (hrun : run strict ops = .ok s) :
    attemptAll ((ops.flatMap fun op => op.items strict final).map Prod.fst) [] = .ok s.stack ∧
      s.registry = named .empty ops := by
  rw [run, foldlM_step hops hshallow hfinal] at hrun
  obtain ⟨stack, hstack, rfl⟩ := exists_of_map_eq_ok hrun
  rw [map_fst_items]
  exact ⟨hstack, rfl⟩

/-- An operation that cannot be run has an effect that cannot be had behind those before it. -/
lemma exists_of_step_eq_error (hop : op.instruction.isStraight = true) (hshallow : ¬ op.TooDeep)
    (hfinal : (annotated op s.registry).2.Grows final)
    (hstep : step strict s op = .error stop) :
    ∃ done effect todo stack, op.items strict final = done ++ (effect, op.origin) :: todo ∧
      attemptAll (done.map Prod.fst) s.stack = .ok stack ∧ effect.perform stack = none ∧
      stop = .of stack := by
  rw [step_eq hop hshallow hfinal] at hstep
  obtain ⟨done, effect, todo, stack, heffects, hdone, hperform, hstop⟩ :=
    exists_of_attemptAll_eq_error (eq_error_of_map_eq_error hstep)
  refine ⟨done.map fun effect => (effect, op.origin), effect,
    todo.map fun effect => (effect, op.origin), stack, ?_, ?_, hperform, hstop⟩
  · rw [Operation.items, heffects, List.map_append, List.map_cons]
  · have hmap : (done.map fun effect => (effect, op.origin)).map Prod.fst = done := by
      simp [Function.comp_def]
    rw [hmap]
    exact hdone

lemma named_append (r : Registry) (ops ops' : List Operation) :
    named r (ops ++ ops') = named (named r ops) ops' := List.foldl_append

variable {before after : List Operation}

/-- A run that gets stuck at an operation has the effects before one of the operation. -/
lemma exists_item_of_step
    (hops : ∀ other ∈ before ++ op :: after, other.instruction.isStraight = true)
    (hshallow : ∀ other ∈ before ++ op :: after, ¬ other.TooDeep)
    (hr : r = named .empty (before ++ op :: after)) (hrun : run strict before = .ok s)
    (hstep : step strict s op = .error stop) :
    ∃ front effect rest stack,
      (before ++ op :: after).flatMap (fun op => op.items strict r) =
        front ++ (effect, op.origin) :: rest ∧
      attemptAll (front.map Prod.fst) [] = .ok stack ∧ effect.perform stack = none ∧
      stop = .of stack ∧ (effect, op.origin) ∈ op.items strict r ∧
      ∀ item ∈ rest, ∃ other ∈ op :: after, item ∈ other.items strict r := by
  rw [named_append] at hr
  have hmem : op ∈ before ++ op :: after := List.mem_append_right _ List.mem_cons_self
  obtain ⟨hfront, hregistry⟩ := attemptAll_of_run
    (fun other hother => hops other (List.mem_append_left _ hother))
    (fun other hother => hshallow other (List.mem_append_left _ hother))
    (hr ▸ grows_named (named .empty before) (op :: after)) hrun
  have hfinal : (annotated op s.registry).2.Grows r := by
    rw [hregistry, hr]
    exact grows_named (annotated op (named .empty before)).2 after
  obtain ⟨done, effect, todo, stack, hitems, hdone, hperform, hstop⟩ :=
    exists_of_step_eq_error (hops op hmem) (hshallow op hmem) hfinal hstep
  refine ⟨before.flatMap (fun op => op.items strict r) ++ done, effect,
    todo ++ after.flatMap fun op => op.items strict r, stack, ?_, ?_, hperform, hstop, ?_, ?_⟩
  · rw [List.flatMap_append, List.flatMap_cons, hitems]
    simp
  · rw [List.map_append, attemptAll_append]
    exact (congrArg (· >>= attemptAll (done.map Prod.fst)) hfront).trans hdone
  · rw [hitems]
    exact List.mem_append_right _ List.mem_cons_self
  · intro item hitem
    rcases List.mem_append.mp hitem with hitem | hitem
    · refine ⟨op, List.mem_cons_self, ?_⟩
      rw [hitems]
      exact List.mem_append_right _ (List.mem_cons_of_mem _ hitem)
    · obtain ⟨other, hother, hitem⟩ := List.mem_flatMap.mp hitem
      exact ⟨other, List.mem_cons_of_mem _ hother, hitem⟩

end Straight

end ZeroWidth
