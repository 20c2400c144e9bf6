import ZeroWidth.Proofs.Saturation

/-!
# What may lie on top of the stack

A walk through the unresolved graph can be run on a stack of nodes: a push lies on the stack as the
item it pushes, a pop or an assertion needs a top that suits it. In the resolved graph the parents
of a node that push something are exactly the items that may lie on top of the stack when some walk
arrives at the node.

One direction gives every edge of the resolved graph a walk that leaves the stack as it found it,
which is how the rules put such walks together. The other one follows a walk and keeps, for the
whole stack, edges from each item to the next one above it and from the topmost item to the node
that is arrived at.
-/

namespace ZeroWidth

namespace EffectGraph

/-- What a node does to a stack of nodes, the top of which comes first. -/
def perform (g : EffectGraph) (id : Nat) (stack : List Nat) : Option (List Nat) :=
  match g.effect? id, stack with
  | some (.push _),   stack       => some (id :: stack)
  | some (.pop _),    top :: rest => if g.suits top id then some rest else none
  | some (.assert _), top :: rest => if g.suits top id then some (top :: rest) else none
  | _,                _           => none

/-- A walk from `start` arrives at a node with a stack that was `floor` just behind `start`. All
nodes in between have performed, and none of them has taken anything of the floor away. -/
inductive Arrives (g : EffectGraph) (start : Nat) (floor : List Nat) : Nat → List Nat → Prop where
  | edge {n : Nat} (hedge : g.Edge start n) : Arrives g start floor n floor
  | step {x n : Nat} {stack stack' : List Nat} (hx : Arrives g start floor x stack)
      (hperform : g.perform x stack = some stack') (hfloor : floor.length ≤ stack'.length)
      (hedge : g.Edge x n) : Arrives g start floor n stack'

/-- What a node has on the stack itself: a push the item, any other node nothing. -/
def floor (g : EffectGraph) (id : Nat) : List Nat := if g.isPush id then [id] else []

variable {g h : EffectGraph} {id start x n : Nat} {floor stack : List Nat}

/-! ### Performing -/

lemma exists_push_of_isPush (h : g.isPush id = true) : ∃ ty, g.effect? id = some (.push ty) := by
  unfold isPush at h
  cases heffect : g.effect? id with
  | none => simp [heffect] at h
  | some effect =>
    cases effect with
    | push ty => exact ⟨ty, rfl⟩
    | _ => simp [heffect, Effect.isPush] at h

lemma perform_push (h : g.isPush id = true) (stack : List Nat) :
    g.perform id stack = some (id :: stack) := by
  obtain ⟨ty, heffect⟩ := exists_push_of_isPush h
  simp only [perform, heffect]

/-- All that a node can do to a stack. -/
lemma perform_cases {stack' : List Nat} (h : g.perform id stack = some stack') :
    (g.isPush id = true ∧ stack' = id :: stack) ∨
    (∃ ty top, g.effect? id = some (.pop ty) ∧ g.suits top id = true ∧ stack = top :: stack') ∨
    ∃ ty top rest, g.effect? id = some (.assert ty) ∧ g.suits top id = true ∧
      stack = top :: rest ∧ stack' = top :: rest := by
  unfold perform at h
  split at h
  · rename_i heffect
    cases h
    exact Or.inl ⟨by simp [isPush, heffect, Effect.isPush], rfl⟩
  · rename_i ty top rest heffect
    split at h
    · rename_i hsuits
      cases h
      exact Or.inr (Or.inl ⟨ty, top, heffect, hsuits, rfl⟩)
    · cases h
  · rename_i ty top rest heffect
    split at h
    · rename_i hsuits
      cases h
      exact Or.inr (Or.inr ⟨ty, top, rest, heffect, hsuits, rfl, rfl⟩)
    · cases h
  · cases h

lemma perform_pop {ty : Ty} {top : Nat} (heffect : g.effect? id = some (.pop ty))
    (hsuits : g.suits top id = true) (rest : List Nat) :
    g.perform id (top :: rest) = some rest := by
  simp [perform, heffect, hsuits]

lemma perform_assert {ty : Ty} {top : Nat} (heffect : g.effect? id = some (.assert ty))
    (hsuits : g.suits top id = true) (rest : List Nat) :
    g.perform id (top :: rest) = some (top :: rest) := by
  simp [perform, heffect, hsuits]

/-- Nothing below the top is looked at. -/
lemma perform_append {stack' : List Nat} (h : g.perform id stack = some stack') (below : List Nat) :
    g.perform id (stack ++ below) = some (stack' ++ below) := by
  rcases perform_cases h with ⟨hpush, rfl⟩ | ⟨ty, top, heffect, hsuits, rfl⟩ |
    ⟨ty, top, rest, heffect, hsuits, rfl, rfl⟩
  · exact perform_push hpush (stack ++ below)
  · exact perform_pop heffect hsuits (stack' ++ below)
  · exact perform_assert heffect hsuits (rest ++ below)

/-! ### Walks from edges -/

lemma Arrives.reached (h : g.Arrives start floor n stack) (hstart : g.Reached start) :
    g.Reached n := by
  induction h with
  | edge hedge => exact hstart.tail hedge
  | step _ _ _ hedge ih => exact ih.tail hedge

/-- A walk from the node that is arrived at goes on over what lies on the stack there. -/
lemma Arrives.append {floor' below stack' : List Nat} (hx : g.Arrives start floor x stack)
    (hperform : g.perform x stack = some (floor' ++ below)) (hbelow : floor.length ≤ below.length)
    (h : g.Arrives x floor' n stack') : g.Arrives start floor n (stack' ++ below) := by
  induction h with
  | edge hedge =>
    apply hx.step hperform _ hedge
    rw [List.length_append]
    omega
  | step _ hperform' _ hedge ih =>
    apply ih.step (perform_append hperform' below) _ hedge
    rw [List.length_append]
    omega

lemma floor_of_isPush (h : g.isPush id = true) : g.floor id = [id] := by
  simp [EffectGraph.floor, h]

lemma floor_of_effect? {effect : Effect} (h : g.effect? id = some effect)
    (heffect : effect.isPush = false) : g.floor id = [] := by
  simp [EffectGraph.floor, isPush_eq_false_of_effect? h heffect]

/-- The rules put walks that leave the stack alone together to such walks. -/
lemma closedUnder_arrives (g : EffectGraph) :
    g.ClosedUnder fun x n => g.Arrives x (g.floor x) n (g.floor x) := by
  intro id _ u n hpass
  cases hpass with
  | @pop ty under item child heffect hitem hsuits hunder hchild =>
    have hpush := isPush_of_suits hsuits
    rw [floor_of_isPush hpush] at hitem
    rw [floor_of_effect? heffect rfl] at hchild
    -- on top of what `u` leaves, the item is pushed and then popped
    have hover : g.Arrives u (g.floor u) id ([item] ++ g.floor u) :=
      hunder.append (perform_push hpush (g.floor u)) (Nat.le_refl _) hitem
    have hpop : g.perform id ([item] ++ g.floor u) = some ([] ++ g.floor u) :=
      perform_pop heffect hsuits (g.floor u)
    exact hover.append hpop (Nat.le_refl _) hchild
  | assert heffect hitem hsuits hchild =>
    have hpush := isPush_of_suits hsuits
    rw [floor_of_isPush hpush] at hitem ⊢
    rw [floor_of_effect? heffect rfl] at hchild
    have hassert : g.perform id [u] = some ([] ++ [u]) := perform_assert heffect hsuits []
    exact hitem.append hassert (Nat.le_refl _) hchild

/-! ### Edges from walks -/

/-- Edges of `E` lead from the start to the lowest item above the floor, from each item to the one
above it and from the topmost item to the node. -/
inductive Stacked (E : Nat → Nat → Prop) (start : Nat) (floor : List Nat) :
    Nat → List Nat → Prop where
  | floor {n : Nat} (hn : E start n) : Stacked E start floor n floor
  | item {v n : Nat} {stack : List Nat} (hv : Stacked E start floor v stack) (hn : E v n) :
      Stacked E start floor n (v :: stack)

lemma Stacked.floor_le {E : Nat → Nat → Prop} (h : Stacked E start floor n stack) :
    floor.length ≤ stack.length := by
  induction h with
  | floor _ => exact Nat.le_refl _
  | item _ _ ih =>
    rw [List.length_cons]
    omega

/-- What the top of the stack may be replaced by is passed to the node behind the pop. -/
lemma Stacked.pop {E : Nat → Nat → Prop} {ty : Ty} {top : Nat} (hclosed : g.ClosedUnder E)
    (hx : g.Reached x) (heffect : g.effect? x = some (.pop ty)) (hsuits : g.suits top x = true)
    (htop : Stacked E start floor top stack) (hitem : E top x) (hn : E x n) :
    Stacked E start floor n stack := by
  cases htop with
  | floor hstart => exact .floor (hclosed x hx start n (.pop heffect hitem hsuits hstart hn))
  | item hv hbelow => exact .item hv (hclosed x hx _ n (.pop heffect hitem hsuits hbelow hn))

lemma Arrives.stacked {E : Nat → Nat → Prop} (hE : g.Edge ≤ E) (hclosed : g.ClosedUnder E)
    (hstart : g.Reached start) (h : g.Arrives start (g.floor start) n stack) :
    Stacked E start (g.floor start) n stack := by
  induction h with
  | edge hedge => exact .floor (hE _ _ hedge)
  | @step x n stack stack' hx hperform hfloor hedge ih =>
    have hreached := hx.reached hstart
    have hn := hE _ _ hedge
    rcases perform_cases hperform with ⟨-, rfl⟩ | ⟨ty, top, heffect, hsuits, rfl⟩ |
      ⟨ty, top, rest, heffect, hsuits, rfl, rfl⟩
    · exact .item ih hn
    · generalize hfl : g.floor start = fl at ih hfloor ⊢
      cases ih with
      | floor _ =>
        rw [List.length_cons] at hfloor
        omega
      | item htop hitem => exact htop.pop hclosed hreached heffect hsuits hitem hn
    · generalize hfl : g.floor start = fl at ih ⊢
      cases ih with
      | floor hitem =>
        -- the assertion looks at the item that the start itself has pushed
        have htop : start = top := by
          unfold EffectGraph.floor at hfl
          split at hfl
          · simpa using congrArg List.head? hfl
          · cases hfl
        subst htop
        exact .floor (hclosed x hreached start n (.assert heffect hitem hsuits hn))
      | item htop hitem =>
        exact .item htop (hclosed x hreached top n (.assert heffect hitem hsuits hn))

lemma Saturated.stacked {stuck : List Nat} (hsat : g.Saturated h stuck) (hstart : g.Reached start)
    (harrives : g.Arrives start (g.floor start) n stack) :
    Stacked h.Edge start (g.floor start) n stack :=
  harrives.stacked hsat.least.1.1 hsat.least.1.2 hstart

/-- An item is a parent of a node in the resolved graph exactly if some walk through the unresolved
graph leads from the item to the node such that the stack, which is the item alone behind it, is the
item alone again on arrival, and the item has not been popped on the way. -/
theorem resolve_edge_iff_arrives {passes : Nat} {resolved : Resolved} (hm : g.Mirrored)
    (hresolve : g.resolve passes = .ok resolved) {u : Nat} (hu : g.Reached u)
    (hpush : g.isPush u = true) (n : Nat) :
    resolved.graph.Edge u n ↔ g.Arrives u [u] n [u] := by
  have hsat := saturated_of_resolve hm hresolve
  have hfloor := floor_of_isPush hpush
  constructor
  · intro hedge
    have hwalk := hsat.least.2 ⟨fun _ _ hedge => .edge hedge, closedUnder_arrives g⟩ u n hedge
    rwa [hfloor] at hwalk
  · intro hwalk
    have hstacked := hsat.stacked hu (hfloor.symm ▸ hwalk)
    rw [hfloor] at hstacked
    cases hstacked with
    | floor hedge => exact hedge
    | item hv _ => exact absurd hv.floor_le (by simp)

/-- Behind the item and the pop, the bottom of the stack lies in front of the assertion. -/
theorem looping_edge_iff_arrives :
    looping.Mirrored ∧ looping.isPush looping.root = true ∧
    ∃ resolved, looping.resolve 5 = .ok resolved ∧ resolved.graph.Edge looping.root 3 ∧
      (resolved.graph.Edge looping.root 3 ↔
        looping.Arrives looping.root [looping.root] 3 [looping.root]) := by
  have hm : looping.Mirrored := by decide
  have hchildren : (looping.resolve 5).toOption.map (·.graph.children looping.root) =
      some [1, 2, 3] := by decide +kernel
  obtain ⟨resolved, hok, hchildren⟩ := exists_ok_of_toOption_map hchildren
  refine ⟨hm, by decide, resolved, hok, ?_, ?_⟩
  · rw [Edge, hchildren]
    decide
  · exact resolve_edge_iff_arrives hm hok .refl (by decide) 3

end EffectGraph

end ZeroWidth
