import Mathlib.Data.List.Forall2
import ZeroWidth.Proofs.Saturation
import ZeroWidth.Proofs.Stitching

/-!
# Types under two registries

A custom type is known by the place of its name among the names that were met, so that it has
another number in a program that names other types. What matters of a type is its name: two types
that have the same name, each in its own registry, are accepted alike and shown alike. The effects
of an operation are then alike under all registries that know its types.
-/

namespace ZeroWidth

lemma exists_getElem?_of_forall₂ {α β : Type} {R : α → β → Prop} {l : List α} {l' : List β}
    (h : List.Forall₂ R l l') {k : Nat} {x : α} (hx : l[k]? = some x) :
    ∃ y, l'[k]? = some y ∧ R x y := by
  obtain ⟨hlt, rfl⟩ := List.getElem?_eq_some_iff.mp hx
  have hlt' : k < l'.length := h.length_eq ▸ hlt
  exact ⟨l'[k], List.getElem?_eq_getElem hlt', h.get hlt hlt'⟩

/-! ### Types -/

/-- The name has the number in both stores of the registry. -/
structure Registry.Numbers (r : Registry) (name : TypeName) (id : Nat) : Prop where
  number  : r.lookup.get? name = some id
  display : r.names.get? id = some name

/-- The same type under two registries: the same built-in one, or one of the same name. -/
inductive Ty.Alike (r r' : Registry) : Ty → Ty → Prop
  | builtin {ty : Ty} (hty : ∀ id, ty ≠ .custom id) : Alike r r' ty ty
  | custom {name : TypeName} {id id' : Nat} (hid : r.Numbers name id)
      (hid' : r'.Numbers name id') : Alike r r' (.custom id) (.custom id')

namespace Ty.Alike

variable {r r' : Registry} {ty ty' other other' : Ty}

lemma symm (h : Ty.Alike r r' ty ty') : Ty.Alike r' r ty' ty := by
  cases h with
  | builtin hty => exact .builtin hty
  | custom hid hid' => exact .custom hid' hid

/-- Types that are alike are equal to alike types. -/
lemma eq_iff (h : Ty.Alike r r' ty ty') (hother : Ty.Alike r r' other other') :
    ty = other ↔ ty' = other' := by
  cases h with
  | builtin hty =>
    cases hother with
    | builtin => rfl
    | custom => exact iff_of_false (hty _) (hty _)
  | @custom name id id' hid hid' =>
    cases hother with
    | builtin hother => exact iff_of_false (hother _).symm (hother _).symm
    | @custom name₁ id₁ id₁' hid₁ hid₁' =>
      rw [Ty.custom.injEq, Ty.custom.injEq]
      constructor
      · rintro rfl
        obtain rfl : name = name₁ := Option.some.inj (hid.display.symm.trans hid₁.display)
        exact Option.some.inj (hid'.number.symm.trans hid₁'.number)
      · rintro rfl
        obtain rfl : name = name₁ := Option.some.inj (hid'.display.symm.trans hid₁'.display)
        exact Option.some.inj (hid.number.symm.trans hid₁.number)

lemma eq_builtin_iff (h : Ty.Alike r r' ty ty') (hother : ∀ id, other ≠ .custom id) :
    ty = other ↔ ty' = other :=
  h.eq_iff (.builtin hother)

lemma name_eq (h : Ty.Alike r r' ty ty') : r.name ty = r'.name ty' := by
  cases h with
  | builtin hty => cases ty <;> first | rfl | exact absurd rfl (hty _)
  | custom hid hid' => simp only [Registry.name, hid.display, hid'.display, Option.getD_some]

/-- What is accepted depends on which types are the same, and not on their numbers. -/
lemma accepts_eq (hexpected : Ty.Alike r r' ty ty') (hfound : Ty.Alike r r' other other') :
    ty.accepts other = ty'.accepts other' := by
  have hany : ty = .any ↔ ty' = .any := hexpected.eq_builtin_iff (by simp)
  have hunknown : ty = .unknown ↔ ty' = .unknown := hexpected.eq_builtin_iff (by simp)
  have hsame := hfound.eq_iff hexpected
  cases hfound with
  | builtin => cases other <;> simp [Ty.accepts, hany, hunknown, hsame]
  | custom => simp [Ty.accepts, hany, hunknown, hsame]

end Ty.Alike

lemma Ty.ne_custom_of_builtin? {name : TypeName} {ty : Ty} (h : Ty.builtin? name = some ty)
    (id : Nat) : ty ≠ .custom id := by
  rintro rfl
  unfold Ty.builtin? at h
  split at h <;> cases h

namespace Registry

variable {r r' : Registry} {name : TypeName} {ty ty' : Ty}

/-- A name that leaves a registry as it is has been met. -/
lemma Sound.numbers_of_intern (hr : r.Sound) (hname : Ty.builtin? name = none)
    (h : r.intern name = (ty, r)) : ∃ id, r.Numbers name id ∧ ty = .custom id := by
  rcases r.intern_cases name with ⟨known, hknown, -⟩ | ⟨id, -, hid, hintern⟩ | ⟨-, -, hintern⟩
  · cases hname.symm.trans hknown
  · rw [hintern] at h
    exact ⟨id, ⟨hid, (hr.inverse name id).mp hid⟩, (Prod.mk.inj h).1.symm⟩
  · rw [hintern] at h
    have hsize := congrArg (fun r => r.names.size) (Prod.mk.inj h).2
    simp at hsize

lemma alike_intern (hr : r.Sound) (hr' : r'.Sound) (h : r.intern name = (ty, r))
    (h' : r'.intern name = (ty', r')) : Ty.Alike r r' ty ty' := by
  cases hname : Ty.builtin? name with
  | some known =>
    simp only [intern, hname, Prod.mk.injEq, and_true] at h h'
    rw [← h, ← h']
    exact .builtin (Ty.ne_custom_of_builtin? hname)
  | none =>
    obtain ⟨id, hid, rfl⟩ := hr.numbers_of_intern hname h
    obtain ⟨id', hid', rfl⟩ := hr'.numbers_of_intern hname h'
    exact .custom hid hid'

end Registry

/-! ### Effects -/

/-- The same effect on the same types. -/
inductive Effect.Alike (r r' : Registry) : Effect → Effect → Prop
  | push {ty ty' : Ty} (hty : Ty.Alike r r' ty ty') : Alike r r' (.push ty) (.push ty')
  | pop {ty ty' : Ty} (hty : Ty.Alike r r' ty ty') : Alike r r' (.pop ty) (.pop ty')
  | assert {ty ty' : Ty} (hty : Ty.Alike r r' ty ty') : Alike r r' (.assert ty) (.assert ty')
  | copy (depth : Nat) : Alike r r' (.copy depth) (.copy depth)
  | swap : Alike r r' .swap .swap

namespace Effect

variable {r r' : Registry} {ty ty' : Ty} {effect effect' : Effect}

@[simp]
lemma alike_push_iff : Effect.Alike r r' (.push ty) (.push ty') ↔ Ty.Alike r r' ty ty' :=
  ⟨fun h => by cases h; assumption, .push⟩

@[simp]
lemma alike_pop_iff : Effect.Alike r r' (.pop ty) (.pop ty') ↔ Ty.Alike r r' ty ty' :=
  ⟨fun h => by cases h; assumption, .pop⟩

lemma Alike.isPush_eq (h : Effect.Alike r r' effect effect') : effect.isPush = effect'.isPush := by
  cases h <;> rfl

lemma Alike.symm (h : Effect.Alike r r' effect effect') : Effect.Alike r' r effect' effect := by
  cases h with
  | push hty => exact .push hty.symm
  | pop hty => exact .pop hty.symm
  | assert hty => exact .assert hty.symm
  | copy depth => exact .copy depth
  | swap => exact .swap

/-- Lowering copies and swaps leaves effects alike. -/
lemma Alike.forall₂_lower (h : Effect.Alike r r' effect effect') :
    List.Forall₂ (Effect.Alike r r') effect.lower effect'.lower := by
  have hany : Ty.Alike r r' .any .any := .builtin (by simp)
  cases h with
  | copy depth =>
    refine List.forall₂_same.mpr fun effect heffect => ?_
    rcases List.mem_append.mp heffect with heffect | heffect
    · rw [List.eq_of_mem_replicate heffect]
      exact .pop hany
    · rw [List.eq_of_mem_replicate heffect]
      exact .push hany
  | swap =>
    exact .cons (.pop hany) (.cons (.pop hany) (.cons (.push hany) (.cons (.push hany) .nil)))
  | push hty => exact .cons (.push hty) .nil
  | pop hty => exact .cons (.pop hty) .nil
  | assert hty => exact .cons (.assert hty) .nil

end Effect

namespace Operation

variable {op : Operation} {strict : Bool} {r r' : Registry} {effects effects' : List Effect}

/-- The registry knows the types of the operation, and the operation has effects. -/
structure Settled (op : Operation) (strict : Bool) (r : Registry) : Prop where
  sound   : r.Sound
  lowered : ∃ effects, op.loweredEffects strict r = .ok (effects, r)

lemma alike_annotatedType {ty ty' : Ty} (hr : r.Sound) (hr' : r'.Sound)
    (h : op.annotatedType r = (ty, r)) (h' : op.annotatedType r' = (ty', r')) :
    Ty.Alike r r' ty ty' := by
  unfold annotatedType at h h'
  cases hname : op.type? with
  | none =>
    simp only [hname, Prod.mk.injEq, and_true] at h h'
    rw [← h, ← h']
    exact .builtin (by simp)
  | some name =>
    rw [hname] at h h'
    exact Registry.alike_intern hr hr' h h'

lemma alike_fresh (strict : Bool) : Ty.Alike r r' (.fresh strict) (.fresh strict) := by
  cases strict <;> exact .builtin (by simp [Ty.fresh])

lemma forall₂_effects (hr : r.Sound) (hr' : r'.Sound)
    (h : op.effects strict r = .ok (effects, r)) (h' : op.effects strict r' = .ok (effects', r')) :
    List.Forall₂ (Effect.Alike r r') effects effects' := by
  have hany : Ty.Alike r r' .any .any := .builtin (by simp)
  have hint : Ty.Alike r r' .int .int := .builtin (by simp)
  have hchar : Ty.Alike r r' .char .char := .builtin (by simp)
  unfold Operation.effects at h h'
  cases hop : op.instruction
  case cast =>
    simp only [hop, Except.ok.injEq, Prod.mk.injEq] at h h'
    rw [← h.1, ← h'.1]
    exact .cons (.pop (alike_fresh strict))
      (.cons (.push (alike_annotatedType hr hr' (Prod.ext rfl h.2) (Prod.ext rfl h'.2))) .nil)
  case assert =>
    simp only [hop, Except.ok.injEq, Prod.mk.injEq] at h h'
    rw [← h.1, ← h'.1]
    exact .cons (.assert (alike_annotatedType hr hr' (Prod.ext rfl h.2) (Prod.ext rfl h'.2))) .nil
  case copy =>
    rw [hop] at h h'
    cases hdepth : op.depth with
    | error failure => simp [hdepth, Except.map] at h
    | ok depth =>
      rw [hdepth] at h h'
      cases h
      cases h'
      exact .cons (.copy depth) .nil
  case slide =>
    rw [hop] at h h'
    cases hdepth : op.depth with
    | error failure => simp [hdepth, Except.map] at h
    | ok depth =>
      rw [hdepth] at h h'
      cases h
      cases h'
      refine List.forall₂_same.mpr fun effect heffect => ?_
      rcases List.mem_append.mp heffect with heffect | heffect
      · rw [List.eq_of_mem_replicate heffect]
        exact .pop hany
      · rw [List.mem_singleton.mp heffect]
        exact .push hany
  case duplicate =>
    rw [hop] at h h'
    cases h
    cases h'
    exact .cons (.copy 0) .nil
  case swap =>
    rw [hop] at h h'
    cases h
    cases h'
    exact .cons .swap .nil
  all_goals
    rw [hop] at h h'
    cases h
    cases h'
    simp [hany, hint, hchar, alike_fresh]

lemma exists_effects_of_loweredEffects (h : op.loweredEffects strict r = .ok (effects, r)) :
    ∃ raised, op.effects strict r = .ok (raised, r) ∧ effects = raised.flatMap Effect.lower := by
  unfold loweredEffects at h
  cases heffects : op.effects strict r with
  | error failure => simp [heffects, Except.map] at h
  | ok result =>
    obtain ⟨raised, r₁⟩ := result
    rw [heffects] at h
    cases h
    exact ⟨raised, rfl, rfl⟩

/-- The same effect of the same operation. -/
def ItemAlike (r r' : Registry) (item item' : Effect × Origin) : Prop :=
  Effect.Alike r r' item.1 item'.1 ∧ item.2 = item'.2

/-- Under registries that know its types an operation comes to the same nodes. -/
lemma Settled.forall₂_items (h : op.Settled strict r) (h' : op.Settled strict r') :
    List.Forall₂ (ItemAlike r r') (op.items strict r) (op.items strict r') := by
  obtain ⟨hr, effects, h⟩ := h
  obtain ⟨hr', effects', h'⟩ := h'
  obtain ⟨raised, heffects, rfl⟩ := exists_effects_of_loweredEffects h
  obtain ⟨raised', heffects', rfl⟩ := exists_effects_of_loweredEffects h'
  have hraised := forall₂_effects hr hr' heffects heffects'
  have hlowered : List.Forall₂ (Effect.Alike r r') (raised.flatMap Effect.lower)
      (raised'.flatMap Effect.lower) := List.rel_flatMap hraised fun _ _ h => h.forall₂_lower
  rw [items, items, effectsUnder, effectsUnder, h, h', List.forall₂_map_left_iff,
    List.forall₂_map_right_iff]
  exact hlowered.imp fun _ _ h => ⟨h, rfl⟩

lemma forall₂_flatMap_items {ops : List Operation} (h : ∀ op ∈ ops, op.Settled strict r)
    (h' : ∀ op ∈ ops, op.Settled strict r') :
    List.Forall₂ (ItemAlike r r') (ops.flatMap fun op => op.items strict r)
      (ops.flatMap fun op => op.items strict r') := by
  induction ops with
  | nil => exact .nil
  | cons op ops ih =>
    rw [List.flatMap_cons, List.flatMap_cons]
    refine List.rel_append ((h op List.mem_cons_self).forall₂_items (h' op List.mem_cons_self)) ?_
    exact ih (fun other hother => h other (List.mem_cons_of_mem op hother))
      fun other hother => h' other (List.mem_cons_of_mem op hother)

end Operation

/-! ### Programs -/

namespace EffectGraph

variable {g g' : EffectGraph} {b b' : Branches} {strict : Bool} {r r' : Registry}
  {ops : List Operation} {op : Operation} {id : Nat}

lemma settled_of_addOperations {span span' : Option (Nat × Nat)} {final : Registry}
    (h : addOperations strict g r span ops = .ok (g', r', span')) (hsound : final.Sound)
    (hfinal : r'.Grows final) (hop : op ∈ ops) : op.Settled strict final := by
  induction ops generalizing g r span with
  | nil => cases hop
  | cons first ops ih =>
    obtain ⟨⟨effects, r₁⟩, heffects, h⟩ := exists_of_bind_eq_ok h
    rcases List.mem_cons.mp hop with rfl | hop
    · have hgrown := (grows_addOperations h).trans hfinal
      exact ⟨hsound, effects, (op.stableEffects_loweredEffects strict heffects).2 final hgrown⟩
    · exact ih h hop

lemma settled_of_addBranches {branches : List (Nat × Branch)} {branch : Branch}
    {final : Registry} (h : addBranches strict g r branches = .ok (g', r'))
    (hsound : final.Sound) (hfinal : r'.Grows final) (hbranch : (id, branch) ∈ branches)
    (hop : op ∈ branch.operations) : op.Settled strict final := by
  induction branches generalizing g r with
  | nil => cases hbranch
  | cons first branches ih =>
    obtain ⟨first, branch'⟩ := first
    obtain ⟨⟨g₁, r₁, span⟩, hadd, hrest⟩ := exists_of_bind_eq_ok h
    rcases List.mem_cons.mp hbranch with heq | hbranch
    · cases heq
      exact settled_of_addOperations hadd hsound ((grows_addBranches hrest).trans hfinal) hop
    · exact ih hrest hbranch

lemma sound_of_build (h : build b strict = .ok (g, r)) : r.Sound := by
  obtain ⟨⟨g₀, r₀⟩, hadd, h⟩ := exists_of_bind_eq_ok h
  cases h
  exact (grows_addBranches hadd).sound Registry.sound_empty

/-- The registry of a graph knows the types of all operations. -/
lemma settled_of_build (h : build b strict = .ok (g, r)) (hop : op ∈ (b.get id).operations) :
    op.Settled strict r := by
  have hsound := sound_of_build h
  obtain ⟨⟨g₀, r₀⟩, hadd, h⟩ := exists_of_bind_eq_ok h
  cases h
  have hid : id < b.size := by
    by_contra hge
    rw [Branches.get_of_size_le (Nat.le_of_not_lt hge)] at hop
    cases hop
  exact settled_of_addBranches hadd hsound (.refl _) (Branches.mem_enumerate_get hid) hop

/-! ### Nodes -/

/-- Node `id` of one graph does what node `id'` of another does, or neither is there. -/
inductive NodesAlike (r r' : Registry) (g g' : EffectGraph) (id id' : Nat) : Prop
  | node {effect effect' : Effect} (heffect : g.effect? id = some effect)
      (heffect' : g'.effect? id' = some effect') (halike : Effect.Alike r r' effect effect')
  | absent (heffect : g.effect? id = none) (heffect' : g'.effect? id' = none)

namespace NodesAlike

variable {id' item item' : Nat}

lemma isPush_eq (h : NodesAlike r r' g g' id id') : g.isPush id = g'.isPush id' := by
  cases h with
  | node heffect heffect' halike => simp [isPush, heffect, heffect', halike.isPush_eq]
  | absent heffect heffect' => simp [isPush, heffect, heffect']

lemma exists_of_effect? {effect : Effect} (h : NodesAlike r r' g g' id id')
    (heffect : g.effect? id = some effect) :
    ∃ effect', g'.effect? id' = some effect' ∧ Effect.Alike r r' effect effect' := by
  cases h with
  | node heffect₁ heffect' halike =>
    cases heffect.symm.trans heffect₁
    exact ⟨_, heffect', halike⟩
  | absent hnone => cases heffect.symm.trans hnone

lemma symm (h : NodesAlike r r' g g' id id') : NodesAlike r' r g' g id' id := by
  cases h with
  | node heffect heffect' halike => exact .node heffect' heffect halike.symm
  | absent heffect heffect' => exact .absent heffect' heffect

/-- Nodes that are alike push alike types, or none. -/
lemma pushed? (h : NodesAlike r r' g g' id id') :
    (∃ ty ty', g.pushed? id = some ty ∧ g'.pushed? id' = some ty' ∧ Ty.Alike r r' ty ty') ∨
      (g.pushed? id = none ∧ g'.pushed? id' = none) := by
  cases h with
  | node heffect heffect' halike =>
    simp only [EffectGraph.pushed?, heffect, heffect']
    cases halike with
    | push hty => exact Or.inl ⟨_, _, rfl, rfl, hty⟩
    | _ => exact Or.inr ⟨rfl, rfl⟩
  | absent heffect heffect' =>
    exact Or.inr ⟨by simp [EffectGraph.pushed?, heffect], by simp [EffectGraph.pushed?, heffect']⟩

lemma matching_eq {effect effect' : Effect} (hitem : NodesAlike r r' g g' item item')
    (heffect : Effect.Alike r r' effect effect') :
    Resolution.matching g effect item = Resolution.matching g' effect' item' := by
  unfold Resolution.matching
  rcases hitem.pushed? with ⟨found, found', hfound, hfound', hty⟩ | ⟨hfound, hfound'⟩
  · rw [hfound, hfound']
    cases heffect with
    | push hexpected => exact hexpected.accepts_eq hty
    | pop hexpected => exact hexpected.accepts_eq hty
    | assert hexpected => exact hexpected.accepts_eq hty
    | _ => rfl
  · rw [hfound, hfound']
    cases heffect <;> rfl

/-- The bottom of the stack is alike only to itself. -/
lemma effect?_eq_bottom_iff (h : NodesAlike r r' g g' id id') :
    g.effect? id = some (.push .never) ↔ g'.effect? id' = some (.push .never) := by
  cases h with
  | node heffect heffect' halike =>
    rw [heffect, heffect', Option.some.injEq, Option.some.injEq]
    cases halike with
    | push hty =>
      rw [Effect.push.injEq, Effect.push.injEq]
      exact hty.eq_builtin_iff (by simp)
    | _ => simp
  | absent heffect heffect' => rw [heffect, heffect']

/-- What suits a node suits one that is alike. -/
lemma suits_eq (hitem : NodesAlike r r' g g' item item') (hid : NodesAlike r r' g g' id id') :
    g.suits item id = g'.suits item' id' := by
  cases hid with
  | node heffect heffect' halike =>
    rw [EffectGraph.suits_eq heffect, EffectGraph.suits_eq heffect', hitem.matching_eq halike]
  | absent heffect heffect' => simp [suits, heffect, heffect']

end NodesAlike

end EffectGraph

end ZeroWidth
