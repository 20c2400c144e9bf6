import Mathlib.Data.List.Basic
import ZeroWidth.Proofs.Edges
import ZeroWidth.Proofs.Layout
import ZeroWidth.Proofs.Registry

/-!
# The fragments of branches

A graph is built by adding nodes behind each other, so that what has been built stays: nodes keep
their effects, and edges are only added. Custom types get their numbers on the way; since no number
changes afterwards, the effects of all operations can be told from the registry that is there in the
end. The fragment of a branch is the chain of the effects of its operations, and a branch without
effects has none.
-/

namespace ZeroWidth

/-! ### Types that get their numbers on the way -/

/-- Effects that introduce the types they mention, and that do not depend on types met later. -/
def StableEffects (effects : Registry → Except CheckFailure (List Effect × Registry)) : Prop :=
  ∀ ⦃r r₁ : Registry⦄ ⦃es : List Effect⦄, effects r = .ok (es, r₁) →
    r.Grows r₁ ∧ ∀ r' : Registry, r₁.Grows r' → effects r' = .ok (es, r')

lemma stableEffects_ok (es : List Effect) : StableEffects fun r => .ok (es, r) := by
  rintro r r₁ es ⟨⟩
  exact ⟨Registry.Grows.refl _, fun _ _ => rfl⟩

lemma stableEffects_map (depth : Except CheckFailure Nat) (f : Nat → List Effect) :
    StableEffects fun r => depth.map fun d => (f d, r) := by
  cases depth with
  | error e =>
    rintro r r₁ es ⟨⟩
  | ok d => exact stableEffects_ok (f d)

namespace Operation

variable {op : Operation} {strict : Bool} {r r' : Registry}

lemma grows_annotatedType (op : Operation) (r : Registry) :
    r.Grows (op.annotatedType r).2 := by
  unfold annotatedType
  split
  · exact Registry.grows_intern r _
  · exact Registry.Grows.refl _

lemma annotatedType_of_grows (h : (op.annotatedType r).2.Grows r') :
    op.annotatedType r' = ((op.annotatedType r).1, r') := by
  unfold annotatedType at h ⊢
  split
  · rename_i name hname
    rw [hname] at h
    exact Registry.intern_of_grows h
  · rfl

lemma stableEffects_annotatedType (op : Operation) (f : Ty → List Effect) :
    StableEffects fun r => .ok (f (op.annotatedType r).1, (op.annotatedType r).2) := by
  rintro r r₁ es ⟨⟩
  refine ⟨grows_annotatedType op r, fun r' hr' => ?_⟩
  simp only [annotatedType_of_grows hr']

lemma stableEffects_effects (op : Operation) (strict : Bool) :
    StableEffects (op.effects strict) := by
  unfold effects
  cases op.instruction
  case copy => exact stableEffects_map op.depth fun depth => [.copy depth]
  case slide =>
    exact stableEffects_map op.depth fun depth =>
      List.replicate (depth + 1) (.pop .any) ++ [.push .any]
  case cast =>
    exact stableEffects_annotatedType op fun ty => [.pop (.fresh strict), .push ty]
  case assert => exact stableEffects_annotatedType op fun ty => [.assert ty]
  all_goals exact stableEffects_ok _

lemma stableEffects_loweredEffects (op : Operation) (strict : Bool) :
    StableEffects (op.loweredEffects strict) := by
  intro r r₁ es h
  unfold loweredEffects at h ⊢
  cases heffects : op.effects strict r with
  | error e => simp [heffects, Except.map] at h
  | ok result =>
    obtain ⟨effects, r₂⟩ := result
    rw [heffects] at h
    cases h
    obtain ⟨hgrown, hstable⟩ := stableEffects_effects op strict heffects
    refine ⟨hgrown, fun r' hr' => ?_⟩
    rw [hstable r' hr']
    rfl

/-- The effects of an operation whose types are known, and none if it has no effects. -/
def effectsUnder (op : Operation) (strict : Bool) (r : Registry) : List Effect :=
  match op.loweredEffects strict r with
  | .ok (effects, _) => effects
  | .error _         => []

lemma effectsUnder_of_loweredEffects {r₁ : Registry} {es : List Effect}
    (h : op.loweredEffects strict r = .ok (es, r₁)) (hr' : r₁.Grows r') :
    op.effectsUnder strict r' = es := by
  rw [effectsUnder, (stableEffects_loweredEffects op strict h).2 r' hr']

def origin (op : Operation) : Origin := ⟨op.instruction, op.span⟩

/-- The nodes an operation comes to: an effect each, and the operation itself. -/
def items (op : Operation) (strict : Bool) (r : Registry) : List (Effect × Origin) :=
  (op.effectsUnder strict r).map fun effect => (effect, op.origin)

end Operation

namespace EffectGraph

variable {g h k : EffectGraph} {span : Option (Nat × Nat)} {items : List (Effect × Origin)}

/-- What is in the first graph is in the second one as well. -/
structure Embeds (g h : EffectGraph) : Prop where
  root     : h.root = g.root
  effect   : ∀ {id effect}, g.effect? id = some effect → h.effect? id = some effect
  origin   : ∀ {id origin}, g.origin? id = some origin → h.origin? id = some origin
  edge     : ∀ {a b}, g.Edge a b → h.Edge a b
  mirrored : g.Mirrored → h.Mirrored

namespace Embeds

lemma refl (g : EffectGraph) : Embeds g g := ⟨rfl, id, id, id, id⟩

lemma trans (hgh : Embeds g h) (hhk : Embeds h k) : Embeds g k where
  root     := hhk.root.trans hgh.root
  effect   := fun heffect => hhk.effect (hgh.effect heffect)
  origin   := fun horigin => hhk.origin (hgh.origin horigin)
  edge     := fun hedge => hhk.edge (hgh.edge hedge)
  mirrored := fun hm => hhk.mirrored (hgh.mirrored hm)

end Embeds

lemma embeds_addNode (g : EffectGraph) (effect : Effect) (origin : Option Origin) :
    Embeds g (g.addNode effect origin).2 := by
  have hnode : ∀ {id node}, g.node? id = some node →
      (g.addNode effect origin).2.node? id = some node := fun {id node} hid => by
    rw [node?_addNode, if_neg (lt_size_of_node? hid).ne, hid]
  refine ⟨rfl, fun heffect => ?_, fun horigin => ?_, edge_addNode.mpr, fun hm => hm.addNode _ _⟩
  · obtain ⟨node, hid, heq⟩ := Option.map_eq_some_iff.mp heffect
    rw [effect?, hnode hid, Option.map_some, heq]
  · obtain ⟨node, hid, heq⟩ := Option.bind_eq_some_iff.mp horigin
    rw [origin?, hnode hid, Option.bind_some, heq]

lemma embeds_link {parent child : Nat} (hp : parent < g.size) (hc : child < g.size) :
    Embeds g (g.link parent child) where
  root     := rfl
  effect   := fun heffect => (sameNodes_link g parent child).effect _ ▸ heffect
  origin   := fun horigin => (sameNodes_link g parent child).origin _ ▸ horigin
  edge     := fun hedge => (edge_link hp).mpr (Or.inl hedge)
  mirrored := fun hm => hm.link hp hc

lemma embeds_linkAll {parent : Nat} {ids : List Nat} (hp : parent < g.size)
    (hids : ∀ id ∈ ids, id < g.size) : Embeds g (g.linkAll parent ids) where
  root     := (sameNodes_linkAll g parent ids).root
  effect   := fun heffect => (sameNodes_linkAll g parent ids).effect _ ▸ heffect
  origin   := fun horigin => (sameNodes_linkAll g parent ids).origin _ ▸ horigin
  edge     := fun hedge => (edge_linkAll hp).mpr (Or.inl hedge)
  mirrored := fun hm => hm.linkAll hp hids

lemma embeds_fragments (g : EffectGraph) (fragments : List Fragment) :
    Embeds g { g with fragments } := ⟨rfl, id, id, id, id⟩

/-! ### Chains -/

/-- The items are nodes in a row from `head` on, each linked to the next. -/
structure Chain (g : EffectGraph) (head : Nat) (items : List (Effect × Origin)) : Prop where
  effect : ∀ {i item}, items[i]? = some item → g.effect? (head + i) = some item.1
  origin : ∀ {i item}, items[i]? = some item → g.origin? (head + i) = some item.2
  edge   : ∀ {i}, i + 1 < items.length → g.Edge (head + i) (head + i + 1)

lemma Chain.embeds {head : Nat} (hchain : g.Chain head items) (hgh : Embeds g h) :
    h.Chain head items where
  effect := fun hitem => hgh.effect (hchain.effect hitem)
  origin := fun hitem => hgh.origin (hchain.origin hitem)
  edge   := fun hi => hgh.edge (hchain.edge hi)

lemma Chain.concat {head : Nat} {effect : Effect} {origin : Origin} (hchain : g.Chain head items)
    (heffect : g.effect? (head + items.length) = some effect)
    (horigin : g.origin? (head + items.length) = some origin)
    (hedge : items ≠ [] → g.Edge (head + items.length - 1) (head + items.length)) :
    g.Chain head (items ++ [(effect, origin)]) := by
  have hcases : ∀ {i item}, (items ++ [(effect, origin)])[i]? = some item →
      items[i]? = some item ∨ (i = items.length ∧ item = (effect, origin)) := fun {i item} hi => by
    rw [List.getElem?_append] at hi
    split at hi
    · exact Or.inl hi
    · rw [List.getElem?_singleton] at hi
      split at hi
      · exact Or.inr ⟨by omega, (Option.some.inj hi).symm⟩
      · cases hi
  refine ⟨fun hi => ?_, fun hi => ?_, fun {i} hi => ?_⟩
  · rcases hcases hi with hi | ⟨rfl, rfl⟩
    · exact hchain.effect hi
    · exact heffect
  · rcases hcases hi with hi | ⟨rfl, rfl⟩
    · exact hchain.origin hi
    · exact horigin
  · rcases Nat.lt_or_ge (i + 1) items.length with hlt | hge
    · exact hchain.edge hlt
    · have hi : i + 1 = items.length := by simp at hi; omega
      have hne : items ≠ [] := fun hnil => by simp [hnil] at hi
      simpa [← hi, ← Nat.add_assoc] using hedge hne

/-- The items are the last nodes of the graph, and `span` has the first and the last of them. -/
def Spans (g : EffectGraph) : Option (Nat × Nat) → List (Effect × Origin) → Prop
  | none,              items => items = []
  | some (head, tail), items =>
    items ≠ [] ∧ tail + 1 = head + items.length ∧ tail + 1 = g.size ∧ g.Chain head items

lemma root_extend (g : EffectGraph) (span : Option (Nat × Nat)) (effect : Effect)
    (origin : Origin) : (g.extend span effect origin).1.root = g.root := by
  cases span <;> rfl

lemma fragments_extend (g : EffectGraph) (span : Option (Nat × Nat)) (effect : Effect)
    (origin : Origin) : (g.extend span effect origin).1.fragments = g.fragments := by
  cases span <;> rfl

lemma size_extend (g : EffectGraph) (span : Option (Nat × Nat)) (effect : Effect)
    (origin : Origin) : (g.extend span effect origin).1.size = g.size + 1 := by
  cases span with
  | none => exact size_addNode g effect (some origin)
  | some ends => exact (size_link _ _ _).trans (size_addNode g effect (some origin))

lemma embeds_extend (hspan : g.Spans span items) (effect : Effect) (origin : Origin) :
    Embeds g (g.extend span effect origin).1 := by
  have hadd := embeds_addNode g effect (some origin)
  cases span with
  | none => exact hadd
  | some ends =>
    obtain ⟨-, -, htail, -⟩ := hspan
    refine hadd.trans (embeds_link ?_ ?_)
    · rw [size_addNode]
      omega
    · rw [size_addNode]
      exact Nat.lt_succ_self _

/-- One more effect makes the chain one node longer. -/
lemma spans_extend (hspan : g.Spans span items) (effect : Effect) (origin : Origin) :
    (g.extend span effect origin).1.Spans (g.extend span effect origin).2
      (items ++ [(effect, origin)]) := by
  have hnode : (g.addNode effect (some origin)).2.node? g.size =
      some ⟨effect, some origin, [], []⟩ := by rw [node?_addNode, if_pos rfl]
  have heffect : (g.addNode effect (some origin)).2.effect? g.size = some effect := by
    rw [effect?, hnode, Option.map_some]
  have horigin : (g.addNode effect (some origin)).2.origin? g.size = some origin := by
    rw [origin?, hnode, Option.bind_some]
  have hembeds := embeds_extend hspan effect origin
  have hsize := size_extend g span effect origin
  cases span with
  | none =>
    cases hspan
    refine ⟨by simp, rfl, hsize.symm, ?_⟩
    exact Chain.concat ⟨by simp, by simp, by simp⟩ heffect horigin (fun h => absurd rfl h)
  | some ends =>
    obtain ⟨head, tail⟩ := ends
    obtain ⟨-, hlength, htail, hchain⟩ := hspan
    have hlast : head + items.length = g.size := by omega
    refine ⟨by simp, ?_, hsize.symm, (hchain.embeds hembeds).concat ?_ ?_ fun _ => ?_⟩
    · rw [List.length_append, ← Nat.add_assoc, hlast]
      rfl
    · exact hlast ▸ ((sameNodes_link _ _ _).effect _).trans heffect
    · exact hlast ▸ ((sameNodes_link _ _ _).origin _).trans horigin
    · have hlt : tail < (g.addNode effect (some origin)).2.size := by
        rw [size_addNode]
        omega
      rw [hlast, ← htail]
      exact (edge_link hlt).mpr (Or.inr ⟨rfl, htail⟩)

/-- The chain of the effects of one operation behind what there is. -/
lemma spans_foldl (hspan : g.Spans span items) (effects : List Effect) (origin : Origin) :
    let result := effects.foldl (fun (g, span) effect => g.extend span effect origin) (g, span)
    result.1.Spans result.2 (items ++ effects.map fun effect => (effect, origin)) ∧
      Embeds g result.1 ∧ result.1.fragments = g.fragments := by
  induction effects generalizing g span items with
  | nil => exact ⟨by simpa using hspan, Embeds.refl g, rfl⟩
  | cons effect effects ih =>
    obtain ⟨hspans, hembeds, hfragments⟩ := ih (spans_extend hspan effect origin)
    refine ⟨?_, (embeds_extend hspan effect origin).trans hembeds,
      hfragments.trans (fragments_extend g span effect origin)⟩
    simpa using hspans

variable {strict : Bool} {r r' final : Registry} {ops : List Operation}

lemma grows_addOperations {span' : Option (Nat × Nat)}
    (hadd : addOperations strict g r span ops = .ok (h, r', span')) : r.Grows r' := by
  induction ops generalizing g r span with
  | nil =>
    cases hadd
    exact .refl _
  | cons op ops ih =>
    obtain ⟨⟨effects, r₁⟩, heffects, hadd⟩ := exists_of_bind_eq_ok hadd
    exact (Operation.stableEffects_loweredEffects op strict heffects).1.trans (ih hadd)

/-- Operations add the chain of their effects, as they are in the end. -/
lemma spans_addOperations {span' : Option (Nat × Nat)} (hspan : g.Spans span items)
    (hadd : addOperations strict g r span ops = .ok (h, r', span'))
    (hfinal : r'.Grows final) :
    h.Spans span' (items ++ ops.flatMap fun op => op.items strict final) ∧ Embeds g h ∧
      h.fragments = g.fragments := by
  induction ops generalizing g r span items with
  | nil =>
    cases hadd
    exact ⟨by simpa using hspan, Embeds.refl _, rfl⟩
  | cons op ops ih =>
    obtain ⟨⟨effects, r₁⟩, heffects, hadd⟩ := exists_of_bind_eq_ok hadd
    have hunder : op.effectsUnder strict final = effects :=
      Operation.effectsUnder_of_loweredEffects heffects ((grows_addOperations hadd).trans hfinal)
    obtain ⟨hspans, hembeds, hfragments⟩ := spans_foldl hspan effects op.origin
    obtain ⟨hspans', hembeds', hfragments'⟩ := ih hspans hadd
    refine ⟨?_, hembeds.trans hembeds', hfragments'.trans hfragments⟩
    simpa [Operation.items, hunder] using hspans'

/-! ### All fragments -/

/-- The fragments of a graph are the chains of what the branches come to, and none is missing among
the branches `ids`. -/
structure Fragmented (g : EffectGraph) (items : Nat → List (Effect × Origin)) (ids : List Nat) :
    Prop where
  length   : ∀ f ∈ g.fragments, items f.branch ≠ [] ∧ f.tail + 1 = f.head + (items f.branch).length
  chain    : ∀ f ∈ g.fragments, g.Chain f.head (items f.branch)
  complete : ∀ id ∈ ids, items id ≠ [] → ∃ f ∈ g.fragments, f.branch = id

variable {items : Nat → List (Effect × Origin)} {ids : List Nat}

lemma Fragmented.embeds (hg : g.Fragmented items ids) (hgh : Embeds g h)
    (hfragments : h.fragments = g.fragments) : h.Fragmented items ids where
  length   := hfragments ▸ hg.length
  chain    := fun f hf => (hg.chain f (hfragments ▸ hf)).embeds hgh
  complete := hfragments ▸ hg.complete

lemma Fragmented.skip {id : Nat} (hg : g.Fragmented items ids) (hid : items id = []) :
    g.Fragmented items (ids ++ [id]) where
  length   := hg.length
  chain    := hg.chain
  complete := fun other hother hne => by
    rcases List.mem_append.mp hother with hother | hother
    · exact hg.complete other hother hne
    · rw [List.mem_singleton.mp hother] at hne
      exact absurd hid hne

lemma Fragmented.add {id head tail : Nat} (hg : g.Fragmented items ids)
    (hspan : g.Spans (some (head, tail)) (items id)) :
    { g with fragments := g.fragments ++ [⟨id, head, tail⟩] : EffectGraph }.Fragmented items
      (ids ++ [id]) := by
  obtain ⟨hne, hlength, -, hchain⟩ := hspan
  refine ⟨fun f hf => ?_, fun f hf => ?_, fun other hother hother' => ?_⟩
  · rcases List.mem_append.mp hf with hf | hf
    · exact hg.length f hf
    · rw [List.mem_singleton.mp hf]
      exact ⟨hne, hlength⟩
  · rcases List.mem_append.mp hf with hf | hf
    · exact (hg.chain f hf).embeds (embeds_fragments g _)
    · rw [List.mem_singleton.mp hf]
      exact hchain.embeds (embeds_fragments g _)
  · rcases List.mem_append.mp hother with hother | hother
    · obtain ⟨f, hf, hbranch⟩ := hg.complete other hother hother'
      exact ⟨f, List.mem_append_left _ hf, hbranch⟩
    · exact ⟨_, List.mem_append_right _ List.mem_cons_self, (List.mem_singleton.mp hother).symm⟩

variable {branches : List (Nat × Branch)}

lemma grows_addBranches (hadd : addBranches strict g r branches = .ok (h, r')) :
    r.Grows r' := by
  induction branches generalizing g r with
  | nil =>
    cases hadd
    exact .refl _
  | cons entry branches ih =>
    obtain ⟨⟨g₁, r₁, span⟩, hops, hadd⟩ := exists_of_bind_eq_ok hadd
    exact (grows_addOperations hops).trans (ih hadd)

/-- Adding branches adds their fragments. -/
lemma fragmented_addBranches (hg : g.Fragmented items ids)
    (hadd : addBranches strict g r branches = .ok (h, r')) (hfinal : r'.Grows final)
    (hitems : ∀ entry ∈ branches,
      items entry.1 = entry.2.operations.flatMap fun op => op.items strict final) :
    h.Fragmented items (ids ++ branches.map Prod.fst) ∧ Embeds g h := by
  induction branches generalizing g r ids with
  | nil =>
    cases hadd
    exact ⟨by simpa using hg, Embeds.refl _⟩
  | cons entry branches ih =>
    obtain ⟨id, branch⟩ := entry
    obtain ⟨⟨g₁, r₁, span⟩, hops, hadd⟩ := exists_of_bind_eq_ok hadd
    have hempty : g.Spans none [] := rfl
    obtain ⟨hspans, hembeds, hfragments⟩ :=
      spans_addOperations hempty hops ((grows_addBranches hadd).trans hfinal)
    rw [List.nil_append, ← hitems (id, branch) List.mem_cons_self] at hspans
    have hg₁ := hg.embeds hembeds hfragments
    have hrest : ∀ entry ∈ branches, _ := fun entry hentry =>
      hitems entry (List.mem_cons_of_mem _ hentry)
    rw [List.map_cons, List.append_cons]
    cases span with
    | none =>
      obtain ⟨hfragmented, hembeds'⟩ := ih (hg₁.skip hspans) hadd hrest
      exact ⟨hfragmented, hembeds.trans hembeds'⟩
    | some ends =>
      obtain ⟨head, tail⟩ := ends
      obtain ⟨hfragmented, hembeds'⟩ := ih (hg₁.add hspans) hadd hrest
      exact ⟨hfragmented, (hembeds.trans (embeds_fragments g₁ _)).trans hembeds'⟩

end EffectGraph

end ZeroWidth
