import ZeroWidth.Proofs.Soundness
import ZeroWidth.Proofs.Splicing

/-!
# Assertions only restrict

Deleting an assertion from a program takes one node out of its graph, whatever branch it stood in:
the nodes behind it get the number before theirs, and what may have been the latest effect before
the assertion may be the latest one behind it. So every operation that is reported without the
assertion was reported with it.
-/

namespace ZeroWidth

namespace EffectGraph

variable {g g' : EffectGraph} {b b' : Branches} {strict : Bool} {r r' : Registry}
  {items items' : Nat → List (Effect × Origin)} {id κ other k x y : Nat}

/-! ### One effect more -/

/-- The effects `items` of branches are `items'` with an assertion more, which is the effect number
`κ` of branch `id`. -/
structure Inserted (r' r : Registry) (items' items : Nat → List (Effect × Origin)) (id κ : Nat) :
    Prop where
  le      : κ ≤ (items' id).length
  length  : ∀ other, (items other).length = (items' other).length + if other = id then 1 else 0
  alike   : ∀ {other k item'}, (items' other)[k]? = some item' →
    ∃ item, (items other)[shiftIn id κ other k]? = some item ∧
      Operation.ItemAlike r' r item' item
  asserts : ∃ ty origin, (items id)[κ]? = some (.assert ty, origin)

/-- Where control is among the effects without the one, given where it is among all. -/
def retract (id κ other k : Nat) : Nat := if other = id ∧ κ < k then k - 1 else k

namespace Inserted

lemma lt_length (hi : Inserted r' r items' items id κ) : κ < (items id).length := by
  have hlength := hi.length id
  have hle := hi.le
  rw [if_pos rfl] at hlength
  omega

lemma shiftIn_lt (hi : Inserted r' r items' items id κ) (hk : k < (items' other).length) :
    shiftIn id κ other k < (items other).length := by
  rw [hi.length, shiftIn, shift]
  split_ifs <;> omega

/-- Every effect but the one is one of those without it. -/
lemma exists_shiftIn (hi : Inserted r' r items' items id κ) (hk : k < (items other).length)
    (hne : ¬ (other = id ∧ k = κ)) : ∃ k' < (items' other).length, k = shiftIn id κ other k' := by
  have hle := hi.le
  rw [hi.length] at hk
  unfold shiftIn
  by_cases hother : other = id
  · subst hother
    obtain ⟨k', rfl⟩ := exists_shift_eq fun heq => hne ⟨rfl, heq⟩
    refine ⟨k', ?_, (if_pos rfl).symm⟩
    simp only [shift, if_true] at hk
    split at hk <;> omega
  · rw [if_neg hother] at hk
    exact ⟨k, hk, (if_neg hother).symm⟩

lemma firstNode_eq (hi : Inserted r' r items' items id κ) (other : Nat) :
    firstNode items other = firstNode items' other + if id < other then 1 else 0 := by
  induction other with
  | zero => simp [firstNode]
  | succ other ih =>
    rw [firstNode, firstNode, ih, hi.length]
    split_ifs <;> omega

/-- The nodes in front of the one keep their numbers, and those behind it have one more before
them. -/
lemma nodeAt_shiftIn (hi : Inserted r' r items' items id κ) (hk : k < (items' other).length) :
    nodeAt items other (shiftIn id κ other k) =
      shift (nodeAt items id κ) (nodeAt items' other k) := by
  have hle := hi.le
  have hother := hi.firstNode_eq other
  have hid := hi.firstNode_eq id
  simp only [lt_irrefl, if_false] at hid
  rw [nodeAt, nodeAt, nodeAt, hid, hother, shiftIn, shift, shift]
  rcases Nat.lt_trichotomy other id with hlt | rfl | hgt
  · have hbefore : firstNode items' other + (items' other).length ≤ firstNode items' id :=
      firstNode_le hlt
    rw [if_neg hlt.ne, if_neg (by omega), if_pos (by omega)]
    omega
  · simp only [if_true, lt_irrefl, if_false]
    split_ifs <;> omega
  · have hbehind : firstNode items' id + (items' id).length ≤ firstNode items' other :=
      firstNode_le hgt
    rw [if_neg hgt.ne', if_pos hgt, if_neg (by omega)]
    omega

lemma shiftIn_length (hi : Inserted r' r items' items id κ) (other : Nat) :
    shiftIn id κ other (items' other).length = (items other).length := by
  have hle := hi.le
  rw [hi.length, shiftIn, shift]
  split_ifs with hother hlt
  · subst hother
    omega
  · rfl
  · rfl

lemma retract_length (hi : Inserted r' r items' items id κ) (other : Nat) :
    retract id κ other (items other).length = (items' other).length := by
  have hle := hi.le
  rw [hi.length, retract]
  by_cases hother : other = id
  · subst hother
    simp [Nat.lt_succ_of_le hle]
  · simp [hother]

end Inserted

lemma retract_shiftIn (id κ other k : Nat) : retract id κ other (shiftIn id κ other k) = k := by
  unfold retract shiftIn shift
  split_ifs <;> omega

lemma retract_shiftIn_succ (id κ other k : Nat) :
    retract id κ other (shiftIn id κ other k + 1) = k + 1 := by
  unfold retract shiftIn shift
  split_ifs <;> omega

lemma retract_zero (id κ other : Nat) : retract id κ other 0 = 0 := by
  simp [retract]

/-! ### The latest effect, with the assertion and without it -/

section Latest

variable (hi : Inserted r' r items' items id κ) (hways : b'.SameWays b)

include hi hways

/-- What may have been the latest effect may have been so without the assertion, unless it is the
assertion. -/
lemma LatestAt.retract (hx : LatestAt items b x other k) (hne : x ≠ nodeAt items id κ) :
    ∃ y, x = shift (nodeAt items id κ) y ∧ LatestAt items' b' y other (retract id κ other k) := by
  induction hx with
  | entry =>
    refine ⟨0, (if_pos (root_lt_nodeAt items id κ)).symm, ?_⟩
    rw [retract_zero]
    exact .entry
  | @effect other k hk =>
    obtain ⟨k', hk', rfl⟩ := hi.exists_shiftIn hk fun heq => hne (by rw [heq.1, heq.2])
    refine ⟨nodeAt items' other k', hi.nodeAt_shiftIn hk', ?_⟩
    rw [retract_shiftIn_succ]
    exact .effect hk'
  | @leave x other next hx hlive hnext ih =>
    obtain ⟨y, rfl, hy⟩ := ih hne
    refine ⟨y, rfl, ?_⟩
    rw [hi.retract_length] at hy
    rw [retract_zero]
    exact hy.leave (hways.live_iff.mp hlive) (hways.flow_eq ▸ hnext)

/-- Where the assertion may be the latest effect, what may be so just before it may be so without
it. -/
lemma LatestAt.retract_assertion (hx : LatestAt items b x other k) (heq : x = nodeAt items id κ)
    (hy : LatestAt items' b' y id κ) :
    LatestAt items' b' y other (EffectGraph.retract id κ other k) := by
  induction hx with
  | entry => exact absurd heq (root_lt_nodeAt items id κ).ne
  | @effect other k hk =>
    obtain ⟨rfl, rfl⟩ := nodeAt_inj hk hi.lt_length heq
    rw [EffectGraph.retract, if_pos ⟨rfl, Nat.lt_succ_self _⟩]
    exact hy
  | @leave x other next hx hlive hnext ih =>
    have hleft := ih heq
    rw [hi.retract_length] at hleft
    rw [retract_zero]
    exact hleft.leave (hways.live_iff.mp hlive) (hways.flow_eq ▸ hnext)

omit hways in
/-- Control that is just before the assertion goes on to it. -/
lemma LatestAt.pass (hx : LatestAt items b x other (if other = id ∧ κ < k then k + 1 else k)) :
    LatestAt items b x other (shiftIn id κ other k) ∨
      LatestAt items b x id κ ∧
        LatestAt items b (nodeAt items id κ) other (shiftIn id κ other k) := by
  by_cases hat : other = id ∧ k = κ
  · obtain ⟨rfl, rfl⟩ := hat
    rw [if_neg (by simp)] at hx
    refine Or.inr ⟨hx, ?_⟩
    rw [shiftIn, if_pos rfl, shift, if_neg (Nat.lt_irrefl k)]
    exact .effect hi.lt_length
  · left
    convert hx using 1
    unfold shiftIn shift
    split_ifs <;> omega

/-- What may have been the latest effect without the assertion may have been so with it, or may have
been so just before the assertion, which is the latest effect then. -/
lemma LatestAt.insert (hy : LatestAt items' b' y other k) :
    LatestAt items b (shift (nodeAt items id κ) y) other (shiftIn id κ other k) ∨
      LatestAt items b (shift (nodeAt items id κ) y) id κ ∧
        LatestAt items b (nodeAt items id κ) other (shiftIn id κ other k) := by
  induction hy with
  | entry =>
    rw [show shift (nodeAt items id κ) 0 = 0 from if_pos (root_lt_nodeAt items id κ)]
    exact LatestAt.pass hi (by simpa using LatestAt.entry)
  | @effect other k hk =>
    rw [← hi.nodeAt_shiftIn hk]
    refine LatestAt.pass hi ?_
    convert LatestAt.effect (hi.shiftIn_lt hk) using 1
    unfold shiftIn shift
    split_ifs <;> omega
  | @leave y other next hy hlive hnext ih =>
    have hlive := hways.live_iff.mpr hlive
    have hnext : next ∈ b.flow other := hways.flow_eq ▸ hnext
    rw [hi.shiftIn_length] at ih
    rcases ih with hleft | ⟨hbefore, hleft⟩
    · exact LatestAt.pass hi (by simpa using hleft.leave hlive hnext)
    · have hpassed := LatestAt.pass (k := 0) hi (by simpa using hleft.leave hlive hnext)
      exact Or.inr ⟨hbefore, hpassed.elim (fun h => h) And.right⟩

end Latest

/-! ### The effects of a program with an assertion more -/

/-- Effects that are alike but for one that is put between them. -/
lemma exists_getElem?_shift {α β : Type} {R : α → β → Prop} {l₁ l₂ : List α} {l₁' l₂' : List β}
    (h₁ : List.Forall₂ R l₁ l₁') (h₂ : List.Forall₂ R l₂ l₂') {k : Nat} {x : α} {new : β}
    (hx : (l₁ ++ l₂)[k]? = some x) :
    ∃ y, (l₁' ++ new :: l₂')[shift l₁.length k]? = some y ∧ R x y := by
  rw [h₁.length_eq, getElem?_append_cons_shift]
  exact exists_getElem?_of_forall₂ (List.rel_append h₁ h₂) hx

lemma items_of_assert {a : Operation} (ha : a.instruction = .assert) (strict : Bool)
    (r : Registry) : a.items strict r = [(.assert (a.annotatedType r).1, a.origin)] := by
  simp [Operation.items, Operation.effectsUnder, Operation.loweredEffects, Operation.effects, ha,
    Except.map, Effect.lower]

/-- What stands before an item of a list comes to as many elements if another item is put into it,
and to one more if it is put before that one and comes to one element. -/
lemma length_flatMap_take_shift {α β : Type} {f : α → List β} {before after : List α} {new x : α}
    {slot k : Nat} (hnew : (f new).length = 1) (hx : (before ++ after)[slot]? = some x)
    (hk : k < (f x).length) :
    (((before ++ new :: after).take (shift before.length slot)).flatMap f).length + k =
      shift (before.flatMap f).length ((((before ++ after).take slot).flatMap f).length + k) := by
  rcases Nat.lt_or_ge slot before.length with hlt | hge
  · rw [List.getElem?_append_left hlt] at hx
    have hfront : ((before.take slot).flatMap f).length + k < (before.flatMap f).length := by
      have hsplit := congrArg (fun l => (l.flatMap f).length)
        (List.take_append_drop (slot + 1) before)
      simp only [List.take_add_one, hx, Option.toList_some, List.flatMap_append, List.length_append,
        List.flatMap_singleton] at hsplit
      omega
    rw [shift, if_pos hlt, List.take_append_of_le_length hlt.le,
      List.take_append_of_le_length hlt.le, shift, if_pos hfront]
  · have htake : (before ++ new :: after).take (slot + 1) =
        before ++ new :: after.take (slot - before.length) := by
      rw [List.take_append, List.take_of_length_le (by omega),
        show slot + 1 - before.length = slot - before.length + 1 by omega, List.take_succ_cons]
    have htake' : (before ++ after).take slot = before ++ after.take (slot - before.length) := by
      rw [List.take_append, List.take_of_length_le hge]
    rw [shift, if_neg (by omega), htake, htake', List.flatMap_append, List.flatMap_append,
      List.flatMap_cons, List.length_append, List.length_append, List.length_append, hnew, shift,
      if_neg (by omega)]
    omega

section Gains

variable {a : Operation} {before : List Operation} (hgains : b'.Gains id before a b)
  (hbuild : build b strict = .ok (g, r)) (hbuild' : build b' strict = .ok (g', r'))

include hgains hbuild hbuild'

/-- The operations of all other branches, and those before and behind the assertion in its own,
come to the same nodes. -/
lemma forall₂_of_gains : ∃ after, (b'.get id).operations = before ++ after ∧
    (b.get id).operations = before ++ a :: after ∧
    List.Forall₂ (Operation.ItemAlike r' r) (before.flatMap fun op => op.items strict r')
      (before.flatMap fun op => op.items strict r) ∧
    List.Forall₂ (Operation.ItemAlike r' r) (after.flatMap fun op => op.items strict r')
      (after.flatMap fun op => op.items strict r) := by
  obtain ⟨after, hoperations', hget⟩ := hgains.branch
  have hoperations : (b.get id).operations = before ++ a :: after := by rw [hget]
  have hsettled' : ∀ op ∈ (b'.get id).operations, op.Settled strict r' := fun op hop =>
    settled_of_build hbuild' hop
  have hsettled : ∀ op ∈ (b.get id).operations, op.Settled strict r := fun op hop =>
    settled_of_build hbuild hop
  refine ⟨after, hoperations', hoperations, ?_, ?_⟩
  · exact Operation.forall₂_flatMap_items
      (fun op hop => hsettled' op (by simp [hoperations', hop]))
      fun op hop => hsettled op (by simp [hoperations, hop])
  · exact Operation.forall₂_flatMap_items
      (fun op hop => hsettled' op (by simp [hoperations', hop]))
      fun op hop => hsettled op (by simp [hoperations, hop])

lemma inserted_of_gains (ha : a.instruction = .assert) :
    Inserted r' r (branchItems b' strict r') (branchItems b strict r) id
      (itemsBefore b' strict r' id before.length).length := by
  obtain ⟨after, hoperations', hoperations, hbefore, hafter⟩ :=
    forall₂_of_gains hgains hbuild hbuild'
  have hitems' : branchItems b' strict r' id = (before.flatMap fun op => op.items strict r') ++
      after.flatMap fun op => op.items strict r' := by
    rw [branchItems, hoperations', List.flatMap_append]
  have hitems : branchItems b strict r id = (before.flatMap fun op => op.items strict r) ++
      (.assert (a.annotatedType r).1, a.origin) :: after.flatMap fun op => op.items strict r := by
    rw [branchItems, hoperations, List.flatMap_append, List.flatMap_cons, items_of_assert ha]
    rfl
  have hothers : ∀ other, other ≠ id → List.Forall₂ (Operation.ItemAlike r' r)
      (branchItems b' strict r' other) (branchItems b strict r other) := fun other hother => by
    rw [branchItems, branchItems, hgains.others other hother]
    exact Operation.forall₂_flatMap_items (fun op hop => settled_of_build hbuild' hop)
      fun op hop => settled_of_build hbuild (hgains.others other hother ▸ hop)
  have hκ : itemsBefore b' strict r' id before.length =
      before.flatMap fun op => op.items strict r' := by
    rw [itemsBefore, hoperations', List.take_left]
  rw [hκ]
  constructor
  case le =>
    rw [hitems', List.length_append]
    exact Nat.le_add_right ..
  case length =>
    intro other
    split
    · rename_i heq
      rw [heq, hitems, hitems', List.length_append, List.length_append, hbefore.length_eq,
        List.length_cons, hafter.length_eq]
      rfl
    · rename_i hne
      exact (hothers other hne).length_eq.symm
  case alike =>
    intro other k item' hitem'
    unfold shiftIn
    split
    · rename_i heq
      rw [heq, hitems'] at hitem'
      rw [heq, hitems]
      exact exists_getElem?_shift hbefore hafter hitem'
    · rename_i hne
      exact exists_getElem?_of_forall₂ (hothers other hne) hitem'
  case asserts =>
    refine ⟨(a.annotatedType r).1, a.origin, ?_⟩
    rw [hitems, hbefore.length_eq, List.getElem?_append_right le_rfl, Nat.sub_self]
    rfl

/-- An operation has as many effects before it as without the assertion, and one more if it stands
behind that in its branch. -/
lemma length_itemsBefore_of_gains (ha : a.instruction = .assert) {slot : Nat} {op : Operation}
    (hop : (b'.get other).operations[slot]? = some op) (hk : k < (op.items strict r').length) :
    (itemsBefore b strict r other (shiftIn id before.length other slot)).length + k =
      shiftIn id (itemsBefore b' strict r' id before.length).length other
        ((itemsBefore b' strict r' other slot).length + k) := by
  have hsettled' : ∀ op ∈ (b'.get other).operations, op.Settled strict r' := fun op hop =>
    settled_of_build hbuild' hop
  have hsettled : ∀ op ∈ (b'.get other).operations, op.Settled strict r := fun op hop =>
    settled_of_build hbuild (hgains.mem hop)
  have hlength : ∀ n, (itemsBefore b' strict r' other n).length =
      (itemsBefore b' strict r other n).length := fun n =>
    (Operation.forall₂_flatMap_items (fun op hop => hsettled' op (List.mem_of_mem_take hop))
      fun op hop => hsettled op (List.mem_of_mem_take hop)).length_eq
  have hop' := List.mem_of_getElem? hop
  rw [((hsettled' op hop').forall₂_items (hsettled op hop')).length_eq] at hk
  by_cases hother : other = id
  · subst hother
    obtain ⟨after, hoperations', hoperations, -⟩ := forall₂_of_gains hgains hbuild hbuild'
    have ha := congrArg List.length (items_of_assert ha strict r)
    rw [hoperations'] at hop
    rw [shiftIn, if_pos rfl, shiftIn, if_pos rfl, hlength, hlength, itemsBefore, itemsBefore,
      itemsBefore, hoperations, hoperations', List.take_left]
    exact length_flatMap_take_shift ha hop hk
  · rw [shiftIn, if_neg hother, shiftIn, if_neg hother, hlength, itemsBefore, itemsBefore,
      hgains.others other hother]

end Gains

/-! ### The graphs -/

section Graphs

variable (hb : b.Bounded) (hb' : b'.Bounded) (hbuild : build b strict = .ok (g, r))
  (hbuild' : build b' strict = .ok (g', r'))
  (hi : Inserted r' r (branchItems b' strict r') (branchItems b strict r) id κ)

include hb hb' hbuild hbuild' hi

lemma nodesAlike_shift (hsize : b.size = b'.size) (n : Nat) :
    NodesAlike r' r g' g n (shift (nodeAt (branchItems b strict r) id κ) n) := by
  rcases Nat.eq_zero_or_pos n with rfl | hpos
  · rw [show shift (nodeAt (branchItems b strict r) id κ) 0 = 0 from
      if_pos (root_lt_nodeAt _ id κ)]
    exact .node (bottom_of_build hb' hbuild') (bottom_of_build hb hbuild)
      (.push (.builtin (by simp)))
  by_cases hlt : n < g'.size
  · rw [(numbered_of_build hbuild').size] at hlt
    obtain ⟨other, k, hk, rfl⟩ := exists_nodeAt hpos hlt
    obtain ⟨item, hitem, halike⟩ := hi.alike (List.getElem?_eq_getElem hk)
    rw [← hi.nodeAt_shiftIn hk]
    exact .node (item_of_build hb' hbuild' (List.getElem?_eq_getElem hk)).1
      (item_of_build hb hbuild hitem).1 halike.1
  · have hid : id < b.size := by
      by_contra hge
      have hnone := hi.lt_length
      rw [branchItems_of_size_le (Nat.le_of_not_lt hge)] at hnone
      cases hnone
    have hgrown : g.size = g'.size + 1 := by
      rw [(numbered_of_build hbuild).size, (numbered_of_build hbuild').size, hi.firstNode_eq,
        if_pos hid, hsize]
    have hα := lt_size_of_effect? (item_of_build hb hbuild hi.asserts.choose_spec.choose_spec).1
    have hshift : shift (nodeAt (branchItems b strict r) id κ) n = n + 1 := if_neg (by omega)
    have hnone : ∀ {h : EffectGraph} {m}, h.size ≤ m → h.effect? m = none := fun hm => by
      rw [effect?, node?_eq_none_iff.mpr hm, Option.map_none]
    exact .absent (hnone (by omega)) (hnone (by omega))

omit hb' hbuild' in
/-- The edges to the assertion are from what may have been the latest effect before it. -/
lemma edge_assertion_iff {m : Nat} :
    g.Edge m (nodeAt (branchItems b strict r) id κ) ↔
      LatestAt (branchItems b strict r) b m id κ := by
  rw [edge_iff_latestAt hb hbuild]
  constructor
  · rintro ⟨other, k, hk, hm, heq⟩
    obtain ⟨rfl, rfl⟩ := nodeAt_inj hi.lt_length hk heq
    exact hm
  · intro hm
    exact ⟨id, κ, hi.lt_length, hm, rfl⟩

omit hb' hbuild' in
/-- The edges to another node are from what may have been the latest effect before that. -/
lemma exists_of_edge_shift {m n : Nat}
    (hedge : g.Edge m (shift (nodeAt (branchItems b strict r) id κ) n)) :
    ∃ other k, k < (branchItems b' strict r' other).length ∧
      LatestAt (branchItems b strict r) b m other (shiftIn id κ other k) ∧
      n = nodeAt (branchItems b' strict r') other k := by
  obtain ⟨other, k, hk, hm, hn⟩ := (edge_iff_latestAt hb hbuild).mp hedge
  obtain ⟨k', hk', rfl⟩ := hi.exists_shiftIn hk fun heq => shift_ne _ n (by rw [hn, heq.1, heq.2])
  rw [hi.nodeAt_shiftIn hk'] at hn
  exact ⟨other, k', hk', hm, shift_injective _ hn⟩

omit hb' hbuild' in
lemma edge_shift {m : Nat} (hk : k < (branchItems b' strict r' other).length)
    (hm : LatestAt (branchItems b strict r) b m other (shiftIn id κ other k)) :
    g.Edge m (shift (nodeAt (branchItems b strict r) id κ)
      (nodeAt (branchItems b' strict r') other k)) := by
  rw [← hi.nodeAt_shiftIn hk]
  exact (edge_iff_latestAt hb hbuild).mpr ⟨other, _, hi.shiftIn_lt hk, hm, rfl⟩

lemma spliced_of_build (hways : b'.SameWays b) :
    Spliced r' r g' g (nodeAt (branchItems b strict r) id κ) where
  lt := root_of_build hbuild ▸ root_lt_nodeAt _ id κ
  root := (root_of_build hbuild').trans (root_of_build hbuild).symm
  alike := nodesAlike_shift hb hb' hbuild hbuild' hi hways.size
  asserts := by
    obtain ⟨ty, origin, hitem⟩ := hi.asserts
    exact ⟨ty, (item_of_build hb hbuild hitem).1⟩
  edge := fun {u n} hedge => by
    obtain ⟨other, k, hk, hu, rfl⟩ := exists_of_edge_shift hb hbuild hi hedge
    obtain ⟨y, hy, hlatest⟩ := hu.retract hi hways (shift_ne _ u)
    rw [retract_shiftIn] at hlatest
    rw [shift_injective _ hy]
    exact (edge_iff_latestAt hb' hbuild').mpr ⟨other, k, hk, hlatest, rfl⟩
  bypass := fun {u n} hinto houtOf => by
    have hu := (edge_assertion_iff hb hbuild hi).mp hinto
    obtain ⟨y, hy, hlatest⟩ := hu.retract hi hways (shift_ne _ u)
    rw [retract, if_neg (by simp)] at hlatest
    obtain ⟨other, k, hk, hα, rfl⟩ := exists_of_edge_shift hb hbuild hi houtOf
    have hbehind := hα.retract_assertion hi hways rfl hlatest
    rw [retract_shiftIn] at hbehind
    rw [shift_injective _ hy]
    exact (edge_iff_latestAt hb' hbuild').mpr ⟨other, k, hk, hbehind, rfl⟩
  back := fun {u n} hedge => by
    obtain ⟨other, k, hk, hu, rfl⟩ := (edge_iff_latestAt hb' hbuild').mp hedge
    rcases hu.insert hi hways with hlatest | ⟨hinto, hlatest⟩
    · exact Or.inl (edge_shift hb hbuild hi hk hlatest)
    · exact Or.inr ⟨(edge_assertion_iff hb hbuild hi).mpr hinto, edge_shift hb hbuild hi hk hlatest⟩

end Graphs

end EffectGraph

/-! ### Reports -/

namespace Machine

open EffectGraph

variable {m : Machine} {b : Branches} {g h : EffectGraph} {position k id slot n : Nat}
  {op : Operation} {start : Nat → Nat}

/-- The node of an effect of an operation is the one at its place in its branch. -/
lemma node?_eq_nodeAt (hbuild : build b m.strict = .ok (g, m.registry)) (hnodes : g.SameNodes h)
    (hplace : (layout m.operations)[position]? = some (id, slot))
    (hk : (itemsBefore b m.strict m.registry id slot).length + k <
      (branchItems b m.strict m.registry id).length) :
    m.node? b h ⟨position, k, [], []⟩ =
      some (nodeAt (branchItems b m.strict m.registry) id
        ((itemsBefore b m.strict m.registry id slot).length + k)) := by
  have hfragment : h.fragment? id = fragmentAt (branchItems b m.strict m.registry) id := by
    rw [fragment?, hnodes.fragments]
    exact fragment?_of_build hbuild id
  rw [fragmentAt_of_lt hk] at hfragment
  simp [node?, hplace, hfragment, nodeAt]

/-- An operation with effects has its place in a branch, and its effects have theirs. -/
lemma exists_place_of_lt (hmapped : b.Mapped start m.operations)
    (hk : k < (m.effects position).length) :
    ∃ op id slot, m.operations[position]? = some op ∧
      (layout m.operations)[position]? = some (id, slot) ∧
      (b.get id).operations[slot]? = some op ∧ k < (op.items m.strict m.registry).length ∧
      (itemsBefore b m.strict m.registry id slot).length + k <
        (branchItems b m.strict m.registry id).length := by
  cases hop : m.operations[position]? with
  | none => simp [effects, hop] at hk
  | some op =>
    rw [effects_of_getElem? hop] at hk
    obtain ⟨id, slot, hplace, hput⟩ := hmapped.laid.put hop
    have hlt : k < (op.items m.strict m.registry).length := by simpa [Operation.items] using hk
    have hitem := getElem?_branchItems hput.operation (List.getElem?_eq_getElem hlt)
    exact ⟨op, id, slot, rfl, hplace, hput.operation, hlt, (List.getElem?_eq_some_iff.mp hitem).1⟩

/-- Every node that takes something is that of an effect of some operation. -/
lemma exists_node?_of_lt (hmapped : b.Mapped start m.operations)
    (hbuild : build b m.strict = .ok (g, m.registry)) (hnodes : g.SameNodes h) (hn : 0 < n)
    (hlt : n < g.size) :
    ∃ position k, k < (m.effects position).length ∧ m.node? b h ⟨position, k, [], []⟩ = some n := by
  rw [(numbered_of_build hbuild).size] at hlt
  obtain ⟨id, i, hi, rfl⟩ := exists_nodeAt hn hlt
  obtain ⟨slot, op, done, hop, hdone, rfl⟩ := exists_of_lt_length_branchItems hi
  have hplace := (hmapped.put hop).1
  refine ⟨start id + slot, done, ?_, node?_eq_nodeAt hbuild hnodes hplace hi⟩
  rw [effects_of_getElem? (hmapped.cut.getElem?_position hop)]
  simpa [Operation.items] using hdone

end Machine

/-- Node `n` of a check is that of effect number `k` of the operation at a position. -/
def Checked.IsNodeOf (c : Checked) (ops : List Operation) (strict : Bool) (position k n : Nat) :
    Prop :=
  k < ((Machine.mk ops strict c.registry).effects position).length ∧
    (Machine.mk ops strict c.registry).node? c.branches c.graph ⟨position, k, [], []⟩ = some n

section Unasserted

open EffectGraph

variable {front back : List Operation} {a : Operation} {strict : Bool} {passes passes' : Nat}
  {c c' : Checked} {b b' : Branches} {g g' : EffectGraph} {r r' : Registry}

/-- Deleting an assertion takes a node out of the graph, and all others stay those of the effects of
their operations. -/
lemma exists_spliced_of_extract (hops : ∀ op ∈ front ++ a :: back, op.WellKinded)
    (ha : a.instruction = .assert) (hextract : Branches.extract (front ++ a :: back) = .ok b)
    (hextract' : Branches.extract (front ++ back) = .ok b')
    (hbuild : build b strict = .ok (g, r)) (hbuild' : build b' strict = .ok (g', r'))
    {h h' : EffectGraph} (hnodes : g.SameNodes h) (hnodes' : g'.SameNodes h') :
    ∃ α, Spliced r' r g' g α ∧ ∀ position k n,
      k < ((Machine.mk (front ++ back) strict r').effects position).length →
      (Machine.mk (front ++ back) strict r').node? b' h' ⟨position, k, [], []⟩ = some n →
      k < ((Machine.mk (front ++ a :: back) strict r).effects
        (shift front.length position)).length ∧
      (Machine.mk (front ++ a :: back) strict r).node? b h
        ⟨shift front.length position, k, [], []⟩ = some (shift α n) ∧
      g.origin? (shift α n) = g'.origin? n := by
  have hops' : ∀ op ∈ front ++ back, op.WellKinded := fun op hop => hops op (by
    rw [List.mem_append] at hop ⊢
    exact hop.imp_right (List.mem_cons_of_mem a))
  have hb := Branches.extract_bounded hextract
  have hb' := Branches.extract_bounded hextract'
  obtain ⟨start, hmapped⟩ := Branches.exists_mapped_of_extract hops hextract
  obtain ⟨start', hmapped'⟩ := Branches.exists_mapped_of_extract hops' hextract'
  obtain ⟨id, before, hgains, hlayout⟩ := Branches.exists_gains_of_extract hops (by simp [ha])
    (by simp [ha, Instruction.endsBranch, Instruction.jumps]) hextract hextract'
  have hi := inserted_of_gains hgains hbuild hbuild' ha
  refine ⟨_, spliced_of_build hb hb' hbuild hbuild' hi hgains.sameWays,
    fun position k n hk hn => ?_⟩
  obtain ⟨op, other, slot, hop, hplace, hput, hlt, hindex⟩ :=
    Machine.exists_place_of_lt hmapped' hk
  rw [Machine.node?_eq_nodeAt hbuild' hnodes' hplace hindex] at hn
  cases hn
  have hop₀ : (front ++ a :: back)[shift front.length position]? = some op := by
    rw [getElem?_append_cons_shift]
    exact hop
  have hplace₀ : (layout (front ++ a :: back))[shift front.length position]? =
      some (other, shiftIn id before.length other slot) := by
    rw [hlayout]
    exact congrArg (Option.map (bump id before.length)) hplace
  have hsettled := settled_of_build hbuild (hgains.mem (List.mem_of_getElem? hput))
  have hsettled' := settled_of_build hbuild' (List.mem_of_getElem? hput)
  have hk₀ : k < ((Machine.mk (front ++ a :: back) strict r).effects
      (shift front.length position)).length := by
    rw [Machine.effects_of_getElem? hop₀]
    have hlength := (hsettled.forall₂_items hsettled').length_eq
    simp only [Operation.items, List.length_map] at hlength hlt
    exact hlt.trans_eq hlength.symm
  obtain ⟨op₁, other₁, slot₁, hop₁, hplace₁, -, -, hindex₁⟩ :=
    Machine.exists_place_of_lt hmapped hk₀
  cases hplace₁.symm.trans hplace₀
  have hsame := length_itemsBefore_of_gains hgains hbuild hbuild' ha hput hlt
  refine ⟨hk₀, ?_, ?_⟩
  · rw [Machine.node?_eq_nodeAt hbuild hnodes hplace₀ hindex₁, ← hi.nodeAt_shiftIn hindex]
    exact congrArg (fun i => some (nodeAt (branchItems b strict r) other i)) hsame
  · obtain ⟨item, hitem, halike⟩ := hi.alike (List.getElem?_eq_getElem hindex)
    rw [← hi.nodeAt_shiftIn hindex, (item_of_build hb hbuild hitem).2, ← halike.2]
    exact (item_of_build hb' hbuild' (List.getElem?_eq_getElem hindex)).2.symm

/-- What is reported of a check without an assertion, as far as the check with it goes. -/
structure Checked.Unasserted (c : Checked) (front : List Operation) (a : Operation)
    (back : List Operation) (strict : Bool) (c' : Checked) : Prop where
  node   : ∀ n ∈ c'.stuck, ∃ position k, c'.IsNodeOf (front ++ back) strict position k n
  stuck  : ∀ n ∈ c'.stuck, ∀ position k, c'.IsNodeOf (front ++ back) strict position k n →
    ∃ n₀ ∈ c.stuck,
      c.IsNodeOf (front ++ a :: back) strict (shift front.length position) k n₀
  errors : ∀ e' ∈ c'.report.errors, ∃ e ∈ c.report.errors, e.span = e'.span
  clean  : c.report.errors = [] → c'.report.errors = []

/-- Deleting an assertion from a program never introduces an error: whatever effect of whatever
other operation is reported without it was reported with it. -/
theorem checkOperations_unasserted (hops : ∀ op ∈ front ++ a :: back, op.WellKinded)
    (ha : a.instruction = .assert)
    (hcheck : checkOperations (front ++ a :: back) strict passes = .ok c)
    (hcheck' : checkOperations (front ++ back) strict passes' = .ok c') :
    c.Unasserted front a back strict c' := by
  obtain ⟨b, g, r, resolved, hextract, hbuild, hresolve, rfl⟩ := exists_of_checkOperations hcheck
  obtain ⟨b', g', r', resolved', hextract', hbuild', hresolve', rfl⟩ :=
    exists_of_checkOperations hcheck'
  have hsat := saturated_of_resolve (mirrored_of_build hbuild) hresolve
  have hsat' := saturated_of_resolve (mirrored_of_build hbuild') hresolve'
  have hops' : ∀ op ∈ front ++ back, op.WellKinded := fun op hop => hops op (by
    rw [List.mem_append] at hop ⊢
    exact hop.imp_right (List.mem_cons_of_mem a))
  obtain ⟨start', hmapped'⟩ := Branches.exists_mapped_of_extract hops' hextract'
  obtain ⟨α, hspliced, hnode⟩ := exists_spliced_of_extract hops ha hextract hextract' hbuild hbuild'
    hsat.nodes hsat'.nodes
  have hstuck : ∀ n ∈ resolved'.stuck, shift α n ∈ resolved.stuck := fun n hn =>
    hspliced.mem_stuck hsat' hsat hn
  have hall : ∀ n ∈ resolved'.stuck, ∃ position k,
      k < ((Machine.mk (front ++ back) strict r').effects position).length ∧
      (Machine.mk (front ++ back) strict r').node? b' resolved'.graph ⟨position, k, [], []⟩ =
        some n := by
    intro n hn
    obtain ⟨hreached, hpush, -⟩ := (hsat'.stuck n).mp hn
    rcases Relation.ReflTransGen.cases_tail hreached with rfl | ⟨u, -, hedge⟩
    · rw [isPush, (built_of_build (Branches.extract_bounded hextract') hbuild').root] at hpush
      cases hpush
    · have hm := mirrored_of_build hbuild'
      obtain ⟨id, k, hk, -, rfl⟩ :=
        (edge_iff_latestAt (Branches.extract_bounded hextract') hbuild').mp hedge
      exact Machine.exists_node?_of_lt (m := ⟨front ++ back, strict, r'⟩) hmapped' hbuild'
        hsat'.nodes (root_lt_nodeAt _ id k) (hm.lt_size_right hedge)
  constructor
  case node => exact hall
  case stuck =>
    rintro n hn position k ⟨hk, hnode'⟩
    obtain ⟨hk₀, hnode₀, -⟩ := hnode position k n hk hnode'
    exact ⟨shift α n, hstuck n hn, hk₀, hnode₀⟩
  case errors =>
    intro e' he'
    obtain ⟨n, hn, rfl⟩ := List.mem_map.mp he'
    obtain ⟨position, k, hk, hnode'⟩ := hall n hn
    obtain ⟨-, -, horigin⟩ := hnode position k n hk hnode'
    refine ⟨_, List.mem_map.mpr ⟨shift α n, hstuck n hn, rfl⟩, ?_⟩
    simp only [explain, TypeError.of, hsat.nodes.origin, hsat'.nodes.origin, horigin]
  case clean =>
    intro hclean
    have hnone : resolved.stuck = [] := List.map_eq_nil_iff.mp hclean
    refine List.map_eq_nil_iff.mpr (List.eq_nil_iff_forall_not_mem.mpr fun n hn => ?_)
    have hmem := hstuck n hn
    rw [hnone] at hmem
    cases hmem

end Unasserted

/-- A character that is asserted to be one, in a loop, and then written as a number. -/
def guarded : List Operation := Machine.onLines [
  (.push, some (.number 1)),
  (.cast, some (.type "Char")),
  (.label, some (.label "again")),
  (.assert, some (.type "Char")),
  (.writeInt, none),
  (.push, some (.number 2)),
  (.jumpZero, some (.label "again")),
  (.stop, none)]

def guardOf : Operation := ⟨.assert, some (.type "Char"), .onLine 3 0 1⟩

theorem guarded_unasserted :
    guarded = guarded.take 3 ++ guardOf :: guarded.drop 4 ∧ ∃ c c',
      checkOperations (guarded.take 3 ++ guardOf :: guarded.drop 4) false 9 = .ok c ∧
      checkOperations (guarded.take 3 ++ guarded.drop 4) false 9 = .ok c' ∧
      c.stuck = [5] ∧ c'.stuck = [4] ∧
      c.Unasserted (guarded.take 3) guardOf (guarded.drop 4) false c' := by
  have hops : ∀ op ∈ guarded.take 3 ++ guardOf :: guarded.drop 4, op.WellKinded := by decide
  have hcheck : (checkOperations (guarded.take 3 ++ guardOf :: guarded.drop 4) false 9).toOption.map
      Checked.stuck = some [5] := by decide +kernel
  have hcheck' : (checkOperations (guarded.take 3 ++ guarded.drop 4) false 9).toOption.map
      Checked.stuck = some [4] := by decide +kernel
  obtain ⟨c, hcheck, hstuck⟩ := exists_ok_of_toOption_map hcheck
  obtain ⟨c', hcheck', hstuck'⟩ := exists_ok_of_toOption_map hcheck'
  exact ⟨by decide, c, c', hcheck, hcheck', hstuck, hstuck',
    checkOperations_unasserted hops rfl hcheck hcheck'⟩

end ZeroWidth
