import ZeroWidth.Proofs.Numbering
import ZeroWidth.Proofs.Placing

/-!
# Stitching is exact

The edges of a built graph are those from an effect to the next one of its branch, and those from
the last effect of a branch, or from the root, to the first effects that control comes to behind it,
looking through branches without effects. A call goes to its callee alone, and a return goes on
behind every reached call from whose callee it can be got to without passing another return.

In a program whose arguments suit their instructions nothing stands behind a return, so that the
last condition is idle. It is not if a label without a name leads back into a branch that has
returned.
-/

namespace ZeroWidth

namespace Branches

variable {b : Branches} {id next : Nat} {ops : List Operation}

/-! ### Where control goes after a branch -/

/-- One step within a subroutine: calls are stepped over. -/
def Inside (b : Branches) (id next : Nat) : Prop :=
  (b.get id).next = some next ∨ ((b.get id).calls = false ∧ (b.get id).target = some next)

/-- One step within a subroutine that has not returned. -/
def InsideStill (b : Branches) (id next : Nat) : Prop :=
  (b.get id).returns = false ∧ b.Inside id next

/-- Where control goes after a branch, given the steps `within` a subroutine and which branches go
back behind the calls they belong to. -/
inductive Follows (b : Branches) (within : Nat → Nat → Prop) (returning : Nat → Prop) :
    Nat → Nat → Prop
  | callee {id next : Nat} (hcalls : (b.get id).calls = true)
      (htarget : (b.get id).target = some next) : Follows b within returning id next
  | resume {id caller callee next : Nat} (hreturns : returning id) (hlive : b.Live caller)
      (hcalls : (b.get caller).calls = true) (htarget : (b.get caller).target = some callee)
      (hnext : (b.get caller).next = some next)
      (hwithin : Relation.ReflTransGen within callee id) : Follows b within returning id next
  | onward {id next : Nat} (hcalls : (b.get id).calls = false)
      (hreturns : (b.get id).returns = false)
      (hnext : (b.get id).target = some next ∨ (b.get id).next = some next) :
      Follows b within returning id next

/-- Where control goes after a branch. -/
def FollowedBy (b : Branches) : Nat → Nat → Prop :=
  b.Follows b.InsideStill fun id => (b.get id).returns = true

/-- Where control goes after a branch if returns do not matter on the way to a return, and a branch
that calls does not return. -/
def FollowedPastReturns (b : Branches) : Nat → Nat → Prop :=
  b.Follows b.Inside fun id => (b.get id).calls = false ∧ (b.get id).returns = true

lemma mem_subroutineFollowers_iff : next ∈ b.subroutineFollowers id ↔ b.InsideStill id next := by
  cases hreturns : (b.get id).returns <;> cases hcalls : (b.get id).calls <;>
    simp [subroutineFollowers, InsideStill, Inside, hreturns, hcalls, or_comm]

lemma leads_subroutineFollowers_iff {callee : Nat} :
    Leads b.subroutineFollowers callee id ↔ Relation.ReflTransGen b.InsideStill callee id := by
  have hstep : (fun id next => next ∈ b.subroutineFollowers id) = b.InsideStill := by
    funext id next
    exact propext mem_subroutineFollowers_iff
  rw [Leads, hstep]

lemma mem_ownSuccessors_iff : next ∈ ownSuccessors (b.get id) ↔
    ((b.get id).calls = true ∧ (b.get id).target = some next) ∨
      ((b.get id).calls = false ∧ (b.get id).returns = false ∧
        ((b.get id).target = some next ∨ (b.get id).next = some next)) := by
  cases hcalls : (b.get id).calls <;> cases hreturns : (b.get id).returns <;>
    simp [ownSuccessors, hcalls, hreturns]

lemma Bounded.mem_flow_iff (hb : b.Bounded) : next ∈ b.flow id ↔ b.FollowedBy id next := by
  rw [mem_flow, mem_ownSuccessors_iff, hb.mem_resumptions]
  constructor
  · rintro ((⟨hcalls, htarget⟩ | ⟨hcalls, hreturns, hnext⟩) |
      ⟨caller, callee, hlive, hcalls, htarget, hnext, hleads, hreturns⟩)
    · exact .callee hcalls htarget
    · exact .onward hcalls hreturns hnext
    · exact .resume hreturns hlive hcalls htarget hnext (leads_subroutineFollowers_iff.mp hleads)
  · intro h
    cases h with
    | callee hcalls htarget => exact Or.inl (Or.inl ⟨hcalls, htarget⟩)
    | onward hcalls hreturns hnext => exact Or.inl (Or.inr ⟨hcalls, hreturns, hnext⟩)
    | resume hreturns hlive hcalls htarget hnext hwithin =>
      exact Or.inr ⟨_, _, hlive, hcalls, htarget, hnext,
        leads_subroutineFollowers_iff.mpr hwithin, hreturns⟩

/-- Nothing stands behind a return if arguments suit their instructions. -/
lemma of_returns (hops : ∀ op ∈ ops, op.WellKinded) (h : extract ops = .ok b)
    (hreturns : (b.get id).returns = true) :
    (b.get id).target = none ∧ (b.get id).next = none ∧ (b.get id).calls = false := by
  obtain ⟨start, hmapped⟩ := exists_mapped_of_extract hops h
  cases hop : (b.get id).operations.getLast? with
  | none =>
    have hquiet := hmapped.quiet id (List.getLast?_eq_none_iff.mp hop)
    rw [hquiet.returns] at hreturns
    cases hreturns
  | some op =>
    rcases hmapped.exits_or_quiet hop rfl with ⟨-, fresh, hexits, -⟩ | ⟨-, hquiet, -⟩
    · have hret : op.instruction = .ret := by simpa [hexits.returns] using hreturns
      rw [hexits.target, hexits.next, hexits.calls, hret]
      exact ⟨rfl, rfl, rfl⟩
    · rw [hquiet.returns] at hreturns
      cases hreturns

/-- If arguments suit their instructions, returns do not matter on the way to a return. -/
lemma followedBy_eq (hops : ∀ op ∈ ops, op.WellKinded) (h : extract ops = .ok b) :
    b.FollowedBy = b.FollowedPastReturns := by
  have hinside : b.InsideStill = b.Inside := by
    funext id next
    refine propext ⟨And.right, fun hinside => ⟨?_, hinside⟩⟩
    by_contra hreturns
    obtain ⟨htarget, hnext, -⟩ := of_returns hops h (Bool.eq_true_of_not_eq_false hreturns)
    simp [Inside, htarget, hnext] at hinside
  have hreturning : (fun id => (b.get id).returns = true) =
      fun id => (b.get id).calls = false ∧ (b.get id).returns = true := by
    funext id
    exact propext ⟨fun hreturns => ⟨(of_returns hops h hreturns).2.2, hreturns⟩, And.right⟩
  rw [FollowedBy, FollowedPastReturns, hinside, hreturning]

end Branches

namespace EffectGraph

variable {g : EffectGraph} {b : Branches} {strict : Bool} {r : Registry}
  {items : Nat → List (Effect × Origin)} {follows : Nat → Nat → Prop} {ops : List Operation}
  {id k m n x : Nat}

/-! ### Edges -/

/-- Control gets from one branch to another through branches without effects only. -/
def Through (items : Nat → List (Effect × Origin)) (follows : Nat → Nat → Prop) :
    Nat → Nat → Prop :=
  Relation.ReflTransGen fun id next => items id = [] ∧ follows id next

/-- Node `n` is an effect that may happen just behind node `m`, given where control goes after each
branch. -/
inductive Joined (items : Nat → List (Effect × Origin)) (b : Branches)
    (follows : Nat → Nat → Prop) : Nat → Nat → Prop
  | within {id k : Nat} (hk : k + 1 < (items id).length) :
      Joined items b follows (nodeAt items id k) (nodeAt items id (k + 1))
  | across {id next other : Nat} (hlive : b.Live id) (hid : items id ≠ [])
      (hnext : follows id next) (hthrough : Through items follows next other)
      (hother : items other ≠ []) :
      Joined items b follows (nodeAt items id ((items id).length - 1)) (nodeAt items other 0)
  | entry {other : Nat} (hthrough : Through items follows Branches.entry other)
      (hother : items other ≠ []) : Joined items b follows 0 (nodeAt items other 0)

lemma LatestAt.eq_of_succ (hx : LatestAt items b x id (k + 1)) : x = nodeAt items id k := by
  cases hx
  rfl

/-- The latest effect when control comes to a branch is the last one of a branch that it has come
from through branches without effects, or there is none. -/
lemma LatestAt.zero (hx : LatestAt items b x id k) (hk : k = 0) :
    (x = 0 ∧ Through items (fun id next => next ∈ b.flow id) Branches.entry id) ∨
      ∃ first next, b.Live first ∧ items first ≠ [] ∧ next ∈ b.flow first ∧
        x = nodeAt items first ((items first).length - 1) ∧
        Through items (fun id next => next ∈ b.flow id) next id := by
  induction hx with
  | entry => exact Or.inl ⟨rfl, .refl⟩
  | effect => cases hk
  | @leave x id next hx hlive hnext ih =>
    by_cases hid : items id = []
    · have hstep : items id = [] ∧ next ∈ b.flow id := ⟨hid, hnext⟩
      rcases ih (by rw [hid]; rfl) with
        ⟨rfl, hthrough⟩ | ⟨first, start, hfirst, hne, hstart, rfl, hthrough⟩
      · exact Or.inl ⟨rfl, hthrough.tail hstep⟩
      · exact Or.inr ⟨first, start, hfirst, hne, hstart, rfl, hthrough.tail hstep⟩
    · have hlast : (items id).length - 1 + 1 = (items id).length :=
        Nat.sub_add_cancel (List.length_pos_iff.mpr hid)
      rw [← hlast] at hx
      exact Or.inr ⟨id, next, hlive, hid, hnext, hx.eq_of_succ, .refl⟩

/-- What was the latest effect stays so through branches without effects. -/
lemma LatestAt.through (hb : b.Bounded) (hx : LatestAt items b x id 0) (hlive : b.Live id)
    {other : Nat} (hthrough : Through items (fun id next => next ∈ b.flow id) id other) :
    LatestAt items b x other 0 := by
  suffices h : LatestAt items b x other 0 ∧ b.Live other from h.1
  induction hthrough with
  | refl => exact ⟨hx, hlive⟩
  | @tail middle next _ hstep ih =>
    obtain ⟨hnil, hnext⟩ := hstep
    have hmiddle : LatestAt items b x middle (items middle).length := by
      rw [hnil]
      exact ih.1
    exact ⟨hmiddle.leave ih.2 hnext, hb.live_of_mem_flow ih.2 hnext⟩

lemma joined_iff_latestAt (hb : b.Bounded) :
    Joined items b (fun id next => next ∈ b.flow id) m n ↔
      ∃ id k, k < (items id).length ∧ LatestAt items b m id k ∧ n = nodeAt items id k := by
  constructor
  · intro h
    cases h with
    | @within id k hk => exact ⟨id, k + 1, hk, .effect (Nat.lt_of_succ_lt hk), rfl⟩
    | @across id next other hlive hid hnext hthrough hother =>
      have hlast : (items id).length - 1 + 1 = (items id).length :=
        Nat.sub_add_cancel (List.length_pos_iff.mpr hid)
      have hleft : LatestAt items b (nodeAt items id ((items id).length - 1)) id
          ((items id).length - 1 + 1) := .effect (by omega)
      rw [hlast] at hleft
      exact ⟨other, 0, List.length_pos_iff.mpr hother,
        (hleft.leave hlive hnext).through hb (hb.live_of_mem_flow hlive hnext) hthrough, rfl⟩
    | @entry other hthrough hother =>
      exact ⟨other, 0, List.length_pos_iff.mpr hother,
        LatestAt.entry.through hb .refl hthrough, rfl⟩
  · rintro ⟨id, k, hk, hm, rfl⟩
    cases k with
    | succ k =>
      rw [hm.eq_of_succ]
      exact .within hk
    | zero =>
      have hid : items id ≠ [] := List.ne_nil_of_length_pos hk
      rcases hm.zero rfl with ⟨rfl, hthrough⟩ | ⟨first, next, hlive, hne, hnext, rfl, hthrough⟩
      · exact .entry hthrough hid
      · exact .across hlive hne hnext hthrough hid

/-! ### Exactness -/

/-- A graph joins the effects of its branches exactly as control passes between them: its nodes are
the root and one for each effect in turn, and its edges those between effects that may happen one
just behind the other. The search for the first effects behind a branch has found them all by the
time it has seen every branch once, however branches without effects lead back to each other. -/
structure Stitched (g : EffectGraph) (b : Branches) (items : Nat → List (Effect × Origin)) :
    Prop where
  root : g.root = 0
  size : g.size = firstNode items b.size
  node : ∀ id k item, (items id)[k]? = some item →
    g.effect? (nodeAt items id k) = some item.1 ∧ g.origin? (nodeAt items id k) = some item.2
  edge : ∀ m n, g.Edge m n ↔ Joined items b b.FollowedBy m n
  mirrored : g.Mirrored
  heads : ∀ id < b.size, ∀ bound, b.size ≤ bound →
    g.heads b.flow bound id = g.heads b.flow b.size id

lemma heads_of_le (hb : b.Bounded) (hid : id < b.size) {bound : Nat} (hbound : b.size ≤ bound) :
    g.heads b.flow bound id = g.heads b.flow b.size id := by
  have hnext : ∀ id < b.size, ∀ k ∈ g.through b id, k < b.size := by
    intro id _ k hk
    unfold EffectGraph.through at hk
    split at hk
    · cases hk
    · exact hb.flow_lt hk
  have hinv : DepthFirstInv (g.through b) b.size .empty [id] :=
    ⟨List.nodup_nil, by simp, by simpa using hid, by simp⟩
  have hsame := depthFirst_of_le hnext hinv (Nat.le_add_right b.size _) hbound
  unfold EffectGraph.through at hsame
  rw [heads, hsame, heads]

lemma stitched_of_build (hb : b.Bounded) (hbuild : build b strict = .ok (g, r)) :
    g.Stitched b (branchItems b strict r) where
  root := root_of_build hbuild
  size := (numbered_of_build hbuild).size
  node := fun _ _ _ hitem => item_of_build hb hbuild hitem
  edge := fun m n => by
    have hflow : b.FollowedBy = fun id next => next ∈ b.flow id := by
      funext id next
      exact propext hb.mem_flow_iff.symm
    rw [edge_iff_latestAt hb hbuild, hflow, joined_iff_latestAt hb]
  mirrored := mirrored_of_build hbuild
  heads := fun _ hid _ hbound => heads_of_le hb hid hbound

/-- A built graph has an edge between two nodes exactly if they are consecutive effects of a branch,
or the first is the last effect of a reached branch, or the root, and the second the first effect
that control comes to behind it. -/
theorem stitched_of_extract (hextract : Branches.extract ops = .ok b)
    (hbuild : build b strict = .ok (g, r)) :
    g.Stitched b (branchItems b strict r) ∧
      ((∀ op ∈ ops, op.WellKinded) →
        ∀ m n, g.Edge m n ↔ Joined (branchItems b strict r) b b.FollowedPastReturns m n) := by
  have hstitched := stitched_of_build (Branches.extract_bounded hextract) hbuild
  refine ⟨hstitched, fun hops m n => ?_⟩
  rw [← Branches.followedBy_eq hops hextract]
  exact hstitched.edge m n

/-- A subroutine that does nothing, called twice in a row: between the calls and in the subroutine
control goes round through branches without effects. -/
def callingTwice : List Operation := Machine.onLines [
  (.push, some (.number 1)),
  (.call, some (.label "f")),
  (.call, some (.label "f")),
  (.pop, none),
  (.stop, none),
  (.label, some (.label "f")),
  (.ret, none)]

theorem stitched_callingTwice :
    ∃ b g r, Branches.extract callingTwice = .ok b ∧ build b false = .ok (g, r) ∧
      (∀ op ∈ callingTwice, op.WellKinded) ∧ g.children 1 = [2] ∧
      g.Stitched b (branchItems b false r) ∧
      ∀ m n, g.Edge m n ↔ Joined (branchItems b false r) b b.FollowedPastReturns m n := by
  have hops : ∀ op ∈ callingTwice, op.WellKinded := by decide
  have hvalue : (Branches.extract callingTwice >>= fun b => build b false >>= fun built =>
      .ok (b, built)).toOption.map (fun made => made.2.1.children 1) = some [2] := by
    decide +kernel
  obtain ⟨made, hmade, hvalue⟩ := exists_ok_of_toOption_map hvalue
  obtain ⟨b, hextract, hmade⟩ := exists_of_bind_eq_ok hmade
  obtain ⟨⟨g, r⟩, hbuild, hmade⟩ := exists_of_bind_eq_ok hmade
  cases hmade
  obtain ⟨hstitched, hjoined⟩ := stitched_of_extract hextract hbuild
  exact ⟨b, g, r, hextract, hbuild, hops, hvalue, hstitched, hjoined hops⟩

/-- A label without a name leads from behind the return of a subroutine back into it, and a jump
from there to a branch that returns as well. -/
def jumpingPastReturn : List Operation := Machine.onLines [
  (.call, some (.label "")),
  (.pop, none),
  (.stop, none),
  (.label, some (.label "")),
  (.ret, none),
  (.label, none),
  (.jump, some (.label "x")),
  (.label, some (.label "x")),
  (.push, some (.number 1)),
  (.ret, none)]

/-- The second return, which can be got to from the callee past the first one only, does not go back
behind the call. -/
theorem not_edge_jumpingPastReturn :
    ∃ b g r, Branches.extract jumpingPastReturn = .ok b ∧ build b false = .ok (g, r) ∧
      Joined (branchItems b false r) b b.FollowedPastReturns 1 2 ∧ ¬ g.Edge 1 2 := by
  -- how control leaves the call, the callee and the second return, and where the effects are
  have hvalue : (Branches.extract jumpingPastReturn >>= fun b => build b false >>= fun built =>
      .ok (b, built)).toOption.map (fun made => decide (
        ((made.1.get 0).calls = true ∧ (made.1.get 0).target = some 1 ∧
          (made.1.get 0).next = some 3) ∧
        ((made.1.get 1).calls = false ∧ (made.1.get 1).target = some 2) ∧
        ((made.1.get 2).calls = false ∧ (made.1.get 2).returns = true) ∧
        made.1.reachable.toList = [0, 3, 1, 2] ∧
        ((branchItems made.1 false made.2.2 2).length = 1 ∧
          nodeAt (branchItems made.1 false made.2.2) 2 0 = 1) ∧
        ((branchItems made.1 false made.2.2 3).length = 1 ∧
          nodeAt (branchItems made.1 false made.2.2) 3 0 = 2) ∧
        made.2.1.children 1 = [])) = some true := by
    decide +kernel
  obtain ⟨made, hmade, hvalue⟩ := exists_ok_of_toOption_map hvalue
  obtain ⟨b, hextract, hmade⟩ := exists_of_bind_eq_ok hmade
  obtain ⟨⟨g, r⟩, hbuild, hmade⟩ := exists_of_bind_eq_ok hmade
  cases hmade
  obtain ⟨⟨hcalls, htarget, hnext⟩, hjump, hreturn, hreachable, ⟨hpush, hone⟩, ⟨hpop, htwo⟩,
    hchildren⟩ := of_decide_eq_true hvalue
  have hlive : ∀ id ∈ [0, 3, 1, 2], b.Live id := fun id hid => by
    rw [← (Branches.extract_bounded hextract).contains_reachable, IdSet.contains_iff, hreachable]
    exact hid
  have hfollows : b.FollowedPastReturns 2 3 :=
    .resume hreturn (hlive 0 (by simp)) hcalls htarget hnext (.single (Or.inr hjump))
  have hjoined : Joined (branchItems b false r) b b.FollowedPastReturns _ _ :=
    .across (hlive 2 (by simp)) (List.ne_nil_of_length_eq_add_one hpush) hfollows .refl
      (List.ne_nil_of_length_eq_add_one hpop)
  rw [hpush, hone, htwo] at hjoined
  exact ⟨b, g, r, hextract, hbuild, hjoined, by simp [Edge, hchildren]⟩

end EffectGraph

end ZeroWidth
