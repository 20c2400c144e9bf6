import Mathlib.Logic.Relation
import ZeroWidth.Proofs.Fragments

/-!
# Stitching fragments together

Control goes from a branch to its successors, and a return goes back behind every call of a reached
branch that it may belong to. Whatever control comes to next, looking through branches without
effects, stands behind the last effect it has had: the built graph has an edge for it.
-/

namespace ZeroWidth

lemma Arena.mem_enumerate {α : Type} {a : Arena α} {id : Nat} {x : α} :
    (id, x) ∈ a.enumerate ↔ a.get? id = some x := by
  simp only [enumerate, List.mem_map, Prod.exists, Prod.mk.injEq]
  constructor
  · rintro ⟨y, i, hmem, rfl, rfl⟩
    simpa [toList, get?] using List.mem_zipIdx_iff_getElem?.mp hmem
  · intro hget
    exact ⟨x, id, List.mem_zipIdx_iff_getElem?.mpr (by simpa [toList, get?] using hget), rfl, rfl⟩

namespace Branches

variable {b : Branches} {id next : Nat}

lemma get_eq_of_mem_enumerate {branch : Branch} (h : (id, branch) ∈ b.arena.enumerate) :
    b.get id = branch := by
  rw [get, Arena.mem_enumerate.mp h, Option.getD_some]

lemma mem_enumerate_get (hid : id < b.size) : (id, b.get id) ∈ b.arena.enumerate := by
  rw [Arena.mem_enumerate, get]
  cases hget : b.arena.get? id with
  | none => exact absurd (Arena.get?_eq_none_iff.mp hget) (Nat.not_le.mpr hid)
  | some branch => rfl

lemma enumerate_eq (b : Branches) :
    b.arena.enumerate = (List.range b.size).map fun id => (id, b.get id) := by
  refine List.ext_getElem (by simp [Arena.enumerate, Arena.toList, size, Arena.size]) ?_
  intro id hid hid'
  rw [List.getElem_map, List.getElem_range]
  have hlt : id < b.arena.entries.size := by simpa [size, Arena.size] using hid'
  simp [Arena.enumerate, Arena.toList, get, Arena.get?, Array.getElem?_eq_getElem hlt]

lemma mem_followers_of_target (h : (b.get id).target = some next) : next ∈ b.followers id := by
  simp [followers, h]

lemma mem_followers_of_next (h : (b.get id).next = some next) : next ∈ b.followers id := by
  simp [followers, h]

/-- Control may get to the branch from the entry. -/
def Live (b : Branches) : Nat → Prop := Leads b.followers entry

lemma Bounded.contains_reachable (hb : b.Bounded) : b.reachable.contains id = true ↔ b.Live id := by
  rw [IdSet.contains_iff]
  exact mem_depthFirst_iff (fun id _ next hnext => hb.followers_lt id next hnext) hb.entry_lt

lemma Bounded.live_lt (hb : b.Bounded) (hlive : b.Live id) : id < b.size := by
  induction hlive with
  | refl => exact hb.entry_lt
  | tail _ hnext _ => exact hb.followers_lt _ _ hnext

/-! ### Successors -/

/-- Every id below a bound is a key, and no other. -/
lemma get?_foldl_insert (value : Nat → List Nat) (bound : Nat) :
    ((List.range bound).foldl (fun s id => s.insert id (value id)) (.empty : Successors)).get? id =
      if id < bound then some (value id) else none := by
  induction bound with
  | zero => rfl
  | succ bound ih =>
    rw [List.range_succ, List.foldl_append, List.foldl_cons, List.foldl_nil, OrderedMap.get?_insert,
      ih]
    grind

/-- Resumptions are added to keys that there are. -/
lemma get?_foldl_modify (resumptions : List (Nat × Nat)) (s : Successors) :
    (resumptions.foldl (fun all (ret, after) => all.modify ret (appendNew · after)) s).get? id =
      (s.get? id).map fun ids =>
        (resumptions.filter fun resumption => resumption.1 = id).foldl
          (fun ids resumption => appendNew ids resumption.2) ids := by
  induction resumptions generalizing s with
  | nil => simp
  | cons resumption resumptions ih =>
    rw [List.foldl_cons, ih, OrderedMap.get?_modify, List.filter_cons]
    by_cases h : resumption.1 = id <;> simp [h, Function.comp_def]

lemma get?_successors (b : Branches) (resumptions : List (Nat × Nat)) (id : Nat) :
    (b.successors resumptions).get? id =
      if id < b.size then
        some ((resumptions.filter fun resumption => resumption.1 = id).foldl
          (fun ids resumption => appendNew ids resumption.2) (ownSuccessors (b.get id)).eraseDups)
      else none := by
  rw [successors, get?_foldl_modify, enumerate_eq, List.foldl_map, get?_foldl_insert]
  split <;> rfl

lemma mem_foldl_appendNew (resumptions : List (Nat × Nat)) (ids : List Nat) :
    next ∈ resumptions.foldl (fun ids resumption => appendNew ids resumption.2) ids ↔
      next ∈ ids ∨ ∃ ret, (ret, next) ∈ resumptions := by
  induction resumptions generalizing ids with
  | nil => simp
  | cons resumption resumptions ih =>
    rw [List.foldl_cons, ih, mem_appendNew]
    grind

lemma returns_of_mem_resumptions {reached : IdSet} (h : (id, next) ∈ b.resumptions reached) :
    (b.get id).returns = true := by
  obtain ⟨⟨caller, branch⟩, -, hid⟩ := List.mem_flatMap.mp h
  dsimp only at hid
  split at hid
  · split at hid
    · obtain ⟨ret, hret, heq⟩ := List.mem_map.mp hid
      cases heq
      exact (List.mem_filter.mp hret).2
    · cases hid
  · cases hid

/-- Where control goes after each branch. -/
def flow (b : Branches) : Nat → List Nat := (b.successors (b.resumptions b.reachable)).after

lemma mem_flow : next ∈ b.flow id ↔
    next ∈ ownSuccessors (b.get id) ∨ (id, next) ∈ b.resumptions b.reachable := by
  rw [flow, Successors.after, get?_successors]
  by_cases hid : id < b.size
  · rw [if_pos hid, Option.getD_some, mem_foldl_appendNew, List.mem_eraseDups]
    simp
  · -- what is no branch leads nowhere, and no return is of it
    have hget : b.get id = Branch.empty := by
      rw [get, Arena.get?_eq_none_iff.mpr (Nat.le_of_not_lt hid), Option.getD_none]
    have hresumed : (id, next) ∉ b.resumptions b.reachable := fun hmem => by
      simpa [hget, Branch.empty] using returns_of_mem_resumptions hmem
    simp [hid, hget, hresumed, ownSuccessors, Branch.empty]

/-! ### What the successors are among -/

lemma mem_ownSuccessors (h : next ∈ ownSuccessors (b.get id)) : next ∈ b.followers id := by
  unfold ownSuccessors at h
  split at h
  · exact List.mem_append_right _ h
  · split at h
    · cases h
    · exact (List.mem_append.mp h).elim (List.mem_append_right _) (List.mem_append_left _)

lemma mem_subroutineFollowers (h : next ∈ b.subroutineFollowers id) : next ∈ b.followers id := by
  unfold subroutineFollowers at h
  dsimp only at h
  split at h
  · cases h
  · rcases List.mem_append.mp h with h | h
    · split at h
      · cases h
      · exact List.mem_append_right _ h
    · exact List.mem_append_left _ h

lemma Bounded.mem_returnsFrom (hb : b.Bounded) {callee ret : Nat} (hcallee : callee < b.size) :
    ret ∈ b.returnsFrom callee ↔
      Leads b.subroutineFollowers callee ret ∧ (b.get ret).returns = true := by
  rw [returnsFrom, List.mem_filter, mem_depthFirst_iff _ hcallee]
  exact fun id _ next hnext => hb.followers_lt id next (mem_subroutineFollowers hnext)

/-- A return of the callee goes back behind the call, if that is in a reached branch. -/
lemma Bounded.mem_resumptions (hb : b.Bounded) {ret after : Nat} :
    (ret, after) ∈ b.resumptions b.reachable ↔
      ∃ caller callee, b.Live caller ∧ (b.get caller).calls = true ∧
        (b.get caller).target = some callee ∧ (b.get caller).next = some after ∧
        Leads b.subroutineFollowers callee ret ∧ (b.get ret).returns = true := by
  have hcallee : ∀ {caller callee}, (b.get caller).target = some callee → callee < b.size :=
    fun htarget => hb.followers_lt _ _ (mem_followers_of_target htarget)
  rw [resumptions, List.mem_flatMap]
  constructor
  · rintro ⟨⟨caller, branch⟩, hmem, hret⟩
    obtain rfl := get_eq_of_mem_enumerate hmem
    dsimp only at hret
    split at hret
    · rename_i hcalls
      rw [Bool.and_eq_true, hb.contains_reachable] at hcalls
      split at hret
      · rename_i callee after' htarget hnext
        obtain ⟨ret', hret', heq⟩ := List.mem_map.mp hret
        cases heq
        exact ⟨caller, callee, hcalls.2, hcalls.1, htarget, hnext,
          (hb.mem_returnsFrom (hcallee htarget)).mp hret'⟩
      · cases hret
    · cases hret
  · rintro ⟨caller, callee, hlive, hcalls, htarget, hnext, hret⟩
    refine ⟨(caller, b.get caller), mem_enumerate_get (hb.live_lt hlive), ?_⟩
    simp only [hcalls, hb.contains_reachable.mpr hlive, htarget, hnext, Bool.and_self, if_true]
    exact List.mem_map_of_mem ((hb.mem_returnsFrom (hcallee htarget)).mpr hret)

lemma Bounded.flow_lt (hb : b.Bounded) (h : next ∈ b.flow id) : next < b.size := by
  rcases mem_flow.mp h with h | h
  · exact hb.followers_lt id next (mem_ownSuccessors h)
  · obtain ⟨caller, callee, -, -, -, hnext, -⟩ := hb.mem_resumptions.mp h
    exact hb.followers_lt caller next (mem_followers_of_next hnext)

/-! ### Branches with other operations -/

/-- Control goes the same ways from all branches, whatever operations are in them. -/
structure SameWays (b b' : Branches) : Prop where
  size    : b'.size = b.size
  target  : ∀ id, (b'.get id).target = (b.get id).target
  next    : ∀ id, (b'.get id).next = (b.get id).next
  calls   : ∀ id, (b'.get id).calls = (b.get id).calls
  returns : ∀ id, (b'.get id).returns = (b.get id).returns

namespace SameWays

variable {b' : Branches}

lemma followers_eq (h : b.SameWays b') : b'.followers = b.followers := by
  funext id
  rw [followers, followers, h.next, h.target]

lemma reachable_eq (h : b.SameWays b') : b'.reachable = b.reachable := by
  rw [reachable, reachable, h.followers_eq, h.size]

lemma live_iff (h : b.SameWays b') : b'.Live id ↔ b.Live id := by
  rw [Live, Live, h.followers_eq]

lemma returnsFrom_eq (h : b.SameWays b') : b'.returnsFrom = b.returnsFrom := by
  have hfollowers : b'.subroutineFollowers = b.subroutineFollowers := by
    funext id
    rw [subroutineFollowers, subroutineFollowers, h.returns, h.calls, h.target, h.next]
  funext id
  simp only [returnsFrom, hfollowers, h.size, h.returns]

lemma resumptions_eq (h : b.SameWays b') (reached : IdSet) :
    b'.resumptions reached = b.resumptions reached := by
  rw [resumptions, resumptions, enumerate_eq, enumerate_eq, List.flatMap_map, List.flatMap_map,
    h.size, h.returnsFrom_eq]
  simp only [h.calls, h.target, h.next]

lemma flow_eq (h : b.SameWays b') : b'.flow = b.flow := by
  funext id
  rw [flow, flow, h.reachable_eq, h.resumptions_eq, Successors.after, Successors.after,
    get?_successors, get?_successors, h.size, ownSuccessors, ownSuccessors, h.calls, h.returns,
    h.target, h.next]

end SameWays

end Branches

namespace EffectGraph

variable {g h : EffectGraph} {b : Branches} {id : Nat}

/-! ### Many links at once -/

/-- Links each parent to its children. -/
def linkEach (g : EffectGraph) (links : List (Nat × List Nat)) : EffectGraph :=
  links.foldl (fun g link => g.linkAll link.1 link.2) g

lemma sameNodes_linkEach (g : EffectGraph) (links : List (Nat × List Nat)) :
    SameNodes g (g.linkEach links) := by
  induction links generalizing g with
  | nil => exact SameNodes.refl g
  | cons link links ih => exact (sameNodes_linkAll g link.1 link.2).trans (ih _)

lemma edge_linkEach {links : List (Nat × List Nat)} (hparents : ∀ link ∈ links, link.1 < g.size)
    {a c : Nat} :
    (g.linkEach links).Edge a c ↔ g.Edge a c ∨ ∃ link ∈ links, a = link.1 ∧ c ∈ link.2 := by
  induction links generalizing g with
  | nil => simp [linkEach]
  | cons link links ih =>
    have hsize := (sameNodes_linkAll g link.1 link.2).size
    have hrest : ∀ link' ∈ links, link'.1 < (g.linkAll link.1 link.2).size := fun link' hlink' =>
      hsize ▸ hparents link' (List.mem_cons_of_mem _ hlink')
    have hih := ih hrest
    rw [edge_linkAll (hparents link List.mem_cons_self)] at hih
    simp only [List.mem_cons, exists_eq_or_imp, ← or_assoc]
    exact hih

lemma embeds_linkEach {links : List (Nat × List Nat)}
    (hlinks : ∀ link ∈ links, link.1 < g.size ∧ ∀ id ∈ link.2, id < g.size) :
    Embeds g (g.linkEach links) := by
  induction links generalizing g with
  | nil => exact Embeds.refl g
  | cons link links ih =>
    obtain ⟨hparent, hchildren⟩ := hlinks link List.mem_cons_self
    have hsize := (sameNodes_linkAll g link.1 link.2).size
    refine (embeds_linkAll hparent hchildren).trans (ih fun link' hlink' => ?_)
    exact hsize ▸ hlinks link' (List.mem_cons_of_mem _ hlink')

/-! ### The links between fragments -/

lemma mem_of_fragment? {f : Fragment} (hf : g.fragment? id = some f) :
    f ∈ g.fragments ∧ f.branch = id :=
  ⟨List.mem_of_find?_eq_some hf, by simpa using List.find?_some hf⟩

/-- Where control goes after a branch that is looked through. -/
def through (g : EffectGraph) (b : Branches) (id : Nat) : List Nat :=
  if (g.fragment? id).isSome then [] else b.flow id

lemma mem_heads (hb : b.Bounded) (hid : id < b.size) {head : Nat} :
    head ∈ g.heads b.flow b.size id ↔
      ∃ other f, Leads (g.through b) id other ∧ g.fragment? other = some f ∧ f.head = head := by
  have hthrough : ∀ id < b.size, ∀ next ∈ g.through b id, next < b.size := fun id _ next hnext => by
    unfold through at hnext
    split at hnext
    · cases hnext
    · exact hb.flow_lt hnext
  rw [heads, List.mem_filterMap]
  refine exists_congr fun other => ?_
  rw [show (fun id => if (g.fragment? id).isSome then [] else b.flow id) = g.through b from rfl,
    mem_depthFirst_iff hthrough hid, Option.map_eq_some_iff]
  exact exists_and_left.symm

/-- The links by which the fragments of a graph are stitched together. -/
def links (g : EffectGraph) (b : Branches) : List (Nat × List Nat) :=
  (g.fragments.flatMap fun f =>
    if b.reachable.contains f.branch then
      (b.flow f.branch).map fun next => (f.tail, g.heads b.flow b.size next)
    else []) ++ [(g.root, g.heads b.flow b.size Branches.entry)]

lemma stitch_eq_linkEach (g : EffectGraph) (b : Branches) :
    g.stitch b = g.linkEach (g.links b) := by
  have hstep : ∀ (g' : EffectGraph) (f : Fragment),
      (if b.reachable.contains f.branch then
          (b.flow f.branch).map fun next => (f.tail, g.heads b.flow b.size next)
        else []).foldl (fun g link => g.linkAll link.1 link.2) g' =
      if b.reachable.contains f.branch then
        (b.flow f.branch).foldl (fun g' next => g'.linkAll f.tail (g.heads b.flow b.size next)) g'
      else g' := fun g' f => by
    split
    · rw [List.foldl_map]
    · rfl
  rw [linkEach, links, List.foldl_append, List.foldl_flatMap]
  simp only [hstep]
  rfl

lemma mem_links_of_fragment? (hb : b.Bounded) {f : Fragment} {next : Nat}
    (hf : g.fragment? id = some f) (hlive : b.Live id) (hnext : next ∈ b.flow id) :
    (f.tail, g.heads b.flow b.size next) ∈ g.links b := by
  obtain ⟨hmem, rfl⟩ := mem_of_fragment? hf
  refine List.mem_append_left _ (List.mem_flatMap.mpr ⟨f, hmem, ?_⟩)
  rw [if_pos (hb.contains_reachable.mpr hlive)]
  exact List.mem_map.mpr ⟨next, hnext, rfl⟩

/-- The last effect before control comes to a branch may be that of node `x`. -/
inductive Feeds (g : EffectGraph) (b : Branches) : Nat → Nat → Prop where
  | entry : Feeds g b g.root Branches.entry
  | leave {id next : Nat} {f : Fragment} (hf : g.fragment? id = some f) (hlive : b.Live id)
      (hnext : next ∈ b.flow id) : Feeds g b f.tail next
  | through {x id next : Nat} (hx : Feeds g b x id) (hf : g.fragment? id = none)
      (hnext : next ∈ b.flow id) : Feeds g b x next

lemma Feeds.exists_link (hb : b.Bounded) {x : Nat} (hx : g.Feeds b x id) :
    ∃ start < b.size, (x, g.heads b.flow b.size start) ∈ g.links b ∧
      Leads (g.through b) start id := by
  induction hx with
  | entry =>
    exact ⟨Branches.entry, hb.entry_lt, List.mem_append_right _ List.mem_cons_self, .refl⟩
  | leave hf hlive hnext =>
    exact ⟨_, hb.flow_lt hnext, mem_links_of_fragment? hb hf hlive hnext, .refl⟩
  | @through x id next _ hf hnext ih =>
    obtain ⟨start, hstart, hlink, hleads⟩ := ih
    refine ⟨start, hstart, hlink, hleads.tail ?_⟩
    simpa [EffectGraph.through, hf] using hnext

variable {items : Nat → List (Effect × Origin)} {ids : List Nat}

lemma heads_lt (hfragments : ∀ f ∈ g.fragments, f.head < g.size ∧ f.tail < g.size)
    (successors : Nat → List Nat) (bound start : Nat) :
    ∀ id ∈ g.heads successors bound start, id < g.size := by
  intro id hid
  obtain ⟨other, -, hhead⟩ := List.mem_filterMap.mp hid
  obtain ⟨f, hf, rfl⟩ := Option.map_eq_some_iff.mp hhead
  exact (hfragments f (mem_of_fragment? hf).1).1

lemma links_lt (hfragments : ∀ f ∈ g.fragments, f.head < g.size ∧ f.tail < g.size)
    (hroot : g.root < g.size) (b : Branches) :
    ∀ link ∈ g.links b, link.1 < g.size ∧ ∀ id ∈ link.2, id < g.size := by
  have hheads := heads_lt hfragments b.flow b.size
  intro link hlink
  rcases List.mem_append.mp hlink with hlink | hlink
  · obtain ⟨f, hf, hlink⟩ := List.mem_flatMap.mp hlink
    split at hlink
    · obtain ⟨next, -, rfl⟩ := List.mem_map.mp hlink
      exact ⟨(hfragments f hf).2, hheads next⟩
    · cases hlink
  · rw [List.mem_singleton.mp hlink]
    exact ⟨hroot, hheads _⟩

lemma Fragmented.lt_size (hg : g.Fragmented items ids) (f : Fragment) (hf : f ∈ g.fragments) :
    f.head < g.size ∧ f.tail < g.size := by
  obtain ⟨hne, hlength⟩ := hg.length f hf
  have hpos := List.length_pos_of_ne_nil hne
  have hlast : (items f.branch).length - 1 < (items f.branch).length := by omega
  have heffect := (hg.chain f hf).effect (List.getElem?_eq_getElem hlast)
  rw [show f.head + ((items f.branch).length - 1) = f.tail by omega] at heffect
  have htail := lt_size_of_effect? heffect
  exact ⟨by omega, htail⟩

lemma Fragmented.embeds_stitch (hg : g.Fragmented items ids) (hroot : g.root < g.size)
    (b : Branches) : Embeds g (g.stitch b) := by
  rw [stitch_eq_linkEach]
  exact embeds_linkEach (links_lt hg.lt_size hroot b)

lemma fragments_stitch (g : EffectGraph) (b : Branches) :
    (g.stitch b).fragments = g.fragments := by
  rw [stitch_eq_linkEach]
  exact (sameNodes_linkEach g _).fragments

/-- Control that comes to a branch with effects has an edge to the first of them. -/
lemma Feeds.edge (hb : b.Bounded) (hg : g.Fragmented items ids) (hroot : g.root < g.size) {x : Nat}
    (hx : g.Feeds b x id) {f : Fragment} (hf : g.fragment? id = some f) :
    (g.stitch b).Edge x f.head := by
  obtain ⟨start, hstart, hlink, hleads⟩ := hx.exists_link hb
  have hlinks := links_lt hg.lt_size hroot b
  rw [stitch_eq_linkEach, edge_linkEach fun link hlink => (hlinks link hlink).1]
  exact Or.inr ⟨_, hlink, rfl, (mem_heads hb hstart).mpr ⟨id, f, hleads, hf, rfl⟩⟩

lemma Feeds.congr (hroot : h.root = g.root) (hgh : ∀ id, h.fragment? id = g.fragment? id) {x : Nat}
    (hx : g.Feeds b x id) : h.Feeds b x id := by
  induction hx with
  | entry => exact hroot ▸ .entry
  | leave hf hlive hnext => exact .leave ((hgh _).trans hf) hlive hnext
  | through _ hf hnext ih => exact ih.through ((hgh _).trans hf) hnext

/-! ### Built graphs -/

/-- The nodes that a branch comes to. -/
def branchItems (b : Branches) (strict : Bool) (r : Registry) (id : Nat) : List (Effect × Origin) :=
  (b.get id).operations.flatMap fun op => op.items strict r

/-- All that matters of the graph of a program whose types are in `r`. -/
structure Built (g : EffectGraph) (b : Branches) (strict : Bool) (r : Registry) : Prop where
  mirrored : g.Mirrored
  root     : g.effect? g.root = some (.push .never)
  length   : ∀ {id f}, g.fragment? id = some f → branchItems b strict r id ≠ [] ∧
    f.tail + 1 = f.head + (branchItems b strict r id).length
  chain    : ∀ {id f}, g.fragment? id = some f → g.Chain f.head (branchItems b strict r id)
  none     : ∀ {id}, g.fragment? id = none → branchItems b strict r id = []
  edge     : ∀ {x id f}, g.Feeds b x id → g.fragment? id = some f → g.Edge x f.head

lemma fragmented_initial (items : Nat → List (Effect × Origin)) : initial.Fragmented items [] where
  length   := by simp [initial]
  chain    := by simp [initial]
  complete := by simp

lemma mem_map_fst_enumerate {strict : Bool} {r : Registry} (hid : branchItems b strict r id ≠ []) :
    id ∈ b.arena.enumerate.map Prod.fst := by
  rcases Nat.lt_or_ge id b.size with hlt | hge
  · exact List.mem_map.mpr ⟨_, Branches.mem_enumerate_get hlt, rfl⟩
  · rw [branchItems, Branches.get_of_size_le hge] at hid
    exact absurd rfl hid

lemma fragmented_of_addBranches {strict : Bool} {r : Registry}
    (hadd : addBranches strict initial .empty b.arena.enumerate = .ok (g, r)) :
    g.Fragmented (branchItems b strict r) (b.arena.enumerate.map Prod.fst) ∧ Embeds initial g :=
  fragmented_addBranches (fragmented_initial _) hadd (.refl r) fun entry hentry => by
    rw [branchItems, Branches.get_eq_of_mem_enumerate hentry]

/-- The root stays where it was, at the bottom of the stack. -/
lemma Embeds.bottom (hg : Embeds initial g) : g.effect? g.root = some (.push .never) := by
  rw [hg.root]
  exact hg.effect rfl

lemma root_stitch (g : EffectGraph) (b : Branches) : (g.stitch b).root = g.root := by
  rw [stitch_eq_linkEach]
  exact (sameNodes_linkEach g _).root

/-- The root is the first node of a built graph. -/
lemma root_of_build {strict : Bool} {r : Registry} (hbuild : build b strict = .ok (g, r)) :
    g.root = 0 := by
  obtain ⟨⟨g₀, r₀⟩, hadd, hbuild⟩ := exists_of_bind_eq_ok hbuild
  cases hbuild
  rw [root_stitch, (fragmented_of_addBranches hadd).2.root]
  rfl

/-- Whatever the branches are like, all edges of a built graph are entered on both sides. -/
lemma mirrored_of_build {strict : Bool} {r : Registry} (hbuild : build b strict = .ok (g, r)) :
    g.Mirrored := by
  obtain ⟨⟨g₀, r₀⟩, hadd, hbuild⟩ := exists_of_bind_eq_ok hbuild
  cases hbuild
  obtain ⟨hg, hembeds⟩ := fragmented_of_addBranches hadd
  have hstitch := hg.embeds_stitch (lt_size_of_effect? hembeds.bottom) b
  exact hstitch.mirrored (hembeds.mirrored (by decide))

/-- The graph of a program has the fragments of its branches, and control that comes to one of them
has an edge to its first node. -/
theorem built_of_build (hb : b.Bounded) {strict : Bool} {r : Registry}
    (hbuild : build b strict = .ok (g, r)) : g.Built b strict r := by
  have hmirrored := mirrored_of_build hbuild
  obtain ⟨⟨g₀, r₀⟩, hadd, hbuild⟩ := exists_of_bind_eq_ok hbuild
  cases hbuild
  obtain ⟨hg, hembeds⟩ := fragmented_of_addBranches hadd
  have hstitch := hg.embeds_stitch (lt_size_of_effect? hembeds.bottom) b
  have hfragment : ∀ id, (g₀.stitch b).fragment? id = g₀.fragment? id := fun id => by
    rw [fragment?, fragments_stitch, fragment?]
  constructor
  case mirrored => exact hmirrored
  case root => exact (hembeds.trans hstitch).bottom
  case length =>
    intro id f hf
    obtain ⟨hmem, rfl⟩ := mem_of_fragment? (hfragment id ▸ hf)
    exact hg.length f hmem
  case chain =>
    intro id f hf
    obtain ⟨hmem, rfl⟩ := mem_of_fragment? (hfragment id ▸ hf)
    exact (hg.chain f hmem).embeds hstitch
  case none =>
    intro id hnone
    by_contra hid
    obtain ⟨f, hf, rfl⟩ := hg.complete id (mem_map_fst_enumerate hid) hid
    rw [hfragment, fragment?, List.find?_eq_none] at hnone
    exact hnone f hf (by simp)
  case edge =>
    intro x id f hx hf
    have hx₀ : g₀.Feeds b x id :=
      hx.congr (root_stitch g₀ b).symm fun id => (hfragment id).symm
    exact hx₀.edge hb hg (lt_size_of_effect? hembeds.bottom) (hfragment id ▸ hf)

lemma bottom_of_build (hb : b.Bounded) {strict : Bool} {r : Registry}
    (hbuild : build b strict = .ok (g, r)) : g.effect? 0 = some (.push .never) := by
  rw [← root_of_build hbuild]
  exact (built_of_build hb hbuild).root

end EffectGraph

end ZeroWidth
