import Mathlib.Data.List.Forall2
import ZeroWidth.Proofs.Interning
import ZeroWidth.Typing.Report

/-!
# Two graphs resolved in step

Resolving a graph never looks at a node that it has not come to from the root. So if the nodes that
can be come to in two graphs correspond to each other one to one, with their parents and children in
the same order, then the two are resolved in step, whatever other nodes there are: each pass does
the same to corresponding nodes, and corresponding nodes wait for the next one. What is reported
about them in the end is the same.
-/

namespace ZeroWidth

variable {R : Nat → Nat → Prop}

/-! ### Lists of ids -/

section Ids

variable {ids ids' : List Nat} {id id' : Nat} {s s' : IdSet}

lemma forall₂_appendNew (hR : Relator.BiUnique R) (hids : List.Forall₂ R ids ids')
    (hid : R id id') : List.Forall₂ R (appendNew ids id) (appendNew ids' id') := by
  have hmem : id ∈ ids ↔ id' ∈ ids' := List.rel_mem hR hid hids
  unfold appendNew
  by_cases h : id ∈ ids
  · rw [if_pos h, if_pos (hmem.mp h)]
    exact hids
  · rw [if_neg h, if_neg (mt hmem.mpr h)]
    exact List.rel_append hids (.cons hid .nil)

section Forall₂

variable {α β γ : Type} {P : α → β → Prop} {l : List α} {l' : List β}

lemma any_eq_of_forall₂ {p : α → Bool} {p' : β → Bool} (h : List.Forall₂ P l l')
    (hp : ∀ {a a'}, P a a' → p a = p' a') : l.any p = l'.any p' := by
  induction h with
  | nil => rfl
  | cons hx _ ih => rw [List.any_cons, List.any_cons, hp hx, ih]

lemma filterMap_eq_of_forall₂ {f : α → Option γ} {f' : β → Option γ} (h : List.Forall₂ P l l')
    (hf : ∀ {a a'}, P a a' → f a = f' a') : l.filterMap f = l'.filterMap f' := by
  induction h with
  | nil => rfl
  | cons hx _ ih => rw [List.filterMap_cons, List.filterMap_cons, hf hx, ih]

lemma map_eq_of_forall₂ {f : α → γ} {f' : β → γ} (h : List.Forall₂ P l l')
    (hf : ∀ {a a'}, P a a' → f a = f' a') : l.map f = l'.map f' := by
  rw [← List.filterMap_eq_map, ← List.filterMap_eq_map]
  exact filterMap_eq_of_forall₂ h fun ha => congrArg some (hf ha)

end Forall₂

/-- The members of two sets correspond, in the same order. -/
def IdSet.InStep (R : Nat → Nat → Prop) (s s' : IdSet) : Prop := List.Forall₂ R s.toList s'.toList

namespace IdSet.InStep

lemma insert (hR : Relator.BiUnique R) (hs : s.InStep R s') (hid : R id id') :
    (s.insert id).InStep R (s'.insert id') := by
  rw [InStep, toList_insert, toList_insert]
  exact forall₂_appendNew hR hs hid

lemma empty : IdSet.InStep R .empty .empty := .nil

lemma isEmpty_eq (hs : s.InStep R s') : s.isEmpty = s'.isEmpty := by
  rw [Bool.eq_iff_iff, isEmpty_iff, isEmpty_iff, ← List.length_eq_zero_iff,
    ← List.length_eq_zero_iff, hs.length_eq]

lemma insertAll (hR : Relator.BiUnique R) (hs : s.InStep R s') (hids : List.Forall₂ R ids ids') :
    (s.insertAll ids).InStep R (s'.insertAll ids') :=
  List.rel_foldl (R := R) (P := InStep R) (fun _ _ hs _ _ hid => hs.insert hR hid) hs hids

/-- Breadth first searches along corresponding ids find corresponding ids, in the same order. -/
lemma breadthFirst (hR : Relator.BiUnique R) {next next' : Nat → List Nat}
    (hnext : ∀ {id id'}, R id id' → List.Forall₂ R (next id) (next' id')) (bound place : Nat)
    (hs : s.InStep R s') :
    (breadthFirst next bound place s).InStep R (ZeroWidth.breadthFirst next' bound place s') := by
  induction bound generalizing place s s' with
  | zero => exact hs
  | succ bound ih =>
    unfold ZeroWidth.breadthFirst
    rw [getElem?_order, getElem?_order]
    cases hplace : s.toList[place]? with
    | none =>
      rw [List.getElem?_eq_none_iff, hs.length_eq, ← List.getElem?_eq_none_iff] at hplace
      rw [hplace]
      exact hs
    | some here =>
      obtain ⟨here', hplace', hhere⟩ := exists_getElem?_of_forall₂ hs hplace
      rw [hplace']
      exact ih (place + 1) (hs.insertAll hR (hnext hhere))

end IdSet.InStep

/-- Sorting corresponding ids by corresponding orders keeps them in step. -/
lemma forall₂_mergeSort {α β : Type} {P : α → β → Prop} {l : List α} {l' : List β}
    {le : α → α → Bool} {le' : β → β → Bool} (h : List.Forall₂ P l l')
    (hle : ∀ {a a' b b'}, P a a' → P b b' → le a b = le' a' b') :
    List.Forall₂ P (l.mergeSort le) (l'.mergeSort le') := by
  -- both come of sorting the pairs
  obtain ⟨hlength, hpairs⟩ := List.forall₂_iff_zip.mp h
  have hmem : ∀ pair ∈ l.zip l', P pair.1 pair.2 := fun pair hpair => hpairs hpair
  have hfst := List.map_mergeSort (r := fun p q => le p.1 q.1) (s := le) (f := Prod.fst)
    (l := l.zip l') fun _ _ _ _ => rfl
  have hsnd := List.map_mergeSort (r := fun p q => le p.1 q.1) (s := le') (f := Prod.snd)
    (l := l.zip l') fun p hp q hq => hle (hmem p hp) (hmem q hq)
  rw [List.map_fst_zip hlength.le] at hfst
  rw [List.map_snd_zip hlength.ge] at hsnd
  rw [← hfst, ← hsnd, List.forall₂_map_left_iff, List.forall₂_map_right_iff, List.forall₂_same]
  exact fun pair hpair => hmem pair (List.mem_mergeSort.mp hpair)

end Ids

/-! ### Graphs -/

variable {r r' : Registry}

/-- Nodes with alike effects of the same operation, whose edges correspond. -/
structure Node.InStep (R : Nat → Nat → Prop) (r r' : Registry) (node node' : Node) : Prop where
  effect   : Effect.Alike r r' node.effect node'.effect
  origin   : node.origin = node'.origin
  parents  : List.Forall₂ R node.parents node'.parents
  children : List.Forall₂ R node.children node'.children

/-- Fragments of the same branch with corresponding ends. -/
structure Fragment.InStep (R : Nat → Nat → Prop) (f f' : Fragment) : Prop where
  branch : f.branch = f'.branch
  head   : R f.head f'.head
  tail   : R f.tail f'.tail

namespace EffectGraph

/-- Links from corresponding nodes to corresponding nodes. -/
def LinksInStep (R : Nat → Nat → Prop) (link link' : Nat × List Nat) : Prop :=
  R link.1 link'.1 ∧ List.Forall₂ R link.2 link'.2

/-- Corresponding nodes are there, and are in step. -/
def InStep (R : Nat → Nat → Prop) (r r' : Registry) (g g' : EffectGraph) : Prop :=
  ∀ n n', R n n' →
    ∃ node node', g.node? n = some node ∧ g'.node? n' = some node' ∧ node.InStep R r r' node'

variable {g g' : EffectGraph} {n n' u u' : Nat}

lemma reachable_of_le (hm : g.Mirrored) (hroot : g.root < g.size) {bound : Nat}
    (hbound : g.size ≤ bound) :
    breadthFirst g.children bound 0 (IdSet.empty.insert g.root) = g.reachable :=
  breadthFirst_of_le (fun _ _ _ hk => hm.lt_size_right hk)
    ⟨by simp [IdSet.toList_insert], by simpa using hroot, by simp⟩ (Nat.le_refl g.size) hbound

namespace InStep

lemma exists_effect? (h : g.InStep R r r' g') (hn : R n n') :
    ∃ effect effect', g.effect? n = some effect ∧ g'.effect? n' = some effect' ∧
      Effect.Alike r r' effect effect' := by
  obtain ⟨node, node', hnode, hnode', hstep⟩ := h n n' hn
  exact ⟨_, _, by rw [effect?, hnode, Option.map_some], by rw [effect?, hnode', Option.map_some],
    hstep.effect⟩

lemma nodesAlike (h : g.InStep R r r' g') (hn : R n n') : NodesAlike r r' g g' n n' := by
  obtain ⟨effect, effect', heffect, heffect', halike⟩ := h.exists_effect? hn
  exact .node heffect heffect' halike

lemma origin?_eq (h : g.InStep R r r' g') (hn : R n n') : g.origin? n = g'.origin? n' := by
  obtain ⟨node, node', hnode, hnode', hstep⟩ := h n n' hn
  rw [origin?, origin?, hnode, hnode', Option.bind_some, Option.bind_some, hstep.origin]

lemma parents (h : g.InStep R r r' g') (hn : R n n') :
    List.Forall₂ R (g.parents n) (g'.parents n') := by
  obtain ⟨node, node', hnode, hnode', hstep⟩ := h n n' hn
  rw [EffectGraph.parents, EffectGraph.parents, hnode, hnode']
  exact hstep.parents

lemma children (h : g.InStep R r r' g') (hn : R n n') :
    List.Forall₂ R (g.children n) (g'.children n') := by
  obtain ⟨node, node', hnode, hnode', hstep⟩ := h n n' hn
  rw [EffectGraph.children, EffectGraph.children, hnode, hnode']
  exact hstep.children

lemma link (hR : Relator.BiUnique R) (h : g.InStep R r r' g') (hu : R u u') (hn : R n n') :
    (g.link u n).InStep R r r' (g'.link u' n') := by
  intro m m' hm
  obtain ⟨node, node', hnode, hnode', hstep⟩ := h m m' hm
  have hum : u = m ↔ u' = m' := Relator.rel_eq hR hu hm
  have hnm : n = m ↔ n' = m' := Relator.rel_eq hR hn hm
  rw [node?_link, node?_link, hnode, hnode']
  refine ⟨_, _, rfl, rfl, hstep.effect, hstep.origin, ?_, ?_⟩
  · by_cases heq : n = m
    · simp only [if_pos heq, if_pos (hnm.mp heq)]
      exact forall₂_appendNew hR hstep.parents hu
    · simp only [if_neg heq, if_neg (mt hnm.mpr heq)]
      exact hstep.parents
  · by_cases heq : u = m
    · simp only [if_pos heq, if_pos (hum.mp heq)]
      exact forall₂_appendNew hR hstep.children hn
    · simp only [if_neg heq, if_neg (mt hum.mpr heq)]
      exact hstep.children

lemma linkAll (hR : Relator.BiUnique R) (h : g.InStep R r r' g') (hu : R u u') {ids ids' : List Nat}
    (hids : List.Forall₂ R ids ids') : (g.linkAll u ids).InStep R r r' (g'.linkAll u' ids') :=
  List.rel_foldl (R := R) (P := InStep R r r') (fun _ _ h _ _ hid => h.link hR hu hid) h hids

lemma linkEach (hR : Relator.BiUnique R) (h : g.InStep R r r' g')
    {links links' : List (Nat × List Nat)} (hlinks : List.Forall₂ (LinksInStep R) links links') :
    (g.linkEach links).InStep R r r' (g'.linkEach links') :=
  List.rel_foldl (R := LinksInStep R) (P := InStep R r r')
    (fun _ _ h _ _ hlink => h.linkAll hR hlink.1 hlink.2) h hlinks

/-- Searches from the root find corresponding nodes, in the same order. -/
lemma reachable (hR : Relator.BiUnique R) (hroot : R g.root g'.root) (h : g.InStep R r r' g')
    (hm : g.Mirrored) (hm' : g'.Mirrored) : g.reachable.InStep R g'.reachable := by
  obtain ⟨_, _, hnode, hnode', _⟩ := h g.root g'.root hroot
  -- both searches are run as long as the larger graph could need
  rw [← reachable_of_le hm (lt_size_of_node? hnode) (Nat.le_max_left g.size g'.size),
    ← reachable_of_le hm' (lt_size_of_node? hnode') (Nat.le_max_right g.size g'.size)]
  exact (IdSet.InStep.empty.insert hR hroot).breadthFirst hR h.children _ 0

end InStep

end EffectGraph

/-! ### Resolving -/

namespace Resolution

open EffectGraph

/-- The graphs are in step, and corresponding nodes wait. -/
structure InStep (R : Nat → Nat → Prop) (r r' : Registry) (s s' : Resolution) : Prop where
  graph   : s.graph.InStep R r r' s'.graph
  pending : s.pending.InStep R s'.pending

namespace InStep

variable {s s' : Resolution} {id id' source source' child child' item item' : Nat}
  {ids ids' sources children sources' children' : List Nat} {effect effect' : Effect}

lemma wakes_eq (hR : Relator.BiUnique R) (h : s.InStep R r r' s') (hsource : R source source')
    (hchild : R child child') :
    wakes s.graph source child = wakes s'.graph source' child' := by
  have hmem : source ∈ s.graph.parents child ↔ source' ∈ s'.graph.parents child' :=
    List.rel_mem hR hsource (h.graph.parents hchild)
  rw [wakes, wakes, (h.graph.nodesAlike hchild).isPush_eq, (h.graph.nodesAlike hsource).isPush_eq]
  simp only [List.contains_eq_mem, hmem]

lemma enter (hR : Relator.BiUnique R) (h : s.InStep R r r' s') (hsource : R source source')
    (hchild : R child child') :
    (s.enter source child).InStep R r r' (s'.enter source' child') := by
  have hlink := h.graph.link hR hsource hchild
  rw [Resolution.enter, Resolution.enter, h.wakes_eq hR hsource hchild]
  split
  · exact ⟨hlink, h.pending.insert hR hchild⟩
  · exact ⟨hlink, h.pending⟩

lemma enterAll (hR : Relator.BiUnique R) (h : s.InStep R r r' s')
    (hsources : List.Forall₂ R sources sources') (hchildren : List.Forall₂ R children children') :
    (s.enterAll sources children).InStep R r r' (s'.enterAll sources' children') :=
  List.rel_foldl (R := R) (P := InStep R r r') (fun _ _ h _ _ hsource =>
    List.rel_foldl (R := R) (P := InStep R r r') (fun _ _ h _ _ hchild =>
      h.enter hR hsource hchild) h hchildren) h hsources

lemma forall₂_sources (h : s.InStep R r r' s') (heffect : Effect.Alike r r' effect effect')
    (hitem : R item item') :
    List.Forall₂ R (Resolution.sources s.graph effect item)
      (Resolution.sources s'.graph effect' item') := by
  cases heffect with
  | assert => exact .cons hitem .nil
  | _ => exact h.graph.parents hitem

lemma isMatched_eq (h : s.InStep R r r' s') (hid : R id id') :
    isMatched s.graph id = isMatched s'.graph id' := by
  obtain ⟨node, node', hnode, hnode', hstep⟩ := h.graph id id' hid
  rw [isMatched, isMatched, hnode, hnode']
  exact any_eq_of_forall₂ hstep.parents fun hitem =>
    (h.graph.nodesAlike hitem).matching_eq hstep.effect

lemma advance (hR : Relator.BiUnique R) (h : s.InStep R r r' s') (hid : R id id') :
    (s.advance id).InStep R r r' (s'.advance id') := by
  obtain ⟨node, node', hnode, hnode', hstep⟩ := h.graph id id' hid
  rw [Resolution.advance, Resolution.advance, hnode, hnode']
  have hmatching : ∀ ⦃item item'⦄, R item item' →
      (matching s.graph node.effect item ↔ matching s'.graph node'.effect item') :=
    fun _ _ hitem => by rw [(h.graph.nodesAlike hitem).matching_eq hstep.effect]
  exact List.rel_foldl (R := R) (P := InStep R r r')
    (fun _ _ h _ _ hitem => h.enterAll hR (h.forall₂_sources hstep.effect hitem) hstep.children) h
    (List.rel_filter hmatching hstep.parents)

/-- Both have come to the same answer, and are in step. -/
def Flagged (R : Nat → Nat → Prop) (r r' : Registry) (s s' : Resolution × Bool) : Prop :=
  s.1.InStep R r r' s'.1 ∧ s.2 = s'.2

lemma visit (hR : Relator.BiUnique R) {s s' : Resolution × Bool} (h : Flagged R r r' s s')
    (hid : R id id') : Flagged R r r' (visit s id) (Resolution.visit s' id') := by
  obtain ⟨hstep, hflag⟩ := h
  rw [Resolution.visit, Resolution.visit, hstep.isMatched_eq hid]
  split
  · exact ⟨hstep.advance hR hid, rfl⟩
  · exact ⟨⟨hstep.graph, hstep.pending.insert hR hid⟩, hflag⟩

lemma pass (hR : Relator.BiUnique R) (h : s.InStep R r r' s') :
    Flagged R r r' s.pass s'.pass := by
  have hstart : Flagged R r r' ({ s with pending := .empty }, false)
      ({ s' with pending := .empty }, false) := ⟨⟨h.graph, .empty⟩, rfl⟩
  exact List.rel_foldl (R := R) (P := Flagged R r r') (fun _ _ h _ _ hid => visit hR h hid)
    hstart h.pending

/-- Resolutions in step take the same number of passes. -/
theorem settle (hR : Relator.BiUnique R) (passes : Nat) (h : s.InStep R r r' s') :
    Option.Rel (InStep R r r') (s.settle passes) (s'.settle passes) := by
  induction passes generalizing s s' with
  | zero =>
    unfold Resolution.settle
    rw [h.pending.isEmpty_eq]
    split
    · exact .some h
    · exact .none
  | succ passes ih =>
    unfold Resolution.settle
    rw [h.pending.isEmpty_eq]
    split
    · exact .some h
    · obtain ⟨hstep, hflag⟩ := h.pass hR
      generalize s.pass = after at hstep hflag
      generalize s'.pass = after' at hstep hflag
      obtain ⟨s, goesOn⟩ := after
      obtain ⟨s', goesOn'⟩ := after'
      cases hflag
      cases goesOn with
      | true => exact ih hstep
      | false => exact .some hstep

end InStep

/-- Graphs that are in step start in step. -/
lemma inStep_start (hR : Relator.BiUnique R) {g g' : EffectGraph} (h : g.InStep R r r' g')
    (hreachable : g.reachable.InStep R g'.reachable) :
    (start g).InStep R r r' (start g') := by
  have hpush : ∀ ⦃id id'⦄, R id id' → ((!g.isPush id) ↔ (!g'.isPush id')) :=
    fun _ _ hid => by rw [(h.nodesAlike hid).isPush_eq]
  exact ⟨h, IdSet.InStep.empty.insertAll hR (List.rel_filter hpush hreachable)⟩

end Resolution

/-- Corresponding nodes come in the same order. -/
def KeepsOrder (R : Nat → Nat → Prop) : Prop := ∀ a a' b b', R a a' → R b b' → (a ≤ b ↔ a' ≤ b')

lemma KeepsOrder.biUnique (hR : KeepsOrder R) : Relator.BiUnique R := by
  constructor
  · intro a b c ha hb
    exact Nat.le_antisymm ((hR a c b c ha hb).mpr le_rfl) ((hR b c a c hb ha).mpr le_rfl)
  · intro a b c hb hc
    exact Nat.le_antisymm ((hR a b a c hb hc).mp le_rfl) ((hR a c a b hc hb).mp le_rfl)

/-- Both graphs are in step, and corresponding nodes are stuck. -/
structure Resolved.InStep (R : Nat → Nat → Prop) (r r' : Registry) (s s' : Resolved) : Prop where
  graph : s.graph.InStep R r r' s'.graph
  stuck : List.Forall₂ R s.stuck s'.stuck

namespace EffectGraph.InStep

variable {g g' : EffectGraph} {n n' m m' : Nat}

lemma reportedBefore_eq (hR : KeepsOrder R) (h : g.InStep R r r' g') (hn : R n n')
    (hm : R m m') : g.reportedBefore n m = g'.reportedBefore n' m' := by
  have hle : n ≤ m ↔ n' ≤ m' := hR n n' m m' hn hm
  simp only [reportedBefore, startOf, h.origin?_eq hn, h.origin?_eq hm, hle]

/-- Graphs in step are resolved, or given up, together. -/
theorem resolve (hR : KeepsOrder R) (hroot : R g.root g'.root) (h : g.InStep R r r' g')
    (hm : g.Mirrored) (hm' : g'.Mirrored) (passes : Nat) :
    (∃ s s', g.resolve passes = .ok s ∧ g'.resolve passes = .ok s' ∧ s.InStep R r r' s') ∨
      (∃ failure, g.resolve passes = .error failure ∧ g'.resolve passes = .error failure) := by
  have hreachable := h.reachable hR.biUnique hroot hm hm'
  have hsettle := (Resolution.inStep_start hR.biUnique h hreachable).settle hR.biUnique passes
  unfold EffectGraph.resolve
  generalize (Resolution.start g).settle passes = s at hsettle
  generalize (Resolution.start g').settle passes = s' at hsettle
  cases hsettle with
  | none => exact Or.inr ⟨_, rfl, rfl⟩
  | some hstep => exact Or.inl ⟨_, _, rfl, rfl, hstep.graph, forall₂_mergeSort hstep.pending
      fun hn hm => hstep.graph.reportedBefore_eq hR hn hm⟩

end EffectGraph.InStep

/-! ### Reporting -/

/-- Items of the same type that were pushed at the same place. -/
structure Sighting.Alike (r r' : Registry) (s s' : Sighting) : Prop where
  origin : s.origin = s'.origin
  ty     : Ty.Alike r r' s.ty s'.ty
  name   : s.name = s'.name

namespace Sighting

variable {found found' : List Sighting}

lemma Alike.eq_iff {s s' t t' : Sighting} (hs : s.Alike r r' s') (ht : t.Alike r r' t') :
    s = t ↔ s' = t' := by
  obtain ⟨origin, ty, name⟩ := s
  obtain ⟨origin', ty', name'⟩ := t
  obtain ⟨rfl, hty, rfl⟩ := hs
  obtain ⟨rfl, hty', rfl⟩ := ht
  rw [Sighting.mk.injEq, hty.eq_iff hty', Sighting.mk.injEq]

lemma union_eq (h : List.Forall₂ (Alike r r') found found') : union found = union found' := by
  rw [union, union, map_eq_of_forall₂ h Alike.name]

lemma list_eq (h : List.Forall₂ (Alike r r') found found') : list found = list found' := by
  have htext : ∀ {s s' : Sighting}, s.Alike r r' s' → s.text = s'.text := fun hs => by
    rw [text, text, hs.name, hs.origin]
  rw [list, list, map_eq_of_forall₂ h htext]

end Sighting

/-- The same fault, about items that are alike. -/
inductive TypeFault.Alike (r r' : Registry) : TypeFault → TypeFault → Prop
  | same (fault : TypeFault) : Alike r r' fault fault
  | mismatch {found found' : List Sighting} (during : Option Instruction)
      (hfound : List.Forall₂ (Sighting.Alike r r') found found') :
      Alike r r' (.mismatch during found) (.mismatch during found')
  | assertionMismatch {found found' : List Sighting} (expected : String)
      (hfound : List.Forall₂ (Sighting.Alike r r') found found') :
      Alike r r' (.assertionMismatch expected found) (.assertionMismatch expected found')

namespace TypeFault.Alike

variable {fault fault' : TypeFault}

lemma kind_eq (h : fault.Alike r r' fault') : fault.kind = fault'.kind := by cases h <;> rfl

lemma message_eq (h : fault.Alike r r' fault') : fault.message = fault'.message := by
  cases h with
  | same => rfl
  | mismatch during hfound | assertionMismatch expected hfound =>
    unfold message
    dsimp only
    rw [Sighting.union_eq hfound, Sighting.list_eq hfound]

end TypeFault.Alike

/-- What stands twice in a row does so in step. -/
lemma forall₂_eraseReps {found found' : List Sighting}
    (h : List.Forall₂ (Sighting.Alike r r') found found') :
    List.Forall₂ (Sighting.Alike r r') found.eraseReps found'.eraseReps := by
  have hloop : ∀ {rest rest' : List Sighting}, List.Forall₂ (Sighting.Alike r r') rest rest' →
      ∀ {s s' : Sighting} {kept kept' : List Sighting}, s.Alike r r' s' →
        List.Forall₂ (Sighting.Alike r r') kept kept' →
        List.Forall₂ (Sighting.Alike r r') (List.eraseRepsBy.loop (· == ·) s rest kept)
          (List.eraseRepsBy.loop (· == ·) s' rest' kept') := by
    intro rest rest' hrest
    induction hrest with
    | nil => exact fun hs hkept => List.rel_reverse (.cons hs hkept)
    | @cons t t' _ _ ht _ ih =>
      intro s s' kept kept' hs hkept
      have hbeq : (s == t) = (s' == t') := Bool.eq_iff_iff.mpr (by simpa using hs.eq_iff ht)
      rw [List.eraseRepsBy.loop, List.eraseRepsBy.loop, hbeq]
      split
      · exact ih hs hkept
      · exact ih ht (.cons hs hkept)
  cases h with
  | nil => exact .nil
  | cons hs hrest => exact hloop hrest hs .nil

namespace EffectGraph.InStep

variable {g g' : EffectGraph} {n n' : Nat}

lemma sighting? (h : g.InStep R r r' g') (hn : R n n') :
    Option.Rel (Sighting.Alike r r') (g.sighting? r n) (g'.sighting? r' n') := by
  unfold EffectGraph.sighting? Sighting.of?
  rw [h.origin?_eq hn]
  rcases (h.nodesAlike hn).pushed? with ⟨ty, ty', hty, hty', halike⟩ | ⟨hty, hty'⟩
  · rw [hty, hty']
    cases g'.origin? n' with
    | none => exact .none
    | some origin => exact .some ⟨rfl, halike, halike.name_eq⟩
  · rw [hty, hty']
    exact .none

/-- Corresponding nodes are offered the same items. -/
lemma sightings (h : g.InStep R r r' g') (hn : R n n') :
    List.Forall₂ (Sighting.Alike r r') (g.sightings r n) (g'.sightings r' n') := by
  have hfound := List.rel_filterMap (fun _ _ hparent => h.sighting? hparent) (h.parents hn)
  exact forall₂_eraseReps (forall₂_mergeSort hfound fun ha hb => by rw [ha.origin, hb.origin])

/-- Corresponding nodes are stuck for the same reason. -/
lemma fault (h : g.InStep R r r' g') (hn : R n n') (strict : Bool) :
    (g.explain r strict n).fault.Alike r r' (g'.explain r' strict n').fault := by
  have hfound := h.sightings hn
  have hempty : (g.sightings r n).isEmpty = (g'.sightings r' n').isEmpty := by
    rw [Bool.eq_iff_iff, List.isEmpty_iff_length_eq_zero, List.isEmpty_iff_length_eq_zero,
      hfound.length_eq]
  have hunknown : ∀ {s s' : Sighting}, s.Alike r r' s' → (s.ty = .unknown ↔ s'.ty = .unknown) :=
    fun hs => hs.ty.eq_builtin_iff (by simp)
  have hany : (g.sightings r n).any (fun s => s.ty = .unknown) =
      (g'.sightings r' n').any (fun s => s.ty = .unknown) :=
    any_eq_of_forall₂ hfound fun hs => decide_eq_decide.mpr (hunknown hs)
  have hall : (g.sightings r n).all (fun s => s.ty = .unknown) =
      (g'.sightings r' n').all (fun s => s.ty = .unknown) := by
    rw [List.all_eq_not_any_not, List.all_eq_not_any_not,
      any_eq_of_forall₂ hfound fun hs => by rw [decide_eq_decide.mpr (hunknown hs)]]
  obtain ⟨effect, effect', heffect, heffect', halike⟩ := h.exists_effect? hn
  simp only [explain, TypeError.of, TypeFault.of, h.origin?_eq hn, hempty, hany, hall, heffect,
    heffect']
  split
  · exact .same _
  · cases halike with
    | assert hty =>
      simp only [hty.name_eq]
      split
      · exact .same _
      · exact .assertionMismatch _ hfound
    | pop =>
      dsimp only
      split
      · exact .same _
      · exact .mismatch _ hfound
    | _ => exact .mismatch _ hfound

lemma finding_explain (h : g.InStep R r r' g') (hn : R n n') (strict : Bool) :
    (g.explain r strict n).finding = (g'.explain r' strict n').finding := by
  have hfault := h.fault hn strict
  have hspan : (g.explain r strict n).span = (g'.explain r' strict n').span := by
    simp only [explain, TypeError.of, h.origin?_eq hn]
  rw [TypeError.finding, TypeError.finding, hfault.kind_eq, hfault.message_eq, hspan]

lemma underflowWarning?_eq (h : g.InStep R r r' g') (errored : List Span) (hn : R n n') :
    g.underflowWarning? errored n = g'.underflowWarning? errored n' := by
  have hbottom : (g.parents n).any (fun p => g.effect? p = some (.push .never)) =
      (g'.parents n').any (fun p => g'.effect? p = some (.push .never)) :=
    any_eq_of_forall₂ (h.parents hn) fun hparent =>
      decide_eq_decide.mpr (h.nodesAlike hparent).effect?_eq_bottom_iff
  obtain ⟨effect, effect', heffect, heffect', halike⟩ := h.exists_effect? hn
  simp only [underflowWarning?, TypeWarning.underflow?, h.origin?_eq hn, hbottom, heffect, heffect']
  cases halike <;> cases g'.origin? n' <;> rfl

end EffectGraph.InStep

namespace Resolved.InStep

open EffectGraph

variable {s s' : Resolved}

/-- Errors are reported in step. -/
lemma finding_errors (h : s.InStep R r r' s') (b b' : Branches) (strict : Bool) :
    (s.report b r strict).errors.map TypeError.finding =
      (s'.report b' r' strict).errors.map TypeError.finding := by
  simp only [Resolved.report, List.map_map]
  exact map_eq_of_forall₂ h.stuck fun hn => h.graph.finding_explain hn strict

lemma underflowWarnings_eq (h : s.InStep R r r' s')
    (hreachable : s.graph.reachable.InStep R s'.graph.reachable) {errors errors' : List TypeError}
    (herrors : errors.map TypeError.span = errors'.map TypeError.span) :
    s.graph.underflowWarnings errors = s'.graph.underflowWarnings errors' := by
  unfold underflowWarnings
  rw [← herrors]
  exact filterMap_eq_of_forall₂ hreachable fun hn => h.graph.underflowWarning?_eq _ hn

end Resolved.InStep

end ZeroWidth
