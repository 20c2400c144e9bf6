import Mathlib.Data.Finset.Prod
import Mathlib.Data.Nat.Find
import ZeroWidth.Proofs.Saturation

/-!
# Resolution converges

Nodes that have been settled are made to wait again and those that are stuck are tried again, so the
nodes that wait do not get fewer. What gets fewer is what may still be offered: a node comes to wait
only when it gains an item as a parent, and there are no more such pairs than pairs of nodes. A pass
in which no node gains an item leaves nodes waiting that the next pass finds nothing for, and that
pass is the last. None of this needs the two entries of an edge to agree.
-/

namespace ZeroWidth

namespace EffectGraph

variable {g h : EffectGraph} {id u n : Nat}

/-- The items that lie in front of nodes that take something, with these nodes. -/
def offers (g : EffectGraph) : Finset (Nat × Nat) :=
  (Finset.range g.size ×ˢ Finset.range g.size).filter fun pair =>
    g.isPush pair.1 = true ∧ g.isPush pair.2 = false ∧ pair.1 ∈ g.parents pair.2

lemma lt_size_of_isPush (hid : g.isPush id = true) : id < g.size := by
  by_contra hle
  rw [isPush, effect?, node?_eq_none_iff.mpr (Nat.le_of_not_lt hle)] at hid
  cases hid

lemma mem_offers :
    (u, n) ∈ g.offers ↔ g.isPush u = true ∧ g.isPush n = false ∧ u ∈ g.parents n := by
  simp only [offers, Finset.mem_filter, Finset.mem_product, Finset.mem_range]
  refine ⟨And.right, fun hmem => ⟨⟨lt_size_of_isPush hmem.1, ?_⟩, hmem⟩⟩
  exact lt_size_of_mem_parents hmem.2.2

lemma card_offers_le (g : EffectGraph) : g.offers.card ≤ g.size * g.size := by
  refine (Finset.card_filter_le _ _).trans ?_
  rw [Finset.card_product, Finset.card_range]

/-- Whether a node that takes something finds it depends on what it is offered alone. -/
lemma isMatched_iff_offers (hid : g.isPush id = false) :
    Resolution.isMatched g id = true ↔ ∃ item, (item, id) ∈ g.offers ∧ g.suits item id = true := by
  have hoffers : ∀ item, g.suits item id = true → ((item, id) ∈ g.offers ↔ item ∈ g.parents id) :=
    fun item hsuits => by simp [mem_offers, isPush_of_suits hsuits, hid]
  have hparents : Resolution.isMatched g id = true ↔
      ∃ item ∈ g.parents id, g.suits item id = true := by
    unfold Resolution.isMatched
    cases hnode : g.node? id with
    | none => simp [parents, hnode]
    | some node => simp [parents, suits, effect?, hnode]
  rw [hparents]
  exact exists_congr fun item => and_congr_left fun hsuits => (hoffers item hsuits).symm

lemma SameNodes.isMatched (hgh : SameNodes g h) (hid : g.isPush id = false)
    (hoffers : h.offers = g.offers) :
    Resolution.isMatched h id = Resolution.isMatched g id := by
  have hid' : h.isPush id = false := (hgh.isPush id).trans hid
  rw [Bool.eq_iff_iff, isMatched_iff_offers hid, isMatched_iff_offers hid', hoffers]
  simp only [hgh.suits]

end EffectGraph

namespace Resolution

open EffectGraph

variable {s t r : Resolution} {id : Nat} {todo : List Nat}

/-! ### What is offered -/

/-- All that matters of what happens while a node is looked at: nothing that was offered is lost,
and a node that has come to wait is offered something new, unless there is no such node. -/
structure Gains (s t : Resolution) : Prop where
  nodes   : s.graph.SameNodes t.graph
  offers  : s.graph.offers ⊆ t.graph.offers
  pending : ∀ id ∈ t.pending.toList, id ∈ s.pending.toList ∨ (s.graph.isPush id = false ∧
    (id < s.graph.size → ∃ item, (item, id) ∈ t.graph.offers ∧ (item, id) ∉ s.graph.offers))

namespace Gains

lemma refl (s : Resolution) : Gains s s :=
  ⟨SameNodes.refl s.graph, Finset.Subset.refl _, fun _ hid => Or.inl hid⟩

lemma trans (hst : Gains s t) (htr : Gains t r) : Gains s r where
  nodes   := hst.nodes.trans htr.nodes
  offers  := hst.offers.trans htr.offers
  pending := by
    intro id hid
    rcases htr.pending id hid with hid | ⟨hpush, hnew⟩
    · rcases hst.pending id hid with hid | ⟨hpush, hnew⟩
      · exact Or.inl hid
      · refine Or.inr ⟨hpush, fun hlt => ?_⟩
        obtain ⟨item, hitem, hold⟩ := hnew hlt
        exact ⟨item, htr.offers hitem, hold⟩
    · refine Or.inr ⟨(hst.nodes.isPush id).symm.trans hpush, fun hlt => ?_⟩
      obtain ⟨item, hitem, hold⟩ := hnew (hst.nodes.size.symm ▸ hlt)
      exact ⟨item, hitem, fun hmem => hold (hst.offers hmem)⟩

lemma foldl {step : Resolution → Nat → Resolution} (hstep : ∀ s id, Gains s (step s id))
    (s : Resolution) (ids : List Nat) : Gains s (ids.foldl step s) := by
  induction ids generalizing s with
  | nil => exact refl s
  | cons id ids ih => exact (hstep s id).trans (ih (step s id))

end Gains

lemma offers_subset_link (g : EffectGraph) (parent child : Nat) :
    g.offers ⊆ (g.link parent child).offers := by
  rintro ⟨u, n⟩ hmem
  obtain ⟨hu, hn, hparent⟩ := mem_offers.mp hmem
  have hnodes := sameNodes_link g parent child
  exact mem_offers.mpr ⟨(hnodes.isPush u).trans hu, (hnodes.isPush n).trans hn,
    mem_parents_link.mpr (Or.inl hparent)⟩

/-- An edge that wakes a node offers it something new. -/
lemma gains_enter (s : Resolution) (source child : Nat) : Gains s (s.enter source child) := by
  have hnodes := sameNodes_link s.graph source child
  have hoffers := offers_subset_link s.graph source child
  unfold enter
  split
  · rename_i hwakes
    simp only [wakes, Bool.and_eq_true, Bool.not_eq_true', List.contains_eq_mem,
      decide_eq_false_iff_not] at hwakes
    obtain ⟨⟨hchild, hsource⟩, hold⟩ := hwakes
    refine ⟨hnodes, hoffers, fun id hid => ?_⟩
    rcases IdSet.mem_toList_insert.mp hid with rfl | hid
    · refine Or.inr ⟨hchild, fun hlt => ⟨source, ?_, fun hmem => hold (mem_offers.mp hmem).2.2⟩⟩
      exact mem_offers.mpr ⟨(hnodes.isPush source).trans hsource, (hnodes.isPush id).trans hchild,
        mem_parents_link.mpr (Or.inr ⟨rfl, rfl, hlt⟩)⟩
    · exact Or.inl hid
  · exact ⟨hnodes, hoffers, fun id hid => Or.inl hid⟩

lemma gains_enterAll (s : Resolution) (sources children : List Nat) :
    Gains s (s.enterAll sources children) :=
  Gains.foldl (fun s source => Gains.foldl (fun s child => gains_enter s source child) s children)
    s sources

lemma gains_advance (s : Resolution) (id : Nat) : Gains s (s.advance id) := by
  unfold advance
  split
  · exact Gains.foldl (fun s item => gains_enterAll s _ _) s _
  · exact Gains.refl s

/-! ### Passes -/

/-- Whatever waits takes something. -/
def Taking (s : Resolution) : Prop := ∀ id ∈ s.pending.toList, s.graph.isPush id = false

/-- Nothing that waits finds anything. -/
def Idle (s : Resolution) : Prop := ∀ id ∈ s.pending.toList, isMatched s.graph id = false

lemma taking_start (g : EffectGraph) : (start g).Taking := by
  intro id hid
  have hmem := (List.mem_filter.mp (IdSet.mem_toList_ofList.mp hid)).2
  exact Bool.not_eq_true' _ ▸ hmem

lemma Gains.taking (hst : Gains s t) (hs : s.Taking) : t.Taking := by
  intro id hid
  rw [hst.nodes.isPush]
  rcases hst.pending id hid with hid | ⟨hpush, -⟩
  · exact hs id hid
  · exact hpush

/-- Unless something new is offered, whatever comes to wait finds nothing. -/
lemma Gains.idle (hst : Gains s t) (htaking : s.Taking) (hs : s.Idle)
    (hoffers : t.graph.offers = s.graph.offers) : t.Idle := by
  intro id hid
  rcases hst.pending id hid with hid | ⟨hpush, hnew⟩
  · rw [hst.nodes.isMatched (htaking id hid) hoffers]
    exact hs id hid
  · rw [hst.nodes.isMatched hpush hoffers]
    by_contra hmatched
    obtain ⟨item, hitem, -⟩ :=
      (isMatched_iff_offers hpush).mp (Bool.eq_true_of_not_eq_false hmatched)
    obtain ⟨item', hnew, hold⟩ := hnew (lt_size_of_mem_parents (mem_offers.mp hitem).2.2)
    exact hold (hoffers ▸ hnew)

/-- What looking at nodes that take something comes to: if nothing new has been offered, and if all
that waited before finds nothing, then all that waits afterwards finds nothing. -/
structure Worked (s t : Resolution) : Prop where
  nodes  : s.graph.SameNodes t.graph
  offers : s.graph.offers ⊆ t.graph.offers
  taking : t.Taking
  idle   : s.Idle → t.graph.offers = s.graph.offers → t.Idle

namespace Worked

lemma refl (htaking : s.Taking) : Worked s s :=
  ⟨SameNodes.refl _, Finset.Subset.refl _, htaking, fun hs _ => hs⟩

lemma trans (hst : Worked s t) (htr : Worked t r) : Worked s r where
  nodes  := hst.nodes.trans htr.nodes
  offers := hst.offers.trans htr.offers
  taking := htr.taking
  idle   := fun hs heq => by
    -- what is offered at both ends is offered in between
    have hmiddle : t.graph.offers = s.graph.offers :=
      Finset.Subset.antisymm (heq ▸ htr.offers) hst.offers
    exact htr.idle (hst.idle hs hmiddle) (heq.trans hmiddle.symm)

lemma visit (htaking : s.Taking) (hid : s.graph.isPush id = false) (found : Bool) :
    Worked s (Resolution.visit (s, found) id).1 := by
  cases hmatched : isMatched s.graph id with
  | true =>
    rw [visit_of_isMatched hmatched]
    have hgains := gains_advance s id
    exact ⟨hgains.nodes, hgains.offers, hgains.taking htaking, hgains.idle htaking⟩
  | false =>
    rw [visit_of_not_isMatched hmatched]
    refine ⟨SameNodes.refl _, Finset.Subset.refl _, fun other hother => ?_,
      fun hs _ other hother => ?_⟩
    · rcases IdSet.mem_toList_insert.mp hother with rfl | hother
      · exact hid
      · exact htaking other hother
    · rcases IdSet.mem_toList_insert.mp hother with rfl | hother
      · exact hmatched
      · exact hs other hother

lemma visits (htaking : s.Taking) (htodo : ∀ id ∈ todo, s.graph.isPush id = false) (found : Bool) :
    Worked s (todo.foldl Resolution.visit (s, found)).1 := by
  induction todo generalizing s found with
  | nil => exact refl htaking
  | cons id todo ih =>
    have hfirst := visit htaking (htodo id List.mem_cons_self) found
    refine hfirst.trans (ih hfirst.taking (fun other hother => ?_) _)
    exact (hfirst.nodes.isPush other).trans (htodo other (List.mem_cons_of_mem _ hother))

/-- A pass begins with nothing waiting. -/
lemma pass (htaking : s.Taking) : Worked { s with pending := .empty } s.pass.1 :=
  visits (s := { s with pending := .empty }) (fun id hid => by cases hid) htaking false

end Worked

/-! ### Enough passes -/

lemma visits_of_unmatched {found : Bool} (htodo : ∀ id ∈ todo, isMatched s.graph id = false) :
    (todo.foldl visit (s, found)).2 = found := by
  induction todo generalizing s with
  | nil => rfl
  | cons id todo ih =>
    rw [List.foldl_cons, visit_of_not_isMatched (htodo id List.mem_cons_self)]
    exact ih fun other hother => htodo other (List.mem_cons_of_mem _ hother)

/-- One more pass settles a state in which nothing finds anything. -/
lemma Idle.isSome_settle (hs : s.Idle) (passes : Nat) : (s.settle (passes + 1)).isSome = true := by
  have hpass : s.pass.2 = false := visits_of_unmatched (s := { s with pending := .empty }) hs
  unfold settle
  split
  · rfl
  · split
    · rename_i heq
      rw [heq] at hpass
      cases hpass
    · rfl

/-- What a pass leaves to be settled is settled with one pass more. -/
lemma isSome_settle_succ {passes : Nat} (h : (s.pass.1.settle passes).isSome = true) :
    (s.settle (passes + 1)).isSome = true := by
  unfold settle
  split
  · rfl
  · split
    · rename_i heq
      rwa [heq] at h
    · rfl

/-- A pass in which nothing new is offered is the last but one. -/
lemma isSome_settle_of_offers (htaking : s.Taking)
    (hoffers : s.pass.1.graph.offers = s.graph.offers) (passes : Nat) :
    (s.settle (passes + 2)).isSome = true :=
  isSome_settle_succ
    (((Worked.pass htaking).idle (fun id hid => by cases hid) hoffers).isSome_settle passes)

/-- With two passes more than there are pairs still to be offered, a state is settled. -/
lemma isSome_settle {missing : Nat} (htaking : s.Taking)
    (hmissing : s.graph.size * s.graph.size ≤ s.graph.offers.card + missing) :
    (s.settle (missing + 2)).isSome = true := by
  have hpass := Worked.pass htaking
  have hsize : s.pass.1.graph.size = s.graph.size := hpass.nodes.size
  induction missing generalizing s with
  | zero =>
    -- everything is offered already
    refine isSome_settle_of_offers htaking ?_ 0
    refine (Finset.eq_of_subset_of_card_le hpass.offers ?_).symm
    exact (hsize ▸ card_offers_le s.pass.1.graph).trans hmissing
  | succ missing ih =>
    by_cases hoffers : s.pass.1.graph.offers = s.graph.offers
    · exact isSome_settle_of_offers htaking hoffers _
    · have hcard : s.graph.offers.card < s.pass.1.graph.offers.card :=
        Finset.card_lt_card (hpass.offers.ssubset_of_ne (Ne.symm hoffers))
      refine isSome_settle_succ (ih hpass.taking ?_ (Worked.pass hpass.taking)
        (Worked.pass hpass.taking).nodes.size)
      rw [hsize]
      omega

lemma settle_succ {passes : Nat} (h : s.settle passes = some t) :
    s.settle (passes + 1) = some t := by
  induction passes generalizing s with
  | zero =>
    unfold settle at h ⊢
    split at h
    · rename_i hempty
      rw [if_pos hempty, h]
    · cases h
  | succ passes ih =>
    rw [settle] at h ⊢
    split at h
    · rename_i hempty
      rw [if_pos hempty, h]
    · rename_i hempty
      rw [if_neg hempty]
      cases hpass : s.pass with
      | mk s' found =>
        rw [hpass] at h
        cases found with
        | true => exact ih h
        | false => exact h

/-- More passes than are needed change nothing. -/
lemma settle_of_le {passes more : Nat} (hle : passes ≤ more) (h : s.settle passes = some t) :
    s.settle more = some t := by
  induction hle with
  | refl => exact h
  | step _ ih => exact settle_succ ih

end Resolution

namespace EffectGraph

/-- What resolving a graph comes to does not depend on how many passes it is given. -/
lemma resolve_of_le {g : EffectGraph} {passes more : Nat} {resolved : Resolved}
    (hle : passes ≤ more) (h : g.resolve passes = .ok resolved) :
    g.resolve more = .ok resolved := by
  unfold resolve at h ⊢
  split at h
  · rename_i t ht
    rw [Resolution.settle_of_le hle ht]
    exact h
  · cases h

/-- Every graph needs some number of passes, at most two more than it has pairs of nodes. With fewer
passes resolving it is given up, and with as many or more it comes to one and the same graph and
stuck nodes, of which the errors are made. -/
theorem resolve_converges (g : EffectGraph) :
    ∃ needed ≤ g.size * g.size + 2,
      (∀ passes < needed, g.resolve passes = .error (.iterationLimit passes)) ∧
      ∃ resolved, ∀ passes ≥ needed, g.resolve passes = .ok resolved := by
  have hsettles : ((Resolution.start g).settle (g.size * g.size + 2)).isSome = true :=
    Resolution.isSome_settle (Resolution.taking_start g) (Nat.le_add_left _ _)
  have hexists : ∃ passes, ((Resolution.start g).settle passes).isSome = true := ⟨_, hsettles⟩
  refine ⟨Nat.find hexists, Nat.find_le hsettles, fun passes hlt => ?_, ?_⟩
  · have hnone := Nat.find_min hexists hlt
    rw [resolve, Option.not_isSome_iff_eq_none.mp hnone]
  · obtain ⟨t, ht⟩ := Option.isSome_iff_exists.mp (Nat.find_spec hexists)
    have hfirst : g.resolve (Nat.find hexists) =
        .ok ⟨t.graph, t.pending.toList.mergeSort t.graph.reportedBefore⟩ := by
      rw [resolve, ht]
    exact ⟨_, fun passes hle => resolve_of_le hle hfirst⟩

end EffectGraph

end ZeroWidth
