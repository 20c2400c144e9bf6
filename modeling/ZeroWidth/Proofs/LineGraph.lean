import ZeroWidth.Proofs.Convergence
import ZeroWidth.Proofs.Soundness

/-!
# Graphs in one line

If every node is linked to the next one and to no other, there is one walk through the graph. So the
one item that lies in front of a node in the resolved graph is the one on top of the stack when the
walk arrives at the node. And resolving such a graph takes three passes at most: nodes are looked at
from the front to the back, a node gains nothing but from the one right before it, and so all nodes
are closed behind the first pass. The second pass adds nothing, and the third one finds nothing.
-/

namespace ZeroWidth

/-! ### Searches along a line -/

namespace IdSet

variable {s : IdSet} {ids : List Nat} {count : Nat}

lemma toList_insertAll_of_nodup (h : (s.toList ++ ids).Nodup) :
    (s.insertAll ids).toList = s.toList ++ ids := by
  induction ids generalizing s with
  | nil => exact (List.append_nil _).symm
  | cons id ids ih =>
    have hnew : id ∉ s.toList := fun hmem =>
      (List.nodup_append.mp h).2.2 id hmem id List.mem_cons_self rfl
    have hinsert : (s.insert id).toList = s.toList ++ [id] := by rw [toList_insert, if_neg hnew]
    rw [List.append_cons, ← hinsert] at h ⊢
    exact ih h

lemma toList_ofList_of_nodup (h : ids.Nodup) : (ofList ids).toList = ids :=
  toList_insertAll_of_nodup h

/-- The ids up to some number, if none above that number is put in. -/
lemma exists_insertAll_eq_range (hs : s.toList = List.range count) (hids : ∀ id ∈ ids, id ≤ count) :
    ∃ more ≥ count, (s.insertAll ids).toList = List.range more := by
  induction ids generalizing s count with
  | nil => exact ⟨count, le_rfl, hs⟩
  | cons id ids ih =>
    have hrest : ∀ other ∈ ids, other ≤ count := fun other hother =>
      hids other (List.mem_cons_of_mem _ hother)
    rcases Nat.lt_or_eq_of_le (hids id List.mem_cons_self) with hlt | rfl
    · refine ih ?_ hrest
      rw [toList_insert, if_pos (by simpa [hs] using hlt), hs]
    · obtain ⟨more, hmore, hrange⟩ := @ih (s.insert id) (id + 1)
        (by rw [toList_insert, if_neg (by simp [hs]), hs, List.range_succ])
        fun other hother => Nat.le_succ_of_le (hrest other hother)
      exact ⟨more, (Nat.le_succ id).trans hmore, hrange⟩

end IdSet

/-- Where each id leads to the next one alone, ids are found in their order. -/
lemma exists_breadthFirst_eq_range {next : Nat → List Nat} (hnext : ∀ a, ∀ c ∈ next a, c = a + 1)
    (bound place : Nat) {found : IdSet} {count : Nat} (hfound : found.toList = List.range count) :
    ∃ more, (breadthFirst next bound place found).toList = List.range more := by
  induction bound generalizing place found count with
  | zero => exact ⟨count, hfound⟩
  | succ bound ih =>
    rw [breadthFirst]
    split
    · exact ⟨count, hfound⟩
    · rename_i id hid
      rw [IdSet.getElem?_order, hfound] at hid
      obtain ⟨hlt, hid⟩ := List.getElem?_eq_some_iff.mp hid
      rw [List.getElem_range] at hid
      subst hid
      rw [List.length_range] at hlt
      obtain ⟨more, -, hrange⟩ := IdSet.exists_insertAll_eq_range hfound fun c hc => by
        rw [hnext place c hc]
        exact hlt
      exact ih (place + 1) hrange

namespace EffectGraph

/-- The nodes stand in one line behind the root, one for each item. -/
structure Lined (g : EffectGraph) (items : List (Effect × Origin)) : Prop where
  mirrored : g.Mirrored
  root     : g.root = 0
  size     : g.size = items.length + 1
  bottom   : g.effect? g.root = some (.push .never)
  nowhere  : g.origin? g.root = none
  effect   : ∀ {i item}, items[i]? = some item → g.effect? (i + 1) = some item.1
  origin   : ∀ {i item}, items[i]? = some item → g.origin? (i + 1) = some item.2
  edge     : ∀ {a c}, g.Edge a c ↔ c = a + 1 ∧ c < g.size

variable {g h : EffectGraph} {items : List (Effect × Origin)} {start u n : Nat}
  {floor stack stack' nodes stuck : List Nat}

namespace Lined

lemma isPush_root (hg : g.Lined items) : g.isPush g.root = true := by
  simp [isPush, hg.bottom, Effect.isPush]

lemma reached_iff (hg : g.Lined items) : g.Reached n ↔ n < g.size := by
  constructor
  · intro hreached
    rcases Relation.ReflTransGen.cases_tail hreached with rfl | ⟨parent, -, hedge⟩
    · exact lt_size_of_effect? hg.bottom
    · exact (hg.edge.mp hedge).2
  · intro hlt
    induction n with
    | zero => exact hg.root ▸ .refl
    | succ n ih => exact (ih (Nat.lt_of_succ_lt hlt)).tail (hg.edge.mpr ⟨rfl, hlt⟩)

/-! ### The one walk -/

lemma lt_of_arrives (hg : g.Lined items) (h : g.Arrives start floor n stack) : start < n := by
  induction h with
  | edge hedge =>
    rw [(hg.edge.mp hedge).1]
    exact Nat.lt_succ_self start
  | step _ _ _ hedge ih =>
    rw [(hg.edge.mp hedge).1]
    exact Nat.lt_succ_of_lt ih

/-- There is one way to a node, and one stack to get there with. -/
lemma arrives_unique (hg : g.Lined items) (h : g.Arrives start floor n stack)
    (h' : g.Arrives start floor n stack') : stack = stack' := by
  induction h generalizing stack' with
  | edge hedge =>
    cases h' with
    | edge _ => rfl
    | step hx _ _ hedge' =>
      have hlt := hg.lt_of_arrives hx
      have heq := (hg.edge.mp hedge).1
      have heq' := (hg.edge.mp hedge').1
      omega
  | step hx hperform _ hedge ih =>
    cases h' with
    | edge hedge' =>
      have hlt := hg.lt_of_arrives hx
      have heq := (hg.edge.mp hedge).1
      have heq' := (hg.edge.mp hedge').1
      omega
    | step hx' hperform' _ hedge' =>
      have heq := (hg.edge.mp hedge).1
      obtain rfl := Nat.succ.inj (heq.symm.trans (hg.edge.mp hedge').1)
      rw [ih hx', hperform'] at hperform
      exact (Option.some.inj hperform).symm

/-- A walk comes by all nodes in between. -/
lemma exists_arrives_of_lt (hg : g.Lined items) (h : g.Arrives start floor n stack)
    (hstart : start < u) (hu : u < n) : ∃ stack, g.Arrives start floor u stack := by
  induction h with
  | edge hedge =>
    have heq := (hg.edge.mp hedge).1
    omega
  | @step x _ _ _ hx _ _ hedge ih =>
    have heq := (hg.edge.mp hedge).1
    by_cases hux : u = x
    · exact ⟨_, hux ▸ hx⟩
    · exact ih (by omega)

end Lined

lemma Arrives.floor_le (h : g.Arrives start floor n stack) : floor.length ≤ stack.length := by
  cases h with
  | edge _ => exact le_rfl
  | step _ _ hfloor _ => exact hfloor

/-- The item that lies in front of a node in the resolved graph is the one on top of the stack. -/
lemma Saturated.head?_eq_of_edge (hsat : g.Saturated h stuck) (hg : g.Lined items)
    (harrives : g.Arrives g.root [g.root] n nodes) (hpush : g.isPush u = true)
    (hedge : h.Edge u n) : nodes.head? = some u := by
  have hwalk : g.Arrives u [u] n [u] := by
    have hwalk := hsat.least.2 ⟨fun _ _ hedge => .edge hedge, closedUnder_arrives g⟩ u n hedge
    rwa [floor_of_isPush hpush] at hwalk
  rw [hg.root] at harrives
  rcases Nat.eq_zero_or_pos u with rfl | hpos
  · rw [hg.arrives_unique harrives hwalk]
    rfl
  · obtain ⟨stack, hu⟩ := hg.exists_arrives_of_lt harrives hpos (hg.lt_of_arrives hwalk)
    -- on top of what the walk has brought to `u`, the walk from `u` on goes to the node
    have hover : g.Arrives 0 [0] n ([u] ++ stack) :=
      hu.append (perform_push hpush stack) hu.floor_le hwalk
    rw [hg.arrives_unique harrives hover]
    rfl

end EffectGraph

namespace Resolution

open EffectGraph

/-! ### One sweep through the line -/

/-- The node lets nothing through that is not linked already. -/
def Closed (g : EffectGraph) (id : Nat) : Prop := ∀ u n, g.Passes g.Edge id u n → g.Edge u n

variable {g : EffectGraph} {s t : Resolution} {id q : Nat} {todo : List Nat}

lemma closed_of_not_isMatched (hm : g.Mirrored) (hmatched : isMatched g id = false) :
    Closed g id := by
  intro u n hpass
  rw [(isMatched_iff hm).mpr hpass.exists_suits] at hmatched
  cases hmatched

/-- A closed node stays closed while another one is looked at, unless it is woken. -/
lemma Closed.of_grows (hst : Grows s t (s.graph.Passes s.graph.Edge id))
    (hclosed : Closed s.graph q) (hq : s.graph.isPush q = false)
    (hwoken : ¬ Woken s.graph (s.graph.Passes s.graph.Edge id) q) : Closed t.graph q := by
  by_cases hsuited : ∃ item, s.graph.Edge item q ∧ s.graph.suits item q = true
  · exact (Settled.of_grows hst ⟨hsuited, hclosed⟩ hq hwoken).closed
  · refine closed_of_not_isMatched hst.mirrored (Bool.eq_false_iff.mpr fun hmatched => hsuited ?_)
    obtain ⟨item, hitem, hsuits⟩ := (isMatched_iff hst.mirrored).mp hmatched
    rw [hst.nodes.suits] at hsuits
    exact ⟨item, edge_of_not_woken hst hq hwoken hitem hsuits, hsuits⟩

/-- What holds of a line while the nodes `todo` are still to be looked at, from the front to the
back: only the nodes up to these have gained parents, and those before them are closed. -/
structure Sweeping (g : EffectGraph) (s : Resolution) (todo : List Nat) : Prop where
  nodes    : g.SameNodes s.graph
  mirrored : s.graph.Mirrored
  sorted   : todo.Pairwise (· < ·)
  taking   : ∀ id ∈ todo, g.isPush id = false
  edge     : ∀ {a c}, s.graph.Edge a c → a < c ∧ (c = a + 1 ∨ ∀ id ∈ todo, c ≤ id)
  before   : ∀ {id}, id < g.size → g.isPush id = false → id ∉ todo → ∀ later ∈ todo, id < later
  closed   : ∀ {id}, id < g.size → g.isPush id = false → id ∉ todo → Closed s.graph id

namespace Sweeping

/-- What the next node lets through comes from before it and goes to the node behind it. -/
lemma passes (h : Sweeping g s (id :: todo)) {u n : Nat}
    (hpass : s.graph.Passes s.graph.Edge id u n) : u < id ∧ n = id + 1 := by
  constructor
  · cases hpass with
    | pop _ hitem _ hunder _ => exact (h.edge hunder).1.trans (h.edge hitem).1
    | assert _ hitem _ _ => exact (h.edge hitem).1
  · obtain ⟨hlt, hnext | hle⟩ := h.edge hpass.child
    · exact hnext
    · have := hle id List.mem_cons_self
      omega

lemma not_woken (h : Sweeping g s (id :: todo)) (hq : q ≤ id) :
    ¬ Woken s.graph (s.graph.Passes s.graph.Edge id) q := by
  rintro ⟨-, item, -, hpass, -⟩
  have := (h.passes hpass).2
  omega

lemma lt_of_mem (h : Sweeping g s (id :: todo)) : ∀ later ∈ todo, id < later :=
  (List.pairwise_cons.mp h.sorted).1

lemma before_tail (h : Sweeping g s (id :: todo)) {other : Nat} (hlt : other < g.size)
    (hpush : g.isPush other = false) (hother : other ∉ todo) : ∀ later ∈ todo, other < later := by
  by_cases heq : other = id
  · exact heq ▸ h.lt_of_mem
  · have hbefore := h.before hlt hpush (List.not_mem_cons_of_ne_of_not_mem heq hother)
    exact fun later hlater => hbefore later (List.mem_cons_of_mem _ hlater)

lemma wait (h : Sweeping g s (id :: todo)) (hmatched : isMatched s.graph id = false) :
    Sweeping g { s with pending := s.pending.insert id } todo where
  nodes    := h.nodes
  mirrored := h.mirrored
  sorted   := (List.pairwise_cons.mp h.sorted).2
  taking   := fun other hother => h.taking other (List.mem_cons_of_mem _ hother)
  edge     := fun hedge =>
    (h.edge hedge).imp_right fun hnext => hnext.imp_right fun hle later hlater =>
      hle later (List.mem_cons_of_mem _ hlater)
  before   := h.before_tail
  closed   := by
    intro other hlt hpush hother
    by_cases heq : other = id
    · subst heq
      exact closed_of_not_isMatched h.mirrored hmatched
    · exact h.closed hlt hpush (List.not_mem_cons_of_ne_of_not_mem heq hother)

lemma advance (h : Sweeping g s (id :: todo)) (hmatched : isMatched s.graph id = true) :
    Sweeping g (s.advance id) todo := by
  have hpush' : ∀ {x}, g.isPush x = false → s.graph.isPush x = false := fun hx =>
    (h.nodes.isPush _).trans hx
  have hid := hpush' (h.taking id List.mem_cons_self)
  have hst := grows_advance h.mirrored hid
  constructor
  case nodes => exact h.nodes.trans hst.nodes
  case mirrored => exact hst.mirrored
  case sorted => exact (List.pairwise_cons.mp h.sorted).2
  case taking => exact fun other hother => h.taking other (List.mem_cons_of_mem _ hother)
  case before => exact h.before_tail
  case edge =>
    intro a c hedge
    rcases (hst.edge a c).mp hedge with hold | hnew
    · exact (h.edge hold).imp_right fun hnext => hnext.imp_right fun hle later hlater =>
        hle later (List.mem_cons_of_mem _ hlater)
    · obtain ⟨ha, rfl⟩ := h.passes hnew
      exact ⟨Nat.lt_succ_of_lt ha, Or.inr h.lt_of_mem⟩
  case closed =>
    intro other hlt hpush hother
    by_cases heq : other = id
    · subst heq
      exact (settled_of_grows hst hid ((isMatched_iff h.mirrored).mp hmatched)
        (h.not_woken le_rfl)).closed
    · have hnew := List.not_mem_cons_of_ne_of_not_mem heq hother
      have hbefore := h.before hlt hpush hnew id List.mem_cons_self
      exact (h.closed hlt hpush hnew).of_grows hst (hpush' hpush) (h.not_woken hbefore.le)

lemma visits (h : Sweeping g s todo) (found : Bool) :
    Sweeping g (todo.foldl visit (s, found)).1 [] := by
  induction todo generalizing s found with
  | nil => exact h
  | cons id todo ih =>
    rw [List.foldl_cons]
    cases hmatched : isMatched s.graph id with
    | true =>
      rw [visit_of_isMatched hmatched]
      exact ih (h.advance hmatched) true
    | false =>
      rw [visit_of_not_isMatched hmatched]
      exact ih (h.wait hmatched) found

end Sweeping

/-- Looking at closed nodes adds no edge. -/
lemma edge_visits_of_closed (hm : s.graph.Mirrored)
    (htodo : ∀ id ∈ todo, s.graph.isPush id = false ∧ Closed s.graph id) (found : Bool) :
    s.graph.SameNodes (todo.foldl visit (s, found)).1.graph ∧
      (todo.foldl visit (s, found)).1.graph.Mirrored ∧
      (todo.foldl visit (s, found)).1.graph.Edge = s.graph.Edge := by
  induction todo generalizing s found with
  | nil => exact ⟨SameNodes.refl _, hm, rfl⟩
  | cons id todo ih =>
    have hrest : ∀ other ∈ todo, s.graph.isPush other = false ∧ Closed s.graph other :=
      fun other hother => htodo other (List.mem_cons_of_mem _ hother)
    rw [List.foldl_cons]
    cases hmatched : isMatched s.graph id with
    | false =>
      rw [visit_of_not_isMatched hmatched]
      exact @ih { s with pending := s.pending.insert id } hm hrest found
    | true =>
      rw [visit_of_isMatched hmatched]
      obtain ⟨hid, hclosed⟩ := htodo id List.mem_cons_self
      have hst := grows_advance hm hid
      have hedge : (s.advance id).graph.Edge = s.graph.Edge := by
        funext a c
        exact propext ((hst.edge a c).trans (or_iff_left_of_imp (hclosed a c)))
      obtain ⟨hnodes, hmirrored, hedges⟩ := ih hst.mirrored (fun other hother => by
        obtain ⟨hpush, hother⟩ := hrest other hother
        refine ⟨(hst.nodes.isPush other).trans hpush, fun u n hpass => ?_⟩
        rw [hedge] at hpass ⊢
        exact hother u n (hst.nodes.symm.passes hpass)) true
      exact ⟨hst.nodes.trans hnodes, hmirrored, hedges.trans hedge⟩

lemma offers_eq_of_edge {h : EffectGraph} (hgh : g.SameNodes h) (hg : g.Mirrored) (hh : h.Mirrored)
    (hedge : h.Edge = g.Edge) : h.offers = g.offers := by
  ext ⟨u, n⟩
  rw [mem_offers, mem_offers, hgh.isPush, hgh.isPush, ← hg.edge_iff, ← hh.edge_iff, hedge]

/-- Two more passes settle a state in which all that waits is closed. -/
lemma isSome_settle_of_closed (hm : s.graph.Mirrored) (htaking : s.Taking)
    (hclosed : ∀ id ∈ s.pending.toList, Closed s.graph id) : (s.settle 2).isSome = true := by
  obtain ⟨hnodes, hmirrored, hedge⟩ := @edge_visits_of_closed { s with pending := .empty }
    s.pending.toList hm (fun id hid => ⟨htaking id hid, hclosed id hid⟩) false
  exact isSome_settle_of_offers htaking (offers_eq_of_edge hnodes hm hmirrored hedge) 0

/-- The nodes that take something wait in their order. -/
lemma sorted_start {items : List (Effect × Origin)} (hg : g.Lined items) :
    (start g).pending.toList.Pairwise (· < ·) := by
  obtain ⟨count, hrange⟩ := @exists_breadthFirst_eq_range g.children
    (fun a c hc => (hg.edge.mp hc).1) g.size 0 (IdSet.empty.insert 0) 1 rfl
  have hsorted : (g.reachable.toList.filter fun id => !g.isPush id).Pairwise (· < ·) := by
    rw [reachable, hg.root, hrange]
    exact List.pairwise_lt_range.filter _
  rw [start, IdSet.toList_ofList_of_nodup (hsorted.imp fun hlt => Nat.ne_of_lt hlt)]
  exact hsorted

lemma sweeping_start {items : List (Effect × Origin)} (hg : g.Lined items) :
    Sweeping g { start g with pending := .empty } (start g).pending.toList := by
  have hmem : ∀ {id}, id < g.size → g.isPush id = false → id ∈ (start g).pending.toList := by
    intro id hlt hpush
    simp [start, IdSet.mem_toList_ofList, mem_reachable_iff hg.mirrored, hg.reached_iff, hlt, hpush]
  refine ⟨SameNodes.refl g, hg.mirrored, sorted_start hg, taking_start g, fun hedge => ?_,
    fun hlt hpush hid => absurd (hmem hlt hpush) hid,
    fun hlt hpush hid => absurd (hmem hlt hpush) hid⟩
  have hnext := (hg.edge.mp hedge).1
  exact ⟨hnext ▸ Nat.lt_succ_self _, Or.inl hnext⟩

end Resolution

namespace EffectGraph

/-- Three passes resolve a graph in one line. -/
lemma Lined.exists_resolve {g : EffectGraph} {items : List (Effect × Origin)} (hg : g.Lined items)
    {passes : Nat} (hpasses : 3 ≤ passes) : ∃ resolved, g.resolve passes = .ok resolved := by
  have hswept : Resolution.Sweeping g (Resolution.start g).pass.1 [] :=
    (Resolution.sweeping_start hg).visits false
  have htaking := (Resolution.Worked.pass (Resolution.taking_start g)).taking
  have hsettles : ((Resolution.start g).settle 3).isSome = true := by
    refine Resolution.isSome_settle_succ
      (Resolution.isSome_settle_of_closed hswept.mirrored htaking fun id hid => ?_)
    have hpush := (hswept.nodes.isPush id).symm.trans (htaking id hid)
    rcases Nat.lt_or_ge id g.size with hlt | hge
    · exact hswept.closed hlt hpush List.not_mem_nil
    · intro u n hpass
      have hlt := hswept.mirrored.lt_size_left hpass.child
      exact absurd (hswept.nodes.size ▸ hlt) (Nat.not_lt.mpr hge)
  obtain ⟨t, ht⟩ := Option.isSome_iff_exists.mp hsettles
  have hresolve : g.resolve 3 =
      .ok ⟨t.graph, t.pending.toList.mergeSort t.graph.reportedBefore⟩ := by
    rw [resolve, ht]
  exact ⟨_, resolve_of_le hpasses hresolve⟩

end EffectGraph

end ZeroWidth
