import ZeroWidth.Proofs.Stitching

/-!
# All edges of a built graph

While a graph is built, a node is linked to the one behind it and to no other, and only within the
chain that is being made. So the fragments stand one behind the other, and whatever else there is of
edges comes of stitching: an edge that does not go from a node of a fragment to the next one goes
from the latest effect to the first node of a branch that control comes to.
-/

namespace ZeroWidth

/-- The first and the last node. -/
def Fragment.row (f : Fragment) : Nat × Nat := (f.head, f.tail)

namespace EffectGraph

variable {g h : EffectGraph} {b : Branches} {span span' : Option (Nat × Nat)} {strict : Bool}
  {r r' : Registry} {id id' n : Nat}

/-! ### Rows of nodes -/

/-- The first and the last nodes of the fragments, and of the chain that is being made. -/
def rows (g : EffectGraph) (span : Option (Nat × Nat)) : List (Nat × Nat) :=
  g.fragments.map Fragment.row ++ span.toList

/-- The rows stand one behind the other, and all edges are within them. -/
structure InRows (g : EffectGraph) (span : Option (Nat × Nat)) : Prop where
  ordered : ((g.root, g.root) :: g.rows span).Pairwise fun row row' => row.2 < row'.1
  lt      : ∀ row ∈ (g.root, g.root) :: g.rows span, row.1 ≤ row.2 ∧ row.2 < g.size
  last    : ∀ row ∈ span, row.2 + 1 = g.size
  edge    : ∀ {a c}, g.Edge a c → c = a + 1 ∧ ∃ row ∈ g.rows span, row.1 ≤ a ∧ c ≤ row.2

lemma inRows_initial : initial.InRows none := by
  have hrows : initial.rows none = [] := rfl
  refine ⟨?_, ?_, by simp, fun {a c} hedge => ?_⟩
  · rw [hrows]
    exact List.pairwise_singleton _ _
  · rw [hrows]
    decide
  · exact absurd hedge (not_edge_initial a c)

namespace InRows

/-- What one more node does: it stands at the end, in the row that is being made or in a new one. -/
lemma exists_extend (hg : g.InRows span) (effect : Effect) (origin : Origin) :
    ∃ head, (g.extend span effect origin).2 = some (head, g.size) ∧ head ≤ g.size ∧
      (∀ row ∈ (g.root, g.root) :: g.fragments.map Fragment.row, row.2 < head) ∧
      (∀ row ∈ span, row.1 = head) ∧
      ∀ {a c}, (g.extend span effect origin).1.Edge a c →
        g.Edge a c ∨ (head ≤ a ∧ c = a + 1 ∧ c = g.size) := by
  cases span with
  | none =>
    refine ⟨g.size, rfl, le_rfl, fun row hrow => ?_, by simp, fun hedge => ?_⟩
    · exact (hg.lt row (by simpa [rows] using hrow)).2
    · exact Or.inl (edge_addNode.mp hedge)
  | some ends =>
    obtain ⟨head, tail⟩ := ends
    have hlast : tail + 1 = g.size := hg.last _ rfl
    have hrow := hg.lt (head, tail) (by simp [rows])
    have hordered := hg.ordered
    rw [rows, ← List.cons_append, List.pairwise_append] at hordered
    refine ⟨head, rfl, by omega, fun row hrow => ?_, by simp, fun {a c} hedge => ?_⟩
    · exact hordered.2.2 row hrow (head, tail) (by simp)
    · have hlt : tail < (g.addNode effect (some origin)).2.size := by
        rw [size_addNode]
        omega
      rcases (edge_link hlt).mp hedge with hedge | ⟨rfl, hc⟩
      · exact Or.inl (edge_addNode.mp hedge)
      · have hc : c = g.size := hc
        exact Or.inr ⟨hrow.1, by omega, hc⟩

lemma extend (hg : g.InRows span) (effect : Effect) (origin : Origin) :
    (g.extend span effect origin).1.InRows (g.extend span effect origin).2 := by
  obtain ⟨head, hspan, hle, hfront, hhead, hedges⟩ := hg.exists_extend effect origin
  have hsize := size_extend g span effect origin
  have hordered := hg.ordered
  rw [rows, ← List.cons_append] at hordered
  rw [hspan]
  constructor
  case ordered =>
    rw [rows, root_extend, fragments_extend, ← List.cons_append]
    refine List.pairwise_append.mpr ⟨(List.pairwise_append.mp hordered).1,
      List.pairwise_singleton _ _, fun row hrow row' hrow' => ?_⟩
    rw [List.mem_singleton.mp hrow']
    exact hfront row hrow
  case lt =>
    intro row hrow
    rw [rows, root_extend, fragments_extend, ← List.cons_append] at hrow
    rw [hsize]
    rcases List.mem_append.mp hrow with hrow | hrow
    · have hlt := hg.lt row (by rw [rows, ← List.cons_append]; exact List.mem_append_left _ hrow)
      exact ⟨hlt.1, Nat.lt_succ_of_lt hlt.2⟩
    · rw [List.mem_singleton.mp hrow]
      exact ⟨hle, Nat.lt_succ_self _⟩
  case last =>
    rintro row ⟨rfl⟩
    exact hsize.symm
  case edge =>
    intro a c hedge
    have hnew : (head, g.size) ∈ (g.extend span effect origin).1.rows (some (head, g.size)) := by
      simp [rows]
    rcases hedges hedge with hedge | ⟨hle, hc, hc'⟩
    · obtain ⟨hc, row, hrow, hle, hle'⟩ := hg.edge hedge
      refine ⟨hc, ?_⟩
      rcases List.mem_append.mp hrow with hrow | hrow
      · rw [← fragments_extend g span effect origin] at hrow
        exact ⟨row, List.mem_append_left _ hrow, hle, hle'⟩
      · have hrow := Option.mem_toList.mp hrow
        have hlast := hg.last row hrow
        exact ⟨_, hnew, hhead row hrow ▸ hle, by omega⟩
    · exact ⟨hc, _, hnew, hle, hc'.le⟩

lemma foldl_extend (hg : g.InRows span) (effects : List Effect) (origin : Origin) :
    let result := effects.foldl (fun (g, span) effect => g.extend span effect origin) (g, span)
    result.1.InRows result.2 := by
  induction effects generalizing g span with
  | nil => exact hg
  | cons effect effects ih => exact ih (hg.extend effect origin)

lemma addOperations {ops : List Operation} (hg : g.InRows span)
    (hadd : addOperations strict g r span ops = .ok (h, r', span')) : h.InRows span' := by
  induction ops generalizing g r span with
  | nil =>
    cases hadd
    exact hg
  | cons op ops ih =>
    obtain ⟨⟨effects, r₁⟩, -, hadd⟩ := exists_of_bind_eq_ok hadd
    exact ih (hg.foldl_extend effects op.origin) hadd

/-- A row that is finished becomes a fragment. -/
lemma finish {head tail : Nat} (hg : g.InRows (some (head, tail))) (id : Nat) :
    { g with fragments := g.fragments ++ [⟨id, head, tail⟩] : EffectGraph }.InRows none := by
  have hrows : rows { g with fragments := g.fragments ++ [⟨id, head, tail⟩] } none =
      g.rows (some (head, tail)) := by simp [rows, Fragment.row]
  refine ⟨by rw [hrows]; exact hg.ordered, by rw [hrows]; exact hg.lt, by simp, fun hedge => ?_⟩
  rw [hrows]
  exact hg.edge hedge

lemma addBranches {branches : List (Nat × Branch)} (hg : g.InRows none)
    (hadd : addBranches strict g r branches = .ok (h, r')) : h.InRows none := by
  induction branches generalizing g r with
  | nil =>
    cases hadd
    exact hg
  | cons entry branches ih =>
    obtain ⟨⟨g₁, r₁, span⟩, hops, hadd⟩ := exists_of_bind_eq_ok hadd
    have hg₁ := hg.addOperations hops
    cases span with
    | none => exact ih hg₁ hadd
    | some ends => exact ih (hg₁.finish entry.1) hadd

lemma fragment_lt (hg : g.InRows none) (f : Fragment) (hf : f ∈ g.fragments) :
    f.head < g.size ∧ f.tail < g.size := by
  have hrow : f.row ∈ g.rows none := List.mem_append_left _ (List.mem_map_of_mem hf)
  have hlt := hg.lt f.row (List.mem_cons_of_mem _ hrow)
  exact ⟨hlt.1.trans_lt hlt.2, hlt.2⟩

end InRows

/-! ### Branches with fragments -/

/-- Branches get their fragments in their order, at most one each. -/
lemma exists_branches_addBranches {branches : List (Nat × Branch)}
    (hadd : addBranches strict g r branches = .ok (h, r')) :
    ∃ ids, h.fragments.map Fragment.branch = g.fragments.map Fragment.branch ++ ids ∧
      ids.Sublist (branches.map Prod.fst) := by
  induction branches generalizing g r with
  | nil =>
    cases hadd
    exact ⟨[], by simp, List.Sublist.refl _⟩
  | cons entry branches ih =>
    obtain ⟨⟨g₁, r₁, span⟩, hops, hadd⟩ := exists_of_bind_eq_ok hadd
    have hempty : g.Spans none [] := rfl
    obtain ⟨-, -, hfragments⟩ := spans_addOperations hempty hops (.refl _)
    obtain ⟨ids, hids, hsublist⟩ := ih hadd
    cases span with
    | none =>
      exact ⟨ids, hfragments ▸ hids, hsublist.cons _⟩
    | some ends =>
      refine ⟨entry.1 :: ids, ?_, hsublist.cons_cons _⟩
      rw [hids]
      simp [hfragments]

lemma nodup_enumerate {α : Type} (a : Arena α) : (a.enumerate.map Prod.fst).Nodup := by
  have hids : a.enumerate.map Prod.fst = List.range' 0 a.toList.length := by
    rw [Arena.enumerate, List.map_map, ← List.zipIdx_map_snd]
    rfl
  rw [hids]
  exact List.nodup_range'

lemma fragment?_of_mem (hnodup : (g.fragments.map Fragment.branch).Nodup) {f : Fragment}
    (hf : f ∈ g.fragments) : g.fragment? f.branch = some f := by
  cases hfound : g.fragment? f.branch with
  | none =>
    rw [fragment?, List.find?_eq_none] at hfound
    exact absurd (decide_eq_true rfl) (hfound f hf)
  | some f' =>
    obtain ⟨hf', hbranch⟩ := mem_of_fragment? hfound
    rw [List.inj_on_of_nodup_map hnodup hf' hf hbranch]

/-- The node belongs to the branch. -/
def Within (g : EffectGraph) (id n : Nat) : Prop :=
  ∃ f, g.fragment? id = some f ∧ f.head ≤ n ∧ n ≤ f.tail

/-! ### Edges between fragments -/

lemma Feeds.leads {x : Nat} (hx : g.Feeds b x id) (hleads : Leads (g.through b) id id') :
    g.Feeds b x id' := by
  induction hleads with
  | refl => exact hx
  | @tail id id' _ hnext ih =>
    unfold EffectGraph.through at hnext
    split at hnext
    · cases hnext
    · rename_i hnone
      exact ih.through (Option.not_isSome_iff_eq_none.mp hnone) hnext

/-- Every link goes from the latest effect to the first one of a branch that control comes to. -/
lemma exists_feeds_of_mem_links (hb : b.Bounded)
    (hfragment : ∀ f ∈ g.fragments, g.fragment? f.branch = some f) {link : Nat × List Nat}
    (hlink : link ∈ g.links b) {head : Nat} (hhead : head ∈ link.2) :
    ∃ id f, g.Feeds b link.1 id ∧ g.fragment? id = some f ∧ head = f.head := by
  have hheads : ∀ {x start}, g.Feeds b x start → start < b.size →
      head ∈ g.heads b.flow b.size start →
      ∃ id f, g.Feeds b x id ∧ g.fragment? id = some f ∧ head = f.head :=
    fun {x start} hx hstart hhead => by
      obtain ⟨id, f, hleads, hf, rfl⟩ := (mem_heads hb hstart).mp hhead
      exact ⟨id, f, hx.leads hleads, hf, rfl⟩
  rcases List.mem_append.mp hlink with hlink | hlink
  · obtain ⟨f, hf, hlink⟩ := List.mem_flatMap.mp hlink
    split at hlink
    · rename_i hreached
      obtain ⟨next, hnext, rfl⟩ := List.mem_map.mp hlink
      have hlive := hb.contains_reachable.mp hreached
      exact hheads (.leave (hfragment f hf) hlive hnext) (hb.flow_lt hnext) hhead
    · cases hlink
  · rw [List.mem_singleton.mp hlink] at hhead ⊢
    exact hheads .entry hb.entry_lt hhead

/-- The fragments of a graph share no node, and every edge either goes to the next node of one of
them or leads from the latest effect to a branch that control comes to. -/
structure Sewn (g : EffectGraph) (b : Branches) : Prop where
  ordered : ((g.root, g.root) :: g.fragments.map Fragment.row).Pairwise
    fun row row' => row.2 < row'.1
  edge    : ∀ {a c}, g.Edge a c → (∃ id, g.Within id a ∧ g.Within id c ∧ c = a + 1) ∨
    ∃ id f, g.Feeds b a id ∧ g.fragment? id = some f ∧ c = f.head

theorem sewn_of_build (hb : b.Bounded) (hbuild : build b strict = .ok (g, r)) : g.Sewn b := by
  obtain ⟨⟨g₀, r₀⟩, hadd, hbuild⟩ := exists_of_bind_eq_ok hbuild
  cases hbuild
  have hrows := inRows_initial.addBranches hadd
  obtain ⟨ids, hids, hsublist⟩ := exists_branches_addBranches hadd
  have hfragment : ∀ f ∈ g₀.fragments, g₀.fragment? f.branch = some f := fun f hf => by
    refine fragment?_of_mem ?_ hf
    rw [hids]
    exact hsublist.nodup (nodup_enumerate b.arena)
  have hsame : ∀ id, (g₀.stitch b).fragment? id = g₀.fragment? id := fun id => by
    rw [fragment?, fragments_stitch, fragment?]
  constructor
  · rw [root_stitch, fragments_stitch]
    simpa [rows] using hrows.ordered
  · intro a c hedge
    have hlinks := links_lt hrows.fragment_lt (hrows.lt _ List.mem_cons_self).2 b
    rw [stitch_eq_linkEach, edge_linkEach fun link hlink => (hlinks link hlink).1] at hedge
    rcases hedge with hedge | ⟨link, hlink, rfl, hc⟩
    · obtain ⟨rfl, row, hrow, hle, hle'⟩ := hrows.edge hedge
      obtain ⟨f, hf, rfl⟩ := List.mem_map.mp (by simpa [rows] using hrow)
      have hf := (hsame f.branch).trans (hfragment f hf)
      have ha : (g₀.stitch b).Within f.branch a := ⟨f, hf, hle, (Nat.le_succ a).trans hle'⟩
      have hc : (g₀.stitch b).Within f.branch (a + 1) := ⟨f, hf, Nat.le_succ_of_le hle, hle'⟩
      exact Or.inl ⟨f.branch, ha, hc, rfl⟩
    · obtain ⟨id, f, hfeeds, hf, hc⟩ := exists_feeds_of_mem_links hb hfragment hlink hc
      exact Or.inr ⟨id, f, hfeeds.congr (root_stitch g₀ b) hsame, (hsame id).trans hf, hc⟩

namespace Sewn

lemma not_within_root (hg : g.Sewn b) : ¬ g.Within id g.root := by
  rintro ⟨f, hf, hle, -⟩
  have hlt := (List.pairwise_cons.mp hg.ordered).1 f.row
    (List.mem_map_of_mem (mem_of_fragment? hf).1)
  exact Nat.lt_irrefl _ (hlt.trans_le hle)

/-- A node belongs to one branch at most. -/
lemma eq_of_within (hg : g.Sewn b) (h : g.Within id n) (h' : g.Within id' n) : id = id' := by
  obtain ⟨f, hf, hle, hle'⟩ := h
  obtain ⟨f', hf', hle₁, hle₁'⟩ := h'
  obtain ⟨hmem, rfl⟩ := mem_of_fragment? hf
  obtain ⟨hmem', rfl⟩ := mem_of_fragment? hf'
  by_contra hne
  have hordered := List.pairwise_map.mp (List.pairwise_cons.mp hg.ordered).2
  have hapart := List.Pairwise.forall_of_forall_of_flip
    (R := fun f f' : Fragment => f ≠ f' → f.tail < f'.head ∨ f'.tail < f.head)
    (fun _ _ hne => absurd rfl hne) (hordered.imp fun hlt _ => Or.inl hlt)
    (hordered.imp fun hlt _ => Or.inr hlt) hmem hmem' fun heq => hne (congrArg Fragment.branch heq)
  omega

end Sewn

end EffectGraph

end ZeroWidth
