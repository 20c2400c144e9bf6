import ZeroWidth.Proofs.Liveness
import ZeroWidth.Proofs.SingleBranch

/-!
# The numbers of nodes

Behind the root, the nodes of a built graph are the effects of its branches, in the order of the
branches and, within a branch, of its effects. So the number of a node can be told from the branch
and the place there, and a graph is known from the effects of its branches and the flow of control:
there is an edge to an effect from whatever may have been the latest effect before it.
-/

namespace ZeroWidth

namespace EffectGraph

variable {g h : EffectGraph} {b : Branches} {strict : Bool} {r r' : Registry}
  {items : Nat → List (Effect × Origin)} {id id' k k' n x count : Nat}

/-! ### Branches behind each other -/

/-- The number of the first node of a branch: the root and what the branches before it come to
stand in front. -/
def firstNode (items : Nat → List (Effect × Origin)) : Nat → Nat
  | 0      => 1
  | id + 1 => firstNode items id + (items id).length

/-- The number of the node of an effect of a branch. -/
def nodeAt (items : Nat → List (Effect × Origin)) (id k : Nat) : Nat := firstNode items id + k

lemma firstNode_le (h : id < id') :
    firstNode items id + (items id).length ≤ firstNode items id' := by
  induction id' with
  | zero => cases h
  | succ id' ih =>
    rw [firstNode]
    rcases Nat.lt_succ_iff_lt_or_eq.mp h with h | rfl
    · exact (ih h).trans (Nat.le_add_right ..)
    · exact le_rfl

lemma root_lt_nodeAt (items : Nat → List (Effect × Origin)) (id k : Nat) :
    0 < nodeAt items id k := by
  induction id with
  | zero => exact Nat.lt_of_lt_of_le Nat.zero_lt_one (Nat.le_add_right ..)
  | succ id ih =>
    rw [nodeAt] at ih ⊢
    rw [firstNode]
    omega

/-- Nodes are in the order of their branches, and within a branch in that of its effects. -/
lemma nodeAt_lt_nodeAt (h : id < id' ∨ (id = id' ∧ k < k')) (hk : k < (items id).length) :
    nodeAt items id k < nodeAt items id' k' := by
  rw [nodeAt, nodeAt]
  rcases h with h | ⟨rfl, h⟩
  · have hle : firstNode items id + (items id).length ≤ firstNode items id' := firstNode_le h
    omega
  · omega

lemma nodeAt_inj (hk : k < (items id).length) (hk' : k' < (items id').length)
    (h : nodeAt items id k = nodeAt items id' k') : id = id' ∧ k = k' := by
  have hlt : ¬ (id < id' ∨ (id = id' ∧ k < k')) := fun hlt => (nodeAt_lt_nodeAt hlt hk).ne h
  have hgt : ¬ (id' < id ∨ (id' = id ∧ k' < k)) := fun hgt => (nodeAt_lt_nodeAt hgt hk').ne h.symm
  omega

/-- Every node but the root is that of an effect of a branch. -/
lemma exists_nodeAt (hn : 0 < n) (hlt : n < firstNode items count) :
    ∃ id k, k < (items id).length ∧ n = nodeAt items id k := by
  induction count with
  | zero =>
    rw [firstNode] at hlt
    exact absurd hn (by omega)
  | succ count ih =>
    rw [firstNode] at hlt
    by_cases hbefore : n < firstNode items count
    · exact ih hbefore
    · exact ⟨count, n - firstNode items count, by omega, by rw [nodeAt]; omega⟩

/-- The fragment of a branch, if it has effects. -/
def fragmentAt (items : Nat → List (Effect × Origin)) (id : Nat) : Option Fragment :=
  if (items id).isEmpty then none
  else some ⟨id, nodeAt items id 0, nodeAt items id ((items id).length - 1)⟩

lemma eq_of_fragmentAt {f : Fragment} (hf : fragmentAt items id = some f) :
    0 < (items id).length ∧
      f = ⟨id, nodeAt items id 0, nodeAt items id ((items id).length - 1)⟩ := by
  unfold fragmentAt at hf
  split at hf
  · cases hf
  · rename_i hne
    cases hf
    exact ⟨List.length_pos_of_ne_nil (by simpa using hne), rfl⟩

/-- The nodes and the fragments of a graph are those of the first `count` branches. -/
structure Numbered (g : EffectGraph) (items : Nat → List (Effect × Origin)) (count : Nat) :
    Prop where
  size      : g.size = firstNode items count
  fragments : g.fragments = (List.range count).filterMap (fragmentAt items)

lemma numbered_initial (items : Nat → List (Effect × Origin)) : initial.Numbered items 0 :=
  ⟨rfl, rfl⟩

lemma range_filterMap_fragmentAt (items : Nat → List (Effect × Origin)) (count : Nat) :
    (List.range (count + 1)).filterMap (fragmentAt items) =
      (List.range count).filterMap (fragmentAt items) ++ (fragmentAt items count).toList := by
  rw [List.range_succ, List.filterMap_append]
  cases hf : fragmentAt items count <;> simp [hf]

lemma Numbered.skip {g₁ : EffectGraph} (hg : g.Numbered items count) (hcount : items count = [])
    (hsize : g₁.size = g.size + (items count).length) (hfragments : g₁.fragments = g.fragments) :
    g₁.Numbered items (count + 1) where
  size      := by rw [hsize, hg.size, firstNode]
  fragments := by
    rw [range_filterMap_fragmentAt, hfragments, hg.fragments]
    simp [fragmentAt, hcount]

/-- A branch is numbered behind those before it. -/
lemma Numbered.add {g₁ : EffectGraph} {head tail : Nat} (hg : g.Numbered items count)
    (hspan : g₁.Spans (some (head, tail)) (items count))
    (hsize : g₁.size = g.size + (items count).length) (hfragments : g₁.fragments = g.fragments) :
    { g₁ with fragments := g₁.fragments ++ [⟨count, head, tail⟩] : EffectGraph }.Numbered items
      (count + 1) := by
  obtain ⟨hne, hlength, htail, -⟩ := hspan
  have hpos := List.length_pos_of_ne_nil hne
  have hhead : head = firstNode items count := by rw [← hg.size]; omega
  have htail' : tail = firstNode items count + ((items count).length - 1) := by omega
  refine ⟨hsize.trans (by rw [hg.size, firstNode]), ?_⟩
  rw [range_filterMap_fragmentAt, hfragments, hg.fragments]
  simp [fragmentAt, hne, nodeAt, hhead, htail']

lemma Numbered.addBranches {branches : List (Nat × Branch)} (hg : g.Numbered items count)
    (hadd : addBranches strict g r branches = .ok (h, r'))
    (hids : branches.map Prod.fst = List.range' count branches.length)
    (hitems : ∀ entry ∈ branches,
      items entry.1 = entry.2.operations.flatMap fun op => op.items strict r') :
    h.Numbered items (count + branches.length) := by
  induction branches generalizing g r count with
  | nil =>
    cases hadd
    exact hg
  | cons entry branches ih =>
    obtain ⟨id, branch⟩ := entry
    obtain ⟨⟨g₁, r₁, span⟩, hops, hadd⟩ := exists_of_bind_eq_ok hadd
    rw [List.length_cons, List.range'_succ, List.map_cons, List.cons.injEq] at hids
    obtain ⟨rfl, hids⟩ := hids
    have hitem := hitems (id, branch) List.mem_cons_self
    have hfinal := grows_addBranches hadd
    have hempty : g.Spans none [] := rfl
    obtain ⟨hspan, -, hfragments⟩ := spans_addOperations hempty hops hfinal
    have hsize := (size_addOperations hops hfinal).1
    rw [List.nil_append, ← hitem] at hspan
    rw [← hitem] at hsize
    rw [List.length_cons, Nat.add_comm branches.length, ← Nat.add_assoc]
    have hrest : ∀ entry ∈ branches, _ := fun entry hentry =>
      hitems entry (List.mem_cons_of_mem _ hentry)
    cases span with
    | none => exact ih (hg.skip hspan hsize hfragments) hadd hids hrest
    | some ends => exact ih (hg.add hspan hsize hfragments) hadd hids hrest

lemma map_fst_enumerate {α : Type} (a : Arena α) :
    a.enumerate.map Prod.fst = List.range' 0 a.enumerate.length := by
  rw [Arena.enumerate, List.length_map, List.length_zipIdx, List.map_map, ← List.zipIdx_map_snd]
  rfl

lemma numbered_of_build (hbuild : build b strict = .ok (g, r)) :
    g.Numbered (branchItems b strict r) b.size := by
  obtain ⟨⟨g₀, r₀⟩, hadd, hbuild⟩ := exists_of_bind_eq_ok hbuild
  cases hbuild
  have hlength : 0 + b.arena.enumerate.length = b.size := by
    rw [Arena.enumerate, List.length_map, List.length_zipIdx, Nat.zero_add]
    rfl
  have hnumbered := (numbered_initial (branchItems b strict r)).addBranches hadd
    (map_fst_enumerate b.arena) fun entry hentry => by
      rw [branchItems, Branches.get_eq_of_mem_enumerate hentry]
  rw [hlength] at hnumbered
  have hsame := sameNodes_linkEach g₀ (g₀.links b)
  rw [← stitch_eq_linkEach] at hsame
  exact ⟨hsame.size.trans hnumbered.size, hsame.fragments.trans hnumbered.fragments⟩

lemma Numbered.mem_fragments (hg : g.Numbered items count) {f : Fragment} :
    f ∈ g.fragments ↔ f.branch < count ∧ fragmentAt items f.branch = some f := by
  rw [hg.fragments, List.mem_filterMap]
  constructor
  · rintro ⟨id, hid, hf⟩
    obtain rfl := congrArg Fragment.branch (eq_of_fragmentAt hf).2
    exact ⟨List.mem_range.mp hid, hf⟩
  · rintro ⟨hid, hf⟩
    exact ⟨f.branch, List.mem_range.mpr hid, hf⟩

lemma Numbered.fragment?_eq (hg : g.Numbered items count)
    (hitems : ∀ id, count ≤ id → items id = []) (id : Nat) :
    g.fragment? id = fragmentAt items id := by
  cases hfound : g.fragment? id with
  | some f =>
    obtain ⟨hmem, rfl⟩ := mem_of_fragment? hfound
    exact (hg.mem_fragments.mp hmem).2.symm
  | none =>
    cases hf : fragmentAt items id with
    | none => rfl
    | some f =>
      obtain rfl := congrArg Fragment.branch (eq_of_fragmentAt hf).2
      have hlt : f.branch < count := by
        by_contra hge
        simp [fragmentAt, hitems f.branch (Nat.le_of_not_lt hge)] at hf
      rw [fragment?, List.find?_eq_none] at hfound
      exact absurd (decide_eq_true rfl) (hfound f (hg.mem_fragments.mpr ⟨hlt, hf⟩))

lemma branchItems_of_size_le (hid : b.size ≤ id) : branchItems b strict r id = [] := by
  rw [branchItems, Branches.get_of_size_le hid]
  rfl

lemma fragment?_of_build (hbuild : build b strict = .ok (g, r)) (id : Nat) :
    g.fragment? id = fragmentAt (branchItems b strict r) id :=
  (numbered_of_build hbuild).fragment?_eq (fun _ => branchItems_of_size_le) id

/-! ### The nodes of a built graph -/

lemma fragmentAt_of_lt (hk : k < (items id).length) :
    fragmentAt items id =
      some ⟨id, nodeAt items id 0, nodeAt items id ((items id).length - 1)⟩ := by
  have hne : items id ≠ [] := List.ne_nil_of_length_pos (Nat.zero_lt_of_lt hk)
  simp [fragmentAt, hne]

lemma fragmentAt_eq_none_iff : fragmentAt items id = none ↔ items id = [] := by
  simp [fragmentAt]

/-- The nodes of a branch are those of its effects. -/
lemma within_iff (hg : ∀ id, g.fragment? id = fragmentAt items id) :
    g.Within id n ↔ ∃ k, k < (items id).length ∧ n = nodeAt items id k := by
  constructor
  · rintro ⟨f, hf, hle, hle'⟩
    obtain ⟨hpos, rfl⟩ := eq_of_fragmentAt ((hg id).symm.trans hf)
    simp only [nodeAt] at hle hle' ⊢
    exact ⟨n - firstNode items id, by omega, by omega⟩
  · rintro ⟨k, hk, rfl⟩
    refine ⟨_, (hg id).trans (fragmentAt_of_lt hk), ?_, ?_⟩ <;> simp only [nodeAt] <;> omega

lemma item_of_build (hb : b.Bounded) (hbuild : build b strict = .ok (g, r))
    {item : Effect × Origin} (hitem : (branchItems b strict r id)[k]? = some item) :
    g.effect? (nodeAt (branchItems b strict r) id k) = some item.1 ∧
      g.origin? (nodeAt (branchItems b strict r) id k) = some item.2 := by
  have hf := (fragment?_of_build hbuild id).trans
    (fragmentAt_of_lt (List.getElem?_eq_some_iff.mp hitem).1)
  have hchain := (built_of_build hb hbuild).chain hf
  exact ⟨hchain.effect hitem, hchain.origin hitem⟩

/-! ### Where the latest effect was -/

/-- The latest effect may be that of node `x` when the first `k` effects of a branch have happened:
the last of these, or what it was when control came to the branch. -/
inductive LatestAt (items : Nat → List (Effect × Origin)) (b : Branches) : Nat → Nat → Nat → Prop
  | entry : LatestAt items b 0 Branches.entry 0
  | effect {id k : Nat} (hk : k < (items id).length) :
      LatestAt items b (nodeAt items id k) id (k + 1)
  | leave {x id next : Nat} (hx : LatestAt items b x id (items id).length) (hlive : b.Live id)
      (hnext : next ∈ b.flow id) : LatestAt items b x next 0

lemma Feeds.latestAt (hb : b.Bounded) (hroot : g.root = 0)
    (hg : ∀ id, g.fragment? id = fragmentAt items id) (hx : g.Feeds b x id) :
    LatestAt items b x id 0 := by
  induction hx with
  | entry =>
    rw [hroot]
    exact .entry
  | @leave id next f hf hlive hnext =>
    obtain ⟨hpos, rfl⟩ := eq_of_fragmentAt ((hg id).symm.trans hf)
    have hlast : (items id).length - 1 + 1 = (items id).length := Nat.sub_add_cancel hpos
    have heffect : LatestAt items b (nodeAt items id ((items id).length - 1)) id
        ((items id).length - 1 + 1) := .effect (by omega)
    rw [hlast] at heffect
    exact heffect.leave hlive hnext
  | @through x id next hx hf hnext ih =>
    have hnil := fragmentAt_eq_none_iff.mp ((hg id).symm.trans hf)
    have hlive := hx.live hb
    refine LatestAt.leave ?_ hlive hnext
    rw [hnil]
    exact ih

lemma LatestAt.latest (hbuild : build b strict = .ok (g, r)) (hb : b.Bounded)
    (hx : LatestAt (branchItems b strict r) b x id k) : g.Latest b x id k := by
  induction hx with
  | entry =>
    have hentry : g.Feeds b g.root Branches.entry := .entry
    rwa [root_of_build hbuild] at hentry
  | effect hk =>
    exact ⟨_, (fragment?_of_build hbuild _).trans (fragmentAt_of_lt hk), rfl⟩
  | leave _ hlive hnext ih => exact ih.leave (built_of_build hb hbuild) hlive hnext

/-- There is an edge to an effect from whatever may have been the latest effect before it. -/
theorem edge_iff_latestAt (hb : b.Bounded) (hbuild : build b strict = .ok (g, r)) :
    g.Edge x n ↔ ∃ id k, k < (branchItems b strict r id).length ∧
      LatestAt (branchItems b strict r) b x id k ∧ n = nodeAt (branchItems b strict r) id k := by
  have hfragment := fragment?_of_build hbuild
  have hg := built_of_build hb hbuild
  constructor
  · intro hedge
    rcases (sewn_of_build hb hbuild).edge hedge with ⟨id, hx, hn, rfl⟩ | ⟨id, f, hfeeds, hf, rfl⟩
    · obtain ⟨k, hk, rfl⟩ := (within_iff hfragment).mp hx
      obtain ⟨k', hk', hn⟩ := (within_iff hfragment).mp hn
      obtain rfl : k' = k + 1 := by
        simp only [nodeAt] at hn
        omega
      exact ⟨id, k + 1, hk', .effect hk, rfl⟩
    · obtain ⟨hpos, rfl⟩ := eq_of_fragmentAt ((hfragment id).symm.trans hf)
      exact ⟨id, 0, hpos, hfeeds.latestAt hb (root_of_build hbuild) hfragment, rfl⟩
  · rintro ⟨id, k, hk, hx, rfl⟩
    obtain ⟨f, hf, hedge⟩ := (hx.latest hbuild hb).edge hg hk
    rw [hfragment, fragmentAt_of_lt hk] at hf
    cases hf
    exact hedge

end EffectGraph

end ZeroWidth
