import Mathlib.Data.Finset.Card
import Mathlib.Data.Finset.Range
import Mathlib.Data.List.TakeWhile
import Mathlib.Logic.Relation
import ZeroWidth.Data.Search

/-!
# Searches are exact

Both searches collect exactly the ids that can be reached from where they start, provided that the
ids are counted by the bound and that `next` does not lead out of them. Each visit uses up one id,
so when the bound is used up every id has been visited.
-/

namespace ZeroWidth

/-- Some steps along `next` lead from one id to the other. -/
def Leads (next : Nat → List Nat) : Nat → Nat → Prop :=
  Relation.ReflTransGen fun a b => b ∈ next a

namespace IdSet

lemma getElem?_order {s : IdSet} {place : Nat} :
    s.order[place]? = s.toList[place]? := by
  simp [toList]

lemma toList_prefix_insert (s : IdSet) (id : Nat) : s.toList <+: (s.insert id).toList := by
  rw [toList_insert]
  split
  · exact List.prefix_refl _
  · exact List.prefix_append _ _

lemma toList_prefix_insertAll (s : IdSet) (ids : List Nat) :
    s.toList <+: (s.insertAll ids).toList := by
  induction ids generalizing s with
  | nil => exact List.prefix_refl _
  | cons id ids ih => exact (toList_prefix_insert s id).trans (ih (s.insert id))

lemma mem_toList_insertAll {s : IdSet} {ids : List Nat} {id : Nat} :
    id ∈ (s.insertAll ids).toList ↔ id ∈ s.toList ∨ id ∈ ids := by
  induction ids generalizing s with
  | nil => simp [insertAll]
  | cons first ids ih =>
    rw [show s.insertAll (first :: ids) = (s.insert first).insertAll ids from rfl, ih,
      mem_toList_insert, List.mem_cons]
    tauto

lemma nodup_toList_insertAll {s : IdSet} (h : s.toList.Nodup) (ids : List Nat) :
    (s.insertAll ids).toList.Nodup := by
  induction ids generalizing s with
  | nil => exact h
  | cons id ids ih => exact ih (nodup_toList_insert h id)

lemma mem_toList_ofList {ids : List Nat} {id : Nat} : id ∈ (ofList ids).toList ↔ id ∈ ids := by
  simp [ofList, mem_toList_insertAll]

lemma nodup_toList_ofList (ids : List Nat) : (ofList ids).toList.Nodup := by
  apply nodup_toList_insertAll
  exact List.nodup_nil

end IdSet

/-- A list without repetitions that has as many members as there are ids has all ids. -/
lemma mem_of_nodup_of_le_length {ids : List Nat} {count : Nat} (hnd : ids.Nodup)
    (hlt : ∀ id ∈ ids, id < count) (hle : count ≤ ids.length) {id : Nat} (hid : id < count) :
    id ∈ ids := by
  have hsub : ids.toFinset ⊆ Finset.range count := by
    intro x hx
    exact Finset.mem_range.mpr (hlt x (List.mem_toFinset.mp hx))
  have hcard : (Finset.range count).card ≤ ids.toFinset.card := by
    rwa [Finset.card_range, List.toFinset_card_of_nodup hnd]
  have heq := Finset.eq_of_subset_of_card_le hsub hcard
  rw [← List.mem_toFinset, heq]
  exact Finset.mem_range.mpr hid

section Exact

variable {next : Nat → List Nat}

/-- A set that has the start and is closed under `next` has all that the start leads to. -/
lemma Leads.mem_of_closed {ids : List Nat} (hclosed : ∀ id ∈ ids, ∀ k ∈ next id, k ∈ ids)
    {start id : Nat} (h : Leads next start id) (hstart : start ∈ ids) : id ∈ ids := by
  induction h with
  | refl => exact hstart
  | tail _ hstep ih => exact hclosed _ ih _ hstep

/-! ### Depth first -/

lemma depthFirst_sound (bound : Nat) (visited : IdSet) (stack : List Nat) {id : Nat}
    (h : id ∈ (depthFirst next bound visited stack).toList) :
    id ∈ visited.toList ∨ ∃ start ∈ stack, Leads next start id := by
  induction bound generalizing visited stack with
  | zero => exact Or.inl h
  | succ bound ih =>
    unfold depthFirst at h
    split at h
    · exact Or.inl h
    · rename_i top rest hdrop
      have hsub : ∀ x ∈ top :: rest, x ∈ stack := by
        rw [← hdrop]
        exact fun x hx => (List.dropWhile_sublist _).mem hx
      rcases ih _ _ h with hv | ⟨start, hstart, hlead⟩
      · rcases IdSet.mem_toList_insert.mp hv with rfl | hv
        · exact Or.inr ⟨id, hsub id List.mem_cons_self, Relation.ReflTransGen.refl⟩
        · exact Or.inl hv
      · rcases List.mem_append.mp hstart with hnext | hrest
        · exact Or.inr ⟨top, hsub top List.mem_cons_self, hlead.head hnext⟩
        · exact Or.inr ⟨start, hsub start (List.mem_cons_of_mem _ hrest), hlead⟩

/-- A search that stays within some ids depends on what follows these alone. -/
lemma depthFirst_congr {next' : Nat → List Nat} {S : Nat → Prop}
    (hnext : ∀ {id}, S id → next id = next' id) (hclosed : ∀ {id k}, S id → k ∈ next id → S k)
    (bound : Nat) (visited : IdSet) {stack : List Nat} (hstack : ∀ id ∈ stack, S id) :
    depthFirst next bound visited stack = depthFirst next' bound visited stack := by
  induction bound generalizing visited stack with
  | zero => rfl
  | succ bound ih =>
    have hrest : ∀ id ∈ stack.dropWhile visited.contains, S id := fun id hid =>
      hstack id ((List.dropWhile_sublist _).mem hid)
    unfold depthFirst
    generalize stack.dropWhile visited.contains = rest at hrest
    cases rest with
    | nil => rfl
    | cons top rest =>
      have htop := hrest top List.mem_cons_self
      dsimp only
      rw [← hnext htop]
      refine ih _ fun id hid => ?_
      rcases List.mem_append.mp hid with hid | hid
      · exact hclosed htop hid
      · exact hrest id (List.mem_cons_of_mem _ hid)

/-- What is left of a stack without the visited ids on its top. -/
lemma dropWhile_contains_eq_cons {visited : IdSet} {stack : List Nat} {top : Nat} {rest : List Nat}
    (h : stack.dropWhile visited.contains = top :: rest) :
    top ∉ visited.toList ∧ (∀ id ∈ top :: rest, id ∈ stack) ∧
      ∀ id ∈ stack, id ∈ visited.toList ∨ id ∈ top :: rest := by
  refine ⟨?_, ?_, ?_⟩
  · intro hmem
    have hhead := List.head?_dropWhile_not visited.contains stack
    rw [h, List.head?_cons] at hhead
    simp [IdSet.contains_iff.mpr hmem] at hhead
  · rw [← h]
    exact fun id hid => (List.dropWhile_sublist _).mem hid
  · intro id hid
    rw [← List.takeWhile_append_dropWhile (p := visited.contains) (l := stack), List.mem_append,
      h] at hid
    rcases hid with hid | hid
    · exact Or.inl (IdSet.contains_iff.mp (List.mem_takeWhile_imp hid))
    · exact Or.inr hid

/-- What holds on the way of a depth first search: all ids are below `count`, and what follows a
visited one is visited or waits on the stack. -/
structure DepthFirstInv (next : Nat → List Nat) (count : Nat) (visited : IdSet)
    (stack : List Nat) : Prop where
  nodup      : visited.toList.Nodup
  visited_lt : ∀ id ∈ visited.toList, id < count
  stack_lt   : ∀ id ∈ stack, id < count
  follow     : ∀ id ∈ visited.toList, ∀ k ∈ next id, k ∈ visited.toList ∨ k ∈ stack

lemma DepthFirstInv.visit {count : Nat} {visited : IdSet} {stack : List Nat}
    (hnext : ∀ id < count, ∀ k ∈ next id, k < count) (h : DepthFirstInv next count visited stack)
    {top : Nat} {rest : List Nat} (hdrop : stack.dropWhile visited.contains = top :: rest) :
    DepthFirstInv next count (visited.insert top) (next top ++ rest) := by
  obtain ⟨-, hsub, hcover⟩ := dropWhile_contains_eq_cons hdrop
  have htop : top < count := h.stack_lt top (hsub top List.mem_cons_self)
  refine ⟨IdSet.nodup_toList_insert h.nodup top, ?_, ?_, ?_⟩
  · intro id hid
    rcases IdSet.mem_toList_insert.mp hid with rfl | hid
    · exact htop
    · exact h.visited_lt id hid
  · intro id hid
    rcases List.mem_append.mp hid with hid | hid
    · exact hnext top htop id hid
    · exact h.stack_lt id (hsub id (List.mem_cons_of_mem _ hid))
  · intro id hid k hk
    rw [IdSet.mem_toList_insert, List.mem_append]
    rcases IdSet.mem_toList_insert.mp hid with rfl | hid
    · exact Or.inr (Or.inl hk)
    · rcases h.follow id hid k hk with hk | hk
      · exact Or.inl (Or.inr hk)
      · rcases hcover k hk with hk | hk
        · exact Or.inl (Or.inr hk)
        · rcases List.mem_cons.mp hk with rfl | hk
          · exact Or.inl (Or.inl rfl)
          · exact Or.inr (Or.inr hk)

/-- The result has what was visited and what was on the stack, and is closed under `next`. -/
lemma depthFirst_complete {count : Nat} (hnext : ∀ id < count, ∀ k ∈ next id, k < count)
    (bound : Nat) (visited : IdSet) (stack : List Nat)
    (h : DepthFirstInv next count visited stack) (hb : count ≤ bound + visited.toList.length) :
    (∀ id, id ∈ visited.toList ∨ id ∈ stack →
      id ∈ (depthFirst next bound visited stack).toList) ∧
    ∀ id ∈ (depthFirst next bound visited stack).toList, ∀ k ∈ next id,
      k ∈ (depthFirst next bound visited stack).toList := by
  induction bound generalizing visited stack with
  | zero =>
    have hall : ∀ id < count, id ∈ visited.toList := fun id hid =>
      mem_of_nodup_of_le_length h.nodup h.visited_lt (by omega) hid
    refine ⟨?_, fun id hid k hk => hall k (hnext id (h.visited_lt id hid) k hk)⟩
    rintro id (hid | hid)
    · exact hid
    · exact hall id (h.stack_lt id hid)
  | succ bound ih =>
    unfold depthFirst
    split
    · rename_i hdrop
      have hall : ∀ id ∈ stack, id ∈ visited.toList := fun id hid =>
        IdSet.contains_iff.mp (List.dropWhile_eq_nil_iff.mp hdrop id hid)
      refine ⟨?_, fun id hid k hk => (h.follow id hid k hk).elim (fun hk => hk) (hall k)⟩
      rintro id (hid | hid)
      · exact hid
      · exact hall id hid
    · rename_i top rest hdrop
      obtain ⟨htop, -, hcover⟩ := dropWhile_contains_eq_cons hdrop
      have hlen : (visited.insert top).toList.length = visited.toList.length + 1 := by
        simp [IdSet.toList_insert, htop]
      obtain ⟨hhas, hclosed⟩ := ih (visited.insert top) (next top ++ rest) (h.visit hnext hdrop)
        (by omega)
      refine ⟨?_, hclosed⟩
      intro id hid
      apply hhas
      have hc := hcover id
      rw [List.mem_cons] at hc
      rw [IdSet.mem_toList_insert, List.mem_append]
      tauto

/-- A search that is given more steps than there are ids finds nothing else. -/
lemma depthFirst_of_le {count : Nat} (hnext : ∀ id < count, ∀ k ∈ next id, k < count)
    {bound bound' : Nat} {visited : IdSet} {stack : List Nat}
    (h : DepthFirstInv next count visited stack) (hb : count ≤ bound + visited.toList.length)
    (hle : bound ≤ bound') :
    depthFirst next bound' visited stack = depthFirst next bound visited stack := by
  induction bound generalizing bound' visited stack with
  | zero =>
    have hall : ∀ id ∈ stack, visited.contains id = true := fun id hid =>
      IdSet.contains_iff.mpr
        (mem_of_nodup_of_le_length h.nodup h.visited_lt (by omega) (h.stack_lt id hid))
    cases bound' with
    | zero => rfl
    | succ bound' => simp only [depthFirst, List.dropWhile_eq_nil_iff.mpr hall]
  | succ bound ih =>
    obtain ⟨bound', rfl⟩ := Nat.exists_eq_add_of_lt (Nat.lt_of_succ_le hle)
    unfold depthFirst
    split
    · rfl
    · rename_i top rest hdrop
      have hlen : (visited.insert top).toList.length = visited.toList.length + 1 := by
        simp [IdSet.toList_insert, (dropWhile_contains_eq_cons hdrop).1]
      exact ih (h.visit hnext hdrop) (by omega) (by omega)

/-- A depth first search from one id finds exactly the ids it leads to. -/
theorem mem_depthFirst_iff {count : Nat} (hnext : ∀ id < count, ∀ k ∈ next id, k < count)
    {start : Nat} (hstart : start < count) {id : Nat} :
    id ∈ (depthFirst next count .empty [start]).toList ↔ Leads next start id := by
  constructor
  · intro h
    rcases depthFirst_sound count .empty [start] h with h | ⟨s, hs, h⟩
    · simp at h
    · rwa [List.mem_singleton.mp hs] at h
  · intro h
    have hinv : DepthFirstInv next count .empty [start] :=
      ⟨List.nodup_nil, by simp, by simpa using hstart, by simp⟩
    obtain ⟨hhas, hclosed⟩ := depthFirst_complete hnext count .empty [start] hinv (by simp)
    exact h.mem_of_closed hclosed (hhas start (Or.inr List.mem_cons_self))

/-! ### Breadth first -/

lemma breadthFirst_sound (bound place : Nat) (found : IdSet) {id : Nat}
    (h : id ∈ (breadthFirst next bound place found).toList) :
    ∃ start ∈ found.toList, Leads next start id := by
  induction bound generalizing place found with
  | zero => exact ⟨id, h, Relation.ReflTransGen.refl⟩
  | succ bound ih =>
    unfold breadthFirst at h
    split at h
    · exact ⟨id, h, Relation.ReflTransGen.refl⟩
    · rename_i here hplace
      rw [IdSet.getElem?_order] at hplace
      obtain ⟨start, hstart, hlead⟩ := ih _ _ h
      rcases IdSet.mem_toList_insertAll.mp hstart with hstart | hstart
      · exact ⟨start, hstart, hlead⟩
      · exact ⟨here, List.mem_of_getElem? hplace, hlead.head hstart⟩

/-- What holds on the way of a breadth first search: what follows the members in front of `place`
has been found. -/
structure BreadthFirstInv (next : Nat → List Nat) (count place : Nat) (found : IdSet) : Prop where
  nodup    : found.toList.Nodup
  found_lt : ∀ id ∈ found.toList, id < count
  read     : ∀ i < place, ∀ id, found.toList[i]? = some id → ∀ k ∈ next id, k ∈ found.toList

lemma BreadthFirstInv.length_le {count place : Nat} {found : IdSet}
    (h : BreadthFirstInv next count place found) : found.toList.length ≤ count := by
  have hsub : found.toList.toFinset ⊆ Finset.range count := fun id hid =>
    Finset.mem_range.mpr (h.found_lt id (List.mem_toFinset.mp hid))
  have hcard := Finset.card_le_card hsub
  rwa [Finset.card_range, List.toFinset_card_of_nodup h.nodup] at hcard

/-- Nothing is left to read once `place` has come to the end of the members. -/
lemma BreadthFirstInv.closed {count place : Nat} {found : IdSet}
    (h : BreadthFirstInv next count place found) (hend : found.toList.length ≤ place) :
    ∀ id ∈ found.toList, ∀ k ∈ next id, k ∈ found.toList := by
  intro id hid k hk
  obtain ⟨i, hi⟩ := List.mem_iff_getElem?.mp hid
  have hlt := (List.getElem?_eq_some_iff.mp hi).1
  exact h.read i (by omega) id hi k hk

lemma BreadthFirstInv.read_next {count place : Nat} {found : IdSet}
    (hnext : ∀ id < count, ∀ k ∈ next id, k < count)
    (h : BreadthFirstInv next count place found) {here : Nat}
    (hplace : found.toList[place]? = some here) :
    BreadthFirstInv next count (place + 1) (found.insertAll (next here)) := by
  have hhere := h.found_lt here (List.mem_of_getElem? hplace)
  have hend := (List.getElem?_eq_some_iff.mp hplace).1
  have hpre := IdSet.toList_prefix_insertAll found (next here)
  refine ⟨IdSet.nodup_toList_insertAll h.nodup _, ?_, ?_⟩
  · intro id hid
    rcases IdSet.mem_toList_insertAll.mp hid with hid | hid
    · exact h.found_lt id hid
    · exact hnext here hhere id hid
  · intro i hi id hid k hk
    -- insertion appends, so that the members up to `place` are the old ones
    have hold : found.toList[i]? = some id := by
      obtain ⟨added, hadded⟩ := hpre
      rw [← hid, ← hadded, List.getElem?_append_left (by omega)]
    rw [IdSet.mem_toList_insertAll]
    rcases Nat.lt_succ_iff_lt_or_eq.mp hi with hi | rfl
    · exact Or.inl (h.read i hi id hold k hk)
    · rw [hplace, Option.some.injEq] at hold
      exact Or.inr (hold ▸ hk)

/-- The result has what was found before and is closed under `next`. -/
lemma breadthFirst_complete {count : Nat} (hnext : ∀ id < count, ∀ k ∈ next id, k < count)
    (bound place : Nat) (found : IdSet) (h : BreadthFirstInv next count place found)
    (hb : count ≤ bound + place) :
    (∀ id ∈ found.toList, id ∈ (breadthFirst next bound place found).toList) ∧
    ∀ id ∈ (breadthFirst next bound place found).toList, ∀ k ∈ next id,
      k ∈ (breadthFirst next bound place found).toList := by
  induction bound generalizing place found with
  | zero =>
    have hlen := h.length_le
    exact ⟨fun id hid => hid, h.closed (by omega)⟩
  | succ bound ih =>
    unfold breadthFirst
    split
    · rename_i hplace
      rw [IdSet.getElem?_order] at hplace
      exact ⟨fun id hid => hid, h.closed (List.getElem?_eq_none_iff.mp hplace)⟩
    · rename_i here hplace
      rw [IdSet.getElem?_order] at hplace
      obtain ⟨hhas, hclosed⟩ := ih (place + 1) _ (h.read_next hnext hplace) (by omega)
      exact ⟨fun id hid => hhas id (IdSet.mem_toList_insertAll.mpr (Or.inl hid)), hclosed⟩

lemma breadthFirst_of_le {count : Nat} (hnext : ∀ id < count, ∀ k ∈ next id, k < count)
    {bound bound' place : Nat} {found : IdSet} (h : BreadthFirstInv next count place found)
    (hb : count ≤ bound + place) (hle : bound ≤ bound') :
    breadthFirst next bound' place found = breadthFirst next bound place found := by
  induction bound generalizing bound' place found with
  | zero =>
    have hlen := h.length_le
    have hend : found.order[place]? = none := by
      rw [IdSet.getElem?_order, List.getElem?_eq_none_iff]
      omega
    cases bound' with
    | zero => rfl
    | succ bound' => simp only [breadthFirst, hend]
  | succ bound ih =>
    obtain ⟨bound', rfl⟩ := Nat.exists_eq_add_of_lt (Nat.lt_of_succ_le hle)
    unfold breadthFirst
    split
    · rfl
    · rename_i here hplace
      rw [IdSet.getElem?_order] at hplace
      exact ih (h.read_next hnext hplace) (by omega) (by omega)

/-- A search from an id that nothing follows ends there. -/
lemma breadthFirst_of_next_eq_nil {start : Nat} (h : next start = []) (bound : Nat) :
    breadthFirst next bound 0 (IdSet.empty.insert start) = IdSet.empty.insert start := by
  have hlist : (IdSet.empty.insert start).toList = [start] := by simp [IdSet.toList_insert]
  have hfirst : (IdSet.empty.insert start).order[0]? = some start := by
    rw [IdSet.getElem?_order, hlist, List.getElem?_cons_zero]
  have hsecond : (IdSet.empty.insert start).order[0 + 1]? = none := by
    rw [IdSet.getElem?_order, hlist, List.getElem?_cons_succ, List.getElem?_nil]
  match bound with
  | 0         => rfl
  | 1         => simp only [breadthFirst, hfirst, h, IdSet.insertAll, List.foldl_nil]
  | bound + 2 => simp only [breadthFirst, hfirst, h, hsecond, IdSet.insertAll, List.foldl_nil]

/-- A breadth first search from one id finds exactly the ids it leads to. -/
theorem mem_breadthFirst_iff {count : Nat} (hnext : ∀ id < count, ∀ k ∈ next id, k < count)
    {start : Nat} (hstart : start < count) {id : Nat} :
    id ∈ (breadthFirst next count 0 (IdSet.empty.insert start)).toList ↔ Leads next start id := by
  constructor
  · intro h
    obtain ⟨s, hs, hlead⟩ := breadthFirst_sound count 0 _ h
    rw [IdSet.mem_toList_insert] at hs
    rcases hs with rfl | hs
    · exact hlead
    · simp at hs
  · intro h
    have hinv : BreadthFirstInv next count 0 (IdSet.empty.insert start) :=
      ⟨by simp [IdSet.toList_insert], by simpa using hstart, by simp⟩
    obtain ⟨hhas, hclosed⟩ := breadthFirst_complete hnext count 0 _ hinv (by omega)
    exact h.mem_of_closed hclosed (hhas start (by simp))

end Exact

end ZeroWidth
