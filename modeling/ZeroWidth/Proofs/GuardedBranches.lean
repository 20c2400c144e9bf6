import ZeroWidth.Proofs.Placing

/-!
# Guarded look-ups: branches

A guarded function does what the function it is named for does, but it stops where a branch or a
node is looked up or changed that is not there, and where a search is cut off before its end. It
shows that the default values which stand in for missing entries are never used: on all operations,
guarded functions come to the same results.

This module has the guarded forms of the searches and of what is done with branches.
-/

namespace ZeroWidth

/-- What ends a guarded computation early. -/
inductive Halt where
  /-- There is nothing with the id that was looked up. -/
  | missing (id : Nat)
  /-- A search had not come to its end when its bound was used up. -/
  | unfinished
  | failure (e : CheckFailure)
deriving DecidableEq

abbrev Guarded := Except Halt

namespace Guarded

variable {α β σ : Type}

/-- A check that may fail as a guarded computation. -/
def of (x : Except CheckFailure α) : Guarded α := x.mapError .failure

lemma ok_bind (a : α) (f : α → Guarded β) : (Except.ok a >>= f) = f a := rfl

lemma of_bind_eq {x : Except CheckFailure α} {f : α → Guarded β} {g : α → Except CheckFailure β}
    (h : ∀ a, x = .ok a → f a = of (g a)) : (of x >>= f) = of (x >>= g) := by
  cases x with
  | error e => rfl
  | ok a => exact h a rfl

/-! ### Lists -/

lemma mapM_eq_ok {f : α → Guarded β} {g : α → β} {as : List α} (h : ∀ a ∈ as, f a = .ok (g a)) :
    as.mapM f = .ok (as.map g) := by
  induction as with
  | nil => rfl
  | cons a as ih =>
    obtain ⟨ha, has⟩ := List.forall_mem_cons.mp h
    rw [List.mapM_cons, ha, ih has]
    rfl

lemma filterAuxM_eq_ok {p : α → Guarded Bool} {q : α → Bool} {as : List α}
    (h : ∀ a ∈ as, p a = .ok (q a)) (kept : List α) :
    as.filterAuxM p kept = .ok ((as.filter q).reverse ++ kept) := by
  induction as generalizing kept with
  | nil => rfl
  | cons a as ih =>
    obtain ⟨ha, has⟩ := List.forall_mem_cons.mp h
    rw [List.filterAuxM, ha]
    change as.filterAuxM p (cond (q a) (a :: kept) kept) = _
    rw [ih has]
    cases hq : q a <;> simp [hq]

lemma filterM_eq_ok {p : α → Guarded Bool} {q : α → Bool} {as : List α}
    (h : ∀ a ∈ as, p a = .ok (q a)) : as.filterM p = .ok (as.filter q) := by
  rw [List.filterM, filterAuxM_eq_ok h]
  simp [bind, Except.bind, pure, Except.pure]

/-- A fold of guarded steps, each of which goes through as long as an invariant holds. -/
lemma foldlM_eq_ok {f : σ → α → Guarded σ} {g : σ → α → σ} (Inv : σ → Prop) {as : List α} {s : σ}
    (hstep : ∀ s, Inv s → ∀ a ∈ as, f s a = .ok (g s a))
    (hkept : ∀ s, Inv s → ∀ a ∈ as, Inv (g s a)) (hs : Inv s) :
    as.foldlM f s = .ok (as.foldl g s) := by
  induction as generalizing s with
  | nil => rfl
  | cons a as ih =>
    rw [List.foldlM_cons, hstep s hs a List.mem_cons_self]
    exact ih (fun s hs a ha => hstep s hs a (List.mem_cons_of_mem _ ha))
      (fun s hs a ha => hkept s hs a (List.mem_cons_of_mem _ ha)) (hkept s hs a List.mem_cons_self)

end Guarded

/-! ### Arenas -/

namespace Arena

variable {α : Type} {a : Arena α} {id : Nat}

def lookUp (a : Arena α) (id : Nat) : Guarded α :=
  match a.get? id with
  | some x => .ok x
  | none   => .error (.missing id)

def modifyGuarded (a : Arena α) (id : Nat) (f : α → α) : Guarded (Arena α) := do
  let _ ← a.lookUp id
  .ok (a.modify id f)

lemma lookUp_of_get? {x : α} (h : a.get? id = some x) : a.lookUp id = .ok x := by
  rw [lookUp, h]

lemma exists_get?_of_lt (h : id < a.size) : ∃ x, a.get? id = some x := by
  rw [← Option.ne_none_iff_exists', ne_eq, get?_eq_none_iff]
  omega

lemma modifyGuarded_of_lt (h : id < a.size) (f : α → α) :
    a.modifyGuarded id f = .ok (a.modify id f) := by
  obtain ⟨x, hx⟩ := exists_get?_of_lt h
  rw [modifyGuarded, lookUp_of_get? hx]
  rfl

end Arena

/-! ### Searches -/

def depthFirstGuarded (next : Nat → Guarded (List Nat)) :
    (bound : Nat) → IdSet → (stack : List Nat) → Guarded IdSet
  | 0,         visited, stack =>
    if stack.all visited.contains then .ok visited else .error .unfinished
  | bound + 1, visited, stack =>
    match stack.dropWhile visited.contains with
    | []         => .ok visited
    | id :: rest => do
      let followers ← next id
      depthFirstGuarded next bound (visited.insert id) (followers ++ rest)

def breadthFirstGuarded (next : Nat → Guarded (List Nat)) :
    (bound : Nat) → (place : Nat) → IdSet → Guarded IdSet
  | 0,         place, found => if found.size ≤ place then .ok found else .error .unfinished
  | bound + 1, place, found =>
    match found.order[place]? with
    | none    => .ok found
    | some id => do
      let followers ← next id
      breadthFirstGuarded next bound (place + 1) (found.insertAll followers)

section Searches

variable {next : Nat → List Nat} {nextGuarded : Nat → Guarded (List Nat)} {count : Nat}

lemma lt_of_leads (hlt : ∀ id < count, ∀ k ∈ next id, k < count) {start id : Nat}
    (hstart : start < count) (h : Leads next start id) : id < count := by
  induction h with
  | refl => exact hstart
  | tail _ hstep ih => exact hlt _ ih _ hstep

variable (hnext : ∀ id < count, nextGuarded id = .ok (next id))
  (hlt : ∀ id < count, ∀ k ∈ next id, k < count)

include hnext hlt

lemma depthFirstGuarded_of_inv {bound : Nat} {visited : IdSet} {stack : List Nat}
    (h : DepthFirstInv next count visited stack) (hbound : count ≤ bound + visited.toList.length) :
    depthFirstGuarded nextGuarded bound visited stack =
      .ok (depthFirst next bound visited stack) := by
  induction bound generalizing visited stack with
  | zero =>
    have hall : stack.all visited.contains = true := List.all_eq_true.mpr fun id hid =>
      IdSet.contains_iff.mpr
        (mem_of_nodup_of_le_length h.nodup h.visited_lt (by omega) (h.stack_lt id hid))
    exact if_pos hall
  | succ bound ih =>
    unfold depthFirstGuarded depthFirst
    cases hdrop : stack.dropWhile visited.contains with
    | nil => rfl
    | cons top rest =>
      obtain ⟨htop, hsub, -⟩ := dropWhile_contains_eq_cons hdrop
      have hlength : (visited.insert top).toList.length = visited.toList.length + 1 := by
        simp [IdSet.toList_insert, htop]
      dsimp only
      rw [hnext top (h.stack_lt top (hsub top List.mem_cons_self))]
      exact ih (h.visit hlt hdrop) (by omega)

lemma depthFirstGuarded_eq {start : Nat} (hstart : start < count) :
    depthFirstGuarded nextGuarded count .empty [start] =
      .ok (depthFirst next count .empty [start]) :=
  depthFirstGuarded_of_inv hnext hlt
    ⟨List.nodup_nil, by simp, by simpa using hstart, by simp⟩ (by simp)

lemma breadthFirstGuarded_of_inv {bound place : Nat} {found : IdSet}
    (h : BreadthFirstInv next count place found) (hbound : count ≤ bound + place) :
    breadthFirstGuarded nextGuarded bound place found =
      .ok (breadthFirst next bound place found) := by
  induction bound generalizing place found with
  | zero =>
    have hend : found.size ≤ place := h.length_le.trans (by omega)
    exact if_pos hend
  | succ bound ih =>
    unfold breadthFirstGuarded breadthFirst
    cases hplace : found.order[place]? with
    | none => rfl
    | some here =>
      rw [IdSet.getElem?_order] at hplace
      dsimp only
      rw [hnext here (h.found_lt here (List.mem_of_getElem? hplace))]
      exact ih (h.read_next hlt hplace) (by omega)

lemma breadthFirstGuarded_eq {start : Nat} (hstart : start < count) :
    breadthFirstGuarded nextGuarded count 0 (IdSet.empty.insert start) =
      .ok (breadthFirst next count 0 (IdSet.empty.insert start)) :=
  breadthFirstGuarded_of_inv hnext hlt
    ⟨by simp [IdSet.toList_insert], by simpa using hstart, by simp⟩ (by omega)

end Searches

/-! ### Branches -/

def Successors.lookUp (s : Successors) (id : Nat) : Guarded (List Nat) :=
  match s.get? id with
  | some ids => .ok ids
  | none     => .error (.missing id)

namespace Branches

variable {b b' : Branches} {current id : Nat} {op : Operation}

def lookUp (b : Branches) (id : Nat) : Guarded Branch := b.arena.lookUp id

def modifyGuarded (b : Branches) (id : Nat) (f : Branch → Branch) : Guarded Branches := do
  let arena ← b.arena.modifyGuarded id f
  .ok { b with arena }

def placeGuarded (b : Branches) (current : Nat) (op : Operation) : Guarded (Branches × Nat) :=
  match op.instruction with
  | .label => do
    let target ← .of (b.resolve op)
    let b ← b.modifyGuarded current fun branch => { branch with next := some target }
    let b ← b.modifyGuarded target (·.append op)
    .ok (b, target)
  | .jump => do
    let target ← .of (b.resolve op)
    let b ← b.modifyGuarded current fun branch => { branch.append op with target := some target }
    let (next, b) := b.openBranch
    .ok (b, next)
  | .jumpZero | .jumpNegative => do
    let target ← .of (b.resolve op)
    let (next, b) := b.openBranch
    let b ← b.modifyGuarded current fun branch =>
      { branch.append op with target := some target, next := some next }
    .ok (b, next)
  | .call => do
    let target ← .of (b.resolve op)
    let (next, b) := b.openBranch
    let b ← b.modifyGuarded current fun branch =>
      { branch.append op with target := some target, next := some next, calls := true }
    .ok (b, next)
  | .ret => do
    let b ← b.modifyGuarded current fun branch => { branch.append op with returns := true }
    let (next, b) := b.openBranch
    .ok (b, next)
  | .stop => do
    let b ← b.modifyGuarded current (·.append op)
    let (next, b) := b.openBranch
    .ok (b, next)
  | _ => do
    let b ← b.modifyGuarded current (·.append op)
    .ok (b, current)

def placeAllGuarded (b : Branches) (current : Nat) : List Operation → Guarded Branches
  | []        => .ok b
  | op :: ops => do
    let (b, current) ← b.placeGuarded current op
    b.placeAllGuarded current ops

def extractGuarded (ops : List Operation) : Guarded Branches := do
  let b ← .of (ops.foldlM declare initial)
  b.placeAllGuarded entry ops

lemma lookUp_of_lt (hid : id < b.size) : b.lookUp id = .ok (b.get id) := by
  obtain ⟨branch, hbranch⟩ := Arena.exists_get?_of_lt hid
  rw [lookUp, Arena.lookUp_of_get? hbranch, get, hbranch, Option.getD_some]

lemma modifyGuarded_of_lt (hid : id < b.size) (f : Branch → Branch) :
    b.modifyGuarded id f = .ok (b.modify id f) := by
  rw [modifyGuarded, Arena.modifyGuarded_of_lt hid]
  rfl

/-- The branch control is in is there, and so are those that labels begin. -/
lemma placeGuarded_eq (hb : b.Confined current) (op : Operation) :
    b.placeGuarded current op = .of (b.place current op) := by
  have hcurrent := hb.current
  have hopened : current < b.openBranch.2.size := by
    rw [size_openBranch]
    omega
  unfold placeGuarded place
  cases op.instruction with
  | label =>
    refine Guarded.of_bind_eq fun target htarget => ?_
    have hlt : target < b.size := hb.labelled _ _ (resolve_eq_ok htarget)
    rw [modifyGuarded_of_lt hcurrent, Guarded.ok_bind, modifyGuarded_of_lt (by rwa [size_modify])]
    rfl
  | jump =>
    refine Guarded.of_bind_eq fun target _ => ?_
    rw [modifyGuarded_of_lt hcurrent]
    rfl
  | jumpZero | jumpNegative | call =>
    refine Guarded.of_bind_eq fun target _ => ?_
    change (b.openBranch.2.modifyGuarded current _ >>= _) = _
    rw [modifyGuarded_of_lt hopened]
    rfl
  | _ =>
    dsimp only
    rw [modifyGuarded_of_lt hcurrent]
    rfl

lemma placeAllGuarded_eq (hb : b.Confined current) (ops : List Operation) :
    b.placeAllGuarded current ops = .of (b.placeAll current ops) := by
  induction ops generalizing b current with
  | nil => rfl
  | cons op ops ih =>
    rw [placeAllGuarded, placeAll, placeGuarded_eq hb]
    exact Guarded.of_bind_eq fun placed hplaced => ih (hb.place hplaced)

lemma extractGuarded_eq (ops : List Operation) : extractGuarded ops = .of (extract ops) :=
  Guarded.of_bind_eq fun _ hdeclare =>
    placeAllGuarded_eq (declared_initial.foldlM hdeclare).confined ops

/-! ### Reaching branches -/

def followersGuarded (b : Branches) (id : Nat) : Guarded (List Nat) := do
  let branch ← b.lookUp id
  .ok (branch.next.toList ++ branch.target.toList)

def reachableGuarded (b : Branches) : Guarded IdSet :=
  depthFirstGuarded b.followersGuarded b.size .empty [entry]

def subroutineFollowersGuarded (b : Branches) (id : Nat) : Guarded (List Nat) := do
  let branch ← b.lookUp id
  .ok (if branch.returns then []
    else (if branch.calls then [] else branch.target.toList) ++ branch.next.toList)

def returnsFromGuarded (b : Branches) (id : Nat) : Guarded (List Nat) := do
  let visited ← depthFirstGuarded b.subroutineFollowersGuarded b.size .empty [id]
  visited.toList.filterM fun id => (b.lookUp id).map Branch.returns

def resumptionsGuarded (b : Branches) (reached : IdSet) : Guarded (List (Nat × Nat)) := do
  let resumptions ← b.arena.enumerate.mapM fun (id, branch) =>
    if branch.calls && reached.contains id then
      match branch.target, branch.next with
      | some callee, some after => do
        let returns ← b.returnsFromGuarded callee
        .ok (returns.map fun ret => (ret, after))
      | _,           _          => .ok []
    else .ok []
  .ok resumptions.flatten

namespace Bounded

variable (hb : b.Bounded)

include hb

lemma reachableGuarded_eq : b.reachableGuarded = .ok b.reachable := by
  refine depthFirstGuarded_eq (fun id hid => ?_) (fun id _ => hb.followers_lt id) hb.entry_lt
  rw [followersGuarded, lookUp_of_lt hid]
  rfl

lemma returnsFromGuarded_eq (hid : id < b.size) :
    b.returnsFromGuarded id = .ok (b.returnsFrom id) := by
  have hlt : ∀ id < b.size, ∀ next ∈ b.subroutineFollowers id, next < b.size :=
    fun id _ next hnext => hb.followers_lt id next (mem_subroutineFollowers hnext)
  have hsearch : depthFirstGuarded b.subroutineFollowersGuarded b.size .empty [id] =
      .ok (depthFirst b.subroutineFollowers b.size .empty [id]) := by
    refine depthFirstGuarded_eq (fun id hid => ?_) hlt hid
    rw [subroutineFollowersGuarded, lookUp_of_lt hid]
    rfl
  rw [returnsFromGuarded, hsearch]
  refine Guarded.filterM_eq_ok fun other hother => ?_
  rw [lookUp_of_lt (lt_of_leads hlt hid ((mem_depthFirst_iff hlt hid).mp hother))]
  rfl

lemma resumptionsGuarded_eq (reached : IdSet) :
    b.resumptionsGuarded reached = .ok (b.resumptions reached) := by
  rw [resumptionsGuarded, resumptions, List.flatMap_def]
  rw [Guarded.mapM_eq_ok]
  · rfl
  · rintro ⟨id, branch⟩ hentry
    dsimp only
    split
    · cases htarget : branch.target with
      | none => rfl
      | some callee =>
        cases branch.next with
        | none => rfl
        | some after =>
          rw [← get_eq_of_mem_enumerate hentry] at htarget
          dsimp only
          rw [hb.returnsFromGuarded_eq (hb.followers_lt _ _ (mem_followers_of_target htarget))]
          rfl
    · rfl

end Bounded

/-- Every branch has been entered with its successors. -/
lemma lookUp_successors (hid : id < b.size) (resumptions : List (Nat × Nat)) :
    (b.successors resumptions).lookUp id = .ok ((b.successors resumptions).after id) := by
  rw [Successors.lookUp, Successors.after, get?_successors, if_pos hid]
  rfl

end Branches

end ZeroWidth
