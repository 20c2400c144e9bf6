import ZeroWidth.Proofs.Stitching

/-!
# Placing operations one by one

What placing an operation does to each branch, whatever the operation: the arguments of operations
need not suit their instructions, so that a branch may be entered again after it has been ended.
Nor does placing ever name a branch that is not there.
-/

namespace ZeroWidth

/-- What becomes of branch `id` when `op` is placed, control having been in branch `current` and
being in branch `next` behind it. A label stands at the beginning of the branch it leads to. -/
def Branch.place (labels : List (Label × Nat)) (current next : Nat) (op : Operation) (id : Nat)
    (branch : Branch) : Branch :=
  { branch with
    operations :=
      if id = (if op.instruction = .label then next else current) then branch.operations ++ [op]
      else branch.operations
    target     :=
      if id = current ∧ op.instruction.jumps then labels.lookup op.labelName else branch.target
    next       :=
      if id = current ∧ (op.instruction = .label ∨ op.instruction.resumes) then some next
      else branch.next
    calls      := branch.calls || decide (id = current ∧ op.instruction = .call)
    returns    := branch.returns || decide (id = current ∧ op.instruction = .ret) }

namespace Branches

variable {b b' : Branches} {current next id : Nat} {op : Operation} {ops : List Operation}

/-- The branch control is in behind an operation. -/
def After (b : Branches) (current : Nat) (op : Operation) (next : Nat) : Prop :=
  if op.instruction = .label then b.labels.lookup op.labelName = some next
  else next = if op.instruction.endsBranch then b.size else current

/-- All that placing an operation does. -/
structure Placed (b : Branches) (current : Nat) (op : Operation) (b' : Branches) (next : Nat) :
    Prop where
  labels  : b'.labels = b.labels
  size    : b'.size = b.size + if op.instruction.endsBranch then 1 else 0
  after   : b.After current op next
  defined : op.instruction.jumps = true → (b.labels.lookup op.labelName).isSome = true
  get     : ∀ id, b'.get id = (b.get id).place b.labels current next op id

/-- The branches that labels begin are there. -/
def Labelled (b : Branches) : Prop := ∀ name id, b.labels.lookup name = some id → id < b.size

lemma get_modify' (hid : id < b.size) (f : Branch → Branch) (other : Nat) :
    (b.modify id f).get other = if other = id then f (b.get other) else b.get other := by
  rw [get_modify hid]
  simp only [eq_comm]

section Finish

variable {f : Branch → Branch} (hcurrent : current < b.size)
  (hends : op.instruction.endsBranch = true)
  (hdefined : op.instruction.jumps = true → (b.labels.lookup op.labelName).isSome = true)
  (hf : ∀ branch, f branch = branch.place b.labels current b.size op current)

include hends hdefined hf

lemma placed_of_get (hsize : b'.size = b.size + 1) (hlabels : b'.labels = b.labels)
    (hget : ∀ id, b'.get id = if id = current then f (b.get id) else b.get id) :
    b.Placed current op b' b.size := by
  have hop := ne_label_of_endsBranch hends
  refine ⟨hlabels, by rw [hsize, if_pos hends], by simp [After, hop, hends], hdefined, fun id => ?_⟩
  rw [hget]
  by_cases hid : id = current
  · rw [if_pos hid, hf, hid]
  · simp [Branch.place, hid, hop]

include hcurrent

lemma placed_modify_openBranch :
    b.Placed current op (b.modify current f).openBranch.2 (b.modify current f).size := by
  rw [size_modify]
  refine placed_of_get hends hdefined hf (by simp) rfl fun id => ?_
  rw [get_openBranch, get_modify' hcurrent]

lemma placed_openBranch_modify : b.Placed current op (b.openBranch.2.modify current f) b.size := by
  refine placed_of_get hends hdefined hf (by simp) rfl fun id => ?_
  rw [get_modify' (by rw [size_openBranch]; omega), get_openBranch]

end Finish

lemma placed_of_place (hcurrent : current < b.size) (hlabels : b.Labelled)
    (h : b.place current op = .ok (b', next)) : b.Placed current op b' next := by
  unfold place at h
  split at h
  case h_1 hop =>
    obtain ⟨target, htarget, h⟩ := exists_of_bind_eq_ok h
    cases h
    have hlookup := resolve_eq_ok htarget
    refine ⟨rfl, by simp [hop, Instruction.endsBranch, Instruction.jumps],
      by simpa [After, hop] using hlookup, by simp [hop, Instruction.jumps], fun id => ?_⟩
    rw [get_modify' (by simpa using hlabels _ _ hlookup), get_modify' hcurrent]
    simp only [Branch.place, Branch.append, hop, Instruction.jumps, if_true]
    split_ifs <;> simp_all
  case h_2 hop =>
    obtain ⟨target, htarget, h⟩ := exists_of_bind_eq_ok h
    cases h
    have hlookup := resolve_eq_ok htarget
    refine placed_modify_openBranch hcurrent ?_ (fun _ => by simp [hlookup]) fun branch => ?_
    · simp [hop, Instruction.endsBranch, Instruction.jumps]
    · simp [Branch.place, Branch.append, hop, Instruction.jumps, Instruction.resumes, hlookup]
  -- the conditional jumps and the call differ in what they leave in `calls` alone
  case h_3 hop | h_4 hop | h_5 hop =>
    obtain ⟨target, htarget, h⟩ := exists_of_bind_eq_ok h
    cases h
    have hlookup := resolve_eq_ok htarget
    refine placed_openBranch_modify hcurrent ?_ (fun _ => by simp [hlookup]) fun branch => ?_
    · simp [hop, Instruction.endsBranch, Instruction.jumps]
    · simp [Branch.place, Branch.append, hop, Instruction.jumps, Instruction.resumes, hlookup, size]
  case h_6 hop | h_7 hop =>
    cases h
    refine placed_modify_openBranch hcurrent ?_ ?_ fun branch => ?_
    · simp [hop, Instruction.endsBranch]
    · simp [hop, Instruction.jumps]
    · simp [Branch.place, Branch.append, hop, Instruction.jumps, Instruction.resumes]
  case h_8 =>
    cases h
    have hop : op.instruction ≠ .label ∧ op.instruction.jumps = false ∧
        op.instruction.endsBranch = false ∧ op.instruction.resumes = false ∧
        op.instruction ≠ .call ∧ op.instruction ≠ .ret := by
      cases hi : op.instruction <;>
        simp_all [Instruction.endsBranch, Instruction.jumps, Instruction.resumes]
    obtain ⟨hlabel, hjumps, hends, hrest⟩ := hop
    refine ⟨rfl, by simp [hends], by simp [After, hlabel, hends], by simp [hjumps], fun id => ?_⟩
    rw [get_modify' hcurrent]
    by_cases hid : id = current <;> simp [Branch.place, Branch.append, hid, hlabel, hjumps, hrest]

/-! ### Branches that are there -/

/-- What holds while operations are placed, whatever they are. -/
structure Confined (b : Branches) (current : Nat) : Prop where
  bounded  : b.Bounded
  labelled : b.Labelled
  current  : current < b.size

lemma After.lt (hb : b.Confined current) (h : b.After current op next) :
    next < b.size + if op.instruction.endsBranch then 1 else 0 := by
  unfold After at h
  split at h
  · exact (hb.labelled _ _ h).trans_le (Nat.le_add_right ..)
  · have hcurrent := hb.current
    split at h <;> split <;> simp_all

lemma Confined.place (hb : b.Confined current) (h : b.place current op = .ok (b', next)) :
    b'.Confined next := by
  have hplaced := placed_of_place hb.current hb.labelled h
  have hle : b.size ≤ b'.size := by
    rw [hplaced.size]
    exact Nat.le_add_right ..
  have hnext : next < b'.size := hplaced.size ▸ hplaced.after.lt hb
  refine ⟨⟨hb.bounded.entry_lt.trans_le hle, fun id follower hfollower => ?_⟩, ?_, hnext⟩
  · have hold : follower ∈ b.followers id → follower < b'.size := fun h =>
      (hb.bounded.followers_lt id follower h).trans_le hle
    rw [followers, hplaced.get, List.mem_append, Option.mem_toList, Option.mem_toList] at hfollower
    rcases hfollower with hfollower | hfollower <;> simp only [Branch.place] at hfollower <;>
      split at hfollower
    · cases hfollower
      exact hnext
    · exact hold (mem_followers_of_next hfollower)
    · exact (hb.labelled _ _ hfollower).trans_le hle
    · exact hold (mem_followers_of_target hfollower)
  · intro name id hid
    exact (hb.labelled name id (hplaced.labels ▸ hid)).trans_le hle

lemma Confined.placeAll (hb : b.Confined current) (h : b.placeAll current ops = .ok b') :
    b'.Bounded := by
  induction ops generalizing b current with
  | nil =>
    cases h
    exact hb.bounded
  | cons op ops ih =>
    obtain ⟨⟨b₁, next⟩, hplace, h⟩ := exists_of_bind_eq_ok h
    exact ih (hb.place hplace) h

lemma Declared.confined {names : List Label} (h : b.Declared names) : b.Confined entry where
  bounded  := by
    refine ⟨h.size ▸ Nat.succ_pos _, fun id follower hfollower => ?_⟩
    simp [followers, (h.blank id).2.next, (h.blank id).2.target] at hfollower
  labelled := fun name id hid => by
    obtain ⟨hle, hget⟩ := lookup_zipIdx (h.labels ▸ hid)
    have hlt := (List.getElem?_eq_some_iff.mp hget).1
    rw [h.size]
    omega
  current  := h.size ▸ Nat.succ_pos _

/-- Whatever the operations are, control never leaves the branches there are. -/
theorem extract_bounded (h : extract ops = .ok b) : b.Bounded := by
  obtain ⟨b₀, hdeclare, h⟩ := exists_of_bind_eq_ok h
  exact (declared_initial.foldlM hdeclare).confined.placeAll h

end Branches

end ZeroWidth
