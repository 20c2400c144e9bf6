import Mathlib.Data.List.Nodup
import ZeroWidth.Program.Basic
import ZeroWidth.Proofs.Search
import ZeroWidth.Typing.Branch

/-!
# How operations are laid out in branches

Branches are numbered from the entry on: first the entry itself, then the labels in the order they
are defined in, then the nameless ones as they open. A label goes on in its own branch, and an
operation that ends a branch goes on in the next nameless one; so where every operation is put can
be told from the operations alone. Extraction puts them there, and the ways out of a finished branch
are those of the operation that ends it.
-/

namespace ZeroWidth

/-- A sequence of steps succeeds if both of its parts do. -/
lemma exists_of_bind_eq_ok {ε α β : Type} {x : Except ε α} {f : α → Except ε β} {y : β}
    (h : x >>= f = .ok y) : ∃ a, x = .ok a ∧ f a = .ok y := by
  cases x with
  | error _ => cases h
  | ok a => exact ⟨a, rfl, h⟩

namespace Instruction

/-- Control may go on at the label that the operation names. -/
def jumps : Instruction → Bool
  | .jump | .jumpZero | .jumpNegative | .call => true
  | _                                         => false

/-- The branch ends here, but control may come to what stands behind it. -/
def resumes : Instruction → Bool
  | .jumpZero | .jumpNegative | .call => true
  | _                                 => false

def endsBranch (i : Instruction) : Bool := i.jumps || i = .ret || i = .stop

end Instruction

/-- The name of the label that an operation goes to or begins. -/
def Operation.labelName (op : Operation) : Label := op.label?.getD ""

lemma Operation.label?_of_wellKinded {op : Operation} (h : op.WellKinded)
    (hkind : op.instruction.argKind = .label) : op.label? = some op.labelName := by
  rw [WellKinded, hkind] at h
  unfold labelName label?
  cases harg : op.argument with
  | none => simp [argKind, harg] at h
  | some argument => cases argument <;> simp [argKind, harg, Argument.kind] at h ⊢

/-- The branch and the place in it that each operation gets, if the first one comes to place `slot`
of branch `current` and the next nameless branch is `fresh`. -/
def layoutFrom (labels : List (Label × Nat)) (current slot fresh : Nat) :
    List Operation → List (Nat × Nat)
  | []        => []
  | op :: ops =>
    if op.instruction = .label then
      let target := (labels.lookup op.labelName).getD current
      (target, 0) :: layoutFrom labels target 1 fresh ops
    else
      (current, slot) ::
        if op.instruction.endsBranch then layoutFrom labels fresh 0 (fresh + 1) ops
        else layoutFrom labels current (slot + 1) fresh ops

/-- The labels that operations define with the numbers of their branches. -/
def labelBranches (ops : List Operation) : List (Label × Nat) := (definedLabels ops).zipIdx 1

/-- The branch and the place in it that each operation gets. -/
def layout (ops : List Operation) : List (Nat × Nat) :=
  layoutFrom (labelBranches ops) Branches.entry 0 ((definedLabels ops).length + 1) ops

/-- Nothing leads out of the branch yet. -/
structure Branch.IsOpen (branch : Branch) : Prop where
  target  : branch.target = none
  next    : branch.next = none
  calls   : branch.calls = false
  returns : branch.returns = false

/-- The branch has `length` operations and leads to `next` alone. -/
structure Branch.FallsTo (branch : Branch) (length next : Nat) : Prop where
  length  : branch.operations.length = length
  target  : branch.target = none
  next    : branch.next = some next
  calls   : branch.calls = false
  returns : branch.returns = false

lemma Branch.isOpen_empty : Branch.empty.IsOpen := ⟨rfl, rfl, rfl, rfl⟩

lemma Branch.IsOpen.append {branch : Branch} (h : branch.IsOpen) (op : Operation) :
    (branch.append op).IsOpen := ⟨h.target, h.next, h.calls, h.returns⟩

namespace Branches

variable {b b' : Branches} {current next id : Nat} {op : Operation} {ops : List Operation}

/-- The ways out of a branch that `op` ends, with `fresh` standing behind it. -/
structure Exits (labels : List (Label × Nat)) (op : Operation) (branch : Branch) (fresh : Nat) :
    Prop where
  target  : branch.target = if op.instruction.jumps then labels.lookup op.labelName else none
  defined : op.instruction.jumps = true → (labels.lookup op.labelName).isSome = true
  next    : branch.next = if op.instruction.resumes then some fresh else none
  calls   : branch.calls = decide (op.instruction = .call)
  returns : branch.returns = decide (op.instruction = .ret)

/-! ### Single steps -/

lemma get_modify (hid : id < b.size) (f : Branch → Branch) (other : Nat) :
    (b.modify id f).get other = if id = other then f (b.get other) else b.get other := by
  simp only [get, modify, Arena.get?_modify]
  split
  · rename_i heq
    subst heq
    cases h : b.arena.get? id with
    | none =>
      have := Arena.get?_eq_none_iff.mp h
      exact absurd hid (Nat.not_lt.mpr this)
    | some branch => rfl
  · rfl

@[simp]
lemma size_modify (b : Branches) (id : Nat) (f : Branch → Branch) : (b.modify id f).size = b.size :=
  Arena.size_modify b.arena id f

@[simp]
lemma labels_modify (b : Branches) (id : Nat) (f : Branch → Branch) :
    (b.modify id f).labels = b.labels := rfl

@[simp]
lemma size_openBranch (b : Branches) : b.openBranch.2.size = b.size + 1 :=
  Arena.size_alloc b.arena _

@[simp]
lemma get_openBranch (b : Branches) (id : Nat) : b.openBranch.2.get id = b.get id := by
  simp only [get, openBranch, Arena.get?_alloc]
  split
  · rename_i heq
    rw [Arena.get?_eq_none_iff.mpr (Nat.le_of_eq heq.symm)]
    rfl
  · rfl

lemma get_of_size_le (hid : b.size ≤ id) : b.get id = Branch.empty := by
  simp [get, Arena.get?_eq_none_iff.mpr hid]

lemma resolve_eq_ok {target : Nat} (h : b.resolve op = .ok target) :
    b.labels.lookup op.labelName = some target := by
  simp only [resolve] at h
  split at h
  · rename_i hlookup
    cases h
    exact hlookup
  · cases h

/-- The operation is put at the end of the current branch and ends it. -/
structure Ended (b : Branches) (current : Nat) (op : Operation) (b' : Branches) : Prop where
  size       : b'.size = b.size + 1
  labels     : b'.labels = b.labels
  others     : ∀ id, id ≠ current → b'.get id = b.get id
  operations : (b'.get current).operations = (b.get current).operations ++ [op]
  exits      : (b.get current).IsOpen → Exits b.labels op (b'.get current) b.size

lemma ended_of_get {f : Branch → Branch} (hsize : b'.size = b.size + 1)
    (hlabels : b'.labels = b.labels)
    (hget : ∀ id, b'.get id = if current = id then f (b.get id) else b.get id)
    (hops : ∀ branch, (f branch).operations = branch.operations ++ [op])
    (hexits : ∀ branch, branch.IsOpen → Exits b.labels op (f branch) b.size) :
    b.Ended current op b' where
  size       := hsize
  labels     := hlabels
  others     := fun id hid => by rw [hget, if_neg (Ne.symm hid)]
  operations := by rw [hget, if_pos rfl, hops]
  exits      := fun hopen => by
    rw [hget, if_pos rfl]
    exact hexits _ hopen

lemma ended_modify_openBranch (hcurrent : current < b.size) {f : Branch → Branch}
    (hops : ∀ branch, (f branch).operations = branch.operations ++ [op])
    (hexits : ∀ branch, branch.IsOpen → Exits b.labels op (f branch) b.size) :
    b.Ended current op (b.modify current f).openBranch.2 := by
  refine ended_of_get (by simp) rfl (fun id => ?_) hops hexits
  rw [get_openBranch, get_modify hcurrent]

lemma ended_openBranch_modify (hcurrent : current < b.size) {f : Branch → Branch}
    (hops : ∀ branch, (f branch).operations = branch.operations ++ [op])
    (hexits : ∀ branch, branch.IsOpen → Exits b.labels op (f branch) b.size) :
    b.Ended current op (b.openBranch.2.modify current f) := by
  refine ended_of_get (by simp) rfl (fun id => ?_) hops hexits
  rw [get_modify (by rw [size_openBranch]; omega), get_openBranch]

/-- What a label does: the current branch falls through to that of the label, which it begins. -/
def enterLabel (b : Branches) (current next : Nat) (op : Operation) : Branches :=
  (b.modify current fun branch => { branch with next := some next }).modify next (·.append op)

@[simp]
lemma size_enterLabel (b : Branches) (current next : Nat) (op : Operation) :
    (b.enterLabel current next op).size = b.size := by
  simp [enterLabel]

@[simp]
lemma labels_enterLabel (b : Branches) (current next : Nat) (op : Operation) :
    (b.enterLabel current next op).labels = b.labels := rfl

lemma get_enterLabel (hcurrent : current < b.size) (hnext : next < b.size) (hne : current ≠ next)
    (op : Operation) (id : Nat) :
    (b.enterLabel current next op).get id =
      if id = next then (b.get next).append op
      else if id = current then { b.get current with next := some next } else b.get id := by
  rw [enterLabel, get_modify (by simpa using hnext), get_modify hcurrent]
  by_cases hid : id = next
  · subst hid
    simp [hne]
  · by_cases hid' : id = current
    · subst hid'
      simp [hid, Ne.symm hid]
    · simp [hid, hid', Ne.symm hid, Ne.symm hid']

/-- All that placing an operation can do. -/
lemma place_cases (hcurrent : current < b.size) (h : b.place current op = .ok (b', next)) :
    (op.instruction = .label ∧ b.labels.lookup op.labelName = some next ∧
      b' = b.enterLabel current next op) ∨
    (op.instruction.endsBranch = true ∧ next = b.size ∧ b.Ended current op b') ∨
    (op.instruction ≠ .label ∧ op.instruction.endsBranch = false ∧ next = current ∧
      b' = b.modify current (·.append op)) := by
  unfold place at h
  split at h
  case h_1 hop =>
    obtain ⟨target, htarget, h⟩ := exists_of_bind_eq_ok h
    cases h
    exact Or.inl ⟨hop, resolve_eq_ok htarget, rfl⟩
  case h_2 hop =>
    obtain ⟨target, htarget, h⟩ := exists_of_bind_eq_ok h
    cases h
    refine Or.inr (Or.inl ⟨by simp [hop, Instruction.endsBranch, Instruction.jumps],
      size_modify .., ?_⟩)
    refine ended_modify_openBranch hcurrent (fun _ => rfl) (fun branch hopen => ?_)
    have hlookup := resolve_eq_ok htarget
    constructor <;> simp [hop, Instruction.jumps, Instruction.resumes, hlookup, Branch.append,
      hopen.next, hopen.calls, hopen.returns]
  -- the conditional jumps and the call differ in what they leave in `calls` alone
  case h_3 hop | h_4 hop | h_5 hop =>
    obtain ⟨target, htarget, h⟩ := exists_of_bind_eq_ok h
    cases h
    refine Or.inr (Or.inl ⟨by simp [hop, Instruction.endsBranch, Instruction.jumps], rfl, ?_⟩)
    refine ended_openBranch_modify hcurrent (fun _ => rfl) (fun branch hopen => ?_)
    have hlookup := resolve_eq_ok htarget
    constructor <;> simp [hop, Instruction.jumps, Instruction.resumes, hlookup, Branch.append, size,
      hopen.calls, hopen.returns]
  case h_6 hop =>
    cases h
    refine Or.inr (Or.inl ⟨by simp [hop, Instruction.endsBranch], size_modify .., ?_⟩)
    refine ended_modify_openBranch hcurrent (fun _ => rfl) (fun branch hopen => ?_)
    constructor <;> simp [hop, Instruction.jumps, Instruction.resumes, Branch.append, hopen.target,
      hopen.next, hopen.calls]
  case h_7 hop =>
    cases h
    refine Or.inr (Or.inl ⟨by simp [hop, Instruction.endsBranch], size_modify .., ?_⟩)
    refine ended_modify_openBranch hcurrent (fun _ => rfl) (fun branch hopen => ?_)
    constructor <;> simp [hop, Instruction.jumps, Instruction.resumes, Branch.append, hopen.target,
      hopen.next, hopen.calls, hopen.returns]
  case h_8 =>
    cases h
    refine Or.inr (Or.inr ⟨by assumption, ?_, rfl, rfl⟩)
    cases hop : op.instruction <;> simp_all [Instruction.endsBranch, Instruction.jumps]

/-! ### The branches while operations are put -/

/-- The branches of the labels that are still to be met. -/
def upcoming (labels : List (Label × Nat)) (ops : List Operation) : List Nat :=
  ops.filterMap fun op => if op.instruction = .label then labels.lookup op.labelName else none

lemma upcoming_cons_of_label (ops : List Operation) (hop : op.instruction = .label)
    (hnext : b.labels.lookup op.labelName = some next) :
    upcoming b.labels (op :: ops) = next :: upcoming b.labels ops := by
  simp [upcoming, hop, hnext]

lemma upcoming_cons_of_ne_label (labels : List (Label × Nat)) (ops : List Operation)
    (hop : op.instruction ≠ .label) :
    upcoming labels (op :: ops) = upcoming labels ops := by
  simp [upcoming, hop]

lemma mem_upcoming_cons {labels : List (Label × Nat)} (hid : id ∈ upcoming labels ops) :
    id ∈ upcoming labels (op :: ops) := by
  obtain ⟨other, hmem, hother⟩ := List.mem_filterMap.mp hid
  exact List.mem_filterMap.mpr ⟨other, List.mem_cons_of_mem _ hmem, hother⟩

lemma ne_label_of_endsBranch (hop : op.instruction.endsBranch = true) :
    op.instruction ≠ .label := by
  intro h
  simp [h, Instruction.endsBranch, Instruction.jumps] at hop

/-- What holds before the operations `ops` are put, the first of them into `current`. -/
structure Ready (b : Branches) (current : Nat) (ops : List Operation) : Prop where
  current_lt   : current < b.size
  isOpen       : (b.get current).IsOpen
  nodup        : (current :: upcoming b.labels ops).Nodup
  upcoming_lt  : ∀ id ∈ upcoming b.labels ops, id < b.size
  blank        : ∀ id ∈ upcoming b.labels ops,
    (b.get id).operations = [] ∧ (b.get id).IsOpen
  labels_lt    : ∀ name id, b.labels.lookup name = some id → id < b.size
  followers_lt : ∀ id, ∀ k ∈ b.followers id, k < b.size

namespace Ready

lemma current_notMem (h : b.Ready current ops) : current ∉ upcoming b.labels ops :=
  (List.nodup_cons.mp h.nodup).1

lemma get_label (h : b.Ready current (op :: ops)) (hop : op.instruction = .label)
    (hnext : b.labels.lookup op.labelName = some next) (id : Nat) :
    (b.enterLabel current next op).get id =
      if id = next then (b.get next).append op
      else if id = current then { b.get current with next := some next } else b.get id := by
  have hnot := h.current_notMem
  rw [upcoming_cons_of_label ops hop hnext] at hnot
  exact get_enterLabel h.current_lt (h.labels_lt _ _ hnext) (List.ne_of_not_mem_cons hnot) op id

/-- Branches that are neither left nor entered stay as they are. -/
lemma get_place (h : b.Ready current (op :: ops)) (hplace : b.place current op = .ok (b', next))
    (hid : id ≠ current) (hid' : id ≠ next) : b'.get id = b.get id := by
  rcases place_cases h.current_lt hplace with ⟨hop, hnext, rfl⟩ | ⟨-, -, hended⟩ | ⟨-, -, -, rfl⟩
  · rw [h.get_label hop hnext, if_neg hid', if_neg hid]
  · exact hended.others id hid
  · rw [get_modify h.current_lt, if_neg (Ne.symm hid)]

lemma labels_place (h : b.Ready current (op :: ops))
    (hplace : b.place current op = .ok (b', next)) : b'.labels = b.labels := by
  rcases place_cases h.current_lt hplace with ⟨-, -, rfl⟩ | ⟨-, -, hended⟩ | ⟨-, -, -, rfl⟩
  · rfl
  · exact hended.labels
  · rfl

lemma size_le_place (h : b.Ready current (op :: ops))
    (hplace : b.place current op = .ok (b', next)) : b.size ≤ b'.size := by
  rcases place_cases h.current_lt hplace with ⟨-, -, rfl⟩ | ⟨-, -, hended⟩ | ⟨-, -, -, rfl⟩
  · simp
  · exact hended.size ▸ Nat.le_succ _
  · simp

/-- Operations that have been put stay where they are. -/
lemma operations_place (h : b.Ready current (op :: ops))
    (hplace : b.place current op = .ok (b', next)) (id : Nat) :
    (b.get id).operations <+: (b'.get id).operations := by
  rcases place_cases h.current_lt hplace with ⟨hop, hnext, rfl⟩ | ⟨-, -, hended⟩ | ⟨-, -, -, rfl⟩
  · rw [h.get_label hop hnext]
    split
    · rename_i heq
      exact heq ▸ List.prefix_append _ _
    · split
      · rename_i heq
        exact heq ▸ List.prefix_rfl
      · exact List.prefix_rfl
  · by_cases hid : id = current
    · rw [hid, hended.operations]
      exact List.prefix_append _ _
    · rw [hended.others id hid]
  · rw [get_modify h.current_lt]
    split
    · exact List.prefix_append _ _
    · exact List.prefix_rfl

lemma place_label (h : b.Ready current (op :: ops)) (hop : op.instruction = .label)
    (hnext : b.labels.lookup op.labelName = some next) :
    (b.enterLabel current next op).Ready next ops := by
  have hget := h.get_label hop hnext
  have hup := upcoming_cons_of_label ops hop hnext
  have hnodup : (current :: next :: upcoming b.labels ops).Nodup := hup ▸ h.nodup
  have hblank := h.blank next (hup ▸ List.mem_cons_self)
  constructor
  case current_lt => simpa using h.labels_lt _ _ hnext
  case isOpen =>
    rw [hget, if_pos rfl]
    exact hblank.2.append op
  case nodup => exact (List.nodup_cons.mp hnodup).2
  case upcoming_lt =>
    intro id hid
    simpa using h.upcoming_lt id (mem_upcoming_cons hid)
  case blank =>
    intro id hid
    have hne : id ≠ next := fun heq =>
      (List.nodup_cons.mp (List.nodup_cons.mp hnodup).2).1 (heq ▸ hid)
    have hne' : id ≠ current := fun heq => h.current_notMem (heq ▸ mem_upcoming_cons hid)
    rw [hget, if_neg hne, if_neg hne']
    exact h.blank id (mem_upcoming_cons hid)
  case labels_lt => simpa using h.labels_lt
  case followers_lt =>
    intro id k hk
    simp only [size_enterLabel, followers, hget] at hk ⊢
    split at hk
    · exact h.followers_lt next k hk
    · split at hk
      · have hk : k = next := by simpa [h.isOpen.target] using hk
        exact hk ▸ h.labels_lt _ _ hnext
      · exact h.followers_lt id k hk

lemma place_ended (h : b.Ready current (op :: ops)) (hop : op.instruction.endsBranch = true)
    (hended : b.Ended current op b') : b'.Ready b.size ops := by
  have hup := upcoming_cons_of_ne_label b.labels ops (ne_label_of_endsBranch hop)
  have hlt : ∀ id ∈ upcoming b.labels ops, id < b.size := fun id hid =>
    h.upcoming_lt id (hup ▸ hid)
  constructor
  case current_lt => exact hended.size ▸ Nat.lt_succ_self _
  case isOpen =>
    rw [hended.others _ h.current_lt.ne', get_of_size_le le_rfl]
    exact Branch.isOpen_empty
  case nodup =>
    rw [hended.labels, List.nodup_cons]
    exact ⟨fun hmem => Nat.lt_irrefl _ (hlt _ hmem), hup ▸ (List.nodup_cons.mp h.nodup).2⟩
  case upcoming_lt =>
    intro id hid
    rw [hended.labels] at hid
    rw [hended.size]
    exact Nat.lt_succ_of_lt (hlt id hid)
  case blank =>
    intro id hid
    rw [hended.labels, ← hup] at hid
    have hne : id ≠ current := fun heq => h.current_notMem (heq ▸ hid)
    rw [hended.others id hne]
    exact h.blank id hid
  case labels_lt =>
    intro name id hid
    rw [hended.labels] at hid
    rw [hended.size]
    exact Nat.lt_succ_of_lt (h.labels_lt name id hid)
  case followers_lt =>
    intro id k hk
    rw [hended.size]
    by_cases hid : id = current
    · have hexits := hended.exits h.isOpen
      subst hid
      simp only [followers, hexits.next, hexits.target, List.mem_append] at hk
      rcases hk with hk | hk
      · split at hk <;> simp at hk
        omega
      · split at hk <;> simp at hk
        exact Nat.lt_succ_of_lt (h.labels_lt _ _ hk)
    · rw [followers, hended.others id hid] at hk
      exact Nat.lt_succ_of_lt (h.followers_lt id k hk)

lemma place_inner (h : b.Ready current (op :: ops)) (hop : op.instruction ≠ .label) :
    (b.modify current (·.append op)).Ready current ops := by
  have hup := upcoming_cons_of_ne_label b.labels ops hop
  have hget := get_modify h.current_lt (·.append op)
  constructor
  case current_lt => simpa using h.current_lt
  case isOpen =>
    rw [hget, if_pos rfl]
    exact h.isOpen.append op
  case nodup => exact hup ▸ h.nodup
  case upcoming_lt => simpa [hup] using h.upcoming_lt
  case blank =>
    intro id hid
    rw [labels_modify, ← hup] at hid
    have hne : current ≠ id := fun heq => h.current_notMem (heq ▸ hid)
    rw [hget, if_neg hne]
    exact h.blank id hid
  case labels_lt => simpa using h.labels_lt
  case followers_lt =>
    intro id k hk
    simp only [size_modify, followers, hget] at hk ⊢
    split at hk
    · exact h.followers_lt id k hk
    · exact h.followers_lt id k hk

lemma place (h : b.Ready current (op :: ops)) (hplace : b.place current op = .ok (b', next)) :
    b'.Ready next ops := by
  rcases place_cases h.current_lt hplace with
    ⟨hop, hnext, rfl⟩ | ⟨hop, rfl, hended⟩ | ⟨hop, -, rfl, rfl⟩
  · exact h.place_label hop hnext
  · exact h.place_ended hop hended
  · exact h.place_inner hop

end Ready

/-! ### The finished branches -/

lemma exists_place_of_placeAll (h : b.placeAll current (op :: ops) = .ok b') :
    ∃ b₁ next, b.place current op = .ok (b₁, next) ∧ b₁.placeAll next ops = .ok b' := by
  obtain ⟨⟨b₁, next⟩, hplace, h⟩ := exists_of_bind_eq_ok h
  exact ⟨b₁, next, hplace, h⟩

/-- What the remaining operations leave of the branches there are. -/
structure Kept (b : Branches) (current : Nat) (ops : List Operation) (b' : Branches) : Prop where
  labels       : b'.labels = b.labels
  operations   : ∀ id, (b.get id).operations <+: (b'.get id).operations
  others       : ∀ id < b.size, id ∉ current :: upcoming b.labels ops → b'.get id = b.get id
  size_le      : b.size ≤ b'.size
  followers_lt : ∀ id, ∀ k ∈ b'.followers id, k < b'.size

lemma Ready.kept (hready : b.Ready current ops) (h : b.placeAll current ops = .ok b') :
    b.Kept current ops b' := by
  induction ops generalizing b current with
  | nil =>
    cases h
    exact ⟨rfl, fun _ => List.prefix_rfl, fun _ _ _ => rfl, le_rfl, hready.followers_lt⟩
  | cons op ops ih =>
    obtain ⟨b₁, next, hplace, h⟩ := exists_place_of_placeAll h
    have hkept := ih (hready.place hplace) h
    have hlabels := hready.labels_place hplace
    refine ⟨hkept.labels.trans hlabels,
      fun id => (hready.operations_place hplace id).trans (hkept.operations id),
      fun id hlt hid => ?_, (hready.size_le_place hplace).trans hkept.size_le,
      hkept.followers_lt⟩
    rw [List.mem_cons, not_or] at hid
    obtain ⟨hne, hup⟩ := hid
    -- what the operation goes on to is a label still to come, a new branch or the current one
    have hnot : id ≠ next ∧ id ∉ upcoming b.labels ops := by
      rcases place_cases hready.current_lt hplace with
        ⟨hop, hnext, -⟩ | ⟨hop, rfl, -⟩ | ⟨hop, -, rfl, -⟩
      · rw [upcoming_cons_of_label ops hop hnext, List.mem_cons, not_or] at hup
        exact hup
      · rw [upcoming_cons_of_ne_label _ _ (ne_label_of_endsBranch hop)] at hup
        exact ⟨hlt.ne, hup⟩
      · rw [upcoming_cons_of_ne_label _ _ hop] at hup
        exact ⟨hne, hup⟩
    have hlt' : id < b₁.size := hlt.trans_le (hready.size_le_place hplace)
    rw [hkept.others id hlt' (by simpa [hlabels] using hnot), hready.get_place hplace hne hnot.1]

/-- Beginning at place `slot` of branch `current`, the operations stand in the branches at the given
places, and the ways out of the branches are those of the operations. -/
inductive Laid (b : Branches) : Nat → Nat → List Operation → List (Nat × Nat) → Prop where
  | nil {current slot : Nat} (hlength : (b.get current).operations.length = slot)
      (hopen : (b.get current).IsOpen) : Laid b current slot [] []
  | label {current slot next : Nat} {op : Operation} {ops : List Operation}
      {places : List (Nat × Nat)} (hop : op.instruction = .label)
      (hnext : b.labels.lookup op.labelName = some next)
      (hfalls : (b.get current).FallsTo slot next)
      (hput : (b.get next).operations[0]? = some op) (hlaid : Laid b next 1 ops places) :
      Laid b current slot (op :: ops) ((next, 0) :: places)
  | last {current slot : Nat} (fresh : Nat) {op : Operation} {ops : List Operation}
      {places : List (Nat × Nat)} (hop : op.instruction.endsBranch = true)
      (hput : (b.get current).operations[slot]? = some op)
      (hlength : (b.get current).operations.length = slot + 1)
      (hexits : Exits b.labels op (b.get current) fresh) (hlaid : Laid b fresh 0 ops places) :
      Laid b current slot (op :: ops) ((current, slot) :: places)
  | inner {current slot : Nat} {op : Operation} {ops : List Operation}
      {places : List (Nat × Nat)} (hop : op.instruction ≠ .label)
      (hop' : op.instruction.endsBranch = false)
      (hput : (b.get current).operations[slot]? = some op)
      (hlaid : Laid b current (slot + 1) ops places) :
      Laid b current slot (op :: ops) ((current, slot) :: places)

/-- The operation stands at place `slot` of branch `current`, and the others behind it. -/
structure Put (b : Branches) (current slot : Nat) (op : Operation) (ops : List Operation)
    (places : List (Nat × Nat)) : Prop where
  operation : (b.get current).operations[slot]? = some op
  label     : op.instruction = .label → slot = 0 ∧ b.labels.lookup op.labelName = some current
  inner     : op.instruction.endsBranch = false → b.Laid current (slot + 1) ops places
  last      : op.instruction.endsBranch = true → ∃ fresh,
    (b.get current).operations.length = slot + 1 ∧ Exits b.labels op (b.get current) fresh ∧
      b.Laid fresh 0 ops places

namespace Laid

variable {slot : Nat} {places : List (Nat × Nat)}

/-- The first operation stands where the layout begins, or falls through to a label's branch. -/
lemma put_cons (h : b.Laid current slot (op :: ops) places) :
    ∃ id place rest, places = (id, place) :: rest ∧ b.Put id place op ops rest ∧
      (id = current ∧ place = slot ∨ place = 0 ∧ (b.get current).FallsTo slot id) := by
  cases h with
  | label hop hnext hfalls hput hlaid =>
    refine ⟨_, 0, _, rfl, ⟨hput, fun _ => ⟨rfl, hnext⟩, fun _ => hlaid, fun hends => ?_⟩,
      Or.inr ⟨rfl, hfalls⟩⟩
    exact absurd hop (ne_label_of_endsBranch hends)
  | last fresh hop hput hlength hexits hlaid =>
    refine ⟨_, _, _, rfl, ⟨hput, fun hlabel => ?_, fun hends => ?_, fun _ => ?_⟩,
      Or.inl ⟨rfl, rfl⟩⟩
    · exact absurd hlabel (ne_label_of_endsBranch hop)
    · exact absurd hop (by simp [hends])
    · exact ⟨fresh, hlength, hexits, hlaid⟩
  | inner hop hop' hput hlaid =>
    refine ⟨_, _, _, rfl, ⟨hput, fun hlabel => absurd hlabel hop, fun _ => hlaid, fun hends => ?_⟩,
      Or.inl ⟨rfl, rfl⟩⟩
    exact absurd hends (by simp [hop'])

lemma drop (h : b.Laid current slot ops places) {i : Nat} (hi : i ≤ ops.length) :
    ∃ id place, b.Laid id place (ops.drop i) (places.drop i) := by
  induction i generalizing current slot ops places with
  | zero => exact ⟨current, slot, by simpa using h⟩
  | succ i ih =>
    cases h with
    | nil => simp at hi
    | label hop hnext hfalls hput hlaid => exact ih hlaid (by simpa using hi)
    | last fresh hop hput hlength hexits hlaid => exact ih hlaid (by simpa using hi)
    | inner hop hop' hput hlaid => exact ih hlaid (by simpa using hi)

/-- The operation at a position stands where the layout goes on from there, or falls through to the
branch of a label. -/
lemma put_drop {i : Nat} (h : b.Laid current slot (ops.drop i) (places.drop i))
    (hop : ops[i]? = some op) :
    ∃ id place, places[i]? = some (id, place) ∧
      b.Put id place op (ops.drop (i + 1)) (places.drop (i + 1)) ∧
      (id = current ∧ place = slot ∨ place = 0 ∧ (b.get current).FallsTo slot id) := by
  rw [List.drop_eq_getElem?_toList_append, hop] at h
  obtain ⟨id, place, rest, hrest, hput, hplace⟩ := h.put_cons
  refine ⟨id, place, by simpa using congrArg List.head? hrest, ?_, hplace⟩
  have htail : places.drop (i + 1) = rest := by simpa using congrArg List.tail hrest
  exact htail ▸ hput

/-- Every operation stands at its place. -/
lemma put (h : b.Laid current slot ops places) {i : Nat} (hop : ops[i]? = some op) :
    ∃ id place, places[i]? = some (id, place) ∧
      b.Put id place op (ops.drop (i + 1)) (places.drop (i + 1)) := by
  obtain ⟨current', slot', hlaid⟩ := h.drop (List.getElem?_eq_some_iff.mp hop).1.le
  obtain ⟨id, place, hplace, hput, -⟩ := hlaid.put_drop hop
  exact ⟨id, place, hplace, hput⟩

end Laid

lemma getElem?_of_isPrefix {l₁ l₂ : List Operation} (h : l₁ ++ [op] <+: l₂) :
    l₂[l₁.length]? = some op := by
  obtain ⟨l₃, rfl⟩ := h
  simp

namespace Ready

lemma laid_label {places : List (Nat × Nat)} (h : b.Ready current (op :: ops))
    (hop : op.instruction = .label) (hnext : b.labels.lookup op.labelName = some next)
    (hkept : (b.enterLabel current next op).Kept next ops b')
    (hleft : b'.get current = (b.enterLabel current next op).get current)
    (hlaid : b'.Laid next 1 ops places) :
    b'.Laid current (b.get current).operations.length (op :: ops) ((next, 0) :: places) := by
  have hget := h.get_label hop hnext
  have hup := upcoming_cons_of_label ops hop hnext
  have hblank := (h.blank next (hup ▸ List.mem_cons_self)).1
  have hne : current ≠ next := fun heq => h.current_notMem (by simp [hup, heq])
  rw [hget, if_neg hne, if_pos rfl] at hleft
  have hput := hkept.operations next
  rw [hget, if_pos rfl] at hput
  refine .label hop (hkept.labels ▸ hnext) ?_ ?_ hlaid
  · constructor <;> simp [hleft, h.isOpen.target, h.isOpen.calls, h.isOpen.returns]
  · simpa [hblank] using getElem?_of_isPrefix hput

lemma laid_ended {places : List (Nat × Nat)} (h : b.Ready current (op :: ops))
    {b₁ : Branches} (hop : op.instruction.endsBranch = true) (hended : b.Ended current op b₁)
    (hlabels : b'.labels = b₁.labels) (hleft : b'.get current = b₁.get current)
    (hlaid : b'.Laid b.size 0 ops places) :
    b'.Laid current (b.get current).operations.length (op :: ops)
      ((current, (b.get current).operations.length) :: places) := by
  have hoperations := hended.operations
  rw [← hleft] at hoperations
  refine .last b.size hop ?_ ?_ ?_ hlaid
  · simp [hoperations]
  · simp [hoperations]
  · rw [hlabels, hended.labels, hleft]
    exact hended.exits h.isOpen

/-- A branch that is left is finished. -/
lemma get_left (h : b.Ready current (op :: ops)) {b₁ : Branches}
    (hplace : b.place current op = .ok (b₁, next)) (hkept : b₁.Kept next ops b')
    (hne : current ≠ next) : b'.get current = b₁.get current := by
  refine hkept.others current (h.current_lt.trans_le (h.size_le_place hplace)) ?_
  rw [h.labels_place hplace, List.mem_cons, not_or]
  exact ⟨hne, fun hmem => h.current_notMem (mem_upcoming_cons hmem)⟩

/-- Putting operations lays them out as they are numbered. -/
lemma laid (hready : b.Ready current ops) (h : b.placeAll current ops = .ok b') :
    b'.Laid current (b.get current).operations.length ops
      (layoutFrom b.labels current (b.get current).operations.length b.size ops) := by
  induction ops generalizing b current with
  | nil =>
    cases h
    exact .nil rfl hready.isOpen
  | cons op ops ih =>
    obtain ⟨b₁, next, hplace, h⟩ := exists_place_of_placeAll h
    have hready₁ := hready.place hplace
    have hkept := hready₁.kept h
    have hlaid := ih hready₁ h
    rw [hready.labels_place hplace] at hlaid
    have hleft := hready.get_left hplace hkept
    rcases place_cases hready.current_lt hplace with
      ⟨hop, hnext, rfl⟩ | ⟨hop, rfl, hended⟩ | ⟨hop, hop', hnext, rfl⟩
    · have hup := upcoming_cons_of_label ops hop hnext
      have hne : current ≠ next := fun heq => hready.current_notMem (by simp [hup, heq])
      have hblank := (hready.blank next (hup ▸ List.mem_cons_self)).1
      have hlength : ((b.get next).append op).operations.length = 1 := by
        simp [Branch.append, hblank]
      rw [hready.get_label hop hnext, if_pos rfl, hlength, size_enterLabel] at hlaid
      simp only [layoutFrom, hop, hnext, if_pos, Option.getD_some]
      exact hready.laid_label hop hnext hkept (hleft hne) hlaid
    · have hfresh : (b₁.get b.size).operations.length = 0 := by
        rw [hended.others _ hready.current_lt.ne', get_of_size_le le_rfl]
        rfl
      rw [hfresh, hended.size] at hlaid
      simp only [layoutFrom, ne_label_of_endsBranch hop, hop, if_true, if_false]
      exact hready.laid_ended hop hended hkept.labels (hleft hready.current_lt.ne) hlaid
    · subst hnext
      have hget : ((b.modify next (·.append op)).get next).operations =
          (b.get next).operations ++ [op] := by
        rw [get_modify hready.current_lt, if_pos rfl]
        rfl
      rw [hget, List.length_append, size_modify] at hlaid
      simp only [layoutFrom, hop, hop', if_false]
      exact .inner hop hop' (getElem?_of_isPrefix (hget ▸ hkept.operations next)) hlaid

end Ready

/-! ### Declaring labels -/

lemma lookup_zipIdx {names : List Label} {name : Label} {k : Nat}
    (h : (names.zipIdx k).lookup name = some id) : k ≤ id ∧ names[id - k]? = some name := by
  induction names generalizing k with
  | nil => cases h
  | cons other names ih =>
    rw [List.zipIdx_cons, List.lookup_cons] at h
    split at h
    · rename_i heq
      cases h
      simp [eq_of_beq heq]
    · obtain ⟨hle, hget⟩ := ih h
      obtain ⟨d, rfl⟩ := Nat.exists_eq_add_of_lt hle
      refine ⟨by omega, ?_⟩
      rw [show k + d + 1 - k = d + 1 by omega]
      simpa [show k + d + 1 - (k + 1) = d by omega] using hget

lemma notMem_of_lookup_zipIdx {names : List Label} {name : Label} {k : Nat}
    (h : (names.zipIdx k).lookup name = none) : name ∉ names := by
  induction names generalizing k with
  | nil => simp
  | cons other names ih =>
    rw [List.zipIdx_cons, List.lookup_cons] at h
    split at h
    · cases h
    · rename_i hne
      simp only [List.mem_cons, not_or]
      exact ⟨by simpa using hne, ih h⟩

/-- Every name has a branch of its own behind the entry, and nothing has been put yet. -/
structure Declared (b : Branches) (names : List Label) : Prop where
  labels : b.labels = names.zipIdx 1
  size   : b.size = names.length + 1
  blank  : ∀ id, (b.get id).operations = [] ∧ (b.get id).IsOpen
  nodup  : names.Nodup

lemma declared_initial : initial.Declared [] where
  labels := rfl
  size   := rfl
  blank  := fun id => by
    have : initial.get id = Branch.empty := by
      simp only [get, initial, Arena.get?_alloc]
      split <;> simp
    exact this ▸ ⟨rfl, Branch.isOpen_empty⟩
  nodup  := .nil

lemma declare_cases (h : b.declare op = .ok b') :
    (op.definedLabel? = none ∧ b' = b) ∨
    ∃ name, op.definedLabel? = some name ∧ b.labels.lookup name = none ∧
      b' = ⟨(b.arena.alloc { Branch.empty with label := some name }).2,
        b.labels ++ [(name, b.size)]⟩ := by
  unfold Branches.declare at h
  split at h
  · rename_i hop
    cases h
    exact Or.inl ⟨hop, rfl⟩
  · rename_i name hop
    split at h
    · cases h
    · rename_i hlookup
      cases h
      exact Or.inr ⟨name, hop, hlookup, rfl⟩

lemma Declared.declare {names : List Label} (h : b.Declared names)
    (hdeclare : b.declare op = .ok b') : b'.Declared (names ++ op.definedLabel?.toList) := by
  rcases declare_cases hdeclare with ⟨hop, rfl⟩ | ⟨name, hop, hlookup, rfl⟩
  · simpa [hop] using h
  · have hname := notMem_of_lookup_zipIdx (h.labels ▸ hlookup)
    rw [hop, Option.toList_some]
    refine ⟨?_, ?_, fun id => ?_, ?_⟩
    · simp [h.labels, h.size, List.zipIdx_append, Nat.add_comm]
    · rw [Branches.size, Arena.size_alloc, List.length_append, List.length_singleton, ← h.size]
      rfl
    · have hblank := h.blank id
      simp only [get, Arena.get?_alloc] at hblank ⊢
      split
      · exact ⟨rfl, rfl, rfl, rfl, rfl⟩
      · exact hblank
    · exact List.nodup_append_comm.mp (List.nodup_cons.mpr ⟨hname, h.nodup⟩)

lemma definedLabels_cons (op : Operation) (ops : List Operation) :
    definedLabels (op :: ops) = op.definedLabel?.toList ++ definedLabels ops := by
  cases hop : op.definedLabel? <;> simp [definedLabels, hop]

lemma Declared.foldlM {names : List Label} (h : b.Declared names)
    (hfold : ops.foldlM Branches.declare b = .ok b') :
    b'.Declared (names ++ definedLabels ops) := by
  induction ops generalizing b names with
  | nil =>
    cases hfold
    simpa [definedLabels] using h
  | cons op ops ih =>
    rw [List.foldlM_cons] at hfold
    obtain ⟨b₁, hdeclare, hfold⟩ := exists_of_bind_eq_ok hfold
    rw [definedLabels_cons, ← List.append_assoc]
    exact ih (h.declare hdeclare) hfold

lemma upcoming_eq_filterMap (labels : List (Label × Nat)) (hops : ∀ op ∈ ops, op.WellKinded) :
    upcoming labels ops = (definedLabels ops).filterMap fun name => labels.lookup name := by
  rw [upcoming, definedLabels, List.filterMap_filterMap]
  refine List.filterMap_congr fun op hop => ?_
  by_cases hlabel : op.instruction = .label
  · have hkind : op.instruction.argKind = .label := by rw [hlabel]; rfl
    simp [Operation.definedLabel?, hlabel, Operation.label?_of_wellKinded (hops op hop) hkind]
  · simp [Operation.definedLabel?, hlabel]

lemma Declared.ready (h : b.Declared (definedLabels ops)) (hops : ∀ op ∈ ops, op.WellKinded) :
    b.Ready entry ops := by
  have hlookup : ∀ name id, b.labels.lookup name = some id → entry < id ∧ id < b.size ∧
      (definedLabels ops)[id - 1]? = some name := fun name id hid => by
    obtain ⟨hle, hget⟩ := lookup_zipIdx (h.labels ▸ hid)
    have hlt := (List.getElem?_eq_some_iff.mp hget).1
    rw [h.size]
    exact ⟨hle, by omega, hget⟩
  have hmem : ∀ id ∈ upcoming b.labels ops, entry < id ∧ id < b.size := fun id hid => by
    rw [upcoming_eq_filterMap _ hops] at hid
    obtain ⟨name, -, hid⟩ := List.mem_filterMap.mp hid
    exact ⟨(hlookup name id hid).1, (hlookup name id hid).2.1⟩
  constructor
  case current_lt => exact h.size ▸ Nat.succ_pos _
  case isOpen => exact (h.blank entry).2
  case nodup =>
    refine List.nodup_cons.mpr ⟨fun hid => Nat.lt_irrefl _ (hmem _ hid).1, ?_⟩
    rw [upcoming_eq_filterMap _ hops]
    refine h.nodup.filterMap fun name name' id hid hid' => ?_
    have hget := (hlookup name id hid).2.2
    rw [(hlookup name' id hid').2.2] at hget
    exact (Option.some.inj hget).symm
  case upcoming_lt => exact fun id hid => (hmem id hid).2
  case blank => exact fun id _ => h.blank id
  case labels_lt => exact fun name id hid => (hlookup name id hid).2.1
  case followers_lt =>
    intro id k hk
    simp [followers, (h.blank id).2.next, (h.blank id).2.target] at hk

/-- Extraction lays the operations out as they are numbered. -/
theorem laid_of_extract (hops : ∀ op ∈ ops, op.WellKinded) (h : extract ops = .ok b) :
    b.Laid entry 0 ops (layout ops) := by
  obtain ⟨b₀, hdeclare, h⟩ := exists_of_bind_eq_ok h
  have hdeclared := declared_initial.foldlM hdeclare
  have hready := hdeclared.ready hops
  simpa [layout, labelBranches, (hdeclared.blank entry).1, hdeclared.labels, hdeclared.size]
    using hready.laid h

/-- Control never leaves the branches there are. -/
structure Bounded (b : Branches) : Prop where
  entry_lt     : entry < b.size
  followers_lt : ∀ id, ∀ next ∈ b.followers id, next < b.size

theorem bounded_of_extract (hops : ∀ op ∈ ops, op.WellKinded) (h : extract ops = .ok b) :
    b.Bounded := by
  obtain ⟨b₀, hdeclare, h⟩ := exists_of_bind_eq_ok h
  have hready := (declared_initial.foldlM hdeclare).ready hops
  have hkept := hready.kept h
  exact ⟨hready.current_lt.trans_le hkept.size_le, hkept.followers_lt⟩

end Branches

end ZeroWidth
