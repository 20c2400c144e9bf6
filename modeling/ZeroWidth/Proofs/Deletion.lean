import ZeroWidth.Proofs.Placing

/-!
# Deleting an operation

An operation that neither begins nor ends a branch may be deleted from a program: all others stay in
their branches, and only those that stood behind it in its branch move up by one place. Where
control goes from a branch stays as it was.
-/

namespace ZeroWidth

/-! ### Numbers with one more between them -/

/-- The number of what is number `n` if there is no number `position`. -/
def shift (position n : Nat) : Nat := if n < position then n else n + 1

lemma shift_ne (position n : Nat) : shift position n ≠ position := by
  unfold shift
  split <;> omega

lemma shift_injective (position : Nat) : Function.Injective (shift position) := by
  intro m n h
  unfold shift at h
  split at h <;> split at h <;> omega

lemma exists_shift_eq {position n : Nat} (h : n ≠ position) : ∃ m, n = shift position m := by
  unfold shift
  rcases Nat.lt_or_gt_of_ne h with hlt | hgt
  · exact ⟨n, (if_pos hlt).symm⟩
  · refine ⟨n - 1, ?_⟩
    rw [if_neg (by omega)]
    omega

lemma getElem?_append_cons_shift {α : Type} (front back : List α) (a : α) (i : Nat) :
    (front ++ a :: back)[shift front.length i]? = (front ++ back)[i]? := by
  unfold shift
  split
  · rename_i hlt
    rw [List.getElem?_append_left hlt, List.getElem?_append_left hlt]
  · rename_i hge
    rw [List.getElem?_append_right (by omega), List.getElem?_append_right (by omega),
      show i + 1 - front.length = i - front.length + 1 by omega, List.getElem?_cons_succ]

/-- The place in branch `other` of what is at place `k` of it if there is no place `slot` of branch
`id`. -/
def shiftIn (id slot other k : Nat) : Nat := if other = id then shift slot k else k

/-- The same for a place together with its branch. -/
def bump (id slot : Nat) (place : Nat × Nat) : Nat × Nat :=
  (place.1, shiftIn id slot place.1 place.2)

/-! ### The layout -/

/-- What stands behind a place moves down by one if something is put there. -/
lemma layoutFrom_bump {labels : List (Label × Nat)} {current id slot place fresh : Nat}
    {ops : List Operation} (hfresh : id < fresh)
    (hlabels : ∀ op ∈ ops, op.instruction = .label →
      ∃ next, labels.lookup op.labelName = some next ∧ next ≠ id)
    (hslot : current = id → slot ≤ place) :
    layoutFrom labels current (if current = id then place + 1 else place) fresh ops =
      (layoutFrom labels current place fresh ops).map (bump id slot) := by
  induction ops generalizing current place fresh with
  | nil => rfl
  | cons op ops ih =>
    have hrest : ∀ op ∈ ops, op.instruction = .label →
        ∃ next, labels.lookup op.labelName = some next ∧ next ≠ id := fun other hother =>
      hlabels other (List.mem_cons_of_mem op hother)
    by_cases hop : op.instruction = .label
    · obtain ⟨next, hnext, hne⟩ := hlabels op List.mem_cons_self hop
      have htail := @ih next 1 fresh hfresh hrest (fun heq => absurd heq hne)
      rw [if_neg hne] at htail
      simp only [layoutFrom, hop, hnext, if_true, Option.getD_some, List.map_cons]
      exact congrArg₂ List.cons (by simp [bump, shiftIn, hne]) htail
    · have hhead : (current, if current = id then place + 1 else place) =
          bump id slot (current, place) := by
        by_cases heq : current = id
        · simp [bump, shiftIn, shift, heq, hslot heq]
        · simp [bump, shiftIn, heq]
      by_cases hends : op.instruction.endsBranch = true
      · have htail := @ih fresh 0 (fresh + 1) (Nat.lt_succ_of_lt hfresh) hrest
          (fun heq => absurd heq hfresh.ne')
        rw [if_neg hfresh.ne'] at htail
        simp only [layoutFrom, hop, hends, if_false, if_true, List.map_cons]
        exact congrArg₂ List.cons hhead htail
      · have htail := @ih current (place + 1) fresh hfresh hrest
          (fun heq => Nat.le_succ_of_le (hslot heq))
        simp only [layoutFrom, hop, hends, if_false, Bool.false_eq_true, List.map_cons]
        refine congrArg₂ List.cons hhead ?_
        rw [← htail]
        split <;> rfl

namespace Branches

variable {b b' b₁ b₁' final final' : Branches} {current next next' id : Nat} {op a : Operation}
  {ops front back rest before : List Operation}

/-! ### The operations before it -/

/-- Placing the operations `front` leads from branch `current` of `b` to branch `next` of `b₁`,
whatever comes behind them. -/
structure LeadsTo (b : Branches) (current : Nat) (front : List Operation) (b₁ : Branches)
    (next : Nat) : Prop where
  labels     : b₁.labels = b.labels
  operations : ∀ id, (b.get id).operations <+: (b₁.get id).operations
  placeAll   : ∀ rest, b.placeAll current (front ++ rest) = b₁.placeAll next rest
  layout     : ∃ places : List (Nat × Nat), places.length = front.length ∧
    (∀ place ∈ places, place.2 < (b₁.get place.1).operations.length) ∧
    ∀ rest, layoutFrom b.labels current (b.get current).operations.length b.size (front ++ rest) =
      places ++ layoutFrom b₁.labels next (b₁.get next).operations.length b₁.size rest

lemma LeadsTo.refl (b : Branches) (current : Nat) : b.LeadsTo current [] b current :=
  ⟨rfl, fun _ => List.prefix_rfl, fun _ => rfl, [], rfl, by simp, fun _ => rfl⟩

/-- Where an operation that has just been placed is. -/
lemma Ready.layoutFrom_cons (hready : b.Ready current (op :: ops))
    (hplace : b.place current op = .ok (b₁, next)) :
    ∃ place : Nat × Nat, place.2 < (b₁.get place.1).operations.length ∧
      ∀ rest, layoutFrom b.labels current (b.get current).operations.length b.size (op :: rest) =
        place :: layoutFrom b.labels next (b₁.get next).operations.length b₁.size rest := by
  rcases place_cases hready.current_lt hplace with
    ⟨hop, hnext, rfl⟩ | ⟨hop, rfl, hended⟩ | ⟨hop, hop', rfl, rfl⟩
  · have hup := upcoming_cons_of_label ops hop hnext
    have hblank := (hready.blank next (hup ▸ List.mem_cons_self)).1
    have hlength : ((b.enterLabel current next op).get next).operations.length = 1 := by
      simp [hready.get_label hop hnext, Branch.append, hblank]
    refine ⟨(next, 0), by simp [hlength], fun rest => ?_⟩
    simp only [layoutFrom, hop, hnext, if_true, Option.getD_some, hlength, size_enterLabel]
  · have hfresh : (b₁.get b.size).operations.length = 0 := by
      rw [hended.others _ hready.current_lt.ne', get_of_size_le le_rfl]
      rfl
    refine ⟨(current, (b.get current).operations.length), by simp [hended.operations],
      fun rest => ?_⟩
    simp only [layoutFrom, ne_label_of_endsBranch hop, hop, if_true, if_false, hfresh, hended.size]
  · have hget : ((b.modify next (·.append op)).get next).operations =
        (b.get next).operations ++ [op] := by
      rw [get_modify hready.current_lt, if_pos rfl]
      rfl
    refine ⟨(next, (b.get next).operations.length), by simp [hget], fun rest => ?_⟩
    simp [layoutFrom, hop, hop', hget]

lemma Ready.exists_leadsTo (hready : b.Ready current (front ++ rest))
    (h : b.placeAll current (front ++ rest) = .ok final) :
    ∃ b₁ next, b.LeadsTo current front b₁ next ∧ b₁.Ready next rest := by
  induction front generalizing b current with
  | nil => exact ⟨b, current, LeadsTo.refl b current, hready⟩
  | cons op front ih =>
    obtain ⟨b₁, next, hplace, h⟩ := exists_place_of_placeAll h
    obtain ⟨b₂, last, hleads, hready₂⟩ := ih (hready.place hplace) h
    obtain ⟨place, hplaced, hlayout⟩ := hready.layoutFrom_cons hplace
    obtain ⟨places, hlength, hplaces, hrest⟩ := hleads.layout
    have hlabels := hready.labels_place hplace
    refine ⟨b₂, last, ⟨hleads.labels.trans hlabels, fun id => ?_, fun rest => ?_,
      place :: places, by simp [hlength], ?_, fun rest => ?_⟩, hready₂⟩
    · exact (hready.operations_place hplace id).trans (hleads.operations id)
    · rw [List.cons_append, Branches.placeAll, hplace]
      exact hleads.placeAll rest
    · intro other hother
      rcases List.mem_cons.mp hother with rfl | hother
      · exact hplaced.trans_le (hleads.operations other.1).length_le
      · exact hplaces other hother
    · rw [List.cons_append, hlayout, ← hlabels, hrest]
      rfl

/-! ### The operations behind it -/

/-- The branches `b` have operation `a` more than `b'`, in branch `id` behind the operations
`before`. -/
structure Gains (b' : Branches) (id : Nat) (before : List Operation) (a : Operation)
    (b : Branches) : Prop where
  size   : b.size = b'.size
  labels : b.labels = b'.labels
  others : ∀ other, other ≠ id → b.get other = b'.get other
  branch : ∃ after, (b'.get id).operations = before ++ after ∧
    b.get id = { b'.get id with operations := before ++ a :: after }

lemma Gains.mem (hgains : b'.Gains id before a b) {other : Nat}
    (hop : op ∈ (b'.get other).operations) : op ∈ (b.get other).operations := by
  by_cases hother : other = id
  · obtain ⟨after, hoperations, hget⟩ := hgains.branch
    rw [hother, hoperations] at hop
    rw [hother, hget]
    simp only [List.mem_append, List.mem_cons] at hop ⊢
    tauto
  · rwa [hgains.others other hother]

lemma Gains.sameWays (hgains : b'.Gains id before a b) : b'.SameWays b := by
  have hget : ∀ other, ∃ operations, b.get other = { b'.get other with operations } := by
    intro other
    by_cases hother : other = id
    · obtain ⟨after, -, hget⟩ := hgains.branch
      exact ⟨_, hother ▸ hget⟩
    · exact ⟨_, hgains.others other hother⟩
  constructor
  case size => exact hgains.size
  all_goals
    intro other
    obtain ⟨operations, hget⟩ := hget other
    rw [hget]

lemma gains_place (hcurrent : current < b.size) (hop : op.instruction ≠ .label)
    (hends : op.instruction.endsBranch = false) (h : b.place current op = .ok (b₁, next)) :
    next = current ∧ b.Gains current (b.get current).operations op b₁ := by
  rcases place_cases hcurrent h with ⟨hlabel, -⟩ | ⟨hlast, -⟩ | ⟨-, -, rfl, rfl⟩
  · exact absurd hlabel hop
  · simp [hends] at hlast
  · refine ⟨rfl, by simp, rfl, fun other hother => ?_, [], by simp, ?_⟩
    · rw [get_modify hcurrent, if_neg hother.symm]
    · rw [get_modify hcurrent, if_pos rfl]
      rfl

/-- Where control goes behind an operation depends on the labels and the number of branches. -/
lemma After.unique (hsize : b'.size = b.size) (hlabels : b'.labels = b.labels)
    (h : b.After current op next) (h' : b'.After current op next') : next = next' := by
  unfold After at h h'
  rw [hsize, hlabels] at h'
  split at h
  · rename_i hop
    rw [if_pos hop, h] at h'
    exact Option.some.inj h'
  · rename_i hop
    rw [if_neg hop, ← h] at h'
    exact h'.symm

lemma Gains.place (hgains : b'.Gains id before a b) (hb : b'.Confined current)
    (h' : b'.place current op = .ok (b₁', next')) (h : b.place current op = .ok (b₁, next)) :
    next = next' ∧ b₁'.Gains id before a b₁ := by
  have hplaced' := placed_of_place hb.current hb.labelled h'
  have hlabelled : b.Labelled := fun name id hid => by
    rw [hgains.labels] at hid
    exact hgains.size ▸ hb.labelled name id hid
  have hplaced := placed_of_place (hgains.size ▸ hb.current) hlabelled h
  obtain rfl := After.unique hgains.size.symm hgains.labels.symm hplaced.after hplaced'.after
  refine ⟨rfl, by rw [hplaced.size, hplaced'.size, hgains.size],
    by rw [hplaced.labels, hplaced'.labels, hgains.labels], fun other hother => ?_, ?_⟩
  · rw [hplaced.get, hplaced'.get, hgains.others other hother, hgains.labels]
  · obtain ⟨after, hoperations, hget⟩ := hgains.branch
    rw [hplaced.get, hplaced'.get, hget, hgains.labels]
    by_cases hid : id = if op.instruction = .label then next else current
    · refine ⟨after ++ [op], ?_, ?_⟩ <;> simp [Branch.place, hoperations, ← hid]
    · refine ⟨after, ?_, ?_⟩ <;> simp [Branch.place, hoperations, hid]

lemma Gains.placeAll (hgains : b'.Gains id before a b) (hb : b'.Confined current)
    (h' : b'.placeAll current ops = .ok final') (h : b.placeAll current ops = .ok final) :
    final'.Gains id before a final := by
  induction ops generalizing b b' current with
  | nil =>
    cases h
    cases h'
    exact hgains
  | cons op ops ih =>
    obtain ⟨b₁', next', hplace', h'⟩ := exists_place_of_placeAll h'
    obtain ⟨b₁, next, hplace, h⟩ := exists_place_of_placeAll h
    obtain ⟨rfl, hgains₁⟩ := hgains.place hb hplace' hplace
    exact ih hgains₁ (hb.place hplace') h' h

/-! ### Whole programs -/

lemma foldlM_declare_of_definedLabel?_eq_none (ha : a.definedLabel? = none) :
    (front ++ a :: back).foldlM declare b = (front ++ back).foldlM declare b := by
  have hdeclare : ∀ b : Branches, b.declare a = .ok b := fun b => by simp [declare, ha]
  rw [List.foldlM_append, List.foldlM_append]
  congr 1
  funext b
  rw [List.foldlM_cons, hdeclare]
  rfl

lemma definedLabels_of_definedLabel?_eq_none (ha : a.definedLabel? = none) :
    definedLabels (front ++ a :: back) = definedLabels (front ++ back) := by
  simp [definedLabels, ha]

lemma Ready.confined (h : b.Ready current ops) : b.Confined current :=
  ⟨⟨Nat.zero_lt_of_lt h.current_lt, h.followers_lt⟩, h.labels_lt, h.current_lt⟩

lemma Declared.exists_lookup (h : b.Declared (definedLabels ops))
    (hops : ∀ op ∈ ops, op.WellKinded) (hop : op ∈ ops) (hlabel : op.instruction = .label) :
    ∃ next, b.labels.lookup op.labelName = some next := by
  have hdefined : op.definedLabel? = some op.labelName := by
    rw [Operation.definedLabel?, if_pos hlabel]
    exact Operation.label?_of_wellKinded (hops op hop) (by rw [hlabel]; rfl)
  cases hlookup : b.labels.lookup op.labelName with
  | some next => exact ⟨next, rfl⟩
  | none =>
    refine absurd ?_ (notMem_of_lookup_zipIdx (h.labels ▸ hlookup))
    exact List.mem_filterMap.mpr ⟨op, hop, hdefined⟩

lemma Declared.layout_eq (h : b.Declared (definedLabels ops)) :
    layout ops =
      layoutFrom b.labels entry (b.get entry).operations.length b.size ops := by
  rw [layout, h.labels, h.size, (h.blank entry).1]
  rfl

/-- The layout with and without an operation, from where they part on. -/
lemma getElem?_shift {places behind : List (Nat × Nat)} {place : Nat × Nat} {slot : Nat}
    (hplaces : ∀ place ∈ places, place.1 = id → place.2 < slot) (i : Nat) :
    (places ++ place :: behind.map (bump id slot))[shift places.length i]? =
      ((places ++ behind)[i]?).map (bump id slot) := by
  have hsame : places.map (bump id slot) = places := by
    refine List.map_congr_left (fun place hplace => ?_) |>.trans (List.map_id places)
    rw [bump, shiftIn]
    split
    · rename_i heq
      rw [shift, if_pos (hplaces place hplace heq)]
      rfl
    · rfl
  rw [getElem?_append_cons_shift, ← List.getElem?_map, List.map_append, hsame]

/-- Deleting an operation that neither begins nor ends a branch leaves all others in their branches,
and moves those behind it in its branch up by one place. -/
theorem exists_gains_of_extract (hops : ∀ op ∈ front ++ a :: back, op.WellKinded)
    (hlabel : a.instruction ≠ .label) (hends : a.instruction.endsBranch = false)
    (h : extract (front ++ a :: back) = .ok b) (h' : extract (front ++ back) = .ok b') :
    ∃ id before, b'.Gains id before a b ∧
      ∀ i, (layout (front ++ a :: back))[shift front.length i]? =
        ((layout (front ++ back))[i]?).map (bump id before.length) := by
  have ha : a.definedLabel? = none := by rw [Operation.definedLabel?, if_neg hlabel]
  obtain ⟨b₀, hdeclare, h⟩ := exists_of_bind_eq_ok h
  obtain ⟨b₀', hdeclare', h'⟩ := exists_of_bind_eq_ok h'
  rw [foldlM_declare_of_definedLabel?_eq_none ha] at hdeclare
  obtain rfl : b₀ = b₀' := Except.ok.inj (hdeclare.symm.trans hdeclare')
  have hdeclared' : b₀.Declared (definedLabels (front ++ back)) :=
    declared_initial.foldlM hdeclare
  have hdeclared := hdeclared'
  rw [← definedLabels_of_definedLabel?_eq_none ha] at hdeclared
  obtain ⟨b₁, next, hleads, hready⟩ := (hdeclared.ready hops).exists_leadsTo h
  rw [hleads.placeAll] at h h'
  obtain ⟨b₂, next₂, hplace, hrest⟩ := exists_place_of_placeAll h
  obtain ⟨rfl, hgains⟩ := gains_place hready.current_lt hlabel hends hplace
  refine ⟨next₂, (b₁.get next₂).operations, hgains.placeAll hready.confined h' hrest, fun i => ?_⟩
  obtain ⟨places, hlength, hplaces, hlayout⟩ := hleads.layout
  have hlabels : ∀ op ∈ back, op.instruction = .label →
      ∃ next, b₁.labels.lookup op.labelName = some next ∧ next ≠ next₂ := by
    intro op hop hlabel
    have hmem : op ∈ front ++ a :: back := by simp [hop]
    obtain ⟨next, hnext⟩ := hdeclared.exists_lookup hops hmem hlabel
    rw [← hleads.labels] at hnext
    refine ⟨next, hnext, fun heq => hready.current_notMem ?_⟩
    exact List.mem_filterMap.mpr ⟨op, List.mem_cons_of_mem a hop, by rw [if_pos hlabel, hnext, heq]⟩
  have hbehind := layoutFrom_bump hready.current_lt hlabels fun (_ : next₂ = next₂) =>
    Nat.le_refl (b₁.get next₂).operations.length
  rw [if_pos rfl] at hbehind
  rw [hdeclared.layout_eq, hdeclared'.layout_eq, hlayout, hlayout, ← hlength]
  simp only [layoutFrom, hlabel, hends, if_false, Bool.false_eq_true, hbehind]
  exact getElem?_shift (fun place hplace heq => heq ▸ hplaces place hplace) i

end Branches

end ZeroWidth
