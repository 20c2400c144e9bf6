import Mathlib.Data.List.Range
import Mathlib.Logic.Function.Basic
import Mathlib.Logic.Relation
import ZeroWidth.Proofs.Layout

/-!
# Branches as runs of operations

Every branch holds a run of the operations, from some position on, and the runs of all branches
together are the operations, none of them twice. So it makes sense to speak of the branch that
begins at a position. Control that leaves a branch comes to the branch that begins behind it, or to
the one that begins with the label it names, and looks through empty branches only on the way.
-/

namespace ZeroWidth

/-- The branch does not end in a jump, a call or a return. -/
structure Branch.Quiet (branch : Branch) : Prop where
  target  : branch.target = none
  calls   : branch.calls = false
  returns : branch.returns = false

namespace Branches

variable {b b' : Branches} {current next id other first slot : Nat} {op : Operation}
  {done ops : List Operation} {start : Nat → Nat}

/-! ### Runs -/

/-- One operation is put at the end of a branch. -/
def Puts (b : Branches) (id : Nat) (op : Operation) (b' : Branches) : Prop :=
  ∀ other, (b'.get other).operations =
    if other = id then (b.get other).operations ++ [op] else (b.get other).operations

/-- The places there are, and one more. -/
lemma Puts.lt_iff (h : b.Puts id op b') {place : Nat × Nat} :
    place.2 < (b'.get place.1).operations.length ↔
      place.2 < (b.get place.1).operations.length ∨
        place = (id, (b.get id).operations.length) := by
  obtain ⟨other, slot⟩ := place
  rw [h, Prod.mk.injEq]
  by_cases heq : other = id
  · subst heq
    simp only [if_true, List.length_append, List.length_singleton, true_and]
    omega
  · simp [heq]

/-- The branches cut the operations into runs: each holds those from its start on, and each position
is at one place of one branch. -/
structure Cut (b : Branches) (start : Nat → Nat) (ops : List Operation) : Prop where
  run    : ∀ id, (b.get id).operations <+: ops.drop (start id)
  unique : ∀ i < ops.length, ∃! place : Nat × Nat,
    place.2 < (b.get place.1).operations.length ∧ start place.1 + place.2 = i

namespace Cut

lemma lt (h : b.Cut start ops) (hslot : slot < (b.get id).operations.length) :
    start id + slot < ops.length := by
  have hle := (h.run id).length_le
  rw [List.length_drop] at hle
  omega

lemma place_eq (h : b.Cut start ops) {id' slot' : Nat}
    (hslot : slot < (b.get id).operations.length) (hslot' : slot' < (b.get id').operations.length)
    (heq : start id + slot = start id' + slot') : (id, slot) = (id', slot') :=
  (h.unique _ (h.lt hslot)).unique ⟨hslot, rfl⟩ ⟨hslot', heq.symm⟩

lemma getElem?_position (h : b.Cut start ops) (hop : (b.get id).operations[slot]? = some op) :
    ops[start id + slot]? = some op := by
  have hlt := (List.getElem?_eq_some_iff.mp hop).1
  obtain ⟨rest, hrest⟩ := h.run id
  rw [← List.getElem?_drop, ← hrest, List.getElem?_append_left hlt, hop]

lemma mem (h : b.Cut start ops) (hop : op ∈ (b.get id).operations) : op ∈ ops :=
  List.mem_of_mem_drop ((h.run id).subset hop)

/-- An empty branch may be taken to start anywhere. -/
lemma restart (h : b.Cut start ops) (hid : (b.get id).operations = []) (position : Nat) :
    b.Cut (Function.update start id position) ops := by
  have hstart : ∀ {other slot}, slot < (b.get other).operations.length →
      Function.update start id position other = start other := fun {other slot} hslot => by
    refine Function.update_of_ne (fun heq => ?_) _ _
    simp [heq, hid] at hslot
  constructor
  · intro other
    by_cases heq : other = id
    · rw [heq, hid]
      exact List.nil_prefix
    · rw [Function.update_of_ne heq]
      exact h.run other
  · intro i hi
    obtain ⟨place, ⟨hslot, hposition⟩, hunique⟩ := h.unique i hi
    refine ⟨place, ⟨hslot, by rw [hstart hslot, hposition]⟩, fun place' hplace' => ?_⟩
    exact hunique place' ⟨hplace'.1, hstart hplace'.1 ▸ hplace'.2⟩

/-- One more operation is put, behind those of its branch and behind all others. -/
lemma puts (h : b.Cut start done) (hend : start id + (b.get id).operations.length = done.length)
    (hputs : b.Puts id op b') : b'.Cut start (done ++ [op]) := by
  constructor
  · intro other
    rw [hputs]
    split
    · rename_i heq
      subst heq
      have hrun := (h.run other).eq_of_length (by rw [List.length_drop]; omega)
      rw [List.drop_append_of_le_length (by omega), hrun]
    · exact (h.run other).trans ((List.prefix_append done [op]).drop _)
  · intro i hi
    rw [List.length_append, List.length_singleton] at hi
    rcases Nat.lt_succ_iff_lt_or_eq.mp hi with hlt | rfl
    · obtain ⟨place, ⟨hslot, hposition⟩, hunique⟩ := h.unique i hlt
      refine ⟨place, ⟨hputs.lt_iff.mpr (Or.inl hslot), hposition⟩, fun place' hplace' => ?_⟩
      rcases hputs.lt_iff.mp hplace'.1 with hslot' | rfl
      · exact hunique place' ⟨hslot', hplace'.2⟩
      · exact absurd (hend.symm.trans hplace'.2) hlt.ne'
    · refine ⟨(id, (b.get id).operations.length), ⟨hputs.lt_iff.mpr (Or.inr rfl), hend⟩,
        fun place' hplace' => ?_⟩
      rcases hputs.lt_iff.mp hplace'.1 with hslot' | heq
      · exact absurd hplace'.2 (h.lt hslot').ne
      · exact heq

end Cut

/-! ### What placing does to runs -/

lemma Ready.puts_label (h : b.Ready current (op :: ops)) (hop : op.instruction = .label)
    (hnext : b.labels.lookup op.labelName = some next) :
    b.Puts next op (b.enterLabel current next op) := by
  intro other
  rw [h.get_label hop hnext]
  split
  · rename_i heq
    rw [heq]
    rfl
  · split
    · rename_i heq
      rw [heq]
    · rfl

lemma Ended.puts (h : b.Ended current op b') : b.Puts current op b' := by
  intro other
  split
  · rename_i heq
    rw [heq, h.operations]
  · rename_i hne
    rw [h.others other hne]

lemma puts_modify (hcurrent : current < b.size) (op : Operation) :
    b.Puts current op (b.modify current (·.append op)) := by
  intro other
  rw [get_modify hcurrent]
  by_cases heq : other = current
  · simp [heq, Branch.append]
  · simp [heq, Ne.symm heq]

/-- The runs after one operation: it is put into branch `id`, and control goes on at the end of the
run of `next`. Nothing that holds an operation starts anywhere else. -/
structure Recut (b : Branches) (start : Nat → Nat) (done : List Operation) (id : Nat)
    (op : Operation) (b' : Branches) (next : Nat) (start' : Nat → Nat) : Prop where
  cut    : b'.Cut start' (done ++ [op])
  puts   : b.Puts id op b'
  place  : start' id + (b.get id).operations.length = done.length
  starts : ∀ other, (b.get other).operations ≠ [] → start' other = start other
  next   : start' next + (b'.get next).operations.length = done.length + 1

namespace Ready

/-- The branch of a label is still empty, so that it may be taken to start where it is met. -/
lemma recut_label (h : b.Ready current (op :: ops)) (hop : op.instruction = .label)
    (hnext : b.labels.lookup op.labelName = some next) (hcut : b.Cut start done) :
    b.Recut start done next op (b.enterLabel current next op) next
      (Function.update start next done.length) := by
  have hputs := h.puts_label hop hnext
  have hup := upcoming_cons_of_label ops hop hnext
  have hblank := (h.blank next (hup ▸ List.mem_cons_self)).1
  have hplace : Function.update start next done.length next + (b.get next).operations.length =
      done.length := by simp [hblank]
  constructor
  case cut => exact (hcut.restart hblank done.length).puts hplace hputs
  case puts => exact hputs
  case place => exact hplace
  case starts =>
    intro other hother
    exact Function.update_of_ne (by rintro rfl; exact hother hblank) _ _
  case next => simp [hputs next, hblank]

/-- The nameless branch that opens is empty, and starts behind the operation. -/
lemma recut_ended (h : b.Ready current (op :: ops)) (hended : b.Ended current op b')
    (hcut : b.Cut start done)
    (hend : start current + (b.get current).operations.length = done.length) :
    b.Recut start done current op b' b.size (Function.update start b.size (done.length + 1)) := by
  have hfresh : (b.get b.size).operations = [] := by
    rw [get_of_size_le le_rfl]
    rfl
  have hblank : (b'.get b.size).operations = [] := by
    rw [hended.others _ h.current_lt.ne', hfresh]
  refine ⟨(hcut.puts hend hended.puts).restart hblank _, hended.puts, ?_, fun other hother => ?_,
    by simp [hblank]⟩
  · rw [Function.update_of_ne h.current_lt.ne, hend]
  · exact Function.update_of_ne (by rintro rfl; exact hother hfresh) _ _

lemma recut_inner (h : b.Ready current (op :: ops)) (hcut : b.Cut start done)
    (hend : start current + (b.get current).operations.length = done.length) :
    b.Recut start done current op (b.modify current (·.append op)) current start := by
  have hputs := puts_modify h.current_lt op
  refine ⟨hcut.puts hend hputs, hputs, hend, fun _ _ => rfl, ?_⟩
  rw [hputs, if_pos rfl, List.length_append, ← Nat.add_assoc, hend, List.length_singleton]

/-- Each operation is put where the layout has it. -/
lemma exists_recut (h : b.Ready current (op :: ops)) (hplace : b.place current op = .ok (b', next))
    (hcut : b.Cut start done)
    (hend : start current + (b.get current).operations.length = done.length) :
    ∃ id start', b.Recut start done id op b' next start' ∧
      layoutFrom b.labels current (b.get current).operations.length b.size (op :: ops) =
        (id, (b.get id).operations.length) ::
          layoutFrom b'.labels next (b'.get next).operations.length b'.size ops := by
  rcases place_cases h.current_lt hplace with
    ⟨hop, hnext, rfl⟩ | ⟨hop, rfl, hended⟩ | ⟨hop, hop', rfl, rfl⟩
  · have hrecut := h.recut_label hop hnext hcut
    have hblank : (b.get next).operations = [] := by simpa using hrecut.place
    exact ⟨next, _, hrecut, by simp [layoutFrom, hop, hnext, hrecut.puts next, hblank]⟩
  · have hrecut := h.recut_ended hended hcut hend
    have hblank : (b'.get b.size).operations = [] := by simpa using hrecut.next
    refine ⟨current, _, hrecut, ?_⟩
    simp [layoutFrom, ne_label_of_endsBranch hop, hop, hblank, hended.labels, hended.size]
  · have hrecut := h.recut_inner hcut hend
    exact ⟨next, _, hrecut, by simp [layoutFrom, hop, hop', hrecut.puts next]⟩

/-- Putting operations cuts them into runs, and numbers them as they are laid out. -/
lemma exists_cut (hready : b.Ready current ops) (h : b.placeAll current ops = .ok b')
    (hcut : b.Cut start done)
    (hend : start current + (b.get current).operations.length = done.length) :
    ∃ start', b'.Cut start' (done ++ ops) ∧
      (∀ id, (b.get id).operations ≠ [] → start' id = start id) ∧
      (layoutFrom b.labels current (b.get current).operations.length b.size ops).map
        (fun place => start' place.1 + place.2) = List.range' done.length ops.length := by
  induction ops generalizing b current start done with
  | nil =>
    cases h
    exact ⟨start, by simpa using hcut, fun _ _ => rfl, rfl⟩
  | cons op ops ih =>
    obtain ⟨b₁, next, hplace, h⟩ := exists_place_of_placeAll h
    obtain ⟨id, start₁, hrecut, hlayout⟩ := hready.exists_recut hplace hcut hend
    obtain ⟨start', hcut', hstarts, hplaces⟩ := ih (hready.place hplace) h hrecut.cut (by
      rw [hrecut.next, List.length_append, List.length_singleton])
    refine ⟨start', by simpa using hcut', fun other hother => ?_, ?_⟩
    · refine (hstarts other ?_).trans (hrecut.starts other hother)
      rw [hrecut.puts]
      split
      · simp
      · exact hother
    · have hid : start' id = start₁ id := hstarts id (by simp [hrecut.puts id])
      rw [hlayout, List.map_cons, hplaces, hid, hrecut.place, List.length_cons, List.range'_succ,
        List.length_append, List.length_singleton]

/-- Branches that stay empty lead on to one branch at most, and there by falling through. -/
lemma quiet_place (h : b.Ready current (op :: ops)) (hplace : b.place current op = .ok (b', next))
    (hquiet : ∀ id, (b.get id).operations = [] → (b.get id).Quiet)
    (hid : (b'.get id).operations = []) : (b'.get id).Quiet := by
  rcases place_cases h.current_lt hplace with ⟨hop, hnext, rfl⟩ | ⟨-, -, hended⟩ | ⟨-, -, -, rfl⟩
  · rw [h.get_label hop hnext] at hid ⊢
    split at hid
    · simp [Branch.append] at hid
    · rename_i hne
      rw [if_neg hne]
      split
      · exact ⟨h.isOpen.target, h.isOpen.calls, h.isOpen.returns⟩
      · rename_i hne'
        exact hquiet id (by simpa [hne'] using hid)
  · have hne : id ≠ current := by
      rintro rfl
      simp [hended.operations] at hid
    rw [hended.others id hne] at hid ⊢
    exact hquiet id hid
  · rw [get_modify h.current_lt] at hid ⊢
    split at hid
    · simp [Branch.append] at hid
    · rename_i hne
      rw [if_neg hne]
      exact hquiet id hid

lemma quiet_placeAll (hready : b.Ready current ops) (h : b.placeAll current ops = .ok b')
    (hquiet : ∀ id, (b.get id).operations = [] → (b.get id).Quiet)
    (hid : (b'.get id).operations = []) : (b'.get id).Quiet := by
  induction ops generalizing b current with
  | nil =>
    cases h
    exact hquiet id hid
  | cons op ops ih =>
    obtain ⟨b₁, next, hplace, h⟩ := exists_place_of_placeAll h
    exact ih (hready.place hplace) h fun _ => hready.quiet_place hplace hquiet

end Ready

/-! ### Extracted branches -/

/-- Behind the last operation nothing leads out of the branch. -/
lemma Laid.of_drop {i : Nat} {places : List (Nat × Nat)}
    (h : b.Laid current slot (ops.drop i) places) (hi : ops.length ≤ i) :
    (b.get current).operations.length = slot ∧ (b.get current).IsOpen := by
  rw [List.drop_eq_nil_of_le hi] at h
  cases h with
  | nil hlength hopen => exact ⟨hlength, hopen⟩

/-- All that matters of where the operations are in the branches extracted from them. -/
structure Mapped (b : Branches) (start : Nat → Nat) (ops : List Operation) : Prop where
  laid   : b.Laid entry 0 ops (layout ops)
  cut    : b.Cut start ops
  places : (layout ops).map (fun place => start place.1 + place.2) = List.range ops.length
  labels : b.labels = labelBranches ops
  quiet  : ∀ id, (b.get id).operations = [] → (b.get id).Quiet

lemma exists_mapped_of_extract (hops : ∀ op ∈ ops, op.WellKinded) (h : extract ops = .ok b) :
    ∃ start, b.Mapped start ops := by
  have hlaid := laid_of_extract hops h
  obtain ⟨b₀, hdeclare, h⟩ := exists_of_bind_eq_ok h
  have hdeclared := declared_initial.foldlM hdeclare
  have hready := hdeclared.ready hops
  have hcut : b₀.Cut (fun _ => 0) [] :=
    ⟨fun id => by simp [(hdeclared.blank id).1], fun i hi => by simp at hi⟩
  obtain ⟨start, hcut, -, hplaces⟩ :=
    hready.exists_cut h hcut (by simp [(hdeclared.blank entry).1])
  refine ⟨start, hlaid, by simpa using hcut, ?_, (hready.kept h).labels.trans hdeclared.labels,
    fun _ => hready.quiet_placeAll h fun id _ => ?_⟩
  · simpa [layout, labelBranches, (hdeclared.blank entry).1, hdeclared.labels, hdeclared.size,
      List.range_eq_range'] using hplaces
  · have hopen := (hdeclared.blank id).2
    exact ⟨hopen.target, hopen.calls, hopen.returns⟩

/-- Control falls through branches without operations. -/
def FallsThrough (b : Branches) : Nat → Nat → Prop :=
  Relation.ReflTransGen fun id next => (b.get id).operations = [] ∧ (b.get id).next = some next

lemma FallsThrough.eq_of_ne_nil (h : b.FallsThrough id other)
    (hne : (b.get id).operations ≠ []) : other = id := by
  rcases Relation.ReflTransGen.cases_head h with rfl | ⟨next, ⟨hnil, -⟩, -⟩
  · rfl
  · exact absurd hnil hne

lemma FallsThrough.eq_of_next (h : b.FallsThrough id other) (hnext : (b.get id).next = none) :
    other = id := by
  rcases Relation.ReflTransGen.cases_head h with rfl | ⟨next, ⟨-, hsome⟩, -⟩
  · rfl
  · rw [hnext] at hsome
    cases hsome

/-- Control falls through to one branch with operations at most. -/
lemma FallsThrough.unique (h : b.FallsThrough id first) (hne : (b.get first).operations ≠ [])
    (h' : b.FallsThrough id other) (hne' : (b.get other).operations ≠ []) : first = other := by
  have hunique : Relator.RightUnique fun id next =>
      (b.get id).operations = [] ∧ (b.get id).next = some next := fun id next next' hnext hnext' =>
    Option.some.inj (hnext.2.symm.trans hnext'.2)
  rcases Relation.ReflTransGen.total_of_right_unique hunique h h' with hfalls | hfalls
  · exact (FallsThrough.eq_of_ne_nil hfalls hne).symm
  · exact FallsThrough.eq_of_ne_nil hfalls hne'

/-- The branch begins with the operation at the position. -/
structure BeginsAt (b : Branches) (start : Nat → Nat) (id position : Nat) : Prop where
  ne_nil : (b.get id).operations ≠ []
  start  : start id = position

/-- The ways out of a branch that `op` ends, with `behind` the position behind it. -/
structure LeavesBy (b : Branches) (start : Nat → Nat) (ops : List Operation) (id : Nat)
    (op : Operation) (behind : Nat) : Prop where
  /-- Control is handed to the branch that begins with the label. -/
  target : ∀ target, (b.get id).target = some target → ∃ name first, op.label? = some name ∧
    (b.get target).operations.head? = some first ∧ first.definedLabel? = some name
  sealed : op.instruction ∈ [.jump, .ret, .stop] → (b.get id).next = none
  next   : op.instruction ∉ [.jump, .ret, .stop] → behind < ops.length → ∃ next first,
    (b.get id).next = some next ∧ b.FallsThrough next first ∧ b.BeginsAt start first behind
  last   : op.instruction ∉ [.jump, .ret, .stop] → behind = ops.length →
    (b.get id).next = none ∨ ∃ next, (b.get id).next = some next ∧
      (b.get next).operations = [] ∧ b.followers next = []

/-- The branches are the program: they cut its operations into runs, and control goes through them
as it goes through the operations. -/
structure Represents (b : Branches) (start : Nat → Nat) (ops : List Operation) : Prop where
  cut     : b.Cut start ops
  label   : ∀ id slot op, (b.get id).operations[slot]? = some op → op.instruction = .label →
    slot = 0
  exit    : ∀ id slot op, (b.get id).operations[slot]? = some op →
    op.instruction.endsBranch = true → slot + 1 = (b.get id).operations.length
  entry   : ops ≠ [] → ∃ first, b.FallsThrough entry first ∧ b.BeginsAt start first 0
  target  : ∀ id, (b.get id).target.isSome = true ↔
    ∃ op ∈ (b.get id).operations.getLast?, op.instruction.jumps = true
  calls   : ∀ id, (b.get id).calls = true ↔
    ∃ op ∈ (b.get id).operations.getLast?, op.instruction = .call
  returns : ∀ id, (b.get id).returns = true ↔
    ∃ op ∈ (b.get id).operations.getLast?, op.instruction = .ret
  leaves  : ∀ id, ∀ op ∈ (b.get id).operations.getLast?,
    b.LeavesBy start ops id op (start id + (b.get id).operations.length)

namespace Mapped

lemma position (h : b.Mapped start ops) {i : Nat} (hplace : (layout ops)[i]? = some (id, slot)) :
    start id + slot = i := by
  have hget : ((layout ops).map fun place => start place.1 + place.2)[i]? =
      some (start id + slot) := by rw [List.getElem?_map, hplace, Option.map_some]
  rw [h.places] at hget
  obtain ⟨hi, hget⟩ := List.getElem?_eq_some_iff.mp hget
  rw [← hget, List.getElem_range]

/-- An operation in a branch is laid out where it is. -/
lemma put (h : b.Mapped start ops) (hop : (b.get id).operations[slot]? = some op) :
    (layout ops)[start id + slot]? = some (id, slot) ∧
      b.Put id slot op (ops.drop (start id + slot + 1))
        ((layout ops).drop (start id + slot + 1)) := by
  obtain ⟨id', slot', hplace, hput⟩ := h.laid.put (h.cut.getElem?_position hop)
  have hslot := (List.getElem?_eq_some_iff.mp hop).1
  have hslot' := (List.getElem?_eq_some_iff.mp hput.operation).1
  obtain ⟨rfl, rfl⟩ := Prod.mk.inj (h.cut.place_eq hslot hslot' (h.position hplace).symm)
  exact ⟨hplace, hput⟩

/-- Operations that are laid out from the beginning of a branch on begin a branch. -/
lemma exists_beginsAt (h : b.Mapped start ops) {i : Nat} (hi : i < ops.length)
    (hlaid : b.Laid current 0 (ops.drop i) ((layout ops).drop i)) :
    ∃ first, b.FallsThrough current first ∧ b.BeginsAt start first i := by
  obtain ⟨id, place, hplace, hput, hat⟩ := hlaid.put_drop (List.getElem?_eq_getElem hi)
  have hzero : place = 0 := by
    rcases hat with ⟨-, rfl⟩ | ⟨rfl, -⟩ <;> rfl
  subst hzero
  refine ⟨id, ?_, fun hnil => by simpa [hnil] using hput.operation, h.position hplace⟩
  rcases hat with ⟨rfl, -⟩ | ⟨-, hfalls⟩
  · exact .refl
  · exact .single ⟨List.length_eq_zero_iff.mp hfalls.length, hfalls.next⟩

/-- What stands behind the last operation of a branch: what comes of an operation that ends branches
is laid out in the next one, and any other has either nothing or a label behind it. -/
lemma exits_or_quiet (h : b.Mapped start ops) {behind : Nat}
    (hop : op ∈ (b.get id).operations.getLast?)
    (hbehind : start id + (b.get id).operations.length = behind) :
    (op.instruction.endsBranch = true ∧ ∃ fresh, Exits b.labels op (b.get id) fresh ∧
      b.Laid fresh 0 (ops.drop behind) ((layout ops).drop behind)) ∨
    (op.instruction.endsBranch = false ∧ (b.get id).Quiet ∧
      (behind = ops.length ∧ (b.get id).next = none ∨
        behind < ops.length ∧
          ∃ first, (b.get id).next = some first ∧ b.BeginsAt start first behind)) := by
  rw [Option.mem_def, List.getLast?_eq_getElem?] at hop
  have hlt := (List.getElem?_eq_some_iff.mp hop).1
  have hput := (h.put hop).2
  have hle := h.cut.lt hlt
  generalize hslot : (b.get id).operations.length - 1 = slot at *
  have hlength : (b.get id).operations.length = slot + 1 := by omega
  obtain rfl : start id + slot + 1 = behind := by omega
  cases hends : op.instruction.endsBranch with
  | true =>
    obtain ⟨fresh, -, hexits, hlaid⟩ := hput.last hends
    exact Or.inl ⟨rfl, fresh, hexits, hlaid⟩
  | false =>
    have hlaid := hput.inner hends
    refine Or.inr ⟨rfl, ?_⟩
    rcases Nat.eq_or_lt_of_le hle with heq | hlt'
    · obtain ⟨-, hopen⟩ := hlaid.of_drop heq.ge
      exact ⟨⟨hopen.target, hopen.calls, hopen.returns⟩, Or.inl ⟨heq, hopen.next⟩⟩
    · obtain ⟨first, place, hplace, hput', hat⟩ := hlaid.put_drop (List.getElem?_eq_getElem hlt')
      rcases hat with ⟨rfl, rfl⟩ | ⟨rfl, hfalls⟩
      · have hlt'' := (List.getElem?_eq_some_iff.mp hput'.operation).1
        omega
      · have hbegins : b.BeginsAt start first (start id + slot + 1) :=
          ⟨fun hnil => by simpa [hnil] using hput'.operation, h.position hplace⟩
        exact ⟨⟨hfalls.target, hfalls.calls, hfalls.returns⟩,
          Or.inr ⟨hlt', first, hfalls.next, hbegins⟩⟩

/-- The last operation of a branch tells whether it jumps, calls or returns. -/
lemma flags_of_last (h : b.Mapped start ops) (hop : op ∈ (b.get id).operations.getLast?) :
    (b.get id).target.isSome = op.instruction.jumps ∧
      (b.get id).calls = decide (op.instruction = .call) ∧
      (b.get id).returns = decide (op.instruction = .ret) := by
  rcases h.exits_or_quiet hop rfl with ⟨-, fresh, hexits, -⟩ | ⟨hends, hquiet, -⟩
  · refine ⟨?_, hexits.calls, hexits.returns⟩
    cases hjumps : op.instruction.jumps with
    | true => rw [hexits.target, if_pos hjumps, hexits.defined hjumps]
    | false => simp [hexits.target, hjumps]
  · rw [hquiet.target, hquiet.calls, hquiet.returns]
    revert hends
    cases op.instruction <;> decide

lemma iff_of_last {flag : Bool} {p : Operation → Prop}
    (hempty : (b.get id).operations = [] → flag = false)
    (hlast : ∀ op ∈ (b.get id).operations.getLast?, flag = true ↔ p op) :
    flag = true ↔ ∃ op ∈ (b.get id).operations.getLast?, p op := by
  cases hop : (b.get id).operations.getLast? with
  | none => simp [hempty (List.getLast?_eq_none_iff.mp hop)]
  | some op => simpa using hlast op hop

/-- A branch that is jumped to begins with the label. -/
lemma exists_label (h : b.Mapped start ops) {name : Label} {target : Nat}
    (htarget : b.labels.lookup name = some target) :
    ∃ first, (b.get target).operations.head? = some first ∧ first.definedLabel? = some name := by
  rw [h.labels] at htarget
  obtain ⟨-, hname⟩ := lookup_zipIdx htarget
  obtain ⟨first, hfirst, hdefined⟩ := List.mem_filterMap.mp (List.mem_of_getElem? hname)
  obtain ⟨i, hi⟩ := List.mem_iff_getElem?.mp hfirst
  obtain ⟨id, slot, -, hput⟩ := h.laid.put hi
  unfold Operation.definedLabel? at hdefined
  split at hdefined
  · rename_i hlabel
    obtain ⟨rfl, hlookup⟩ := hput.label hlabel
    rw [Operation.labelName, hdefined, Option.getD_some, h.labels] at hlookup
    obtain rfl := Option.some.inj (htarget.symm.trans hlookup)
    exact ⟨first, by rw [List.head?_eq_getElem?, hput.operation], by
      rw [Operation.definedLabel?, if_pos hlabel, hdefined]⟩
  · cases hdefined

/-- The ways out of a branch are those of its last operation. -/
lemma leaves (h : b.Mapped start ops) (hops : ∀ op ∈ ops, op.WellKinded)
    (hop : op ∈ (b.get id).operations.getLast?) :
    b.LeavesBy start ops id op (start id + (b.get id).operations.length) := by
  rcases h.exits_or_quiet hop rfl with ⟨hends, fresh, hexits, hlaid⟩ | ⟨hends, hquiet, hnext⟩
  · have hresumes : op.instruction.resumes = !decide (op.instruction ∈ [.jump, .ret, .stop]) := by
      revert hends
      cases op.instruction <;> decide
    constructor
    · intro target htarget
      have hjumps : op.instruction.jumps = true := by
        rw [← (h.flags_of_last hop).1, htarget]
        rfl
      rw [hexits.target, if_pos hjumps] at htarget
      obtain ⟨first, hfirst, hdefined⟩ := h.exists_label htarget
      refine ⟨_, first, Operation.label?_of_wellKinded (hops op ?_) ?_, hfirst, hdefined⟩
      · exact h.cut.mem (List.mem_of_getLast? hop)
      · revert hjumps
        cases op.instruction <;> decide
    · intro hsealed
      simp [hexits.next, hresumes, hsealed]
    · intro hopen hlt
      obtain ⟨first, hfalls, hfirst⟩ := h.exists_beginsAt hlt hlaid
      exact ⟨fresh, first, by simp [hexits.next, hresumes, hopen], hfalls, hfirst⟩
    · intro hopen heq
      obtain ⟨hlength, hfresh⟩ := hlaid.of_drop heq.ge
      refine Or.inr ⟨fresh, by simp [hexits.next, hresumes, hopen],
        List.length_eq_zero_iff.mp hlength, ?_⟩
      simp [followers, hfresh.target, hfresh.next]
  · have hsealed : op.instruction ∉ [.jump, .ret, .stop] := by
      revert hends
      cases op.instruction <;> decide
    refine ⟨fun target htarget => ?_, fun hmem => absurd hmem hsealed, fun _ hlt => ?_,
      fun _ heq => ?_⟩
    · rw [hquiet.target] at htarget
      cases htarget
    · rcases hnext with ⟨heq, -⟩ | ⟨-, first, hfirst, hbegins⟩
      · exact absurd heq hlt.ne
      · exact ⟨first, first, hfirst, .refl, hbegins⟩
    · rcases hnext with ⟨-, hnone⟩ | ⟨hlt, -⟩
      · exact Or.inl hnone
      · exact absurd heq hlt.ne

end Mapped

/-- Extraction keeps the program and its control flow. -/
theorem extract_represents (hops : ∀ op ∈ ops, op.WellKinded) (hextract : extract ops = .ok b) :
    ∃ start, b.Represents start ops := by
  obtain ⟨start, h⟩ := exists_mapped_of_extract hops hextract
  refine ⟨start, h.cut, fun id slot op hop hlabel => ?_, fun id slot op hop hends => ?_,
    fun hne => ?_, fun id => ?_, fun id => ?_, fun id => ?_, fun id op => h.leaves hops⟩
  · exact ((h.put hop).2.label hlabel).1
  · obtain ⟨-, hlength, -⟩ := (h.put hop).2.last hends
    exact hlength.symm
  · exact h.exists_beginsAt (List.length_pos_of_ne_nil hne) (by simpa using h.laid)
  · exact Mapped.iff_of_last (fun hnil => by simp [(h.quiet id hnil).target]) fun op hop => by
      rw [(h.flags_of_last hop).1]
  · exact Mapped.iff_of_last (fun hnil => (h.quiet id hnil).calls) fun op hop => by
      rw [(h.flags_of_last hop).2.1, decide_eq_true_eq]
  · exact Mapped.iff_of_last (fun hnil => (h.quiet id hnil).returns) fun op hop => by
      rw [(h.flags_of_last hop).2.2, decide_eq_true_eq]

/-- Two labels in a row, calls in a row, code that nothing leads to, and a conditional jump with
nothing behind it. -/
def winding : List Operation :=
  [(.label, some (.label "a")), (.label, some (.label "b")), (.jumpZero, some (.label "a")),
    (.call, some (.label "f")), (.call, some (.label "f")), (.jump, some (.label "b")),
    (.pop, none), (.pop, none), (.label, some (.label "f")), (.ret, none),
    (.jumpNegative, some (.label "a"))].map fun (i, argument) => ⟨i, argument, .nowhere⟩

theorem winding_represents :
    (∀ op ∈ winding, op.WellKinded) ∧ ∃ b start, extract winding = .ok b ∧
      (List.range b.size).map (fun id => (b.get id).operations.length) =
        [0, 1, 2, 2, 1, 1, 1, 2, 1, 0] ∧ b.Represents start winding := by
  have hops : ∀ op ∈ winding, op.WellKinded := by decide
  have hsizes : (extract winding).toOption.map (fun b =>
      (List.range b.size).map fun id => (b.get id).operations.length) =
        some [0, 1, 2, 2, 1, 1, 1, 2, 1, 0] := by decide +kernel
  cases hextract : extract winding with
  | error e =>
    rw [hextract] at hsizes
    cases hsizes
  | ok b =>
    rw [hextract] at hsizes
    obtain ⟨start, hrepresents⟩ := extract_represents hops hextract
    exact ⟨hops, b, start, rfl, Option.some.inj hsizes, hrepresents⟩

end Branches

end ZeroWidth
