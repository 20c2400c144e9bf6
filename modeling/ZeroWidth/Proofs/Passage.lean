import ZeroWidth.Proofs.Partition
import ZeroWidth.Proofs.Stitching

/-!
# Control among operations and among branches

Control passes on behind an operation, unless that is a jump, a return or the end, and to the label
that an operation names; every call is taken to come back. Whatever goes along with control from
operation to operation holds at the beginnings of the branches that control may get to. The other
way round, control that gets to an operation gets to its branch. So what is live among the branches
is what control gets to among the operations.
-/

namespace ZeroWidth

/-- Control may pass from one position to the other: to what stands behind the operation, or to the
label that the operation names. -/
inductive HandsOn (ops : List Operation) (i : Nat) : Nat → Prop where
  | behind {op : Operation} (hop : ops[i]? = some op)
      (hopen : op.instruction ∉ [.jump, .ret, .stop]) : HandsOn ops i (i + 1)
  | label {op other : Operation} {name : Label} {j : Nat} (hop : ops[i]? = some op)
      (hjumps : op.instruction.jumps = true) (hname : op.label? = some name)
      (hother : ops[j]? = some other) (hdefined : other.definedLabel? = some name) :
      HandsOn ops i j

/-- Control gets to the position from the first operation. -/
def GetsTo (ops : List Operation) : Nat → Prop := Relation.ReflTransGen (HandsOn ops) 0

/-- Control goes on behind whatever does not end a branch. -/
lemma HandsOn.of_endsBranch {ops : List Operation} {i : Nat} {op : Operation}
    (hop : ops[i]? = some op) (hends : op.instruction.endsBranch = false) :
    HandsOn ops i (i + 1) := by
  refine .behind hop ?_
  revert hends
  cases op.instruction <;> decide

lemma Operation.instruction_of_definedLabel? {op : Operation} {name : Label}
    (h : op.definedLabel? = some name) : op.instruction = .label ∧ op.label? = some name := by
  unfold definedLabel? at h
  split at h
  · rename_i hlabel
    exact ⟨hlabel, h⟩
  · cases h

namespace Branches

variable {b : Branches} {start : Nat → Nat} {ops : List Operation} {op other : Operation}
  {id next first slot i j : Nat} {name : Label} {P : Nat → Prop}

lemma FallsThrough.live (h : b.FallsThrough id first) (hlive : b.Live id) : b.Live first := by
  induction h with
  | refl => exact hlive
  | tail _ hnext ih => exact ih.tail (mem_followers_of_next hnext.2)

namespace Mapped

/-- The operation that defines a label begins the branch of the label. -/
lemma lookup_of_definedLabel? (h : b.Mapped start ops) (hother : ops[j]? = some other)
    (hdefined : other.definedLabel? = some name) :
    ∃ id, b.labels.lookup name = some id ∧ start id = j ∧
      (b.get id).operations[0]? = some other := by
  obtain ⟨hlabel, hname⟩ := Operation.instruction_of_definedLabel? hdefined
  obtain ⟨id, slot, hplace, hput⟩ := h.laid.put hother
  obtain ⟨rfl, hlookup⟩ := hput.label hlabel
  rw [Operation.labelName, hname, Option.getD_some] at hlookup
  exact ⟨id, hlookup, h.position hplace, hput.operation⟩

/-- A jump or a call that ends a branch goes to the branch of its label. -/
lemma target_of_jumps (h : b.Mapped start ops) (hop : (b.get id).operations[slot]? = some op)
    (hjumps : op.instruction.jumps = true) (hname : op.label? = some name) :
    (b.get id).target = b.labels.lookup name := by
  have hends : op.instruction.endsBranch = true := by simp [Instruction.endsBranch, hjumps]
  obtain ⟨fresh, -, hexits, -⟩ := (h.put hop).2.last hends
  rw [hexits.target, if_pos hjumps, Operation.labelName, hname, Option.getD_some]

/-! ### From branches to operations -/

/-- What goes along with control within a branch holds throughout it. -/
lemma within (h : b.Mapped start ops)
    (hP : ∀ {i op}, ops[i]? = some op → op.instruction.endsBranch = false → P i → P (i + 1))
    (hstart : P (start id)) (hslot : slot < (b.get id).operations.length) :
    P (start id + slot) := by
  induction slot with
  | zero => exact hstart
  | succ slot ih =>
    have hop := List.getElem?_eq_getElem (Nat.lt_of_succ_lt hslot)
    refine hP (h.cut.getElem?_position hop) ?_ (ih (Nat.lt_of_succ_lt hslot))
    -- what ends the branch is the last of it
    refine Bool.eq_false_of_not_eq_true fun hends => ?_
    obtain ⟨-, hlength, -⟩ := (h.put hop).2.last hends
    omega

variable (hP : ∀ {i j}, HandsOn ops i j → P i → P j)

include hP

/-- Control at the end of a branch goes on to the branch that begins with the label. -/
lemma of_target (h : b.Mapped start ops) (hops : ∀ op ∈ ops, op.WellKinded)
    (hop : op ∈ (b.get id).operations.getLast?) (hi : P i) (hposition : ops[i]? = some op)
    (htarget : (b.get id).target = some next) : P (start next) := by
  obtain ⟨name, first, hname, hfirst, hdefined⟩ := (h.leaves hops hop).target next htarget
  rw [List.head?_eq_getElem?] at hfirst
  have hjumps : op.instruction.jumps = true := by
    rw [← (h.flags_of_last hop).1, htarget]
    rfl
  exact hP (.label hposition hjumps hname (h.cut.getElem?_position hfirst) hdefined) hi

/-- Control at the end of a branch goes on to the branch that it falls through to or comes back to,
looking through empty ones. -/
lemma of_next (h : b.Mapped start ops) (hops : ∀ op ∈ ops, op.WellKinded)
    (hop : op ∈ (b.get id).operations.getLast?) (hi : P i) (hposition : ops[i]? = some op)
    (hlast : start id + (b.get id).operations.length = i + 1) (hnext : (b.get id).next = some next)
    (hfalls : b.FallsThrough next first) (hfirst : (b.get first).operations ≠ []) :
    P (start first) := by
  have hleaves := h.leaves hops hop
  rw [hlast] at hleaves
  have hopen : op.instruction ∉ [.jump, .ret, .stop] := fun hsealed => by
    simp [hleaves.sealed hsealed] at hnext
  have hle : i + 1 ≤ ops.length := (List.getElem?_eq_some_iff.mp hposition).1
  rcases Nat.eq_or_lt_of_le hle with heq | hlt
  · -- behind the last operation there is at most an empty branch that leads nowhere
    rcases hleaves.last hopen heq with hnone | ⟨next', hnext', hnil, hfollowers⟩
    · simp [hnone] at hnext
    · obtain rfl := Option.some.inj (hnext.symm.trans hnext')
      have hnone : (b.get next).next = none :=
        Option.toList_eq_nil_iff.mp (List.append_eq_nil_iff.mp hfollowers).1
      exact absurd hnil (hfalls.eq_of_next hnone ▸ hfirst)
  · obtain ⟨next', first', hnext', hfalls', hbegins⟩ := hleaves.next hopen hlt
    obtain rfl := Option.some.inj (hnext.symm.trans hnext')
    rw [hfalls.unique hfirst hfalls' hbegins.ne_nil, hbegins.start]
    exact hP (.behind hposition hopen) hi

/-- What goes along with control goes from a branch to those it leads to. -/
lemma of_mem_followers (h : b.Mapped start ops) (hops : ∀ op ∈ ops, op.WellKinded)
    (hid : ∀ first, b.FallsThrough id first → (b.get first).operations ≠ [] → P (start first))
    (hnext : next ∈ b.followers id) (hfalls : b.FallsThrough next first)
    (hfirst : (b.get first).operations ≠ []) : P (start first) := by
  by_cases hnil : (b.get id).operations = []
  · -- an empty branch leads on by falling through
    have hnext : (b.get id).next = some next := by
      simpa [followers, (h.quiet id hnil).target] using hnext
    exact hid first (Relation.ReflTransGen.head ⟨hnil, hnext⟩ hfalls) hfirst
  obtain ⟨op, hop⟩ : ∃ op, (b.get id).operations.getLast? = some op :=
    Option.isSome_iff_exists.mp (by simpa using hnil)
  have hlength := List.length_pos_of_ne_nil hnil
  have hat : P (start id + ((b.get id).operations.length - 1)) :=
    h.within (fun hop hends => hP (.of_endsBranch hop hends)) (hid id .refl hnil) (by omega)
  have hposition := h.cut.getElem?_position (List.getLast?_eq_getElem? ▸ hop)
  rcases List.mem_append.mp hnext with hnext | htarget
  · have hnext : (b.get id).next = some next := Option.mem_toList.mp hnext
    exact h.of_next hP hops hop hat hposition (by omega) hnext hfalls hfirst
  · have htarget : (b.get id).target = some next := Option.mem_toList.mp htarget
    obtain ⟨-, label, -, hlabel, -⟩ := (h.leaves hops hop).target next htarget
    have hne : (b.get next).operations ≠ [] := fun hnil => by simp [hnil] at hlabel
    rw [hfalls.eq_of_ne_nil hne]
    exact h.of_target hP hops hop hat hposition htarget

/-- What goes along with control from the first operation on holds where live branches begin. -/
lemma of_live (h : b.Mapped start ops) (hops : ∀ op ∈ ops, op.WellKinded) (hzero : P 0)
    (hlive : b.Live id) (hfalls : b.FallsThrough id first)
    (hfirst : (b.get first).operations ≠ []) : P (start first) := by
  induction hlive generalizing first with
  | refl =>
    obtain ⟨op, hop⟩ := List.exists_mem_of_ne_nil _ hfirst
    have hpos := List.length_pos_of_mem (h.cut.mem hop)
    obtain ⟨first', hfalls', hbegins⟩ := h.exists_beginsAt hpos (by simpa using h.laid)
    rw [hfalls.unique hfirst hfalls' hbegins.ne_nil, hbegins.start]
    exact hzero
  | tail _ hnext ih => exact h.of_mem_followers hP hops (fun _ => ih) hnext hfalls hfirst

omit hP

/-! ### From operations to branches -/

lemma id_eq_of_beginsAt (h : b.Mapped start ops) (hslot : slot < (b.get id).operations.length)
    (hbegins : b.BeginsAt start first (start id + slot)) : first = id := by
  have hpos := List.length_pos_of_ne_nil hbegins.ne_nil
  exact (Prod.mk.inj (h.cut.place_eq hpos hslot hbegins.start)).1

/-- Control that passes on from an operation of a live branch comes to a live branch. -/
lemma live_of_handsOn (h : b.Mapped start ops) (hops : ∀ op ∈ ops, op.WellKinded)
    {id' slot' : Nat} (hlive : b.Live id) (hslot : slot < (b.get id).operations.length)
    (hslot' : slot' < (b.get id').operations.length) (hj : start id' + slot' = j)
    (hhands : HandsOn ops (start id + slot) j) : b.Live id' := by
  have hat : (b.get id).operations[slot]? = some (b.get id).operations[slot] :=
    List.getElem?_eq_getElem hslot
  have hposition := h.cut.getElem?_position hat
  cases hhands with
  | behind hop hopen =>
    cases hop.symm.trans hposition
    rcases Nat.eq_or_lt_of_le hslot with hlast | hinner
    · -- the operation is the last of its branch
      have hop : (b.get id).operations[slot] ∈ (b.get id).operations.getLast? := by
        rw [Option.mem_def, List.getLast?_eq_getElem?, ← hat, ← hlast]
        rfl
      obtain ⟨next, first, hnext, hfalls, hbegins⟩ :=
        (h.leaves hops hop).next hopen (by have := h.cut.lt hslot'; omega)
      have hend : start id + (b.get id).operations.length = start id' + slot' := by omega
      obtain rfl := h.id_eq_of_beginsAt hslot' (hend ▸ hbegins)
      exact hfalls.live (hlive.tail (mem_followers_of_next hnext))
    · have heq := h.cut.place_eq hslot' hinner hj
      rw [(Prod.mk.inj heq).1]
      exact hlive
  | label hop hjumps hname hother hdefined =>
    cases hop.symm.trans hposition
    obtain ⟨target, hlookup, hstart, hfirst⟩ := h.lookup_of_definedLabel? hother hdefined
    have hzero := (List.getElem?_eq_some_iff.mp hfirst).1
    have heq := h.cut.place_eq hslot' hzero (hj.trans hstart.symm)
    rw [(Prod.mk.inj heq).1]
    exact hlive.tail (mem_followers_of_target ((h.target_of_jumps hat hjumps hname).trans hlookup))

/-- Control that gets to an operation gets to its branch. -/
lemma live_of_getsTo (h : b.Mapped start ops) (hops : ∀ op ∈ ops, op.WellKinded)
    (hslot : slot < (b.get id).operations.length) (hgets : GetsTo ops (start id + slot)) :
    b.Live id := by
  generalize hj : start id + slot = j at hgets
  induction hgets generalizing id slot with
  | refl =>
    have hpos := h.cut.lt hslot
    obtain ⟨first, hfalls, hbegins⟩ :=
      h.exists_beginsAt (i := 0) (by omega) (by simpa using h.laid)
    obtain rfl := h.id_eq_of_beginsAt hslot (hj ▸ hbegins)
    exact hfalls.live .refl
  | @tail i j _ hhands ih =>
    obtain ⟨op, hop⟩ : ∃ op, ops[i]? = some op := by
      cases hhands with
      | behind hop | label hop => exact ⟨_, hop⟩
    obtain ⟨⟨id', slot'⟩, ⟨hslot', hi⟩, -⟩ :=
      h.cut.unique i (List.getElem?_eq_some_iff.mp hop).1
    exact h.live_of_handsOn hops (ih hslot' hi) hslot' hslot hj (by rwa [hi])

/-- A branch is live exactly if control gets to its operations, to all of them or to any. -/
lemma live_iff_getsTo (h : b.Mapped start ops) (hops : ∀ op ∈ ops, op.WellKinded)
    (hslot : slot < (b.get id).operations.length) : b.Live id ↔ GetsTo ops (start id + slot) := by
  refine ⟨fun hlive => ?_, h.live_of_getsTo hops hslot⟩
  have hne : (b.get id).operations ≠ [] := List.ne_nil_of_length_pos (Nat.zero_lt_of_lt hslot)
  have hstart : GetsTo ops (start id) :=
    h.of_live (fun hhands hi => hi.tail hhands) hops .refl hlive .refl hne
  exact h.within (fun hop hends hi => hi.tail (.of_endsBranch hop hends)) hstart hslot

end Mapped

end Branches

end ZeroWidth
