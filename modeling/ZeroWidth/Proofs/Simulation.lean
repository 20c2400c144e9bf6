import Mathlib.Data.List.Forall2
import ZeroWidth.Proofs.StackMachine
import ZeroWidth.Proofs.Stitching
import ZeroWidth.Proofs.TopOfStack

/-!
# Runs of the machine as walks through the graph

Every run of the machine on the operations of a program is a walk through the graph of the program,
from the root on: each effect of the run is that of the next node. The nodes whose effects are on
the stack of the walk push the types on the stack of the machine, above the root. What is kept on
the way is the node of the latest effect, the branch in which control stands, and for each open call
that the branch belongs to the subroutine that was called.
-/

namespace ZeroWidth

namespace EffectGraph

variable {g : EffectGraph} {b : Branches} {strict : Bool} {r : Registry} {id next x : Nat}

/-! ### Where the latest effect was -/

/-- What the first `slot` operations of a branch come to. -/
def itemsBefore (b : Branches) (strict : Bool) (r : Registry) (id slot : Nat) :
    List (Effect × Origin) :=
  ((b.get id).operations.take slot).flatMap fun op => op.items strict r

lemma itemsBefore_length {slot : Nat} (hslot : (b.get id).operations.length = slot) :
    itemsBefore b strict r id slot = branchItems b strict r id := by
  rw [itemsBefore, ← hslot, List.take_length, branchItems]

lemma itemsBefore_succ {slot : Nat} {op : Operation}
    (hop : (b.get id).operations[slot]? = some op) :
    itemsBefore b strict r id (slot + 1) = itemsBefore b strict r id slot ++ op.items strict r := by
  rw [itemsBefore, List.take_add_one, hop, List.flatMap_append]
  simp [itemsBefore]

lemma itemsBefore_append (b : Branches) (strict : Bool) (r : Registry) (id slot : Nat) :
    itemsBefore b strict r id slot ++
        ((b.get id).operations.drop slot).flatMap (fun op => op.items strict r) =
      branchItems b strict r id := by
  rw [itemsBefore, ← List.flatMap_append, List.take_append_drop, branchItems]

/-- The effects of an operation stand behind those of the operations before it. -/
lemma getElem?_branchItems {slot k : Nat} {op : Operation} {item : Effect × Origin}
    (hop : (b.get id).operations[slot]? = some op) (hitem : (op.items strict r)[k]? = some item) :
    (branchItems b strict r id)[(itemsBefore b strict r id slot).length + k]? = some item := by
  have hlt := (List.getElem?_eq_some_iff.mp hitem).1
  rw [← itemsBefore_append b strict r id (slot + 1), itemsBefore_succ hop, List.append_assoc,
    List.getElem?_append_right (Nat.le_add_right ..), Nat.add_sub_cancel_left,
    List.getElem?_append_left hlt, hitem]

/-- The latest effect was that of node `x` when the first `count` effects of a branch have happened:
the one before the branch if there are none of them. -/
def Latest (g : EffectGraph) (b : Branches) (x id : Nat) : Nat → Prop
  | 0         => g.Feeds b x id
  | count + 1 => ∃ f, g.fragment? id = some f ∧ x = f.head + count

lemma Latest.edge (hg : g.Built b strict r) {count : Nat} (hx : g.Latest b x id count)
    (hcount : count < (branchItems b strict r id).length) :
    ∃ f, g.fragment? id = some f ∧ g.Edge x (f.head + count) := by
  cases count with
  | zero =>
    cases hf : g.fragment? id with
    | none =>
      rw [hg.none hf] at hcount
      cases hcount
    | some f => exact ⟨f, rfl, hg.edge hx hf⟩
  | succ count =>
    obtain ⟨f, hf, rfl⟩ := hx
    exact ⟨f, hf, (hg.chain hf).edge hcount⟩

/-- From the end of a branch the latest effect is taken along. -/
lemma Latest.leave (hg : g.Built b strict r) (hlive : b.Live id)
    (hx : g.Latest b x id (branchItems b strict r id).length) (hnext : next ∈ b.flow id) :
    g.Latest b x next 0 := by
  cases hf : g.fragment? id with
  | none =>
    rw [hg.none hf] at hx
    exact Feeds.through hx hf hnext
  | some f =>
    obtain ⟨hne, htail⟩ := hg.length hf
    obtain ⟨count, hcount⟩ := Nat.exists_eq_succ_of_ne_zero (List.length_pos_of_ne_nil hne).ne'
    rw [hcount] at hx htail
    obtain ⟨f', hf', rfl⟩ := hx
    cases hf.symm.trans hf'
    rw [show f.head + count = f.tail by omega]
    exact Feeds.leave hf hlive hnext

/-! ### The stack of a walk -/

/-- Some walk from the root has just performed node `x`, and has never emptied its stack. -/
inductive Past (g : EffectGraph) : Nat → List Nat → Prop where
  | start : Past g g.root [g.root]
  | step {x : Nat} {stack stack' : List Nat} (hx : g.Arrives g.root [g.root] x stack)
      (hperform : g.perform x stack = some stack') (hne : stack' ≠ []) : Past g x stack'

lemma Past.arrives {stack : List Nat} (hx : g.Past x stack) {n : Nat} (hedge : g.Edge x n) :
    g.Arrives g.root [g.root] n stack := by
  cases hx with
  | start => exact .edge hedge
  | step hx hperform hne => exact hx.step hperform (List.length_pos_of_ne_nil hne) hedge

/-- The nodes above the root push the types. -/
def Carries (g : EffectGraph) (stack : List Nat) (types : List Ty) : Prop :=
  ∃ nodes, stack = nodes ++ [g.root] ∧
    List.Forall₂ (fun node ty => g.pushed? node = some ty) nodes types

lemma Carries.ne_nil {stack : List Nat} {types : List Ty} (h : g.Carries stack types) :
    stack ≠ [] := by
  obtain ⟨nodes, rfl, -⟩ := h
  simp

lemma suits_of_accepts {n item : Nat} {effect : Effect} {ty found : Ty}
    (heffect : g.effect? n = some effect) (hty : effect.ty? = some ty)
    (hitem : g.pushed? item = some found) : g.suits item n = ty.accepts found := by
  simp [suits_eq heffect, Resolution.matching, hty, hitem]

/-- An effect that the machine can have is performed by its node. -/
lemma Carries.perform {stack : List Nat} {types types' : List Ty} {n : Nat} {effect : Effect}
    (h : g.Carries stack types) (heffect : g.effect? n = some effect)
    (hperform : effect.perform types = some types') :
    ∃ stack', g.perform n stack = some stack' ∧ g.Carries stack' types' := by
  obtain ⟨nodes, rfl, hnodes⟩ := h
  rcases Effect.perform_eq_some hperform with ⟨ty, rfl, rfl⟩ | ⟨ty, top, rfl, haccepts, rfl⟩ |
    ⟨ty, top, rest, rfl, haccepts, rfl, rfl⟩
  · have hpushed : g.pushed? n = some ty := by simp [pushed?, heffect, Effect.pushed?]
    exact ⟨_, perform_push (isPush_of_pushed? hpushed) _, n :: nodes, rfl, .cons hpushed hnodes⟩
  · cases hnodes with
    | @cons item _ below _ hitem hbelow =>
      have hsuits := (suits_of_accepts heffect rfl hitem).trans haccepts
      exact ⟨_, perform_pop heffect hsuits _, below, rfl, hbelow⟩
  · cases hnodes with
    | @cons item _ below _ hitem hbelow =>
      have hsuits := (suits_of_accepts heffect rfl hitem).trans haccepts
      exact ⟨_, perform_assert heffect hsuits _, item :: below, rfl, .cons hitem hbelow⟩

end EffectGraph

namespace Branches

variable {b : Branches} {id next : Nat} {ops : List Operation}

/-- Control goes on from one branch to another within a subroutine. -/
structure Onward (b : Branches) (id next : Nat) : Prop where
  flow   : next ∈ b.flow id
  within : next ∈ b.subroutineFollowers id

lemma onward_of_target (hcalls : (b.get id).calls = false) (hreturns : (b.get id).returns = false)
    (htarget : (b.get id).target = some next) : b.Onward id next where
  flow   := mem_flow.mpr (Or.inl (by simp [ownSuccessors, hcalls, hreturns, htarget]))
  within := by simp [subroutineFollowers, hcalls, hreturns, htarget]

lemma onward_of_next (hcalls : (b.get id).calls = false) (hreturns : (b.get id).returns = false)
    (hnext : (b.get id).next = some next) : b.Onward id next where
  flow   := mem_flow.mpr (Or.inl (by simp [ownSuccessors, hcalls, hreturns, hnext]))
  within := by simp [subroutineFollowers, hcalls, hreturns, hnext]

lemma Onward.live (h : b.Onward id next) (hlive : b.Live id) : b.Live next :=
  hlive.tail (mem_subroutineFollowers h.within)

/-- The branch belongs to the subroutine that was called last, and the call to the one before; each
call comes back to the operations that stand behind it. -/
inductive InCalls (b : Branches) (ops : List Operation) : Nat → List Nat → Prop where
  | nil {id : Nat} : InCalls b ops id []
  | cons {id caller callee after back : Nat} {calls : List Nat} (hlive : b.Live caller)
      (hcalls : (b.get caller).calls = true) (hreturns : (b.get caller).returns = false)
      (htarget : (b.get caller).target = some callee) (hnext : (b.get caller).next = some after)
      (hlaid : b.Laid after 0 (ops.drop back) ((layout ops).drop back))
      (hcaller : InCalls b ops caller calls) (hwithin : Leads b.subroutineFollowers callee id) :
      InCalls b ops id (back :: calls)

lemma InCalls.within {calls : List Nat} (h : b.InCalls ops id calls)
    (hnext : next ∈ b.subroutineFollowers id) : b.InCalls ops next calls := by
  cases h with
  | nil => exact .nil
  | cons hlive hcalls hreturns htarget hafter hlaid hcaller hwithin =>
    exact .cons hlive hcalls hreturns htarget hafter hlaid hcaller (hwithin.tail hnext)

end Branches

namespace Machine

open EffectGraph

variable {m : Machine} {b : Branches} {g : EffectGraph} {x id next slot count : Nat}
  {calls : List Nat} {op : Operation}

/-- The branches and the graph are those of the operations of the machine. -/
structure Charted (m : Machine) (b : Branches) (g : EffectGraph) : Prop where
  laid    : b.Laid Branches.entry 0 m.operations (layout m.operations)
  bounded : b.Bounded
  built   : g.Built b m.strict m.registry

/-- Control stands in a branch of which `count` effects have happened. -/
structure Standing (m : Machine) (b : Branches) (g : EffectGraph) (x id count : Nat)
    (calls : List Nat) : Prop where
  live   : b.Live id
  latest : g.Latest b x id count
  calls  : b.InCalls m.operations id calls

/-- Control comes to an operation, if there is one, and to the branch in which it is put. -/
def Comes (m : Machine) (b : Branches) (g : EffectGraph) (x position : Nat) (calls : List Nat) :
    Prop :=
  ∀ op, m.operations[position]? = some op → ∃ id slot,
    (layout m.operations)[position]? = some (id, slot) ∧
    m.Standing b g x id (itemsBefore b m.strict m.registry id slot).length calls

namespace Standing

lemma onward (hm : m.Charted b g)
    (h : m.Standing b g x id (branchItems b m.strict m.registry id).length calls)
    (hnext : b.Onward id next) : m.Standing b g x next 0 calls where
  live   := hnext.live h.live
  latest := h.latest.leave hm.built h.live hnext.flow
  calls  := h.calls.within hnext.within

/-- A call goes to the callee and comes back to what stands behind it. -/
lemma call (hm : m.Charted b g) {callee after back : Nat}
    (h : m.Standing b g x id (branchItems b m.strict m.registry id).length calls)
    (hcalls : (b.get id).calls = true) (hreturns : (b.get id).returns = false)
    (htarget : (b.get id).target = some callee) (hnext : (b.get id).next = some after)
    (hlaid : b.Laid after 0 (m.operations.drop back) ((layout m.operations).drop back)) :
    m.Standing b g x callee 0 (back :: calls) where
  live   := h.live.tail (Branches.mem_followers_of_target htarget)
  latest := h.latest.leave hm.built h.live
    (Branches.mem_flow.mpr (Or.inl (by simp [Branches.ownSuccessors, hcalls, htarget])))
  calls  := .cons h.live hcalls hreturns htarget hnext hlaid h.calls .refl

/-- A return goes on behind the call that was made last. -/
lemma ret (hm : m.Charted b g) {back : Nat}
    (h : m.Standing b g x id (branchItems b m.strict m.registry id).length (back :: calls))
    (hreturns : (b.get id).returns = true) :
    ∃ after, m.Standing b g x after 0 calls ∧
      b.Laid after 0 (m.operations.drop back) ((layout m.operations).drop back) := by
  cases h.calls with
  | @cons _ caller callee after _ _ hlive hcalls hreturns' htarget hnext hlaid hcaller hwithin =>
    refine ⟨after, ⟨hlive.tail (Branches.mem_followers_of_next hnext), ?_, ?_⟩, hlaid⟩
    · refine h.latest.leave hm.built h.live (Branches.mem_flow.mpr (Or.inr ?_))
      exact hm.bounded.mem_resumptions.mpr
        ⟨caller, callee, hlive, hcalls, htarget, hnext, hwithin, hreturns⟩
    · exact hcaller.within (by simp [Branches.subroutineFollowers, hcalls, hreturns', hnext])

/-- Control comes to the operation that is laid out next. -/
lemma comes (hm : m.Charted b g) {position : Nat}
    (h : m.Standing b g x id (itemsBefore b m.strict m.registry id slot).length calls)
    (hlaid : b.Laid id slot (m.operations.drop position) ((layout m.operations).drop position)) :
    m.Comes b g x position calls := by
  intro op hop
  obtain ⟨id', slot', hplace', -, hplace⟩ := hlaid.put_drop hop
  refine ⟨id', slot', hplace', ?_⟩
  rcases hplace with ⟨rfl, rfl⟩ | ⟨rfl, hfalls⟩
  · exact h
  · rw [itemsBefore_length hfalls.length] at h
    exact h.onward hm (Branches.onward_of_next hfalls.calls hfalls.returns hfalls.next)

/-- Control comes to the label that is jumped to. -/
lemma comes_of_destination? (hm : m.Charted b g) {target : Nat}
    (h : m.Standing b g x id 0 calls) (htarget : m.destination? op = some target)
    (hid : b.labels.lookup op.labelName = some id) : m.Comes b g x target calls := by
  intro other hother
  obtain ⟨other', hother', hlabel, hname⟩ := exists_of_destination? htarget
  obtain rfl : other' = other := Option.some.inj (hother'.symm.trans hother)
  obtain ⟨id', slot', hplace, hput⟩ := hm.laid.put hother
  obtain ⟨rfl, hlookup⟩ := hput.label hlabel
  rw [hname, hid] at hlookup
  cases hlookup
  exact ⟨id, 0, hplace, h⟩

end Standing

/-! ### What a step keeps -/

/-- An operation that ends its branch and may go on is a conditional jump. -/
lemma conditional_of_endsBranch {i : Instruction} (hends : i.endsBranch = true)
    (hi : i ∉ [.jump, .call, .ret, .stop]) : i = .jumpZero ∨ i = .jumpNegative := by
  revert hends hi
  cases i <;> decide

lemma jumps_of_mem {i : Instruction} (hi : i ∈ [.jump, .jumpZero, .jumpNegative]) :
    i.jumps = true ∧ i ≠ .call ∧ i ≠ .ret := by
  revert hi
  cases i <;> decide

lemma endsBranch_of_jumps {i : Instruction} (hi : i.jumps = true) : i.endsBranch = true := by
  simp [Instruction.endsBranch, hi]

lemma exists_target_of_exits {labels : List (Label × Nat)} {branch : Branch} {fresh : Nat}
    (hexits : Branches.Exits labels op branch fresh) (hop : op.instruction.jumps = true) :
    ∃ target, labels.lookup op.labelName = some target ∧ branch.target = some target := by
  obtain ⟨target, htarget⟩ := Option.isSome_iff_exists.mp (hexits.defined hop)
  exact ⟨target, htarget, by rw [hexits.target, if_pos hop, htarget]⟩

/-- Control that is handed on comes to an operation in its branch. -/
lemma Transfer.comes (hm : m.Charted b g) {position position' : Nat} {calls' : List Nat}
    (hput : b.Put id slot op (m.operations.drop (position + 1))
      ((layout m.operations).drop (position + 1)))
    (hstanding : m.Standing b g x id (itemsBefore b m.strict m.registry id (slot + 1)).length calls)
    (htransfer : m.Transfer op position calls position' calls') :
    m.Comes b g x position' calls' := by
  cases htransfer with
  | goOn hop =>
    cases hends : op.instruction.endsBranch with
    | false => exact hstanding.comes hm (hput.inner hends)
    | true =>
      obtain ⟨fresh, hlength, hexits, hlaid⟩ := hput.last hends
      rw [itemsBefore_length hlength] at hstanding
      have hnext : b.Onward id fresh := by
        rcases conditional_of_endsBranch hends hop with hop | hop <;>
          exact Branches.onward_of_next (by simp [hexits.calls, hop])
            (by simp [hexits.returns, hop]) (by simp [hexits.next, hop, Instruction.resumes])
      exact (hstanding.onward hm hnext).comes hm hlaid
  | jump hop hdestination =>
    obtain ⟨hjumps, hcall, hret⟩ := jumps_of_mem hop
    obtain ⟨fresh, hlength, hexits, -⟩ := hput.last (endsBranch_of_jumps hjumps)
    rw [itemsBefore_length hlength] at hstanding
    obtain ⟨target, hlookup, htarget⟩ := exists_target_of_exits hexits hjumps
    have hnext : b.Onward id target := Branches.onward_of_target (by simp [hexits.calls, hcall])
      (by simp [hexits.returns, hret]) htarget
    exact (hstanding.onward hm hnext).comes_of_destination? hm hdestination hlookup
  | call hop hdestination =>
    have hjumps : op.instruction.jumps = true := by simp [hop, Instruction.jumps]
    obtain ⟨fresh, hlength, hexits, hlaid⟩ := hput.last (endsBranch_of_jumps hjumps)
    rw [itemsBefore_length hlength] at hstanding
    obtain ⟨target, hlookup, htarget⟩ := exists_target_of_exits hexits hjumps
    have hnext : (b.get id).next = some fresh := by simp [hexits.next, hop, Instruction.resumes]
    exact (hstanding.call hm (by simp [hexits.calls, hop]) (by simp [hexits.returns, hop]) htarget
      hnext hlaid).comes_of_destination? hm hdestination hlookup
  | ret hop =>
    have hends : op.instruction.endsBranch = true := by simp [hop, Instruction.endsBranch]
    obtain ⟨fresh, hlength, hexits, -⟩ := hput.last hends
    rw [itemsBefore_length hlength] at hstanding
    obtain ⟨after, hstanding, hlaid⟩ := hstanding.ret hm (by simp [hexits.returns, hop])
    exact hstanding.comes hm hlaid

/-- The node of the effect that a state is about to have: the effects of a branch stand in a row,
those of an operation behind those of the operations before it. -/
def node? (m : Machine) (b : Branches) (g : EffectGraph) (s : State) : Option Nat :=
  ((layout m.operations)[s.position]?).bind fun (id, slot) =>
    (g.fragment? id).map fun f =>
      f.head + ((itemsBefore b m.strict m.registry id slot).length + s.done)

/-- What a run keeps: the walk that has performed its effects, and where control stands. -/
def Tracked (m : Machine) (b : Branches) (g : EffectGraph) (s : State) : Prop :=
  ∃ x nodes, g.Past x nodes ∧ g.Carries nodes s.stack ∧
    ∀ op, m.operations[s.position]? = some op → ∃ id slot,
      (layout m.operations)[s.position]? = some (id, slot) ∧
      m.Standing b g x id ((itemsBefore b m.strict m.registry id slot).length + s.done) s.calls

lemma Comes.tracked {position : Nat} {nodes : List Nat} {types : List Ty}
    (h : m.Comes b g x position calls) (hpast : g.Past x nodes) (hcarries : g.Carries nodes types) :
    m.Tracked b g ⟨position, 0, calls, types⟩ :=
  ⟨x, nodes, hpast, hcarries, h⟩

lemma tracked_start (hm : m.Charted b g) : m.Tracked b g start := by
  have hstanding : m.Standing b g g.root Branches.entry 0 [] := ⟨.refl, .entry, .nil⟩
  exact (hstanding.comes hm hm.laid).tracked .start ⟨[], rfl, .nil⟩

variable {s s' : State} {effect : Effect}

lemma Tracked.put (hm : m.Charted b g) (h : m.Tracked b g s)
    (hop : m.operations[s.position]? = some op) :
    ∃ x nodes id slot, g.Past x nodes ∧ g.Carries nodes s.stack ∧
      (layout m.operations)[s.position]? = some (id, slot) ∧
      b.Put id slot op (m.operations.drop (s.position + 1))
        ((layout m.operations).drop (s.position + 1)) ∧
      m.Standing b g x id ((itemsBefore b m.strict m.registry id slot).length + s.done)
        s.calls := by
  obtain ⟨x, nodes, hpast, hcarries, hcomes⟩ := h
  obtain ⟨id, slot, hplace, hstanding⟩ := hcomes op hop
  obtain ⟨id', slot', hplace', hput⟩ := hm.laid.put hop
  cases hplace.symm.trans hplace'
  exact ⟨x, nodes, id, slot, hpast, hcarries, hplace, hput, hstanding⟩

/-- A run that is about to have an effect has walked to the node of it. -/
lemma Tracked.arrives (hm : m.Charted b g) (h : m.Tracked b g s)
    (hop : m.operations[s.position]? = some op) (heffect : m.effect? s = some effect) :
    ∃ node nodes, m.node? b g s = some node ∧ g.effect? node = some effect ∧
      g.origin? node = some op.origin ∧ g.Arrives g.root [g.root] node nodes ∧
      g.Carries nodes s.stack ∧ ∀ nodes' types, g.perform node nodes = some nodes' →
        g.Carries nodes' types → m.Tracked b g { s with done := s.done + 1, stack := types } := by
  obtain ⟨x, nodes, id, slot, hpast, hcarries, hplace, hput, hstanding⟩ := h.put hm hop
  have hitem : (op.items m.strict m.registry)[s.done]? = some (effect, op.origin) := by
    rw [effect?, effects_of_getElem? hop] at heffect
    rw [Operation.items, List.getElem?_map, heffect, Option.map_some]
  have hget := getElem?_branchItems hput.operation hitem
  obtain ⟨f, hf, hedge⟩ := hstanding.latest.edge hm.built (List.getElem?_eq_some_iff.mp hget).1
  have harrives := hpast.arrives hedge
  refine ⟨_, nodes, ?_, (hm.built.chain hf).effect hget, (hm.built.chain hf).origin hget, harrives,
    hcarries, fun nodes' types hperform hcarries' => ?_⟩
  · simp [node?, hplace, hf]
  · refine ⟨_, nodes', .step harrives hperform hcarries'.ne_nil, hcarries', fun op' hop' => ?_⟩
    exact ⟨id, slot, hplace, hstanding.live, ⟨f, hf, rfl⟩, hstanding.calls⟩

/-- Each step of the machine is followed by the walk. -/
lemma Tracked.step (hm : m.Charted b g) (h : m.Tracked b g s) (hstep : m.Step s s') :
    m.Tracked b g s' := by
  cases hstep with
  | effect heffect hperform =>
    obtain ⟨op, hop, -⟩ := exists_of_effect? heffect
    obtain ⟨node, nodes, -, hnode, -, -, hcarries, hnext⟩ := h.arrives hm hop heffect
    obtain ⟨nodes', hperform', hcarries'⟩ := hcarries.perform hnode hperform
    exact hnext nodes' _ hperform' hcarries'
  | control hop hdone htransfer =>
    obtain ⟨x, nodes, id, slot, hpast, hcarries, -, hput, hstanding⟩ := h.put hm hop
    -- all effects of the operation have happened, so that control stands behind it
    have hcount : (itemsBefore b m.strict m.registry id (slot + 1)).length =
        (itemsBefore b m.strict m.registry id slot).length + s.done := by
      rw [itemsBefore_succ hput.operation, List.length_append, hdone, effects_of_getElem? hop,
        Operation.items, List.length_map]
    rw [← hcount] at hstanding
    exact (htransfer.comes hm hput hstanding).tracked hpast hcarries

theorem tracked_of_runs (hm : m.Charted b g) (h : m.Runs s) : m.Tracked b g s := by
  induction h with
  | refl => exact tracked_start hm
  | tail _ hstep ih => exact ih.step hm hstep

end Machine

end ZeroWidth
