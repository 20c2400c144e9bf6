import ZeroWidth.Proofs.Passage
import ZeroWidth.Proofs.Seams
import ZeroWidth.Proofs.Soundness

/-!
# What feeds live code

A node that edges lead to from the root belongs to a branch that control may get to if every call
comes back, and so do the nodes that it has edges from: what control cannot get to even then feeds
nothing. A node of an operation that control does get to can be reached itself. The two can differ
behind a call that never comes back: what stands there is stitched to what comes after it, though
nothing leads to it.
-/

namespace ZeroWidth

/-! ### Branches of reached nodes -/

namespace Branches

variable {b : Branches} {id next : Nat}

lemma Bounded.live_of_mem_flow (hb : b.Bounded) (hlive : b.Live id) (hnext : next ∈ b.flow id) :
    b.Live next := by
  rcases mem_flow.mp hnext with hnext | hnext
  · exact hlive.tail (mem_ownSuccessors hnext)
  · obtain ⟨caller, callee, hcaller, -, -, hafter, -⟩ := hb.mem_resumptions.mp hnext
    exact hcaller.tail (mem_followers_of_next hafter)

end Branches

namespace EffectGraph

variable {g : EffectGraph} {b : Branches} {strict : Bool} {r : Registry} {id n x parent : Nat}

lemma Feeds.live (hb : b.Bounded) (hx : g.Feeds b x id) : b.Live id := by
  induction hx with
  | entry => exact .refl
  | leave _ hlive hnext => exact hb.live_of_mem_flow hlive hnext
  | through _ _ hnext ih => exact hb.live_of_mem_flow ih hnext

lemma Built.head_le (hg : g.Built b strict r) {f : Fragment} (hf : g.fragment? id = some f) :
    f.head ≤ f.tail := by
  obtain ⟨hne, hlength⟩ := hg.length hf
  have hpos := List.length_pos_of_ne_nil hne
  omega

/-- The latest effect is that of the root or of a live branch. -/
lemma Feeds.live_source (hg : g.Built b strict r) (hx : g.Feeds b x id) :
    x = g.root ∨ ∃ id, b.Live id ∧ g.Within id x := by
  induction hx with
  | entry => exact Or.inl rfl
  | leave hf hlive _ => exact Or.inr ⟨_, hlive, _, hf, hg.head_le hf, le_rfl⟩
  | through _ _ _ ih => exact ih

namespace Sewn

lemma live_of_reached (hsewn : g.Sewn b) (hb : b.Bounded) (hg : g.Built b strict r)
    (hn : g.Reached n) : n = g.root ∨ ∃ id, b.Live id ∧ g.Within id n := by
  induction hn with
  | refl => exact Or.inl rfl
  | tail _ hedge ih =>
    rcases hsewn.edge hedge with ⟨id, ha, hc, -⟩ | ⟨id, f, hfeeds, hf, rfl⟩
    · rcases ih with rfl | ⟨id', hlive, ha'⟩
      · exact absurd ha hsewn.not_within_root
      · exact Or.inr ⟨id', hlive, hsewn.eq_of_within ha ha' ▸ hc⟩
    · exact Or.inr ⟨id, hfeeds.live hb, f, hf, le_rfl, hg.head_le hf⟩

/-- What a reached node has edges from belongs to a live branch as well. -/
lemma live_of_edge (hsewn : g.Sewn b) (hb : b.Bounded) (hg : g.Built b strict r)
    (hn : g.Reached n) (hedge : g.Edge parent n) :
    parent = g.root ∨ ∃ id, b.Live id ∧ g.Within id parent := by
  rcases hsewn.edge hedge with ⟨id, hparent, hn', -⟩ | ⟨id, f, hfeeds, -, -⟩
  · rcases hsewn.live_of_reached hb hg hn with rfl | ⟨id', hlive, hn''⟩
    · exact absurd hn' hsewn.not_within_root
    · exact Or.inr ⟨id', hlive, hsewn.eq_of_within hn' hn'' ▸ hparent⟩
  · exact hfeeds.live_source hg

end Sewn

lemma length_itemsBefore_succ_le {slot : Nat} {op : Operation}
    (hop : (b.get id).operations[slot]? = some op) (strict : Bool) (r : Registry) :
    (itemsBefore b strict r id slot).length + (op.items strict r).length ≤
      (branchItems b strict r id).length := by
  rw [← itemsBefore_append b strict r id (slot + 1), itemsBefore_succ hop, List.length_append,
    List.length_append]
  omega

/-- Every effect of a branch is one of some operation in it. -/
lemma exists_of_lt_length_branchItems {i : Nat} (hi : i < (branchItems b strict r id).length) :
    ∃ slot op done, (b.get id).operations[slot]? = some op ∧ done < (op.items strict r).length ∧
      i = (itemsBefore b strict r id slot).length + done := by
  unfold branchItems at hi
  unfold itemsBefore
  generalize (b.get id).operations = ops at hi
  induction ops generalizing i with
  | nil => cases hi
  | cons op ops ih =>
    rw [List.flatMap_cons, List.length_append] at hi
    rcases Nat.lt_or_ge i (op.items strict r).length with hlt | hge
    · exact ⟨0, op, i, rfl, hlt, by simp⟩
    · obtain ⟨slot, op', done, hop', hdone, heq⟩ :=
        ih (show i - (op.items strict r).length < _ by omega)
      refine ⟨slot + 1, op', done, hop', hdone, ?_⟩
      rw [List.take_succ_cons, List.flatMap_cons, List.length_append]
      omega

end EffectGraph

/-! ### Where control gets to -/

namespace Machine

open EffectGraph

variable {m : Machine} {b : Branches} {g : EffectGraph}
  {x id next first slot count position n parent : Nat} {calls : List Nat} {op : Operation}
  {start : Nat → Nat}

/-- Control goes from operation to operation, whatever their effects do to the stack. -/
def Control (m : Machine) (s s' : Nat × List Nat) : Prop :=
  ∃ op, m.operations[s.1]? = some op ∧ m.Transfer op s.1 s.2 s'.1 s'.2

/-- Control gets to the position from the start. Returns go back behind the call they belong to. -/
def Attains (m : Machine) (position : Nat) : Prop :=
  ∃ calls, Relation.ReflTransGen m.Control (0, []) (position, calls)

/-- Control gets to a call, and never to what stands behind it. -/
structure Stranded (m : Machine) (position : Nat) : Prop where
  call    : ∃ op, m.operations[position]? = some op ∧ op.instruction = .call
  attains : m.Attains position
  behind  : ¬ m.Attains (position + 1)

/-- The node is one of those of the operation at the position. -/
def Contributes (m : Machine) (b : Branches) (g : EffectGraph) (position n : Nat) : Prop :=
  ∃ done < (m.effects position).length, m.node? b g ⟨position, done, [], []⟩ = some n

lemma Comes.put (hm : m.Charted b g) (h : m.Comes b g x position calls)
    (hop : m.operations[position]? = some op) :
    ∃ id slot, (layout m.operations)[position]? = some (id, slot) ∧
      b.Put id slot op (m.operations.drop (position + 1))
        ((layout m.operations).drop (position + 1)) ∧
      m.Standing b g x id (itemsBefore b m.strict m.registry id slot).length calls := by
  obtain ⟨id, slot, hplace, hstanding⟩ := h op hop
  obtain ⟨id', slot', hplace', hput⟩ := hm.laid.put hop
  cases hplace.symm.trans hplace'
  exact ⟨id, slot, hplace, hput, hstanding⟩

/-- Control that stands in a branch has walked as far as the branch goes. -/
lemma Standing.advance (hm : m.Charted b g) (h : m.Standing b g x id count calls)
    (hx : g.Reached x) {k : Nat}
    (hk : count + k ≤ (branchItems b m.strict m.registry id).length) :
    ∃ x, g.Reached x ∧ m.Standing b g x id (count + k) calls := by
  induction k with
  | zero => exact ⟨x, hx, h⟩
  | succ k ih =>
    obtain ⟨x', hx', h'⟩ := ih (by omega)
    obtain ⟨f, hf, hedge⟩ := h'.latest.edge hm.built (by omega)
    exact ⟨f.head + (count + k), hx'.tail hedge, h'.live, ⟨f, hf, rfl⟩, h'.calls⟩

/-- The walk keeps up with control. -/
lemma exists_comes_of_control (hm : m.Charted b g) {s : Nat × List Nat}
    (h : Relation.ReflTransGen m.Control (0, []) s) :
    ∃ x, g.Reached x ∧ m.Comes b g x s.1 s.2 := by
  induction h with
  | refl =>
    have hstanding : m.Standing b g g.root Branches.entry 0 [] := ⟨.refl, .entry, .nil⟩
    exact ⟨g.root, .refl, hstanding.comes hm hm.laid⟩
  | tail _ hcontrol ih =>
    obtain ⟨op, hop, htransfer⟩ := hcontrol
    obtain ⟨x, hx, hcomes⟩ := ih
    obtain ⟨id, slot, -, hput, hstanding⟩ := hcomes.put hm hop
    -- walk through the effects of the operation, then follow control
    have hcount := length_itemsBefore_succ_le hput.operation m.strict m.registry
    obtain ⟨x', hx', hstanding'⟩ := hstanding.advance hm hx hcount
    rw [← List.length_append, ← itemsBefore_succ hput.operation] at hstanding'
    exact ⟨x', hx', htransfer.comes hm hput hstanding'⟩

/-- The nodes of operations that control gets to are reached. -/
lemma Attains.reached (hm : m.Charted b g) (h : m.Attains position)
    (hn : m.Contributes b g position n) : g.Reached n := by
  obtain ⟨calls, hcontrol⟩ := h
  obtain ⟨done, hdone, hnode⟩ := hn
  obtain ⟨op, hop⟩ : ∃ op, m.operations[position]? = some op := by
    cases hop : m.operations[position]? with
    | none => simp [effects, hop] at hdone
    | some op => exact ⟨op, rfl⟩
  obtain ⟨x, hx, hcomes⟩ := exists_comes_of_control hm hcontrol
  obtain ⟨id, slot, hplace, hput, hstanding⟩ := hcomes.put hm hop
  have hcount := length_itemsBefore_succ_le hput.operation m.strict m.registry
  rw [effects_of_getElem? hop] at hdone
  rw [Operation.items, List.length_map] at hcount
  obtain ⟨x', hx', hstanding'⟩ := hstanding.advance hm hx (show _ + done ≤ _ by omega)
  obtain ⟨f, hf, hedge⟩ := hstanding'.latest.edge hm.built (by omega)
  have hn : n = f.head + ((itemsBefore b m.strict m.registry id slot).length + done) := by
    simpa [node?, hplace, hf] using hnode.symm
  exact hn ▸ hx'.tail hedge

/-! ### Calls that come back -/

lemma Attains.control {position' : Nat} (h : m.Attains position)
    (hop : m.operations[position]? = some op)
    (htransfer : ∀ calls, ∃ calls', m.Transfer op position calls position' calls') :
    m.Attains position' := by
  obtain ⟨calls, hcontrol⟩ := h
  obtain ⟨calls', htransfer⟩ := htransfer calls
  exact ⟨calls', hcontrol.tail ⟨op, hop, htransfer⟩⟩

lemma Attains.goOn (h : m.Attains position) (hop : m.operations[position]? = some op)
    (hinstruction : op.instruction ∉ [.jump, .call, .ret, .stop]) : m.Attains (position + 1) :=
  h.control hop fun calls => ⟨calls, .goOn hinstruction⟩

/-- Control that comes to the beginning of a branch comes to its end. -/
lemma Attains.within (hmapped : b.Mapped start m.operations) (h : m.Attains (start id))
    (hslot : slot < (b.get id).operations.length) : m.Attains (start id + slot) := by
  refine hmapped.within (fun {i op} hop hends hi => hi.goOn hop ?_) h hslot
  revert hends
  cases op.instruction <;> decide

/-- Control at an operation comes behind it, unless that is a call which never comes back. -/
lemma Attains.behind (hcalls : ∀ position, ¬ m.Stranded position) (h : m.Attains position)
    (hposition : m.operations[position]? = some op)
    (hop : op.instruction ∉ [.jump, .ret, .stop]) : m.Attains (position + 1) := by
  by_contra hbehind
  have hcall : op.instruction ≠ .call := fun hcall =>
    hcalls position ⟨⟨op, hposition, hcall⟩, h, hbehind⟩
  refine hbehind (h.goOn hposition ?_)
  revert hop hcall
  cases op.instruction <;> decide

/-- A jump or a call goes to the operation that defines its label. -/
lemma destination?_of_definedLabel? (hmapped : b.Mapped start m.operations) {name : Label}
    (hname : op.label? = some name) {j : Nat} {other : Operation}
    (hother : m.operations[j]? = some other) (hdefined : other.definedLabel? = some name) :
    m.destination? op = some j := by
  obtain ⟨position, hposition⟩ : ∃ position, m.destination? op = some position := by
    rw [destination?, hname, Option.bind_some, ← Option.isSome_iff_exists, List.findIdx?_isSome,
      List.any_eq_true]
    exact ⟨other, List.mem_of_getElem? hother, by simp [hdefined]⟩
  obtain ⟨other', hother', hlabel, hname'⟩ := exists_of_destination? hposition
  obtain ⟨id, slot, hplace, hput⟩ := hmapped.laid.put hother'
  obtain ⟨rfl, hlookup⟩ := hput.label hlabel
  -- both operations begin the branch of the label
  obtain ⟨id', hlookup', hstart, -⟩ := hmapped.lookup_of_definedLabel? hother hdefined
  rw [hname', Operation.labelName, hname, Option.getD_some, hlookup'] at hlookup
  obtain rfl := Option.some.inj hlookup
  rw [hposition, ← hmapped.position hplace, Nat.add_zero, hstart]

/-- If calls come back, control gets wherever it may pass on to. -/
lemma Attains.handsOn (hmapped : b.Mapped start m.operations)
    (hcalls : ∀ position, ¬ m.Stranded position) (h : m.Attains position) {position' : Nat}
    (hhands : HandsOn m.operations position position') : m.Attains position' := by
  cases hhands with
  | behind hop hopen => exact h.behind hcalls hop hopen
  | @label op other name j hop hjumps hname hother hdefined =>
    have hdestination := destination?_of_definedLabel? hmapped hname hother hdefined
    refine h.control hop fun calls => ?_
    by_cases hcall : op.instruction = .call
    · exact ⟨_, .call hcall hdestination⟩
    · refine ⟨_, .jump ?_ hdestination⟩
      revert hjumps hcall
      cases op.instruction <;> decide

/-- If calls come back, control comes to every live branch. -/
lemma attains_of_live (hmapped : b.Mapped start m.operations)
    (hops : ∀ op ∈ m.operations, op.WellKinded) (hcalls : ∀ position, ¬ m.Stranded position)
    (hlive : b.Live id) (hfalls : b.FallsThrough id first)
    (hfirst : (b.get first).operations ≠ []) : m.Attains (start first) :=
  hmapped.of_live (fun hhands hi => hi.handsOn hmapped hcalls hhands) hops ⟨[], .refl⟩ hlive hfalls
    hfirst

/-! ### What reached nodes have edges from -/

/-- A node of a branch is that of an operation which is laid out there. -/
lemma exists_contributes (hm : m.Charted b g) (hmapped : b.Mapped start m.operations)
    (hn : g.Within id n) :
    ∃ slot, slot < (b.get id).operations.length ∧
      (layout m.operations)[start id + slot]? = some (id, slot) ∧
      m.Contributes b g (start id + slot) n := by
  obtain ⟨f, hf, hle, hle'⟩ := hn
  have hlength := (hm.built.length hf).2
  have hlt : n - f.head < (branchItems b m.strict m.registry id).length := by omega
  obtain ⟨slot, op, done, hop, hdone, hn⟩ := exists_of_lt_length_branchItems hlt
  have hplace := (hmapped.put hop).1
  refine ⟨slot, (List.getElem?_eq_some_iff.mp hop).1, hplace, done, ?_, ?_⟩
  · rw [effects_of_getElem? (hmapped.cut.getElem?_position hop)]
    simpa [Operation.items] using hdone
  · simp only [node?, hplace, hf, Option.bind_some, Option.map_some, Option.some.injEq]
    omega

/-- Code that cannot run feeds no live code, up to calls that never come back. What a reached node
has an edge from is the root or a node of an operation in a branch that control may get to if every
call comes back; and it can be reached itself, unless control never gets to the operation because
some call is not come back from. -/
theorem mem_reachable_of_mem_parents (hops : ∀ op ∈ m.operations, op.WellKinded)
    (hextract : Branches.extract m.operations = .ok b)
    (hbuild : EffectGraph.build b m.strict = .ok (g, m.registry))
    (hn : n ∈ g.reachable.toList) (hparent : parent ∈ g.parents n) :
    parent = g.root ∨ ∃ position id slot, m.Contributes b g position parent ∧
      (layout m.operations)[position]? = some (id, slot) ∧ b.reachable.contains id = true ∧
      (parent ∈ g.reachable.toList ∨
        ¬ m.Attains position ∧ ∃ call, m.Stranded call) := by
  have hm := charted_of_build hops hextract hbuild
  have hsewn := sewn_of_build hm.bounded hbuild
  obtain ⟨start, hmapped⟩ := Branches.exists_mapped_of_extract hops hextract
  rw [mem_reachable_iff hm.built.mirrored] at hn ⊢
  have hedge := hm.built.mirrored.edge_iff.mpr hparent
  refine (hsewn.live_of_edge hm.bounded hm.built hn hedge).imp_right ?_
  rintro ⟨id, hlive, hwithin⟩
  obtain ⟨slot, hslot, hplace, hcontributes⟩ := exists_contributes hm hmapped hwithin
  refine ⟨_, id, slot, hcontributes, hplace, hm.bounded.contains_reachable.mpr hlive, ?_⟩
  by_cases hattains : m.Attains (start id + slot)
  · exact Or.inl (hattains.reached hm hcontributes)
  · refine Or.inr ⟨hattains, ?_⟩
    by_contra hcalls
    have hne : (b.get id).operations ≠ [] := List.ne_nil_of_length_pos (Nat.zero_lt_of_lt hslot)
    have hstart := attains_of_live hmapped hops (not_exists.mp hcalls) hlive .refl hne
    exact hattains (hstart.within hmapped hslot)

/-- A call with a push behind it that falls through to the subroutine, which ends as given. -/
def calling (last : Instruction) : List Operation := onLines [
  (.call, some (.label "f")),
  (.push, some (.number 1)),
  (.label, some (.label "f")),
  (.pop, none),
  (last, none)]

/-- The subroutine ends the program, so control never comes back to the push. -/
def straying : List Operation := calling .stop

def returning : List Operation := calling .ret

def strayingMachine : Machine := ⟨straying, false, .empty⟩

def returningMachine : Machine := ⟨returning, false, .empty⟩

lemma exists_build_calling {last : Instruction} {reached before : List Nat} {node : Option Nat}
    (hvalue : (Branches.extract (calling last) >>= fun b =>
        EffectGraph.build b false >>= fun built => .ok (b, built)).toOption.map (fun made =>
          (made.2.2, made.2.1.reachable.toList, made.2.1.parents 1,
            Machine.node? ⟨calling last, false, .empty⟩ made.1 made.2.1 ⟨1, 0, [], []⟩)) =
      some (.empty, reached, before, node)) :
    ∃ b g, Branches.extract (calling last) = .ok b ∧ EffectGraph.build b false = .ok (g, .empty) ∧
      g.reachable.toList = reached ∧ g.parents 1 = before ∧
      Machine.node? ⟨calling last, false, .empty⟩ b g ⟨1, 0, [], []⟩ = node := by
  obtain ⟨made, hmade, hvalue⟩ := exists_ok_of_toOption_map hvalue
  obtain ⟨b, hextract, hmade⟩ := exists_of_bind_eq_ok hmade
  obtain ⟨⟨g, r⟩, hbuild, hmade⟩ := exists_of_bind_eq_ok hmade
  cases hmade
  obtain ⟨rfl, hreachable, hparents, hnode⟩ := by simpa only [Prod.mk.injEq] using hvalue
  exact ⟨b, g, hextract, hbuild, hreachable, hparents, hnode⟩

lemma exists_build_straying : ∃ b g, Branches.extract straying = .ok b ∧
    EffectGraph.build b false = .ok (g, .empty) ∧ g.reachable.toList = [0, 1] ∧
    g.parents 1 = [2, 0] ∧ strayingMachine.node? b g ⟨1, 0, [], []⟩ = some 2 :=
  exists_build_calling (by decide +kernel)

lemma exists_build_returning : ∃ b g, Branches.extract returning = .ok b ∧
    EffectGraph.build b false = .ok (g, .empty) ∧ g.reachable.toList = [0, 1, 2] ∧
    g.parents 1 = [2, 0] ∧ returningMachine.node? b g ⟨1, 0, [], []⟩ = some 2 :=
  exists_build_calling (by decide +kernel)

/-- Control goes through the call to the end of the subroutine and stops there. -/
lemma mem_of_control_straying {s : Nat × List Nat}
    (h : Relation.ReflTransGen strayingMachine.Control (0, []) s) :
    s ∈ [(0, []), (2, [1]), (3, [1]), (4, [1])] := by
  induction h with
  | refl => simp
  | @tail s s' _ hcontrol ih =>
    obtain ⟨op, hop, htransfer⟩ := hcontrol
    obtain ⟨position', calls'⟩ := s'
    simp only [List.mem_cons, List.not_mem_nil, or_false] at ih
    rcases ih with rfl | rfl | rfl | rfl <;> obtain rfl := Option.some.inj hop
    · cases htransfer with
      | goOn hop => exact absurd (by decide) hop
      | jump hop => exact absurd hop (by decide)
      | call _ htarget =>
        obtain rfl := Option.some.inj htarget
        decide
    · cases htransfer with
      | goOn => decide
      | jump hop => exact absurd hop (by decide)
      | call hop | ret hop => cases hop
    · cases htransfer with
      | goOn => decide
      | jump hop => exact absurd hop (by decide)
      | call hop | ret hop => cases hop
    · cases htransfer with
      | goOn hop => exact absurd (by decide) hop
      | jump hop => exact absurd hop (by decide)
      | call hop | ret hop => cases hop

/-- The pop is reached, and it has an edge from the push, which is not: control never gets there. -/
theorem straying_feeds_live :
    (∀ op ∈ straying, op.WellKinded) ∧ ∃ b g, Branches.extract straying = .ok b ∧
      EffectGraph.build b false = .ok (g, .empty) ∧ 1 ∈ g.reachable.toList ∧ 2 ∈ g.parents 1 ∧
      2 ∉ g.reachable.toList ∧ strayingMachine.Contributes b g 1 2 ∧
      ¬ strayingMachine.Attains 1 := by
  obtain ⟨b, g, hextract, hbuild, hreachable, hparents, hnode⟩ := exists_build_straying
  refine ⟨by decide, b, g, hextract, hbuild, ?_, ?_, ?_, ⟨0, by decide, hnode⟩, ?_⟩
  · rw [hreachable]
    decide
  · rw [hparents]
    decide
  · rw [hreachable]
    decide
  · rintro ⟨calls, hcontrol⟩
    simpa using mem_of_control_straying hcontrol

/-- The push stands in a branch that counts as one control may get to, behind a call that never
comes back. If the subroutine returns, then the push is reached like all that the pop has edges
from. -/
theorem straying_parent :
    (∀ op ∈ straying, op.WellKinded) ∧
    (∃ b g, Branches.extract straying = .ok b ∧ EffectGraph.build b false = .ok (g, .empty) ∧
      1 ∈ g.reachable.toList ∧ 2 ∈ g.parents 1 ∧
      ∃ position id slot, strayingMachine.Contributes b g position 2 ∧
        (layout straying)[position]? = some (id, slot) ∧ b.reachable.contains id = true ∧
        ¬ strayingMachine.Attains position ∧ ∃ call, strayingMachine.Stranded call) ∧
    (∀ op ∈ returning, op.WellKinded) ∧
    ∃ b g, Branches.extract returning = .ok b ∧ EffectGraph.build b false = .ok (g, .empty) ∧
      1 ∈ g.reachable.toList ∧ g.parents 1 = [2, g.root] ∧
      (∀ parent ∈ g.parents 1, parent ∈ g.reachable.toList) ∧
      ∃ position id slot, returningMachine.Contributes b g position 2 ∧
        (layout returning)[position]? = some (id, slot) ∧ b.reachable.contains id = true := by
  -- the root pushes the bottom of the stack, so the push of either program is another node
  have hpush : ∀ {last b g}, (∀ op ∈ calling last, op.WellKinded) →
      Branches.extract (calling last) = .ok b → EffectGraph.build b false = .ok (g, .empty) →
      1 ∈ g.reachable.toList → 2 ∈ g.parents 1 →
      ∃ position id slot, Contributes ⟨calling last, false, .empty⟩ b g position 2 ∧
        (layout (calling last))[position]? = some (id, slot) ∧ b.reachable.contains id = true ∧
        (2 ∈ g.reachable.toList ∨ ¬ Attains ⟨calling last, false, .empty⟩ position ∧
          ∃ call, Stranded ⟨calling last, false, .empty⟩ call) := by
    intro last b g hops hextract hbuild hn hparent
    have hroot : 2 ≠ g.root := by
      rw [root_of_build hbuild]
      decide
    exact (mem_reachable_of_mem_parents (m := ⟨calling last, false, .empty⟩) hops hextract hbuild hn
      hparent).resolve_left hroot
  have hstraying : ∀ op ∈ straying, op.WellKinded := by decide
  have hreturning : ∀ op ∈ returning, op.WellKinded := by decide
  refine ⟨hstraying, ?_, hreturning, ?_⟩
  · obtain ⟨b, g, hextract, hbuild, hreachable, hparents, -⟩ := exists_build_straying
    have hn : 1 ∈ g.reachable.toList := by simp [hreachable]
    have hparent : 2 ∈ g.parents 1 := by simp [hparents]
    obtain ⟨position, id, slot, hcontributes, hplace, hlive, hreached⟩ :=
      hpush hstraying hextract hbuild hn hparent
    exact ⟨b, g, hextract, hbuild, hn, hparent, position, id, slot, hcontributes, hplace, hlive,
      hreached.resolve_left (by simp [hreachable])⟩
  · obtain ⟨b, g, hextract, hbuild, hreachable, hparents, -⟩ := exists_build_returning
    have hn : 1 ∈ g.reachable.toList := by simp [hreachable]
    obtain ⟨position, id, slot, hcontributes, hplace, hlive, -⟩ :=
      hpush hreturning hextract hbuild hn (by simp [hparents])
    exact ⟨b, g, hextract, hbuild, hn, by rw [hparents, root_of_build hbuild],
      by simp [hparents, hreachable], position, id, slot, hcontributes, hplace, hlive⟩

end Machine

end ZeroWidth
