import ZeroWidth.Proofs.Reports
import ZeroWidth.Proofs.SingleBranch

/-!
# Checks of straight-line programs are exact

The graph of operations that hand control on to the next one is a line. The walk along it keeps the
stack that a run of the operations has, as far as the run gets. So the check of such a program has
nothing to say against it if and only if the program can be run, and if a run gets stuck, the first
error is about the operation that it gets stuck at.
-/

namespace ZeroWidth

namespace EffectGraph

/-! ### The walk along the line -/

variable {g h : EffectGraph} {items front rest : List (Effect × Origin)} {item : Effect × Origin}
  {start n u : Nat} {floor nodes stuck : List Nat} {stack : List Ty}

/-- What lies above the floor has been pushed behind the start. -/
lemma Lined.exists_above (hg : g.Lined items) {stack : List Nat}
    (h : g.Arrives start floor n stack) :
    ∃ above, stack = above ++ floor ∧ ∀ v ∈ above, start < v := by
  induction h with
  | edge _ => exact ⟨[], rfl, by simp⟩
  | @step x n stack stack' hx hperform hfloor _ ih =>
    obtain ⟨above, rfl, habove⟩ := ih
    rcases perform_cases hperform with ⟨-, rfl⟩ | ⟨ty, top, -, -, hstack⟩ |
      ⟨ty, top, rest, -, -, hstack, rfl⟩
    · exact ⟨x :: above, rfl, List.forall_mem_cons.mpr ⟨hg.lt_of_arrives hx, habove⟩⟩
    · cases above with
      | nil =>
        have hlength := congrArg List.length hstack
        rw [List.nil_append, List.length_cons] at hlength
        omega
      | cons v above =>
        exact ⟨above, (List.cons.inj hstack).2.symm, (List.forall_mem_cons.mp habove).2⟩
    · exact ⟨above, hstack.symm, habove⟩

/-- As far as the effects can be had one after the other, the walk has performed their nodes, and
none of these is stuck. -/
lemma Saturated.exists_past (hsat : g.Saturated h stuck) (hg : g.Lined items)
    (hitems : items = front ++ rest)
    (hfront : Straight.attemptAll (front.map Prod.fst) [] = .ok stack) :
    ∃ nodes, g.Past front.length nodes ∧ g.Carries nodes stack ∧
      ∀ n ≤ front.length, n ∉ stuck := by
  -- by the last of the effects, as the walk goes on at its end
  induction front using List.reverseRecOn generalizing rest stack with
  | nil =>
    cases hfront
    have hstart : g.Past 0 [g.root] := hg.root ▸ .start
    refine ⟨[g.root], hstart, ⟨[], rfl, .nil⟩, fun n hn hmem => ?_⟩
    obtain ⟨-, hpush, -⟩ := (hsat.stuck n).mp hmem
    obtain rfl : n = g.root := (Nat.le_zero.mp hn).trans hg.root.symm
    rw [hg.isPush_root] at hpush
    cases hpush
  | append_singleton front item ih =>
    rw [List.map_append] at hfront
    obtain ⟨stack₁, hfront, hperform⟩ := Straight.attemptAll_concat_eq_ok hfront
    obtain ⟨nodes, hpast, hcarries, hnone⟩ :=
      @ih (item :: rest) stack₁ (by simpa using hitems) hfront
    have hitem : items[front.length]? = some item := by simp [hitems]
    have hedge : g.Edge front.length (front.length + 1) := by
      refine hg.edge.mpr ⟨rfl, ?_⟩
      rw [hg.size, hitems]
      simp
    have harrives := hpast.arrives hedge
    obtain ⟨nodes', hperform', hcarries'⟩ := hcarries.perform (hg.effect hitem) hperform
    rw [List.length_append, List.length_singleton]
    refine ⟨nodes', .step harrives hperform' hcarries'.ne_nil, hcarries', fun n hn => ?_⟩
    rcases Nat.le_succ_iff.mp hn with hn | rfl
    · exact hnone n hn
    · exact hsat.notMem_stuck hg.isPush_root harrives hperform'

/-- What lies in front of a node when the walk arrives at it: the bottom of an empty stack, or else
the item on top. -/
lemma Saturated.edge_cases (hsat : g.Saturated h stuck) (hg : g.Lined items)
    (harrives : g.Arrives g.root [g.root] n nodes) (hcarries : g.Carries nodes stack)
    (hpush : g.isPush u = true) (hedge : h.Edge u n) :
    (u = g.root ∧ stack = []) ∨
      ∃ top rest, g.root < u ∧ stack = top :: rest ∧ g.pushed? u = some top := by
  have hhead := hsat.head?_eq_of_edge hg harrives hpush hedge
  obtain ⟨above, rfl, habove⟩ := hg.exists_above harrives
  obtain ⟨above', heq, hpushed⟩ := hcarries
  obtain rfl := List.append_cancel_right heq
  cases hpushed with
  | nil => exact Or.inl ⟨(Option.some.inj hhead).symm, rfl⟩
  | @cons v top above rest hv _ =>
    obtain rfl : v = u := Option.some.inj hhead
    exact Or.inr ⟨top, rest, habove v List.mem_cons_self, rfl, hv⟩

/-- The item on top of the stack lies in front of the node. -/
lemma Saturated.exists_edge_top {top : Ty} {rest : List Ty} (hsat : g.Saturated h stuck)
    (hg : g.Lined items) (harrives : g.Arrives g.root [g.root] n nodes)
    (hcarries : g.Carries nodes (top :: rest)) :
    ∃ u, g.root < u ∧ g.pushed? u = some top ∧ h.Edge u n := by
  obtain ⟨above, rfl, habove⟩ := hg.exists_above harrives
  obtain ⟨above', heq, hpushed⟩ := hcarries
  obtain rfl := List.append_cancel_right heq
  cases hpushed with
  | @cons v _ _ _ hv _ =>
    exact ⟨v, habove v List.mem_cons_self, hv, hsat.edge_top hg.isPush_root harrives⟩

lemma exists_perform_of_suits {effect : Effect} {top : Ty} (heffect : g.effect? n = some effect)
    (hu : g.pushed? u = some top) (hsuits : g.suits u n = true) (rest : List Ty) :
    ∃ stack, effect.perform (top :: rest) = some stack := by
  cases effect with
  | push ty => exact ⟨_, rfl⟩
  | pop ty =>
    rw [suits_of_accepts heffect rfl hu] at hsuits
    exact ⟨rest, if_pos hsuits⟩
  | assert ty =>
    rw [suits_of_accepts heffect rfl hu] at hsuits
    exact ⟨top :: rest, if_pos hsuits⟩
  | copy depth => simp [suits_eq heffect, Resolution.matching, Effect.ty?] at hsuits
  | swap => simp [suits_eq heffect, Resolution.matching, Effect.ty?] at hsuits

lemma suits_root (hbottom : g.effect? g.root = some (.push .never)) (n : Nat) :
    g.suits g.root n = false := by
  cases heffect : g.effect? n with
  | none => simp [suits, heffect]
  | some effect =>
    have hpushed : g.pushed? g.root = some .never := by simp [pushed?, hbottom, Effect.pushed?]
    rw [suits_eq heffect, Resolution.matching, hpushed]
    cases effect.ty? <;> rfl

/-- A node whose effect cannot be had is stuck. -/
lemma Saturated.mem_stuck_of_perform {effect : Effect} (hsat : g.Saturated h stuck)
    (hg : g.Lined items) (harrives : g.Arrives g.root [g.root] n nodes)
    (hcarries : g.Carries nodes stack) (heffect : g.effect? n = some effect)
    (hperform : effect.perform stack = none) : n ∈ stuck := by
  have hpush := Effect.isPush_eq_false_of_perform hperform
  refine (hsat.stuck n).mpr ⟨hg.reached_iff.mpr (lt_size_of_effect? heffect),
    isPush_eq_false_of_effect? heffect hpush, fun u hedge => ?_⟩
  -- what would do lies on top of the stack, but the effect cannot be had with the stack
  by_contra hsuits
  have hsuits := Bool.eq_true_of_not_eq_false hsuits
  rcases hsat.edge_cases hg harrives hcarries (isPush_of_suits hsuits) hedge with
    ⟨rfl, -⟩ | ⟨top, rest, -, rfl, hu⟩
  · rw [suits_root hg.bottom] at hsuits
    cases hsuits
  · obtain ⟨stack', hperform'⟩ := exists_perform_of_suits heffect hu hsuits rest
    rw [hperform] at hperform'
    cases hperform'

lemma Lined.isSome_origin? (hg : g.Lined items) (hu : g.root < u) (hlt : u < g.size) :
    (g.origin? u).isSome = true := by
  rw [hg.root] at hu
  obtain ⟨i, rfl⟩ := Nat.exists_eq_add_of_lt hu
  rw [hg.size] at hlt
  have hi : i < items.length := by omega
  rw [Nat.zero_add, hg.origin (List.getElem?_eq_getElem hi)]
  rfl

/-- A node is offered the item on top of the stack and no other. -/
lemma Saturated.mem_offered_iff (hsat : g.Saturated h stuck) (hg : g.Lined items)
    (harrives : g.Arrives g.root [g.root] n nodes) (hcarries : g.Carries nodes stack) {ty : Ty} :
    ty ∈ h.offered n ↔ stack.head? = some ty := by
  simp only [offered, List.mem_filterMap, hsat.nodes.origin, hsat.nodes.pushed?,
    ← hsat.mirrored.edge_iff]
  constructor
  · rintro ⟨u, hedge, hu⟩
    split at hu
    · rename_i horigin
      rcases hsat.edge_cases hg harrives hcarries (isPush_of_pushed? hu) hedge with
        ⟨rfl, -⟩ | ⟨top, rest, -, rfl, htop⟩
      · rw [hg.nowhere] at horigin
        cases horigin
      · exact htop.symm.trans hu
    · cases hu
  · intro hhead
    obtain ⟨rest, rfl⟩ := List.head?_eq_some_iff.mp hhead
    obtain ⟨u, hpos, hu, hedge⟩ := hsat.exists_edge_top hg harrives hcarries
    have hlt := lt_size_of_isPush (isPush_of_pushed? hu)
    exact ⟨u, hedge, by rw [if_pos (hg.isSome_origin? hpos hlt), hu]⟩

/-- A node behind one of the items stems from one of those behind it. -/
lemma Lined.exists_origin?_eq (hg : g.Lined items) (hitems : items = front ++ item :: rest)
    (hlt : front.length + 1 < n) (hsize : n < g.size) :
    ∃ other ∈ rest, g.origin? n = some other.2 := by
  obtain ⟨j, rfl⟩ := Nat.exists_eq_add_of_lt hlt
  have hj : j < rest.length := by
    rw [hg.size, hitems] at hsize
    simp at hsize
    omega
  refine ⟨rest[j], List.getElem_mem hj, ?_⟩
  refine hg.origin ?_
  have hplace : front.length + 1 + j - front.length = j + 1 := by omega
  rw [hitems, List.getElem?_append_right (by omega), hplace, List.getElem?_cons_succ,
    List.getElem?_eq_getElem hj]

end EffectGraph

/-! ### The kinds of errors -/

section Same

variable {α : Type} {l : List α} {a : α} (hl : ∀ b, b ∈ l ↔ b = a) (p : α → Bool)

include hl

lemma all_eq_of_mem_iff : l.all p = p a := by
  rw [Bool.eq_iff_iff, List.all_eq_true]
  simp [hl]

lemma any_eq_of_mem_iff : l.any p = p a := by
  rw [Bool.eq_iff_iff, List.any_eq_true]
  simp [hl]

end Same

/-- What is no assertion comes to pushes and pops. -/
lemma Effect.exists_of_mem_lower {effect whole : Effect} (hwhole : ∀ ty, whole ≠ .assert ty)
    (h : effect ∈ whole.lower) : ∃ ty, effect = .push ty ∨ effect = .pop ty := by
  cases whole with
  | push ty => exact ⟨ty, Or.inl (List.mem_singleton.mp h)⟩
  | pop ty => exact ⟨ty, Or.inr (List.mem_singleton.mp h)⟩
  | assert ty => exact absurd rfl (hwhole ty)
  | copy depth =>
    rcases List.mem_append.mp h with h | h
    · exact ⟨.any, Or.inr (List.eq_of_mem_replicate h)⟩
    · exact ⟨.any, Or.inl (List.eq_of_mem_replicate h)⟩
  | swap =>
    refine ⟨.any, ?_⟩
    simp only [lower, List.mem_cons, List.not_mem_nil, or_false] at h
    tauto

namespace Operation

variable {op : Operation} {strict : Bool} {r r' : Registry} {effect : Effect}

/-- No other instruction than the assertion asserts something. -/
lemma assert_notMem_effects {effects : List Effect} (hop : op.instruction ≠ .assert)
    (h : op.effects strict r = .ok (effects, r')) (ty : Ty) : .assert ty ∉ effects := by
  unfold Operation.effects at h
  cases hi : op.instruction
  case assert => exact absurd hi hop
  case copy | slide =>
    rw [hi] at h
    cases hdepth : op.depth with
    | error e =>
      rw [hdepth] at h
      cases h
    | ok depth =>
      rw [hdepth] at h
      cases h
      simp [List.mem_replicate]
  all_goals
    rw [hi] at h
    cases h
    simp

/-- An operation that does not push takes something, or asserts something if it is an assertion. -/
lemma eq_of_mem_effectsUnder (h : effect ∈ op.effectsUnder strict r)
    (hpush : effect.isPush = false) :
    ∃ ty, effect = if op.instruction = .assert then .assert ty else .pop ty := by
  by_cases hop : op.instruction = .assert
  · simp only [effectsUnder, loweredEffects, Operation.effects, hop] at h
    exact ⟨_, (List.mem_singleton.mp h).trans (if_pos hop).symm⟩
  · unfold effectsUnder at h
    split at h
    · rename_i effects' r' hlower
      obtain ⟨effects, heffects, hlower⟩ := exists_of_map_eq_ok hlower
      obtain ⟨whole, hwhole, h⟩ := List.mem_flatMap.mp ((Prod.mk.inj hlower).1 ▸ h)
      obtain ⟨ty, rfl | rfl⟩ := Effect.exists_of_mem_lower
        (fun ty hty => assert_notMem_effects hop heffects ty (hty ▸ hwhole)) h
      · cases hpush
      · exact ⟨ty, (if_neg hop).symm⟩
    · cases h

end Operation

namespace Straight

/-- What kind of error it is that a run is stuck at an instruction. -/
def Stop.kind (strict : Bool) (instruction : Instruction) : Stop → TypeErrorKind
  | empty     => .underflow
  | unfit top =>
    if top ≠ .unknown then .mismatch
    else if instruction = .assert then .assertion
    else if strict then .strictModeViolation
    else .mismatch

/-- A stuck node that is offered what is on top of a stack, and no other item, has an error of the
kind of a run that is stuck with the stack. -/
lemma faultKind_eq {offered stack : List Ty} {ty : Ty} {instruction : Instruction}
    (hoffered : ∀ ty, ty ∈ offered ↔ stack.head? = some ty) (strict : Bool) :
    EffectGraph.faultKind offered
        (some (if instruction = .assert then .assert ty else .pop ty)) strict =
      (Stop.of stack).kind strict instruction := by
  cases stack with
  | nil =>
    have hempty : offered = [] := by
      refine List.eq_nil_iff_forall_not_mem.mpr fun ty hty => ?_
      cases (hoffered ty).mp hty
    rw [hempty]
    rfl
  | cons top rest =>
    have hmem : ∀ ty, ty ∈ offered ↔ ty = top := by
      intro ty
      rw [hoffered, List.head?_cons, Option.some.injEq, eq_comm]
    have hne : offered.isEmpty = false :=
      List.isEmpty_eq_false_iff.mpr (List.ne_nil_of_mem ((hmem top).mpr rfl))
    by_cases hassert : instruction = .assert
    · simp only [EffectGraph.faultKind, hne, hassert, if_true, all_eq_of_mem_iff hmem, Stop.of,
        Stop.kind]
      by_cases htop : top = .unknown <;> simp [htop]
    · simp only [EffectGraph.faultKind, hne, hassert, if_false, any_eq_of_mem_iff hmem, Stop.of,
        Stop.kind]
      by_cases htop : top = .unknown <;> cases strict <;> simp [htop]

end Straight

/-! ### The nodes that are stuck -/

namespace EffectGraph

variable {g h : EffectGraph} {stuck : List Nat} {ops before after : List Operation}
  {op op' : Operation} {strict : Bool} {s final : Straight.State} {stop : Straight.Stop} {n m : Nat}

/-- If all operations can be run, no node is stuck. -/
lemma stuck_eq_nil_of_run (hops : ∀ op ∈ ops, op.instruction.isStraight = true)
    (hshallow : ∀ op ∈ ops, ¬ op.TooDeep)
    (hg : g.Lined (ops.flatMap fun op => op.items strict (Straight.named .empty ops)))
    (hsat : g.Saturated h stuck) (hrun : Straight.run strict ops = .ok final) : stuck = [] := by
  obtain ⟨hstack, -⟩ := Straight.attemptAll_of_run hops hshallow (.refl _) hrun
  obtain ⟨-, -, -, hnone⟩ := hsat.exists_past hg (List.append_nil _).symm hstack
  refine List.eq_nil_iff_forall_not_mem.mpr fun n hn => ?_
  have hlt := hg.reached_iff.mp ((hsat.stuck n).mp hn).1
  rw [hg.size] at hlt
  exact hnone n (Nat.le_of_lt_succ hlt) hn

/-- A stuck node of an operation. Other nodes that are stuck lie behind it, and stem from the
operation or from those behind it. -/
structure FirstStuck (h : EffectGraph) (stuck : List Nat) (op : Operation) (after : List Operation)
    (n : Nat) : Prop where
  mem    : n ∈ stuck
  origin : h.origin? n = some op.origin
  behind : ∀ m ∈ stuck, m ≠ n → n < m ∧ ∃ op' ∈ op :: after, h.origin? m = some op'.origin

/-- If a run gets stuck at an operation, a node of the operation is the first that is stuck. -/
lemma exists_firstStuck
    (hops : ∀ other ∈ before ++ op :: after, other.instruction.isStraight = true)
    (hshallow : ∀ other ∈ before ++ op :: after, ¬ other.TooDeep)
    (hg : g.Lined ((before ++ op :: after).flatMap fun other =>
      other.items strict (Straight.named .empty (before ++ op :: after))))
    (hsat : g.Saturated h stuck) (hrun : Straight.run strict before = .ok s)
    (hstep : Straight.step strict s op = .error stop) :
    ∃ n, h.FirstStuck stuck op after n ∧
      faultKind (h.offered n) (h.effect? n) strict = stop.kind strict op.instruction := by
  obtain ⟨front, effect, rest, stack, hitems, hfront, hperform, rfl, heffect, hrest⟩ :=
    Straight.exists_item_of_step hops hshallow rfl hrun hstep
  obtain ⟨nodes, hpast, hcarries, hnone⟩ := hsat.exists_past hg hitems hfront
  have hitem : (front ++ (effect, op.origin) :: rest)[front.length]? =
      some (effect, op.origin) := by
    simp
  rw [← hitems] at hitem
  -- the node of the effect comes right behind those that the walk has performed
  have hedge : g.Edge front.length (front.length + 1) :=
    hg.edge.mpr ⟨rfl, lt_size_of_effect? (hg.effect hitem)⟩
  have harrives := hpast.arrives hedge
  refine ⟨front.length + 1, ⟨?_, ?_, fun m hm hne => ?_⟩, ?_⟩
  · exact hsat.mem_stuck_of_perform hg harrives hcarries (hg.effect hitem) hperform
  · rw [hsat.nodes.origin, hg.origin hitem]
  · have hlt : front.length + 1 < m :=
      Nat.lt_of_le_of_ne (Nat.lt_of_not_le fun hle => hnone m hle hm) hne.symm
    obtain ⟨item, hitem, horigin⟩ := hg.exists_origin?_eq hitems hlt
      (hg.reached_iff.mp ((hsat.stuck m).mp hm).1)
    obtain ⟨other, hother, hitem⟩ := hrest item hitem
    obtain ⟨effect', -, rfl⟩ := List.mem_map.mp hitem
    exact ⟨hlt, other, hother, (hsat.nodes.origin m).trans horigin⟩
  · obtain ⟨effect', heffect', heq⟩ := List.mem_map.mp heffect
    obtain rfl : effect' = effect := congrArg Prod.fst heq
    obtain ⟨ty, rfl⟩ :=
      Operation.eq_of_mem_effectsUnder heffect' (Effect.isPush_eq_false_of_perform hperform)
    rw [hsat.nodes.effect, hg.effect hitem]
    exact Straight.faultKind_eq (fun ty => hsat.mem_offered_iff hg harrives hcarries) strict

/-- A node behind another one is not reported before it unless it starts before it. -/
lemma reportedBefore_eq_false (hlt : n < m) (hn : h.origin? n = some op.origin)
    (hm : h.origin? m = some op'.origin) (hstart : ¬ op'.span.start < op.span.start) :
    h.reportedBefore m n = false := by
  simp [reportedBefore, startOf, hn, hm, Operation.origin, hstart, hlt]

namespace FirstStuck

/-- The node is reported first, unless an operation behind its own starts before it. -/
lemma head?_eq (hfirst : h.FirstStuck stuck op after n)
    (hsorted : stuck.Pairwise fun a b => h.reportedBefore a b = true)
    (hstart : ∀ op' ∈ after, ¬ op'.span.start < op.span.start) : stuck.head? = some n := by
  obtain ⟨m, rest, rfl⟩ := List.exists_cons_of_ne_nil (List.ne_nil_of_mem hfirst.mem)
  rcases List.mem_cons.mp hfirst.mem with rfl | hn
  · rfl
  by_cases hmn : m = n
  · rw [hmn, List.head?_cons]
  obtain ⟨hlt, op', hop', horigin⟩ := hfirst.behind m List.mem_cons_self hmn
  have hstart' : ¬ op'.span.start < op.span.start := by
    rcases List.mem_cons.mp hop' with rfl | hop'
    · exact Cursor.lt_irrefl _
    · exact hstart op' hop'
  have hbefore := (List.pairwise_cons.mp hsorted).1 n hn
  rw [reportedBefore_eq_false hlt hfirst.origin horigin hstart'] at hbefore
  cases hbefore

end FirstStuck

lemma span_explain (horigin : h.origin? n = some op.origin) (r : Registry) (strict : Bool) :
    (h.explain r strict n).span = op.span := by
  simp [explain, TypeError.of, horigin, Operation.origin]

end EffectGraph

/-! ### The check -/

/-- What a check says of an operation that a run gets stuck at: it has an error, and no operation
before it has one. Unless an operation behind it comes before it in the source, the error is the
first one. -/
structure Checked.Blames (checked : Checked) (strict : Bool) (op : Operation)
    (after : List Operation) (stop : Straight.Stop) (error : TypeError) : Prop where
  mem    : error ∈ checked.report.errors
  span   : error.span = op.span
  kind   : error.fault.kind = stop.kind strict op.instruction
  others : ∀ other ∈ checked.report.errors, ∃ op' ∈ op :: after, other.span = op'.span
  first  : (∀ op' ∈ after, ¬ op'.span.start < op.span.start) →
    checked.report.errors.head? = some error

open EffectGraph

/-- The error of the first node that is stuck. -/
lemma blames_explain {passes n : Nat} {g : EffectGraph} {resolved : Resolved} {strict : Bool}
    {op : Operation} {after : List Operation} {stop : Straight.Stop}
    (hresolve : g.resolve passes = .ok resolved)
    (hfirst : resolved.graph.FirstStuck resolved.stuck op after n)
    (hkind : faultKind (resolved.graph.offered n) (resolved.graph.effect? n) strict =
      stop.kind strict op.instruction) (b : Branches) (r : Registry) :
    Checked.Blames ⟨b, resolved.graph, r, resolved.stuck, resolved.report b r strict⟩ strict op
      after stop (resolved.graph.explain r strict n) := by
  constructor
  case mem => exact List.mem_map_of_mem hfirst.mem
  case span => exact span_explain hfirst.origin r strict
  case kind => exact (kind_explain ..).trans hkind
  case others =>
    intro other hother
    obtain ⟨m, hm, rfl⟩ := List.mem_map.mp hother
    by_cases hmn : m = n
    · exact ⟨op, List.mem_cons_self, span_explain (hmn ▸ hfirst.origin) r strict⟩
    · obtain ⟨-, op', hop', horigin⟩ := hfirst.behind m hm hmn
      exact ⟨op', hop', span_explain horigin r strict⟩
  case first =>
    intro hstart
    have hhead := hfirst.head?_eq (pairwise_stuck_of_resolve hresolve) hstart
    exact List.head?_map.trans (congrArg (Option.map _) hhead)

/-- The check of operations that hand control on to the next one is exact. In three passes it comes
to an end, it finds no errors if and only if the operations can be run, and if they cannot, the
first error is that of the operation that a run gets stuck at. -/
theorem checkOperations_exact {ops : List Operation} {passes : Nat}
    (hops : ∀ op ∈ ops, op.instruction.isStraight = true) (hshallow : ∀ op ∈ ops, ¬ op.TooDeep)
    (strict : Bool) (hpasses : 3 ≤ passes) :
    ∃ checked, checkOperations ops strict passes = .ok checked ∧
      (checked.report.errors = [] ↔ ∃ final, Straight.run strict ops = .ok final) ∧
      ∀ before op after s stop, ops = before ++ op :: after → Straight.run strict before = .ok s →
        Straight.step strict s op = .error stop →
        ∃ error, checked.Blames strict op after stop error := by
  obtain ⟨b, hextract, hb⟩ := Branches.exists_extract_of_isStraight hops
  obtain ⟨g, hbuild⟩ := exists_build_of_alone hops hshallow hb strict
  have hg := lined_of_build hb hbuild
  obtain ⟨resolved, hresolve⟩ := hg.exists_resolve hpasses
  have hsat := saturated_of_resolve hg.mirrored hresolve
  have hblames : ∀ before op after s stop, ops = before ++ op :: after →
      Straight.run strict before = .ok s → Straight.step strict s op = .error stop →
      ∃ error, Checked.Blames ⟨b, resolved.graph, Straight.named .empty ops, resolved.stuck,
        resolved.report b (Straight.named .empty ops) strict⟩ strict op after stop error := by
    rintro before op after s stop rfl hrun hstep
    obtain ⟨n, hfirst, hkind⟩ := exists_firstStuck hops hshallow hg hsat hrun hstep
    exact ⟨_, blames_explain hresolve hfirst hkind b _⟩
  refine ⟨_, checkOperations_of_resolve hextract hbuild hresolve, ⟨fun hnone => ?_, ?_⟩, hblames⟩
  · cases hrun : Straight.run strict ops with
    | ok final => exact ⟨final, rfl⟩
    | error stop =>
      obtain ⟨before, op, after, s, hsplit, hbefore, hstep⟩ := Straight.exists_of_run_eq_error hrun
      obtain ⟨error, hblamed⟩ := hblames before op after s stop hsplit hbefore hstep
      exact absurd (hnone ▸ hblamed.mem) List.not_mem_nil
  · rintro ⟨final, hrun⟩
    exact congrArg (List.map _) (stuck_eq_nil_of_run hops hshallow hg hsat hrun)

/-- The second of two numbers is added without having been cast. -/
def hastySum : List Operation := Machine.onLines [
  (.push, some (.number 4)),
  (.cast, some (.type "Int")),
  (.duplicate, none),
  (.writeInt, none),
  (.push, some (.number 5)),
  (.add, none),
  (.writeInt, none)]

/-- If it is not checked strictly, the sum has no errors. Otherwise the first one is that of the
addition. -/
theorem hastySum_exact :
    (∃ checked, checkOperations hastySum false 3 = .ok checked ∧ checked.report.errors = []) ∧
    ∃ checked error, checkOperations hastySum true 3 = .ok checked ∧
      checked.report.errors.head? = some error ∧ error.span = .onLine 5 0 1 ∧
      error.fault.kind = .strictModeViolation := by
  have hops : ∀ op ∈ hastySum, op.instruction.isStraight = true := by decide
  have hshallow : ∀ op ∈ hastySum, ¬ op.TooDeep := by decide
  obtain ⟨lax, hlax, hiff, -⟩ := checkOperations_exact hops hshallow false (Nat.le_refl 3)
  obtain ⟨c, hcheck, -, hblames⟩ := checkOperations_exact hops hshallow true (Nat.le_refl 3)
  obtain ⟨error, hblamed⟩ := hblames (hastySum.take 5) ⟨.add, none, .onLine 5 0 1⟩
    (hastySum.drop 6) ⟨[.unknown, .any], .empty⟩ (.unfit .unknown) rfl rfl rfl
  exact ⟨⟨lax, hlax, hiff.mpr ⟨⟨[], .empty⟩, rfl⟩⟩, c, error, hcheck,
    hblamed.first (by decide), hblamed.span, hblamed.kind⟩

end ZeroWidth
