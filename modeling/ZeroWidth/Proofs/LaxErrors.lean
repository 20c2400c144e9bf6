import ZeroWidth.Proofs.Interning
import ZeroWidth.Proofs.Numbering
import ZeroWidth.Proofs.Placing
import ZeroWidth.Proofs.Reports

/-!
# Errors outside strict mode

Where nothing has to be cast, every type of the graph is one that a program can name, and the name
tells which it is. A stuck node has failed against all that it is offered in the end. So its error
is an underflow if no operation has pushed anything in front of it, and otherwise a mismatch that
lists types the node will indeed not do with: never `any`, never the type that is expected, and the
bottom of the stack alone where anything would do.
-/

namespace ZeroWidth

/-! ### Names of types -/

namespace Registry

variable {r : Registry} {ty ty' : Ty} {name : TypeName}

/-- The type can be named, and the registry has met it. -/
def Knows (r : Registry) (ty : Ty) : Prop := r.intern (r.name ty) = (ty, r)

@[simp]
lemma knows_never (r : Registry) : r.Knows .never := rfl

@[simp]
lemma knows_any (r : Registry) : r.Knows .any := rfl

@[simp]
lemma knows_int (r : Registry) : r.Knows .int := rfl

@[simp]
lemma knows_char (r : Registry) : r.Knows .char := rfl

lemma Sound.name_of_intern (hr : r.Sound) (h : r.intern name = (ty, r)) : r.name ty = name := by
  cases hname : Ty.builtin? name with
  | some known =>
    simp only [Registry.intern, hname, Prod.mk.injEq, and_true] at h
    subst h
    unfold Ty.builtin? at hname
    split at hname <;> cases hname <;> rfl
  | none =>
    obtain ⟨id, hid, rfl⟩ := hr.numbers_of_intern hname h
    simp only [Registry.name, hid.display, Option.getD_some]

lemma Sound.knows_of_intern (hr : r.Sound) (h : r.intern name = (ty, r)) : r.Knows ty := by
  rw [Knows, hr.name_of_intern h, h]

lemma Knows.eq_of_name_eq (h : r.Knows ty) (h' : r.Knows ty') (hname : r.name ty = r.name ty') :
    ty = ty' := by
  rw [Knows, hname, h'] at h
  exact (Prod.mk.inj h).1.symm

lemma Knows.ne_unknown (h : r.Knows ty) : ty ≠ .unknown := by
  rw [Knows] at h
  have hne := r.intern_ne_unknown (r.name ty)
  rwa [h] at hne

end Registry

/-! ### Types of effects -/

lemma Effect.exists_ty_of_mem_lower {whole effect : Effect} (h : effect ∈ whole.lower) :
    ∃ ty, effect.ty? = some ty ∧ (whole.ty? = some ty ∨ ty = .any) := by
  cases whole with
  | push ty | pop ty | assert ty =>
    rw [List.mem_singleton.mp h]
    exact ⟨ty, rfl, Or.inl rfl⟩
  | copy depth =>
    refine ⟨.any, ?_, Or.inr rfl⟩
    rcases List.mem_append.mp h with h | h <;> rw [List.eq_of_mem_replicate h] <;> rfl
  | swap =>
    refine ⟨.any, ?_, Or.inr rfl⟩
    simp only [lower, List.mem_cons, List.not_mem_nil, or_false] at h
    rcases h with rfl | rfl | rfl | rfl <;> rfl

namespace Operation

variable {op : Operation} {r : Registry} {effects : List Effect} {effect : Effect} {ty : Ty}

lemma knows_annotatedType (hr : r.Sound) (h : (op.annotatedType r).2 = r) :
    r.Knows (op.annotatedType r).1 := by
  unfold annotatedType at h ⊢
  split
  · rename_i name hname
    rw [hname] at h
    exact hr.knows_of_intern (Prod.ext rfl h)
  · exact r.knows_any

/-- Outside strict mode the effects of an operation mention types that can be named. -/
lemma knows_of_effects (hr : r.Sound) (h : op.effects false r = .ok (effects, r)) :
    ∀ effect ∈ effects, ∀ ty ∈ effect.ty?, r.Knows ty := by
  unfold Operation.effects at h
  cases hop : op.instruction
  case cast | assert =>
    simp only [hop, Except.ok.injEq, Prod.mk.injEq] at h
    obtain ⟨rfl, hsame⟩ := h
    simp [Effect.ty?, Ty.fresh, knows_annotatedType hr hsame]
  case copy | slide =>
    rw [hop] at h
    cases hdepth : op.depth with
    | error failure => simp [hdepth, Except.map] at h
    | ok depth =>
      rw [hdepth] at h
      cases h
      simp [Effect.ty?, or_imp, forall_and]
  all_goals
    rw [hop] at h
    cases h
    simp [Effect.ty?, Ty.fresh]

/-- The effects of an operation that the registry knows the types of are about types that can be
named. -/
lemma Settled.exists_knows (h : op.Settled false r) (heffect : effect ∈ op.effectsUnder false r) :
    ∃ ty, effect.ty? = some ty ∧ r.Knows ty := by
  obtain ⟨hr, effects, hlowered⟩ := h
  obtain ⟨raised, hraised, rfl⟩ := exists_effects_of_loweredEffects hlowered
  rw [effectsUnder, hlowered] at heffect
  obtain ⟨whole, hwhole, heffect⟩ := List.mem_flatMap.mp heffect
  obtain ⟨ty, hty, hwhole' | rfl⟩ := Effect.exists_ty_of_mem_lower heffect
  · exact ⟨ty, hty, knows_of_effects hr hraised whole hwhole ty hwhole'⟩
  · exact ⟨.any, hty, r.knows_any⟩

end Operation

namespace Ty

/-- What is not accepted, where nothing is left to be cast: the bottom of the stack, and a type that
is neither `any` nor the one that is expected where that is not `any` either. -/
lemma accepts_eq_false {expected found : Ty} (hfound : found ≠ .unknown)
    (h : expected.accepts found = false) :
    found ≠ .any ∧ (found = expected → expected = .never) ∧ (expected = .any → found = .never) := by
  cases found with
  | never => simp [eq_comm]
  | any => cases h
  | unknown => exact absurd rfl hfound
  | int | char | custom id =>
    simp only [accepts, Bool.or_eq_false_iff, decide_eq_false_iff_not] at h
    exact ⟨by simp, fun heq => absurd heq h.2, fun heq => absurd heq h.1.1⟩

end Ty

namespace EffectGraph

variable {g h : EffectGraph} {b : Branches} {r : Registry} {stuck : List Nat} {id : Nat}
  {effect : Effect} {expected : Ty} {s : Sighting}

/-! ### Types of nodes -/

/-- Every node but the root has an effect of some operation. -/
lemma exists_op_of_effect? {strict : Bool} (hb : b.Bounded) (hbuild : build b strict = .ok (g, r))
    (heffect : g.effect? id = some effect) : effect = .push .never ∨
      ∃ branch, ∃ op ∈ (b.get branch).operations, effect ∈ op.effectsUnder strict r := by
  by_cases hroot : id = 0
  · rw [hroot, bottom_of_build hb hbuild] at heffect
    exact Or.inl (Option.some.inj heffect).symm
  · have hlt := lt_size_of_effect? heffect
    rw [(numbered_of_build hbuild).size] at hlt
    obtain ⟨branch, k, hk, rfl⟩ := exists_nodeAt (Nat.pos_of_ne_zero hroot) hlt
    have hitem := (item_of_build hb hbuild (List.getElem?_eq_getElem hk)).1
    obtain ⟨op, hop, hmem⟩ := List.mem_flatMap.mp (List.getElem_mem hk)
    obtain ⟨effect', heffect', heq⟩ := List.mem_map.mp hmem
    rw [heffect, ← heq] at hitem
    cases hitem
    exact Or.inr ⟨branch, op, hop, heffect'⟩

/-- Outside strict mode every node is about a type that can be named. -/
lemma exists_knows_of_effect? (hb : b.Bounded) (hbuild : build b false = .ok (g, r))
    (heffect : g.effect? id = some effect) : ∃ ty, effect.ty? = some ty ∧ r.Knows ty := by
  rcases exists_op_of_effect? hb hbuild heffect with rfl | ⟨branch, op, hop, hmem⟩
  · exact ⟨.never, rfl, r.knows_never⟩
  · exact (settled_of_build hbuild hop).exists_knows hmem

/-! ### What stuck nodes are offered -/

lemma effect?_of_pushed? {parent : Nat} {ty : Ty} (h : g.pushed? parent = some ty) :
    g.effect? parent = some (.push ty) := by
  obtain ⟨effect, heffect, hpushed⟩ := Option.bind_eq_some_iff.mp h
  cases effect with
  | push ty => rw [heffect, Option.some.inj hpushed]
  | _ => cases hpushed

lemma exists_pushed?_of_isPush {parent : Nat} (h : g.isPush parent = true) :
    ∃ ty, g.pushed? parent = some ty := by
  unfold isPush at h
  unfold pushed?
  cases heffect : g.effect? parent with
  | none => simp [heffect] at h
  | some effect =>
    cases effect with
    | push ty => exact ⟨ty, rfl⟩
    | _ => simp [heffect, Effect.isPush] at h

/-- Nothing is offered to a node if no operation pushes anything in front of it. -/
lemma sightings_eq_nil_iff : g.sightings r id = [] ↔
    ∀ parent ∈ g.parents id, g.isPush parent = true → g.origin? parent = none := by
  rw [List.eq_nil_iff_forall_not_mem]
  constructor
  · intro hnone parent hparent hpush
    obtain ⟨ty, hty⟩ := exists_pushed?_of_isPush hpush
    by_contra horigin
    obtain ⟨origin, horigin⟩ := Option.ne_none_iff_exists'.mp horigin
    exact hnone ⟨origin, ty, r.name ty⟩ (mem_sightings.mpr ⟨parent, hparent, hty, horigin, rfl⟩)
  · intro hnone s hs
    obtain ⟨parent, hparent, hpushed, horigin, -⟩ := mem_sightings.mp hs
    rw [hnone parent hparent (isPush_of_pushed? hpushed)] at horigin
    cases horigin

/-- A node that is stuck will not do with anything that it is offered. -/
lemma Saturated.accepts_eq_false (hsat : g.Saturated h stuck) (hid : id ∈ stuck)
    (heffect : h.effect? id = some effect) (hexpected : effect.ty? = some expected)
    (hs : s ∈ h.sightings r id) : expected.accepts s.ty = false := by
  obtain ⟨parent, hparent, hpushed, -⟩ := mem_sightings.mp hs
  have hsuits := ((hsat.stuck id).mp hid).2.2 parent (hsat.mirrored.edge_iff.mpr hparent)
  rw [hsat.nodes.effect] at heffect
  rw [suits_eq heffect, Resolution.matching, hexpected, ← hsat.nodes.pushed?, hpushed] at hsuits
  exact hsuits

end EffectGraph

/-! ### Errors -/

/-- The items that an error lists. -/
def TypeFault.listed : TypeFault → List Sighting
  | mismatch _ found | assertionMismatch _ found => found
  | _                                            => []

/-- What is told of listed items: each type among them once, and of each item where it was
pushed. -/
def Sighting.tidings (listed : List Sighting) : String :=
  " is of type \"" ++ " | ".intercalate (listed.map Sighting.name).eraseDups ++ "\".\n\n" ++
    "\n".intercalate (listed.map fun s =>
      "\"" ++ s.name ++ "\" comes from L" ++ s.origin.span.start.text ++ ".")

lemma Sighting.tidings_eq (listed : List Sighting) :
    tidings listed = " is of type " ++ quoted (union listed) ++ ".\n\n" ++ list listed := by
  have htype : " is of type \"" = " is of type " ++ "\"" := by decide +kernel
  have hend : "\".\n\n" = "\"" ++ ".\n\n" := by decide +kernel
  have hplace : "\" comes from L" = "\"" ++ " comes from L" := by decide +kernel
  have htext : Sighting.text = fun s =>
      "\"" ++ s.name ++ "\" comes from L" ++ s.origin.span.start.text ++ "." := by
    funext s
    simp only [Sighting.text, quoted, hplace, String.append_assoc]
  simp only [tidings, union, list, quoted, htext, htype, hend, String.append_assoc]

namespace TypeFault

lemma message_mismatch (during : Option Instruction) (found : List Sighting) :
    (mismatch during found).message =
      "Cannot perform " ++ deed during ++ " as the top item on the stack" ++
        Sighting.tidings found := by
  have hsplit : " as the top item on the stack is of type " =
    " as the top item on the stack" ++ " is of type " := by decide +kernel
  unfold message
  simp only [Sighting.tidings_eq, hsplit, String.append_assoc]

lemma message_assertionMismatch (expected : String) (found : List Sighting) :
    (assertionMismatch expected found).message =
      "Attempted to assert type \"" ++ expected ++ "\", but the top item of the stack" ++
        Sighting.tidings found := by
  have hopen : "Attempted to assert type \"" =
    "Attempted to assert type " ++ "\"" := by decide +kernel
  have hclose : "\", but the top item of the stack" =
    "\"" ++ ", but the top item of the stack" := by decide +kernel
  have hsplit : ", but the top item of the stack is of type " =
    ", but the top item of the stack" ++ " is of type " := by decide +kernel
  unfold message
  simp only [Sighting.tidings_eq, quoted, hopen, hclose, hsplit, String.append_assoc]

end TypeFault

lemma Sighting.union_of_forall {found : List Sighting} {name : String} (hne : found ≠ [])
    (hname : ∀ s ∈ found, s.name = name) : Sighting.union found = name := by
  obtain ⟨s, rest, rfl⟩ := List.exists_cons_of_ne_nil hne
  have hs := hname s List.mem_cons_self
  have hrest : (rest.map Sighting.name).filter (fun other => !other == name) = [] := by
    refine List.filter_eq_nil_iff.mpr fun other hother => ?_
    obtain ⟨s', hs', rfl⟩ := List.mem_map.mp hother
    simp [hname s' (List.mem_cons_of_mem s hs')]
  rw [union, List.map_cons, List.eraseDups_cons, hs, hrest]
  simp

namespace EffectGraph

variable {g h : EffectGraph} {b : Branches} {r : Registry} {stuck : List Nat} {id : Nat}

/-- Where nothing is left to be cast, an error is an underflow or a mismatch that lists all that the
node is offered. -/
lemma fault_lax (hknown : ∀ s ∈ g.sightings r id, s.ty ≠ .unknown) :
    (g.sightings r id = [] ∧ (g.explain r false id).fault.kind = .underflow) ∨
    (g.sightings r id ≠ [] ∧ (g.explain r false id).fault.kind = .mismatch ∧
      (g.explain r false id).fault.listed = g.sightings r id) := by
  by_cases hnil : g.sightings r id = []
  · exact Or.inl ⟨hnil, by simp [explain, TypeError.of, TypeFault.of, hnil, TypeFault.kind]⟩
  · obtain ⟨s, hs⟩ := List.exists_mem_of_ne_nil _ hnil
    have hall : (g.sightings r id).all (fun s => s.ty = .unknown) = false := by
      rw [List.all_eq_false]
      exact ⟨s, hs, by simpa using hknown s hs⟩
    refine Or.inr ⟨hnil, ?_⟩
    simp only [explain, TypeError.of, TypeFault.of, List.isEmpty_iff, if_neg hnil, Bool.false_and,
      hall]
    cases g.effect? id with
    | none => exact ⟨rfl, rfl⟩
    | some effect => cases effect <;> exact ⟨rfl, rfl⟩

/-- What a mismatch says first: which type was asserted, or what was being done. -/
def complaint (g : EffectGraph) (r : Registry) (id : Nat) : String :=
  match g.effect? id with
  | some (.assert asserted) =>
    "Attempted to assert type \"" ++ r.name asserted ++ "\", but the top item of the stack"
  | _ =>
    "Cannot perform " ++ (((g.origin? id).map Origin.instruction).map Instruction.verb).getD "" ++
      " as the top item on the stack"

/-- A mismatch names each type among the items that it lists once, and tells of each item where it
was pushed. -/
lemma message_of_kind {strict : Bool} (hkind : (g.explain r strict id).fault.kind = .mismatch) :
    (g.explain r strict id).fault.message =
      g.complaint r id ++ Sighting.tidings (g.explain r strict id).fault.listed := by
  revert hkind
  unfold explain TypeError.of TypeFault.of complaint
  dsimp only
  split
  · nofun
  · cases g.effect? id with
    | none => exact fun _ => TypeFault.message_mismatch _ _
    | some effect =>
      cases effect with
      | assert expected =>
        dsimp only
        split
        · nofun
        · exact fun _ => TypeFault.message_assertionMismatch _ _
      | pop expected =>
        dsimp only
        split
        · nofun
        · exact fun _ => TypeFault.message_mismatch _ _
      | push | copy | swap => exact fun _ => TypeFault.message_mismatch _ _

/-- None of the listed items will do where `expected` is asked for, which their types show and their
names as well. -/
structure Unfit (r : Registry) (expected : Ty) (listed : List Sighting) : Prop where
  ne_nil   : listed ≠ []
  notAny   : ∀ s ∈ listed, s.ty ≠ .any ∧ s.name ≠ "Any"
  differs  : ∀ s ∈ listed, s.ty = expected ∨ s.name = r.name expected → expected = .never
  bottom   : expected = .any → (∀ s ∈ listed, s.ty = .never) ∧ Sighting.union listed = "Never"

/-- What the error of a node says is so: nothing was pushed in front of the node, or none of what
was pushed there will do. -/
structure Genuine (g : EffectGraph) (r : Registry) (id : Nat) (e : TypeError) : Prop where
  kind      : e.fault.kind = .underflow ∨ e.fault.kind = .mismatch
  underflow : e.fault.kind = .underflow ↔
    ∀ parent ∈ g.parents id, g.isPush parent = true → g.origin? parent = none
  mismatch  : e.fault.kind = .mismatch → ∃ effect expected, g.effect? id = some effect ∧
    effect.ty? = some expected ∧ Unfit r expected e.fault.listed ∧
    e.finding.message = g.complaint r id ++ Sighting.tidings e.fault.listed

/-- Types that the registry knows are told apart by their names. -/
lemma unfit_of_accepts {expected : Ty} {listed : List Sighting} (hne : listed ≠ [])
    (hexpected : r.Knows expected)
    (hlisted : ∀ s ∈ listed, r.Knows s.ty ∧ s.name = r.name s.ty ∧ expected.accepts s.ty = false) :
    Unfit r expected listed := by
  have hty : ∀ s ∈ listed, s.ty ≠ .any ∧ (s.ty = expected → expected = .never) ∧
      (expected = .any → s.ty = .never) := fun s hs =>
    Ty.accepts_eq_false (hlisted s hs).1.ne_unknown (hlisted s hs).2.2
  constructor
  case ne_nil => exact hne
  case notAny =>
    intro s hs
    obtain ⟨hknows, hname, -⟩ := hlisted s hs
    refine ⟨(hty s hs).1, fun hany => (hty s hs).1 ?_⟩
    exact hknows.eq_of_name_eq r.knows_any (hname.symm.trans hany)
  case differs =>
    rintro s hs (heq | heq)
    · exact (hty s hs).2.1 heq
    · obtain ⟨hknows, hname, -⟩ := hlisted s hs
      exact (hty s hs).2.1 (hknows.eq_of_name_eq hexpected (hname.symm.trans heq))
  case bottom =>
    intro hany
    have hnever : ∀ s ∈ listed, s.ty = .never := fun s hs => (hty s hs).2.2 hany
    refine ⟨hnever, Sighting.union_of_forall hne fun s hs => ?_⟩
    rw [(hlisted s hs).2.1, hnever s hs]
    rfl

/-- The error of a stuck node is genuine. -/
lemma Saturated.genuine (hsat : g.Saturated h stuck) (hb : b.Bounded)
    (hbuild : build b false = .ok (g, r)) (hid : id ∈ stuck) :
    h.Genuine r id (h.explain r false id) := by
  have hknows : ∀ {id effect}, h.effect? id = some effect →
      ∃ ty, effect.ty? = some ty ∧ r.Knows ty := fun heffect =>
    exists_knows_of_effect? hb hbuild (hsat.nodes.effect _ ▸ heffect)
  have hsighted : ∀ s ∈ h.sightings r id, r.Knows s.ty ∧ s.name = r.name s.ty := fun s hs => by
    obtain ⟨parent, -, hpushed, -, hname⟩ := mem_sightings.mp hs
    obtain ⟨ty, hty, hknown⟩ := hknows (effect?_of_pushed? hpushed)
    cases hty
    exact ⟨hknown, hname⟩
  have hkind := fault_lax fun s hs => (hsighted s hs).1.ne_unknown
  constructor
  case kind => exact hkind.imp And.right fun h => h.2.1
  case underflow =>
    rw [← sightings_eq_nil_iff (r := r)]
    rcases hkind with ⟨hnil, hkind⟩ | ⟨hne, hkind, -⟩
    · exact iff_of_true hkind hnil
    · exact iff_of_false (by simp [hkind]) hne
  case mismatch =>
    intro hmismatch
    rcases hkind with ⟨-, hkind⟩ | ⟨hne, -, hlisted⟩
    · rw [hkind] at hmismatch
      cases hmismatch
    · obtain ⟨hreached, -, -⟩ := (hsat.stuck id).mp hid
      have hroot := lt_size_of_effect? (built_of_build hb hbuild).root
      obtain ⟨effect, heffect⟩ :=
        exists_effect?_of_lt (hreached.lt_size (mirrored_of_build hbuild) hroot)
      rw [← hsat.nodes.effect] at heffect
      obtain ⟨expected, hexpected, hknown⟩ := hknows heffect
      refine ⟨effect, expected, heffect, hexpected, ?_, message_of_kind hmismatch⟩
      rw [hlisted]
      exact unfit_of_accepts hne hknown fun s hs => ⟨(hsighted s hs).1, (hsighted s hs).2,
        hsat.accepts_eq_false hid heffect hexpected hs⟩

end EffectGraph

namespace Program

/-- Outside strict mode errors are genuine. No node is about a type that is left to be cast; there
is one error for each stuck node, an underflow exactly if nothing that an operation pushes lies in
front of the node, and otherwise a mismatch which lists what the node will indeed not do with, and
tells of nothing else. -/
theorem check_genuine {p : Program} {passes : Nat} {c : Checked}
    (hlax : ∀ op ∈ p.operations, op.instruction ≠ .strict) (h : p.check false passes = .ok c) :
    (∀ id effect, c.graph.effect? id = some effect → effect.ty? ≠ some .unknown) ∧
    List.Forall₂ (c.graph.Genuine c.registry) c.stuck c.report.errors := by
  have hstrict : p.strictness false = false := by
    simpa [strictness, isStrict] using hlax
  rw [check, hstrict] at h
  obtain ⟨b, g, r, resolved, hextract, hbuild, hresolve, rfl⟩ := exists_of_checkOperations h
  have hb := Branches.extract_bounded hextract
  have hsat := EffectGraph.saturated_of_resolve (EffectGraph.mirrored_of_build hbuild) hresolve
  refine ⟨fun id effect heffect => ?_, ?_⟩
  · rw [hsat.nodes.effect] at heffect
    obtain ⟨ty, hty, hknows⟩ := EffectGraph.exists_knows_of_effect? hb hbuild heffect
    rw [hty]
    exact fun hunknown => hknows.ne_unknown (Option.some.inj hunknown)
  · rw [Resolved.report, List.forall₂_map_right_iff, List.forall₂_same]
    exact fun id hid => hsat.genuine hb hbuild hid

/-- An item is cast to a type that it is not meant to have, and then used. -/
def misnaming (type : TypeName) (use : Instruction) : Program := .ofOperations (Machine.onLines [
  (.push, some (.number 1)),
  (.cast, some (.type type)),
  (use, none)])

/-- Items cast to a type of the name of what has not been cast, and to what lies at the bottom of
the stack. -/
theorem misnaming_genuine :
    (∀ op ∈ (misnaming "Unknown" .writeInt).operations, op.instruction ≠ .strict) ∧
    (∀ op ∈ (misnaming "Never" .pop).operations, op.instruction ≠ .strict) ∧
    (∃ c, (misnaming "Unknown" .writeInt).check false 10 = .ok c ∧ c.stuck = [4] ∧
      c.report.errors.map TypeError.finding =
        [⟨"mismatch", "Cannot perform writeint as the top item on the stack is of type " ++
          "\"Unknown\".\n\n\"Unknown\" comes from L2:0.", .onLine 2 0 1⟩] ∧
      (∀ id effect, c.graph.effect? id = some effect → effect.ty? ≠ some .unknown) ∧
      List.Forall₂ (c.graph.Genuine c.registry) c.stuck c.report.errors) ∧
    ∃ c, (misnaming "Never" .pop).check false 10 = .ok c ∧ c.stuck = [4] ∧
      c.report.errors.map TypeError.finding =
        [⟨"mismatch", "Cannot perform pop as the top item on the stack is of type " ++
          "\"Never\".\n\n\"Never\" comes from L2:0.", .onLine 2 0 1⟩] ∧
      (∀ id effect, c.graph.effect? id = some effect → effect.ty? ≠ some .unknown) ∧
      List.Forall₂ (c.graph.Genuine c.registry) c.stuck c.report.errors := by
  have hunknown : ∀ op ∈ (misnaming "Unknown" .writeInt).operations, op.instruction ≠ .strict := by
    decide
  have hnever : ∀ op ∈ (misnaming "Never" .pop).operations, op.instruction ≠ .strict := by decide
  have hvalue : ((misnaming "Unknown" .writeInt).check false 10).toOption.map
      (fun c => (c.stuck, c.report.errors.map TypeError.finding)) = some ([4],
        [⟨"mismatch", "Cannot perform writeint as the top item on the stack is of type " ++
          "\"Unknown\".\n\n\"Unknown\" comes from L2:0.", .onLine 2 0 1⟩]) := by decide +kernel
  have hvalue' : ((misnaming "Never" .pop).check false 10).toOption.map
      (fun c => (c.stuck, c.report.errors.map TypeError.finding)) = some ([4],
        [⟨"mismatch", "Cannot perform pop as the top item on the stack is of type " ++
          "\"Never\".\n\n\"Never\" comes from L2:0.", .onLine 2 0 1⟩]) := by decide +kernel
  obtain ⟨c, hcheck, hvalue⟩ := exists_ok_of_toOption_map hvalue
  obtain ⟨c', hcheck', hvalue'⟩ := exists_ok_of_toOption_map hvalue'
  obtain ⟨hstuck, herrors⟩ := Prod.mk.inj hvalue
  obtain ⟨hstuck', herrors'⟩ := Prod.mk.inj hvalue'
  exact ⟨hunknown, hnever, ⟨c, hcheck, hstuck, herrors, check_genuine hunknown hcheck⟩,
    c', hcheck', hstuck', herrors', check_genuine hnever hcheck'⟩

end Program

end ZeroWidth
