import ZeroWidth.Proofs.Partition
import ZeroWidth.Proofs.Verdict

/-!
# Which programs can be checked

A reader looks at the labels of a program once it is complete, and a check resolves them when it
puts the operations into branches. The two agree: labels that have nothing wrong with them can be
resolved, and no others can. So a check of what has been read without a fault never fails for a
label. It fails if some operation reaches too deep, be it reachable or not, and otherwise only if
the passes run out.
-/

namespace ZeroWidth

/-! ### Labels that can be resolved -/

namespace Branches

variable {b b' : Branches} {current : Nat} {op : Operation} {ops : List Operation}

lemma isSome_lookup_zipIdx {names : List Label} {name : Label} {k : Nat} :
    ((names.zipIdx k).lookup name).isSome = true ↔ name ∈ names := by
  constructor
  · intro h
    obtain ⟨id, hid⟩ := Option.isSome_iff_exists.mp h
    exact List.mem_of_getElem? (lookup_zipIdx hid).2
  · intro h
    by_contra hnone
    exact notMem_of_lookup_zipIdx (Option.not_isSome_iff_eq_none.mp hnone) h

/-- There is room for a label that has not been declared. -/
lemma Declared.exists_declare {names : List Label} (h : b.Declared names)
    (hop : ∀ name ∈ op.definedLabel?, name ∉ names) : ∃ b', b.declare op = .ok b' := by
  unfold Branches.declare
  cases hname : op.definedLabel? with
  | none => exact ⟨b, rfl⟩
  | some name =>
    have hlookup : b.labels.lookup name = none := by
      rw [← Option.not_isSome_iff_eq_none, h.labels, isSome_lookup_zipIdx]
      exact hop name hname
    simp only [hlookup]
    exact ⟨_, rfl⟩

lemma Declared.exists_foldlM {names : List Label} (h : b.Declared names)
    (hnodup : (names ++ definedLabels ops).Nodup) :
    ∃ b', ops.foldlM Branches.declare b = .ok b' := by
  induction ops generalizing b names with
  | nil => exact ⟨b, rfl⟩
  | cons op ops ih =>
    rw [definedLabels_cons, ← List.append_assoc] at hnodup
    have hfree : ∀ name ∈ op.definedLabel?, name ∉ names := fun name hname hmem =>
      (List.nodup_append.mp (List.nodup_append.mp hnodup).1).2.2 name hmem name
        (Option.mem_toList.mpr hname) rfl
    obtain ⟨b₁, hdeclare⟩ := h.exists_declare hfree
    obtain ⟨b', hfold⟩ := ih (h.declare hdeclare) hnodup
    refine ⟨b', ?_⟩
    rw [List.foldlM_cons, hdeclare]
    exact hfold

lemma exists_place (hop : op.instruction.argKind = .label →
    (b.labels.lookup op.labelName).isSome = true) :
    ∃ b' next, b.place current op = .ok (b', next) := by
  have hresolve : op.instruction.argKind = .label → ∃ target, b.resolve op = .ok target :=
    fun hkind => by
      obtain ⟨target, htarget⟩ := Option.isSome_iff_exists.mp (hop hkind)
      rw [Operation.labelName] at htarget
      exact ⟨target, by simp only [resolve, htarget]⟩
  unfold place
  cases hi : op.instruction
  case label | call | jump | jumpZero | jumpNegative =>
    obtain ⟨target, htarget⟩ := hresolve (by rw [hi]; rfl)
    simp only [htarget]
    exact ⟨_, _, rfl⟩
  all_goals exact ⟨_, _, rfl⟩

lemma Ready.exists_placeAll (h : b.Ready current ops)
    (hops : ∀ op ∈ ops, op.instruction.argKind = .label →
      (b.labels.lookup op.labelName).isSome = true) :
    ∃ b', b.placeAll current ops = .ok b' := by
  induction ops generalizing b current with
  | nil => exact ⟨b, rfl⟩
  | cons op ops ih =>
    obtain ⟨b₁, next, hplace⟩ := exists_place (hops op List.mem_cons_self)
    obtain ⟨b', hrest⟩ := ih (h.place hplace) fun other hother => by
      rw [h.labels_place hplace]
      exact hops other (List.mem_cons_of_mem _ hother)
    refine ⟨b', ?_⟩
    rw [placeAll, hplace]
    exact hrest

lemma mem_definedLabels (hops : ∀ op ∈ ops, op.WellKinded) (hop : op ∈ ops)
    (hlabel : op.instruction = .label) : op.labelName ∈ definedLabels ops := by
  have hname := Operation.label?_of_wellKinded (hops op hop) (by rw [hlabel]; rfl)
  exact List.mem_filterMap.mpr ⟨op, hop, by rw [Operation.definedLabel?, if_pos hlabel, hname]⟩

lemma mem_usedLabels (hops : ∀ op ∈ ops, op.WellKinded) (hop : op ∈ ops)
    (hkind : op.instruction.argKind = .label) (hlabel : op.instruction ≠ .label) :
    op.labelName ∈ usedLabels ops := by
  have hname := Operation.label?_of_wellKinded (hops op hop) hkind
  exact List.mem_filterMap.mpr ⟨op, hop, by rw [Operation.usedLabel?, if_neg hlabel, hname]⟩

/-- Labels with nothing wrong about them can be resolved. -/
lemma exists_extract (hops : ∀ op ∈ ops, op.WellKinded) (h : labelErrors ops = []) :
    ∃ b, extract ops = .ok b := by
  obtain ⟨hnodup, hused⟩ := labelErrors_eq_nil_iff.mp h
  obtain ⟨b₀, hdeclare⟩ : ∃ b₀, ops.foldlM declare initial = .ok b₀ :=
    declared_initial.exists_foldlM hnodup
  have hdeclared := declared_initial.foldlM hdeclare
  obtain ⟨b, hplace⟩ := (hdeclared.ready hops).exists_placeAll fun op hop hkind => by
    rw [hdeclared.labels, isSome_lookup_zipIdx]
    by_cases hlabel : op.instruction = .label
    · exact mem_definedLabels hops hop hlabel
    · exact hused _ (mem_usedLabels hops hop hkind hlabel)
  refine ⟨b, ?_⟩
  rw [extract, hdeclare]
  exact hplace

/-- Every label that is used has been found among those that are defined, and those differ. -/
lemma labelErrors_of_extract (hops : ∀ op ∈ ops, op.WellKinded) (h : extract ops = .ok b) :
    labelErrors ops = [] := by
  obtain ⟨start, hmapped⟩ := exists_mapped_of_extract hops h
  obtain ⟨b₀, hdeclare, -⟩ := exists_of_bind_eq_ok h
  refine labelErrors_eq_nil_iff.mpr ⟨(declared_initial.foldlM hdeclare).nodup, fun name hname => ?_⟩
  obtain ⟨op, hop, hused⟩ := List.mem_filterMap.mp hname
  obtain ⟨hlabel, hname⟩ : op.instruction ≠ .label ∧ op.label? = some name := by
    simpa [Operation.usedLabel?] using hused
  have hjumps : op.instruction.jumps = true := by
    have hkind : op.instruction.argKind = .label := by
      rw [← hops op hop, ← Operation.isSome_label?_iff, hname]
      rfl
    revert hkind hlabel
    cases op.instruction <;> decide
  obtain ⟨i, hi⟩ := List.mem_iff_getElem?.mp hop
  obtain ⟨id, slot, -, hput⟩ := hmapped.laid.put hi
  obtain ⟨fresh, -, hexits, -⟩ := hput.last (by simp [Instruction.endsBranch, hjumps])
  have hdefined := hexits.defined hjumps
  rwa [hmapped.labels, labelBranches, isSome_lookup_zipIdx, Operation.labelName, hname] at hdefined

end Branches

/-! ### Depths that can be reached to -/

/-- The operation reaches above the stack, or further down than a check looks. -/
def Operation.TooDeep (op : Operation) : Prop :=
  (op.instruction = .copy ∨ op.instruction = .slide) ∧
    ∃ n ∈ op.number?, n.toInt < 0 ∨ 65535 < n.toInt

instance (op : Operation) : Decidable op.TooDeep := inferInstanceAs (Decidable (_ ∧ _))

/-- What is made of operations one by one: it fails if and only if some of them reaches too deep,
and names one that does. -/
inductive DepthChecked {α : Type} (ops : List Operation) : Except CheckFailure α → Prop
  | ok {a : α} (hops : ∀ op ∈ ops, ¬ op.TooDeep) : DepthChecked ops (.ok a)
  | error {op : Operation} {n : Int64} (hop : op ∈ ops) (hdeep : op.TooDeep)
      (hn : op.number? = some n) : DepthChecked ops (.error (.depthOutOfRange n op.span))

namespace DepthChecked

variable {α β : Type} {x : Except CheckFailure α} {op : Operation} {ops ops' : List Operation}

lemma map (h : DepthChecked ops x) (f : α → β) : DepthChecked ops (x.map f) := by
  cases h with
  | ok hops => exact .ok hops
  | error hop hdeep hn => exact .error hop hdeep hn

lemma bind (h : DepthChecked ops x) {f : α → Except CheckFailure β}
    (hf : ∀ a, DepthChecked ops' (f a)) : DepthChecked (ops ++ ops') (x >>= f) := by
  cases h with
  | error hop hdeep hn => exact .error (List.mem_append_left _ hop) hdeep hn
  | @ok a hops =>
    change DepthChecked (ops ++ ops') (f a)
    generalize hy : f a = y
    cases hy ▸ hf a with
    | ok hops' => exact .ok (List.forall_mem_append.mpr ⟨hops, hops'⟩)
    | error hop hdeep hn => exact .error (List.mem_append_right _ hop) hdeep hn

lemma congr (h : DepthChecked ops x) (hmem : ∀ op, op ∈ ops ↔ op ∈ ops') :
    DepthChecked ops' x := by
  cases h with
  | ok hops => exact .ok fun op hop => hops op ((hmem op).mpr hop)
  | error hop hdeep hn => exact .error ((hmem _).mp hop) hdeep hn

lemma exists_ok (h : DepthChecked ops x) (hops : ∀ op ∈ ops, ¬ op.TooDeep) : ∃ a, x = .ok a := by
  cases h with
  | ok => exact ⟨_, rfl⟩
  | error hop hdeep => exact absurd hdeep (hops _ hop)

end DepthChecked

lemma Operation.depthChecked_depth {op : Operation}
    (hop : op.instruction = .copy ∨ op.instruction = .slide) : DepthChecked [op] op.depth := by
  simp only [depth]
  split
  · rename_i hrange
    refine .ok fun other hother => ?_
    rintro ⟨-, n, hn, hdeep⟩
    rw [List.mem_singleton.mp hother, Option.mem_def] at hn
    rw [hn, Option.getD_some] at hrange
    simp only [maxDepth] at hrange
    omega
  · rename_i hrange
    cases hn : op.number? with
    | none => exact absurd (by rw [hn]; decide) hrange
    | some n =>
      rw [hn, Option.getD_some] at hrange
      refine .error List.mem_cons_self ⟨hop, n, hn, ?_⟩ hn
      simp only [maxDepth] at hrange
      omega

lemma Operation.depthChecked_effects (op : Operation) (strict : Bool) (r : Registry) :
    DepthChecked [op] (op.effects strict r) := by
  unfold effects
  cases hi : op.instruction
  case copy => exact (depthChecked_depth (Or.inl hi)).map _
  case slide => exact (depthChecked_depth (Or.inr hi)).map _
  all_goals
    refine .ok fun other hother hdeep => ?_
    simp [TooDeep, List.mem_singleton.mp hother, hi] at hdeep

namespace EffectGraph

lemma depthChecked_addOperations (strict : Bool) (g : EffectGraph) (r : Registry)
    (span : Option (Nat × Nat)) (ops : List Operation) :
    DepthChecked ops (addOperations strict g r span ops) := by
  induction ops generalizing g r span with
  | nil => exact .ok (by simp)
  | cons op ops ih =>
    exact ((op.depthChecked_effects strict r).map _).bind fun made => ih _ made.2 _

lemma depthChecked_addBranches (strict : Bool) (g : EffectGraph) (r : Registry)
    (branches : List (Nat × Branch)) :
    DepthChecked (branches.flatMap fun entry => entry.2.operations)
      (addBranches strict g r branches) := by
  induction branches generalizing g r with
  | nil => exact .ok (by simp)
  | cons entry branches ih =>
    rw [List.flatMap_cons]
    exact (depthChecked_addOperations strict g r none entry.2.operations).bind
      fun made => ih _ made.2.1

/-- Building the graph of a program looks at all of its operations, dead code included. -/
lemma depthChecked_build {b : Branches} {ops : List Operation} (hops : ∀ op ∈ ops, op.WellKinded)
    (hextract : Branches.extract ops = .ok b) (strict : Bool) :
    DepthChecked ops (build b strict) := by
  have hbuild : DepthChecked (_ ++ []) (build b strict) :=
    (depthChecked_addBranches strict initial .empty b.arena.enumerate).bind fun _ => .ok (by simp)
  obtain ⟨start, hmapped⟩ := Branches.exists_mapped_of_extract hops hextract
  refine hbuild.congr fun op => ?_
  rw [List.append_nil, List.mem_flatMap]
  constructor
  · rintro ⟨⟨id, branch⟩, hbranch, hop⟩
    rw [← Branches.get_eq_of_mem_enumerate hbranch] at hop
    exact hmapped.cut.mem hop
  · intro hop
    obtain ⟨i, hi⟩ := List.mem_iff_getElem?.mp hop
    obtain ⟨id, slot, -, hput⟩ := hmapped.laid.put hi
    have hmem := List.mem_of_getElem? hput.operation
    refine ⟨(id, b.get id), Branches.mem_enumerate_get ?_, hmem⟩
    by_contra hid
    rw [Branches.get_of_size_le (Nat.not_lt.mp hid)] at hmem
    cases hmem

lemma resolve_eq_error {g : EffectGraph} {passes : Nat} {e : CheckFailure}
    (h : g.resolve passes = .error e) : e = .iterationLimit passes := by
  unfold resolve at h
  split at h
  · cases h
  · exact (Except.error.inj h).symm

end EffectGraph

/-! ### Checks -/

variable {ops : List Operation}

/-- All that can keep operations with resolved labels from being checked. -/
lemma checkOperations_cases (hops : ∀ op ∈ ops, op.WellKinded) (hlabels : labelErrors ops = [])
    (strict : Bool) (passes : Nat) :
    ((∃ op ∈ ops, op.TooDeep) ∧
      ∃ n span, checkOperations ops strict passes = .error (.depthOutOfRange n span)) ∨
    ((∀ op ∈ ops, ¬ op.TooDeep) ∧
      ∀ e, checkOperations ops strict passes = .error e → e = .iterationLimit passes) := by
  obtain ⟨b, hextract⟩ := Branches.exists_extract hops hlabels
  have hbuild := EffectGraph.depthChecked_build hops hextract strict
  have hcheck : checkOperations ops strict passes = EffectGraph.build b strict >>= fun built =>
      built.1.resolve passes >>= fun resolved => .ok ⟨b, resolved.graph, built.2, resolved.stuck,
        resolved.report b built.2 strict⟩ := by
    rw [checkOperations, hextract]
    rfl
  rw [hcheck]
  generalize EffectGraph.build b strict = built at hbuild
  cases hbuild with
  | @error op n hop hdeep hn => exact Or.inl ⟨⟨op, hop, hdeep⟩, n, op.span, rfl⟩
  | @ok built hshallow =>
    refine Or.inr ⟨hshallow, fun e he => ?_⟩
    change built.1.resolve passes >>= _ = _ at he
    cases hresolve : built.1.resolve passes with
    | ok resolved =>
      rw [hresolve] at he
      cases he
    | error e' =>
      rw [hresolve] at he
      obtain rfl : e' = e := Except.error.inj he
      exact EffectGraph.resolve_eq_error hresolve

lemma Config.checkSource_eq_error_iff {config : Config} {S : Surface} {path : Option String}
    {source : String} {e : BuildFailure} :
    config.checkSource S path source = .error e ↔ (S.read source).errors = [] ∧
      ∃ e', (S.read source).check config.strict config.maxPasses = .error e' ∧ e = .check e' := by
  by_cases hsource : (S.read source).errors = []
  · rw [Config.checkSource_of_errors hsource]
    cases (S.read source).check config.strict config.maxPasses <;> simp [hsource, eq_comm]
  · have hfaults : (S.read source).isOk = false := by simpa [Program.isOk] using hsource
    simp [Config.checkSource, hfaults, hsource]

/-- Labels that have nothing wrong with them are those that can be resolved. So no check of a source
fails for a label: it fails for an operation that reaches too deep, whenever there is one in a
source without faults, or because the passes run out. -/
theorem checkSource_fails_iff :
    (∀ ops : List Operation, (∀ op ∈ ops, op.WellKinded) →
      (labelErrors ops = [] ↔ ∃ b, Branches.extract ops = .ok b)) ∧
    ∀ (config : Config) (S : Surface) (path : Option String) (source : String),
      (∀ e, config.checkSource S path source = .error e →
        (∃ n span, e = .check (.depthOutOfRange n span)) ∨
          e = .check (.iterationLimit config.maxPasses)) ∧
      ((∃ n span, config.checkSource S path source = .error (.check (.depthOutOfRange n span))) ↔
        (S.read source).errors = [] ∧ ∃ op ∈ (S.read source).operations, op.TooDeep) := by
  constructor
  · intro ops hops
    exact ⟨Branches.exists_extract hops, fun ⟨b, hextract⟩ =>
      Branches.labelErrors_of_extract hops hextract⟩
  intro config S path source
  have hcases : (S.read source).errors = [] → _ := fun hsource =>
    checkOperations_cases (fun op hop => ((S.printable_read source).sayable op hop).wellKinded)
      (Surface.labelErrors_read hsource) ((S.read source).strictness config.strict) config.maxPasses
  simp only [Config.checkSource_eq_error_iff, Program.check]
  constructor
  · rintro e ⟨hsource, e', herror, rfl⟩
    rcases hcases hsource with ⟨-, n, span, herror'⟩ | ⟨-, hlimit⟩
    · exact Or.inl ⟨n, span, congrArg _ (Except.error.inj (herror.symm.trans herror'))⟩
    · exact Or.inr (congrArg _ (hlimit e' herror))
  · constructor
    · rintro ⟨n, span, hsource, e', herror, he'⟩
      obtain rfl := BuildFailure.check.inj he'
      refine ⟨hsource, ?_⟩
      rcases hcases hsource with ⟨hdeep, -⟩ | ⟨-, hlimit⟩
      · exact hdeep
      · cases hlimit _ herror
    · rintro ⟨hsource, op, hop, hdeep⟩
      rcases hcases hsource with ⟨-, n, span, herror⟩ | ⟨hshallow, -⟩
      · exact ⟨n, span, hsource, _, herror, rfl⟩
      · exact absurd hdeep (hshallow op hop)

/-- A slide that reaches too deep, behind the end of the program. -/
def deepBehindEnd : String := "Push 1\nLabel f\n Call f\n End\n Slide 65536"

theorem deepBehindEnd_fails :
    (∀ op ∈ (Surface.nossembly.read deepBehindEnd).operations, op.WellKinded) ∧
    (∃ b, Branches.extract (Surface.nossembly.read deepBehindEnd).operations = .ok b) ∧
    ∃ n span, Config.default.checkSource .nossembly none deepBehindEnd =
      .error (.check (.depthOutOfRange n span)) :=
  have hops : ∀ op ∈ (Surface.nossembly.read deepBehindEnd).operations, op.WellKinded := by
    decide +kernel
  have hlabels : labelErrors (Surface.nossembly.read deepBehindEnd).operations = [] := by
    decide +kernel
  have hdeep : (Surface.nossembly.read deepBehindEnd).errors = [] ∧
      ∃ op ∈ (Surface.nossembly.read deepBehindEnd).operations, op.TooDeep := by decide +kernel
  ⟨hops, (checkSource_fails_iff.1 _ hops).mp hlabels,
    (checkSource_fails_iff.2 .default .nossembly none deepBehindEnd).2.mpr hdeep⟩

end ZeroWidth
