import ZeroWidth.Proofs.LineGraph
import ZeroWidth.Proofs.Seams
import ZeroWidth.Proofs.StraightLine

/-!
# Programs of one branch

Operations that hand control on to the next one stay together in one branch, which leads nowhere. So
nothing but the root feeds it, and its graph is a line: the root, and behind it a node for each
effect.
-/

namespace ZeroWidth

/-! ### One branch -/

namespace Branches

variable {b : Branches} {ops front : List Operation} {op : Operation} {id : Nat}

/-- There is one branch, which has all the operations and leads nowhere. -/
structure Alone (b : Branches) (ops : List Operation) : Prop where
  size : b.size = 1
  get  : b.get entry = { Branch.empty with operations := ops }

lemma declare_of_isStraight (hop : op.instruction.isStraight = true) (b : Branches) :
    b.declare op = .ok b := by
  have hlabel : op.instruction ≠ .label := by
    intro hlabel
    simp [hlabel, Instruction.isStraight] at hop
  simp [declare, Operation.definedLabel?, hlabel]

lemma place_of_isStraight (hop : op.instruction.isStraight = true) (b : Branches) (current : Nat) :
    b.place current op = .ok (b.modify current (·.append op), current) := by
  unfold place
  cases hi : op.instruction
  case label | call | jump | jumpZero | jumpNegative | ret | stop =>
    simp [hi, Instruction.isStraight] at hop
  all_goals rfl

lemma alone_initial : initial.Alone [] := ⟨rfl, rfl⟩

lemma Alone.append (hb : b.Alone ops) (op : Operation) :
    (b.modify entry (·.append op)).Alone (ops ++ [op]) where
  size := (size_modify ..).trans hb.size
  get  := by
    rw [get_modify (hb.size ▸ Nat.zero_lt_one), if_pos rfl, hb.get]
    rfl

lemma Alone.exists_placeAll (hb : b.Alone front)
    (hops : ∀ op ∈ ops, op.instruction.isStraight = true) :
    ∃ b', b.placeAll entry ops = .ok b' ∧ b'.Alone (front ++ ops) := by
  induction ops generalizing b front with
  | nil => exact ⟨b, rfl, by simpa using hb⟩
  | cons op ops ih =>
    obtain ⟨b', hplace, hb'⟩ := ih (hb.append op) fun other hother =>
      hops other (List.mem_cons_of_mem _ hother)
    refine ⟨b', ?_, by simpa using hb'⟩
    rw [placeAll, place_of_isStraight (hops op List.mem_cons_self)]
    exact hplace

/-- Operations that hand control on to the next one stay together. -/
lemma exists_extract_of_isStraight (hops : ∀ op ∈ ops, op.instruction.isStraight = true) :
    ∃ b, extract ops = .ok b ∧ b.Alone ops := by
  have hdeclare : ops.foldlM declare initial = .ok initial := by
    induction ops with
    | nil => rfl
    | cons op ops ih =>
      rw [List.foldlM_cons, declare_of_isStraight (hops op List.mem_cons_self)]
      exact ih fun other hother => hops other (List.mem_cons_of_mem _ hother)
  obtain ⟨b, hplace, hb⟩ := alone_initial.exists_placeAll hops
  refine ⟨b, ?_, hb⟩
  rw [extract, hdeclare]
  exact hplace

namespace Alone

lemma isOpen (hb : b.Alone ops) (id : Nat) : (b.get id).IsOpen := by
  by_cases hid : id = entry
  · rw [hid, hb.get]
    exact ⟨rfl, rfl, rfl, rfl⟩
  · rw [get_of_size_le (hb.size ▸ Nat.pos_of_ne_zero hid)]
    exact Branch.isOpen_empty

lemma bounded (hb : b.Alone ops) : b.Bounded where
  entry_lt     := hb.size ▸ Nat.zero_lt_one
  followers_lt := fun id next hnext => by
    simp [followers, (hb.isOpen id).target, (hb.isOpen id).next] at hnext

lemma not_mem_flow (hb : b.Alone ops) {next : Nat} : next ∉ b.flow id := by
  rw [mem_flow, hb.bounded.mem_resumptions]
  rintro (hnext | ⟨caller, callee, -, hcalls, -⟩)
  · have hopen := hb.isOpen id
    simp [ownSuccessors, hopen.calls, hopen.returns, hopen.target, hopen.next] at hnext
  · rw [(hb.isOpen caller).calls] at hcalls
    cases hcalls

lemma enumerate (hb : b.Alone ops) :
    b.arena.enumerate = [(entry, { Branch.empty with operations := ops })] := by
  obtain ⟨branch, hbranch⟩ := Array.size_eq_one_iff.mp hb.size
  have hget : b.get entry = branch := by simp [Branches.get, entry, Arena.get?, hbranch]
  rw [← hb.get, hget]
  simp [Arena.enumerate, Arena.toList, hbranch, entry]

end Alone

end Branches

/-! ### The line of the branch -/

namespace EffectGraph

variable {g h : EffectGraph} {b : Branches} {ops : List Operation} {strict : Bool}
  {r r' final : Registry} {span span' : Option (Nat × Nat)}

/-- There is a node more for each effect, and the others stem from where they did. -/
lemma size_foldl_extend (g : EffectGraph) (span : Option (Nat × Nat)) (effects : List Effect)
    (origin : Origin) :
    let result := effects.foldl (fun (g, span) effect => g.extend span effect origin) (g, span)
    result.1.size = g.size + effects.length ∧
      ∀ id < g.size, result.1.origin? id = g.origin? id := by
  induction effects generalizing g span with
  | nil => exact ⟨rfl, fun _ _ => rfl⟩
  | cons effect effects ih =>
    have hsize := size_extend g span effect origin
    have horigin : ∀ id < g.size, (g.extend span effect origin).1.origin? id = g.origin? id := by
      intro id hid
      have hadd : (g.addNode effect (some origin)).2.origin? id = g.origin? id := by
        rw [origin?, node?_addNode, if_neg hid.ne, origin?]
      cases span with
      | none => exact hadd
      | some ends => exact ((sameNodes_link _ _ _).origin id).trans hadd
    obtain ⟨hsize', horigin'⟩ := ih (g.extend span effect origin).1 (g.extend span effect origin).2
    rw [hsize] at hsize' horigin'
    refine ⟨hsize'.trans (by rw [List.length_cons]; omega), fun id hid => ?_⟩
    exact (horigin' id (Nat.lt_succ_of_lt hid)).trans (horigin id hid)

lemma size_addOperations (hadd : addOperations strict g r span ops = .ok (h, r', span'))
    (hfinal : r'.Grows final) :
    h.size = g.size + (ops.flatMap fun op => op.items strict final).length ∧
      ∀ id < g.size, h.origin? id = g.origin? id := by
  induction ops generalizing g r span with
  | nil =>
    cases hadd
    exact ⟨rfl, fun _ _ => rfl⟩
  | cons op ops ih =>
    obtain ⟨⟨effects, r₁⟩, heffects, hadd⟩ := exists_of_bind_eq_ok hadd
    have hunder : op.effectsUnder strict final = effects :=
      Operation.effectsUnder_of_loweredEffects heffects ((grows_addOperations hadd).trans hfinal)
    obtain ⟨hsize, horigin⟩ := size_foldl_extend g span effects op.origin
    obtain ⟨hsize', horigin'⟩ := ih hadd
    have hitems : (op.items strict final).length = effects.length := by
      rw [Operation.items, hunder, List.length_map]
    refine ⟨?_, fun id hid => ?_⟩
    · rw [List.flatMap_cons, List.length_append, hitems, ← Nat.add_assoc, ← hsize]
      exact hsize'
    · refine (horigin' id ?_).trans (horigin id hid)
      exact hid.trans_le (hsize ▸ Nat.le_add_right ..)

/-- The graph of one branch has a node for each effect and the root, which stems from nowhere. -/
lemma size_build_of_alone (hb : b.Alone ops) (hbuild : build b strict = .ok (g, r)) :
    g.size = (ops.flatMap fun op => op.items strict r).length + 1 ∧ g.origin? 0 = none := by
  obtain ⟨⟨g₀, r₀⟩, hadd, hbuild⟩ := exists_of_bind_eq_ok hbuild
  cases hbuild
  rw [hb.enumerate] at hadd
  obtain ⟨⟨g₁, r₁, span⟩, hops, hadd⟩ := exists_of_bind_eq_ok hadd
  have hsame : g₀.size = g₁.size ∧ g₀.origin? 0 = g₁.origin? 0 ∧ r = r₁ := by
    cases span with
    | none =>
      cases hadd
      exact ⟨rfl, rfl, rfl⟩
    | some ends =>
      cases hadd
      exact ⟨rfl, rfl, rfl⟩
  obtain ⟨hsize, horigin, rfl⟩ := hsame
  obtain ⟨hsize₁, horigin₁⟩ := size_addOperations hops (.refl _)
  have hstitch := sameNodes_linkEach g₀ (g₀.links b)
  rw [← stitch_eq_linkEach] at hstitch
  refine ⟨?_, ?_⟩
  · rw [hstitch.size, hsize, hsize₁, Nat.add_comm]
    rfl
  · rw [hstitch.origin, horigin, horigin₁ 0 Nat.zero_lt_one]
    rfl

lemma branchItems_of_alone (hb : b.Alone ops) (strict : Bool) (r : Registry) :
    branchItems b strict r Branches.entry = ops.flatMap fun op => op.items strict r := by
  rw [branchItems, hb.get]

lemma eq_of_feeds_of_alone (hb : b.Alone ops) {x id : Nat} (hx : g.Feeds b x id) :
    x = g.root ∧ id = Branches.entry := by
  cases hx with
  | entry => exact ⟨rfl, rfl⟩
  | leave _ _ hnext => exact absurd hnext hb.not_mem_flow
  | through _ _ hnext => exact absurd hnext hb.not_mem_flow

/-- The fragment of the one branch begins right behind the root. -/
lemma head_eq_one_of_alone (hb : b.Alone ops) (hbuild : build b strict = .ok (g, r)) {id : Nat}
    {f : Fragment} (hf : g.fragment? id = some f) : id = Branches.entry ∧ f.head = 1 := by
  have hbuilt := built_of_build hb.bounded hbuild
  obtain ⟨hne, hlength⟩ := hbuilt.length hf
  have hid : id = Branches.entry := by
    by_contra hid
    have hempty : b.get id = Branch.empty :=
      Branches.get_of_size_le (hb.size ▸ Nat.pos_of_ne_zero hid)
    rw [branchItems, hempty] at hne
    exact hne rfl
  subst hid
  refine ⟨rfl, ?_⟩
  have hpos : g.root < f.head := (List.pairwise_cons.mp (sewn_of_build hb.bounded hbuild).ordered).1
    f.row (List.mem_map_of_mem (mem_of_fragment? hf).1)
  have hlast := List.length_pos_of_ne_nil hne
  have hlt := lt_size_of_effect? ((hbuilt.chain hf).effect
    (List.getElem?_eq_getElem (Nat.sub_lt hlast Nat.zero_lt_one)))
  rw [(size_build_of_alone hb hbuild).1] at hlt
  rw [branchItems_of_alone hb] at hlt hlast
  -- there is no room for the fragment but right behind the root
  have hroot := root_of_build hbuild
  omega

/-- The effects hang one behind the other, behind the root. -/
lemma chain_of_alone (hb : b.Alone ops) (hbuild : build b strict = .ok (g, r))
    (hne : (ops.flatMap fun op => op.items strict r) ≠ []) :
    g.Edge 0 1 ∧ g.Chain 1 (ops.flatMap fun op => op.items strict r) := by
  have hbuilt := built_of_build hb.bounded hbuild
  rw [← branchItems_of_alone hb] at hne ⊢
  cases hf : g.fragment? Branches.entry with
  | none => exact absurd (hbuilt.none hf) hne
  | some f =>
    have hhead := (head_eq_one_of_alone hb hbuild hf).2
    exact ⟨root_of_build hbuild ▸ hhead ▸ hbuilt.edge .entry hf, hhead ▸ hbuilt.chain hf⟩

/-- The graph of one branch is a line. -/
lemma lined_of_build (hb : b.Alone ops) (hbuild : build b strict = .ok (g, r)) :
    g.Lined (ops.flatMap fun op => op.items strict r) := by
  have hbuilt := built_of_build hb.bounded hbuild
  have hsewn := sewn_of_build hb.bounded hbuild
  have hroot := root_of_build hbuild
  obtain ⟨hsize, hnowhere⟩ := size_build_of_alone hb hbuild
  constructor
  case mirrored => exact hbuilt.mirrored
  case root => exact hroot
  case size => exact hsize
  case bottom => exact hbuilt.root
  case nowhere => exact hroot ▸ hnowhere
  case effect =>
    intro i item hitem
    rw [Nat.add_comm]
    have hne := List.ne_nil_of_mem (List.mem_of_getElem? hitem)
    exact (chain_of_alone hb hbuild hne).2.effect hitem
  case origin =>
    intro i item hitem
    rw [Nat.add_comm]
    have hne := List.ne_nil_of_mem (List.mem_of_getElem? hitem)
    exact (chain_of_alone hb hbuild hne).2.origin hitem
  case edge =>
    intro a c
    constructor
    · intro hedge
      refine ⟨?_, hbuilt.mirrored.lt_size_right hedge⟩
      rcases hsewn.edge hedge with ⟨-, -, -, hnext⟩ | ⟨id, f, hfeeds, hf, rfl⟩
      · exact hnext
      · rw [(eq_of_feeds_of_alone hb hfeeds).1, (head_eq_one_of_alone hb hbuild hf).2, hroot]
    · rintro ⟨rfl, hlt⟩
      rw [hsize] at hlt
      obtain ⟨hfirst, hrest⟩ :=
        chain_of_alone hb hbuild (List.ne_nil_of_length_pos (by omega))
      cases a with
      | zero => exact hfirst
      | succ a =>
        rw [Nat.add_comm a 1]
        exact hrest.edge (Nat.lt_of_succ_lt_succ hlt)

lemma exists_addOperations (hops : ∀ op ∈ ops, op.instruction.isStraight = true)
    (hshallow : ∀ op ∈ ops, ¬ op.TooDeep) (g : EffectGraph) (r : Registry)
    (span : Option (Nat × Nat)) :
    ∃ h span', addOperations strict g r span ops = .ok (h, Straight.named r ops, span') := by
  induction ops generalizing g r span with
  | nil => exact ⟨g, span, rfl⟩
  | cons op ops ih =>
    obtain ⟨effects, heffects, -⟩ := Straight.exists_loweredEffects (hops op List.mem_cons_self)
      (hshallow op List.mem_cons_self) strict r
    rw [addOperations, heffects]
    exact ih (fun op hop => hops op (List.mem_cons_of_mem _ hop))
      (fun op hop => hshallow op (List.mem_cons_of_mem _ hop)) _ _ _

/-- The types of one branch are those that a run of its operations names. -/
lemma exists_build_of_alone (hops : ∀ op ∈ ops, op.instruction.isStraight = true)
    (hshallow : ∀ op ∈ ops, ¬ op.TooDeep) (hb : b.Alone ops) (strict : Bool) :
    ∃ g, build b strict = .ok (g, Straight.named .empty ops) := by
  obtain ⟨h, span, hadd⟩ := @exists_addOperations ops strict hops hshallow initial .empty none
  rw [build, hb.enumerate, addBranches, hadd]
  exact ⟨_, rfl⟩

end EffectGraph

end ZeroWidth
