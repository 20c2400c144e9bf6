import Mathlib.Data.List.Nodup
import Mathlib.Logic.Equiv.Basic
import ZeroWidth.Program.Basic
import ZeroWidth.Spelled.Printer

/-!
# Renaming labels and types

A renaming permutes the names of labels and the names of types, and leaves the built-in types alone.
Codes know nothing of names: meeting renamed operations makes the vocabulary that the operations
make, with its names renamed, and the operations are spelled as before. Nor does it matter for any
of this where in a source the operations stand.
-/

namespace ZeroWidth

/-- One name for another, for labels and for types. -/
structure Renaming where
  labels  : Equiv.Perm Label
  types   : Equiv.Perm TypeName
  builtin : ∀ pair ∈ Vocabulary.builtinTypes, types pair.1 = pair.1

variable (ρ : Renaming)

/-! ### Operations -/

def Argument.rename : Argument → Argument
  | .number n   => .number n
  | .label name => .label (ρ.labels name)
  | .type name  => .type (ρ.types name)

namespace Operation

def rename (op : Operation) : Operation :=
  { op with argument := op.argument.map (Argument.rename ρ) }

/-- The operation as one that stands nowhere. -/
def unplaced (op : Operation) : Operation := { op with span := Span.nowhere }

lemma argument_of_label? {op : Operation} {name : Label} (h : op.label? = some name) :
    op.argument = some (.label name) := by
  unfold label? at h
  split at h
  · simp_all
  · cases h

lemma argument_of_type? {op : Operation} {name : TypeName} (h : op.type? = some name) :
    op.argument = some (.type name) := by
  unfold type? at h
  split at h
  · simp_all
  · cases h

lemma isSome_label?_iff (op : Operation) : op.label?.isSome = true ↔ op.argKind = .label := by
  obtain ⟨i, argument, span⟩ := op
  cases argument with
  | none => simp [label?, argKind]
  | some argument => cases argument <;> simp [label?, argKind, Argument.kind]

lemma isSome_type?_iff (op : Operation) : op.type?.isSome = true ↔ op.argKind = .type := by
  obtain ⟨i, argument, span⟩ := op
  cases argument with
  | none => simp [type?, argKind]
  | some argument => cases argument <;> simp [type?, argKind, Argument.kind]

@[simp]
lemma instruction_rename (op : Operation) : (op.rename ρ).instruction = op.instruction := rfl

@[simp]
lemma argument_rename (op : Operation) :
    (op.rename ρ).argument = op.argument.map (Argument.rename ρ) := rfl

@[simp]
lemma label?_rename (op : Operation) : (op.rename ρ).label? = op.label?.map ρ.labels := by
  obtain ⟨i, argument, span⟩ := op
  cases argument with
  | none => rfl
  | some argument => cases argument <;> rfl

@[simp]
lemma type?_rename (op : Operation) : (op.rename ρ).type? = op.type?.map ρ.types := by
  obtain ⟨i, argument, span⟩ := op
  cases argument with
  | none => rfl
  | some argument => cases argument <;> rfl

lemma definedLabel?_rename (op : Operation) :
    (op.rename ρ).definedLabel? = op.definedLabel?.map ρ.labels := by
  simp only [definedLabel?, instruction_rename, label?_rename]
  split <;> rfl

lemma usedLabel?_rename (op : Operation) :
    (op.rename ρ).usedLabel? = op.usedLabel?.map ρ.labels := by
  simp only [usedLabel?, instruction_rename, label?_rename]
  split <;> rfl

end Operation

/-- Every name as it is. -/
def Renaming.refl : Renaming := ⟨Equiv.refl Label, Equiv.refl TypeName, fun _ _ => rfl⟩

lemma Operation.rename_refl (op : Operation) : op.rename Renaming.refl = op := by
  obtain ⟨i, argument, span⟩ := op
  cases argument with
  | none => rfl
  | some argument => cases argument <;> rfl

@[simp]
lemma map_rename_refl (ops : List Operation) : ops.map (Operation.rename Renaming.refl) = ops :=
  (List.map_congr_left fun op _ => op.rename_refl).trans ops.map_id

/-- The operations say the same, wherever they stand. -/
def SameContents (ops ops' : List Operation) : Prop :=
  ops.map Operation.content = ops'.map Operation.content

variable {ρ} {ops ops' : List Operation}

lemma SameContents.unplaced (h : SameContents ops ops') :
    ops.map Operation.unplaced = ops'.map Operation.unplaced := by
  have hmap :=
    congrArg (List.map fun content => (⟨content.1, content.2, Span.nowhere⟩ : Operation)) h
  rw [List.map_map, List.map_map] at hmap
  exact hmap

/-- What does not look at places is the same for operations that say the same. -/
lemma SameContents.congr {α : Type} {f : List Operation → α} (h : SameContents ops ops')
    (hf : ∀ ops, f (ops.map Operation.unplaced) = f ops) : f ops = f ops' := by
  rw [← hf ops, h.unplaced, hf ops']

lemma SameContents.rename (h : SameContents ops ops') (ρ : Renaming) :
    SameContents (ops.map (Operation.rename ρ)) (ops'.map (Operation.rename ρ)) := by
  have hmap := congrArg
    (List.map fun content => (content.1, content.2.map (Argument.rename ρ))) h
  rw [List.map_map, List.map_map] at hmap
  rw [SameContents, List.map_map, List.map_map]
  exact hmap

/-! ### Labels -/

/-- The labels that operations refer to. -/
def usedLabels (ops : List Operation) : List Label := ops.filterMap Operation.usedLabel?

lemma redefinitions_eq_nil_iff {seen : List Label} :
    redefinitions seen ops = [] ↔
      (definedLabels ops).Nodup ∧ ∀ name ∈ definedLabels ops, name ∉ seen := by
  induction ops generalizing seen with
  | nil => simp [redefinitions, definedLabels]
  | cons op ops ih =>
    unfold definedLabels at ih ⊢
    simp only [redefinitions, List.filterMap_cons]
    cases op.definedLabel? with
    | none => exact ih
    | some name =>
      by_cases hname : name ∈ seen
      · simp [hname]
      · simp only [hname, if_false, ih, List.nodup_cons, List.mem_cons, forall_eq_or_imp, not_or,
          not_false_eq_true, true_and]
        constructor
        · rintro ⟨hnodup, hseen⟩
          exact ⟨⟨fun hmem => (hseen name hmem).1 rfl, hnodup⟩,
            fun other hmem => (hseen other hmem).2⟩
        · rintro ⟨⟨hnot, hnodup⟩, hseen⟩
          exact ⟨hnodup, fun other hmem => ⟨fun h => hnot (h ▸ hmem), hseen other hmem⟩⟩

lemma danglingUses_eq_nil_iff {defined : List Label} :
    danglingUses defined ops = [] ↔ ∀ name ∈ usedLabels ops, name ∈ defined := by
  simp only [danglingUses, usedLabels, List.filterMap_eq_nil_iff, List.mem_filterMap,
    forall_exists_index, and_imp]
  constructor
  · intro h name op hop hname
    have := h op hop
    by_contra hnot
    simp [hname, hnot] at this
  · intro h op hop
    cases hname : op.usedLabel? with
    | none => rfl
    | some name => simp [h name op hop hname]

/-- Nothing is wrong with the labels if each is defined once and all that are used are defined. -/
lemma labelErrors_eq_nil_iff :
    labelErrors ops = [] ↔
      (definedLabels ops).Nodup ∧ ∀ name ∈ usedLabels ops, name ∈ definedLabels ops := by
  simp [labelErrors, redefinitions_eq_nil_iff, danglingUses_eq_nil_iff]

lemma definedLabels_rename (ρ : Renaming) (ops : List Operation) :
    definedLabels (ops.map (Operation.rename ρ)) = (definedLabels ops).map ρ.labels := by
  simp only [definedLabels, List.filterMap_map, List.map_filterMap]
  exact List.filterMap_congr fun op _ => Operation.definedLabel?_rename ρ op

lemma usedLabels_rename (ρ : Renaming) (ops : List Operation) :
    usedLabels (ops.map (Operation.rename ρ)) = (usedLabels ops).map ρ.labels := by
  simp only [usedLabels, List.filterMap_map, List.map_filterMap]
  exact List.filterMap_congr fun op _ => Operation.usedLabel?_rename ρ op

lemma definedLabels_unplaced (ops : List Operation) :
    definedLabels (ops.map Operation.unplaced) = definedLabels ops := by
  simp only [definedLabels, List.filterMap_map]
  rfl

lemma usedLabels_unplaced (ops : List Operation) :
    usedLabels (ops.map Operation.unplaced) = usedLabels ops := by
  simp only [usedLabels, List.filterMap_map]
  rfl

lemma SameContents.labelErrors_eq_nil_iff (h : SameContents ops' (ops.map (Operation.rename ρ))) :
    labelErrors ops' = [] ↔ labelErrors ops = [] := by
  simp only [ZeroWidth.labelErrors_eq_nil_iff, h.congr definedLabels_unplaced,
    h.congr usedLabels_unplaced, definedLabels_rename, usedLabels_rename,
    List.nodup_map_iff ρ.labels.injective, List.forall_mem_map,
    List.mem_map_of_injective ρ.labels.injective]

lemma fault_redefinitions_unplaced (seen : List Label) (ops : List Operation) :
    (redefinitions seen (ops.map Operation.unplaced)).map ParseError.fault =
      (redefinitions seen ops).map ParseError.fault := by
  induction ops generalizing seen with
  | nil => rfl
  | cons op ops ih =>
    have hlabel : op.unplaced.definedLabel? = op.definedLabel? := rfl
    simp only [List.map_cons, redefinitions, hlabel]
    cases op.definedLabel? with
    | none => exact ih seen
    | some name =>
      by_cases hname : name ∈ seen
      · simp only [if_pos hname, List.map_cons, ih]
      · simp only [if_neg hname, ih]

lemma fault_danglingUses_unplaced (defined : List Label) (ops : List Operation) :
    (danglingUses defined (ops.map Operation.unplaced)).map ParseError.fault =
      (danglingUses defined ops).map ParseError.fault := by
  simp only [danglingUses, List.filterMap_map, List.map_filterMap]
  refine List.filterMap_congr fun op _ => ?_
  have hlabel : op.unplaced.usedLabel? = op.usedLabel? := rfl
  simp only [Function.comp_apply, hlabel]
  cases op.usedLabel? with
  | none => rfl
  | some name => by_cases hname : name ∈ defined <;> simp [hname]

/-- What is wrong with labels, wherever it is. -/
lemma fault_labelErrors_unplaced (ops : List Operation) :
    (labelErrors (ops.map Operation.unplaced)).map ParseError.fault =
      (labelErrors ops).map ParseError.fault := by
  rw [labelErrors, labelErrors, List.map_append, List.map_append, fault_redefinitions_unplaced,
    definedLabels_unplaced, fault_danglingUses_unplaced]

/-! ### Tables -/

namespace OrderedMap

variable {κ ν : Type}

/-- The map with its keys and its values renamed. -/
def rename (f : Equiv.Perm κ) (g : ν → ν) (m : OrderedMap κ ν) : OrderedMap κ ν where
  entries    := m.entries.map (Prod.map f g)
  keys_nodup := by
    have hkeys : (m.entries.map (Prod.map f g)).map Prod.fst = m.keys.map f := by
      simp [keys, Function.comp_def]
    exact hkeys ▸ m.keys_nodup.map f.injective

@[simp]
lemma size_rename (f : Equiv.Perm κ) (g : ν → ν) (m : OrderedMap κ ν) :
    (m.rename f g).size = m.size := by
  simp [rename, size]

variable [DecidableEq κ]

lemma get?_rename (f : Equiv.Perm κ) (g : ν → ν) (m : OrderedMap κ ν) (key : κ) :
    (m.rename f g).get? (f key) = (m.get? key).map g := by
  simp [rename, get?, List.find?_map, Function.comp_def]

lemma insert_rename (f : Equiv.Perm κ) (g : ν → ν) (m : OrderedMap κ ν) (key : κ) (value : ν) :
    (m.rename f g).insert (f key) (g value) = (m.insert key value).rename f g := by
  apply eq_of_entries_eq
  have hkeys : f key ∈ (m.rename f g).keys ↔ key ∈ m.keys := by
    simp [keys, rename]
  by_cases h : key ∈ m.keys
  · rw [insert, dif_pos (hkeys.mpr h), insert, dif_pos h]
    simp only [rename, replaced, List.map_map]
    refine List.map_congr_left fun entry _ => ?_
    by_cases hentry : entry.1 = key <;> simp [hentry]
  · rw [insert, dif_neg (mt hkeys.mp h), insert, dif_neg h]
    simp [rename]

end OrderedMap

namespace Bijection

variable {α β : Type}

/-- The table with its left sides renamed. -/
def renameLeft (f : Equiv.Perm α) (b : Bijection α β) : Bijection α β :=
  ⟨b.forward.rename f id, b.backward.rename (Equiv.refl β) f⟩

@[simp]
lemma size_renameLeft (f : Equiv.Perm α) (b : Bijection α β) : (b.renameLeft f).size = b.size := by
  simp [renameLeft, size]

variable [DecidableEq α] [DecidableEq β]

omit [DecidableEq β] in
@[simp]
lemma forth?_renameLeft (f : Equiv.Perm α) (b : Bijection α β) (p : α) :
    (b.renameLeft f).forth? (f p) = b.forth? p := by
  simp [renameLeft, forth?, OrderedMap.get?_rename]

omit [DecidableEq α] in
@[simp]
lemma back?_renameLeft (f : Equiv.Perm α) (b : Bijection α β) (q : β) :
    (b.renameLeft f).back? q = (b.back? q).map f :=
  OrderedMap.get?_rename (Equiv.refl β) f b.backward q

lemma insert_renameLeft (f : Equiv.Perm α) (b : Bijection α β) (p : α) (q : β) :
    (b.renameLeft f).insert (f p) q = (b.insert p q).renameLeft f := by
  have haccepts : (b.renameLeft f).accepts (f p) q = b.accepts p q := by
    rw [Bool.eq_iff_iff, accepts_iff, accepts_iff]
    simp
  simp only [insert, haccepts]
  split
  · have hforward := OrderedMap.insert_rename f id b.forward p q
    have hbackward := OrderedMap.insert_rename (Equiv.refl β) f b.backward q p
    exact congrArg₂ Bijection.mk hforward hbackward
  · rfl

/-- A renamed left side has the code of the left side. -/
lemma codeFor_renameLeft (f : Equiv.Perm α) (b : Bijection α β) (candidate : Nat → β) (n : Nat)
    (p : α) :
    (b.renameLeft f).codeFor candidate n (f p) =
      ((b.codeFor candidate n p).1, (b.codeFor candidate n p).2.renameLeft f) := by
  simp only [codeFor, forth?_renameLeft, back?_renameLeft, Option.isSome_map, size_renameLeft]
  split
  · rfl
  · simp [insert_renameLeft]

end Bijection

/-! ### Vocabularies -/

namespace Vocabulary

variable {v : Vocabulary}

def rename (ρ : Renaming) (v : Vocabulary) : Vocabulary :=
  ⟨v.labels.renameLeft ρ.labels, v.types.renameLeft ρ.types⟩

lemma rename_initial (ρ : Renaming) : initial.rename ρ = initial := by
  have htypes : ∀ (pairs : List (TypeName × Code)) (types : Bijection TypeName Code),
      (∀ pair ∈ pairs, ρ.types pair.1 = pair.1) →
      (pairs.foldl (fun types pair => types.insert pair.1 pair.2) types).renameLeft ρ.types =
        pairs.foldl (fun types pair => types.insert pair.1 pair.2) (types.renameLeft ρ.types) := by
    intro pairs
    induction pairs with
    | nil => exact fun types _ => rfl
    | cons pair pairs ih =>
      intro types hfixed
      rw [List.forall_mem_cons] at hfixed
      rw [List.foldl_cons, List.foldl_cons, ih _ hfixed.2, ← Bijection.insert_renameLeft,
        hfixed.1]
  simp only [initial, rename, htypes builtinTypes _ ρ.builtin]
  rfl

/-- A renamed argument has the code of the argument. -/
lemma codeForArgument_rename (ρ : Renaming) (v : Vocabulary) (argument : Argument) :
    (v.rename ρ).codeForArgument (argument.rename ρ) =
      ((v.codeForArgument argument).1, (v.codeForArgument argument).2.rename ρ) := by
  cases argument with
  | number n => rfl
  | label name =>
    simp [codeForArgument, Argument.rename, codeForLabel, rename, Bijection.codeFor_renameLeft]
  | type name =>
    simp [codeForArgument, Argument.rename, codeForType, rename, Bijection.codeFor_renameLeft]

lemma learn_rename (ρ : Renaming) (v : Vocabulary) (op : Operation) :
    (v.rename ρ).learn (op.rename ρ) = (v.learn op).rename ρ := by
  simp only [learn, Operation.argument_rename]
  cases op.argument with
  | none => rfl
  | some argument => simp [codeForArgument_rename]

lemma foldl_learn_rename (ρ : Renaming) (v : Vocabulary) (ops : List Operation) :
    (ops.map (Operation.rename ρ)).foldl learn (v.rename ρ) = (ops.foldl learn v).rename ρ := by
  induction ops generalizing v with
  | nil => rfl
  | cons op ops ih => rw [List.map_cons, List.foldl_cons, learn_rename, ih, List.foldl_cons]

lemma foldl_learn_unplaced (v : Vocabulary) (ops : List Operation) :
    (ops.map Operation.unplaced).foldl learn v = ops.foldl learn v := by
  rw [List.foldl_map]
  rfl

end Vocabulary

namespace Spelled

/-- Renamed operations are spelled as before. -/
lemma spell_rename (ρ : Renaming) (v : Vocabulary) (ops : List Operation) :
    spell (v.rename ρ) (ops.map (Operation.rename ρ)) = spell v ops := by
  induction ops generalizing v with
  | nil => rfl
  | cons op ops ih =>
    simp only [List.map_cons, spell, Operation.argument_rename, Operation.instruction_rename]
    cases op.argument with
    | none => simp [ih]
    | some argument => simp [Vocabulary.codeForArgument_rename, ih]

lemma spell_unplaced (v : Vocabulary) (ops : List Operation) :
    spell v (ops.map Operation.unplaced) = spell v ops := by
  induction ops generalizing v with
  | nil => rfl
  | cons op ops ih =>
    simp only [List.map_cons, spell, Operation.unplaced]
    cases op.argument <;> simp [← ih]

end Spelled

end ZeroWidth
