import Mathlib.Data.List.Range
import ZeroWidth.Proofs.Reading
import ZeroWidth.Proofs.Renaming

/-!
# Names in order of first occurrence

However a program is read, its vocabulary lists the names of its operations in order of first
occurrence, the types behind the built-in ones. A reader of symbols gives these names itself, so
it is the order alone that settles them: programs read from symbols that differ in their names
alone do not differ at all.
-/

namespace ZeroWidth

/-! ### Lists without repetitions -/

section

variable {α β : Type} [BEq α] [LawfulBEq α] [BEq β] [LawfulBEq β] {as : List α} {a : α}

lemma eraseDups_concat_of_mem (h : a ∈ as) : (as ++ [a]).eraseDups = as.eraseDups := by
  rw [List.eraseDups_append]
  simp [List.removeAll, h]

lemma eraseDups_concat_of_notMem (h : a ∉ as) : (as ++ [a]).eraseDups = as.eraseDups ++ [a] := by
  rw [List.eraseDups_append]
  simp [List.removeAll, h, List.eraseDups_cons]

lemma eraseDups_map {f : α → β} (hf : Function.Injective f) (as : List α) :
    (as.map f).eraseDups = as.eraseDups.map f := by
  induction as using List.reverseRecOn with
  | nil => rfl
  | append_singleton as a ih =>
    by_cases h : a ∈ as
    · have hmem : f a ∈ as.map f := List.mem_map_of_mem h
      rw [List.map_append, List.map_singleton, eraseDups_concat_of_mem hmem,
        eraseDups_concat_of_mem h, ih]
    · have hnotMem : f a ∉ as.map f := by rwa [List.mem_map_of_injective hf]
      rw [List.map_append, List.map_singleton, eraseDups_concat_of_notMem hnotMem,
        eraseDups_concat_of_notMem h, ih, List.map_append, List.map_singleton]

end

/-! ### Tables -/

namespace Bijection

variable {α β : Type} [DecidableEq α] [DecidableEq β] {b b' : Bijection α β} {p : α} {q : β}

/-- The left sides in their order. -/
def names (b : Bijection α β) : List α := b.pairs.map Prod.fst

omit [DecidableEq α] [DecidableEq β] in
lemma length_names (b : Bijection α β) : b.names.length = b.size := by
  simp [names, size, pairs, OrderedMap.size]

lemma Records.names_eq_eraseDups {as : List α} (h : b.Records p q b')
    (hb : b.names = as.eraseDups) : b'.names = (as ++ [p]).eraseDups := by
  cases h with
  | known hpair =>
    have hp : p ∈ b.names := List.mem_map_of_mem hpair
    rw [hb, List.mem_eraseDups] at hp
    rw [eraseDups_concat_of_mem hp, hb]
  | new hp hq =>
    have hp : p ∉ b.names := hp
    rw [hb, List.mem_eraseDups] at hp
    rw [eraseDups_concat_of_notMem hp, ← hb]
    simp [names, pairs_put ‹_›]

/-- Behind the first names, a table that names right sides runs through the candidates. -/
lemma names_nameFor {candidate : Nat → α} (hinj : Function.Injective candidate) (first : List α)
    (hfirst : ∀ n, candidate n ∉ first)
    (h : b.names = first ++ (List.range (b.size - first.length)).map candidate) (q : β) :
    (b.nameFor candidate (b.size - first.length) q).2.names = first ++
      (List.range ((b.nameFor candidate (b.size - first.length) q).2.size - first.length)).map
        candidate := by
  unfold nameFor
  split
  · exact h
  · rename_i hback
    have hfree : candidate (b.size - first.length) ∉ b.names := by
      rw [h, List.mem_append, not_or, List.mem_map_of_injective hinj]
      exact ⟨hfirst _, by simp⟩
    have hforth : b.forth? (candidate (b.size - first.length)) = none :=
      forth?_eq_none_iff.mpr hfree
    have hfresh : firstFree (fun p => (b.forth? p).isSome) candidate b.size
        (b.size - first.length) = candidate (b.size - first.length) :=
      firstFree_of_not_taken (by rw [hforth]; rfl) _
    have hnames : (b.insert (candidate (b.size - first.length)) q).names =
        b.names ++ [candidate (b.size - first.length)] := by
      rw [insert, if_pos (accepts_iff.mpr ⟨hforth, hback⟩), names, pairs_put hfree]
      simp [names]
    have hsize : (b.insert (candidate (b.size - first.length)) q).size = b.size + 1 := by
      rw [← length_names, hnames, List.length_append, length_names, List.length_singleton]
    have hle : first.length ≤ b.size := by
      rw [← length_names, h, List.length_append]
      exact Nat.le_add_right _ _
    rw [hfresh, hnames, hsize, Nat.sub_add_comm hle, List.range_succ, List.map_append,
      ← List.append_assoc, ← h, List.map_singleton]

end Bijection

/-! ### Vocabularies that list names -/

namespace Vocabulary

variable {v v' : Vocabulary} {op : Operation} {ops : List Operation}

def builtinNames : List TypeName := builtinTypes.map Prod.fst

/-- The vocabulary lists the names of operations in order of first occurrence. -/
structure Lists (v : Vocabulary) (ops : List Operation) : Prop where
  labels : v.labels.names = (ops.filterMap Operation.label?).eraseDups
  types  : v.types.names = (builtinNames ++ ops.filterMap Operation.type?).eraseDups

/-- The vocabulary after meeting an operation, whichever side of its argument was given. -/
inductive Meets (v : Vocabulary) (op : Operation) : Vocabulary → Prop
  | label {name : Label} {code : Code} {v' : Vocabulary} (hop : op.argument = some (.label name))
      (hv' : v.RecordsLabel name code v') : Meets v op v'
  | type {name : TypeName} {code : Code} {v' : Vocabulary} (hop : op.argument = some (.type name))
      (hv' : v.RecordsType name code v') : Meets v op v'
  | neither (hlabel : op.label? = none) (htype : op.type? = none) : Meets v op v

lemma lists_initial : initial.Lists [] := ⟨rfl, by decide⟩

lemma Meets.mirrored (h : v.Meets op v') (hv : v.Mirrored) : v'.Mirrored := by
  cases h with
  | label _ hv' => exact hv'.mirrored hv
  | type _ hv' => exact hv'.mirrored hv
  | neither => exact hv

lemma Lists.meets (h : v.Lists ops) (hv' : v.Meets op v') : v'.Lists (ops ++ [op]) := by
  cases hv' with
  | label hop hv' =>
    refine ⟨?_, ?_⟩
    · simpa [Operation.label?, hop] using hv'.labels.names_eq_eraseDups h.labels
    · simpa [Operation.type?, hop, hv'.types] using h.types
  | type hop hv' =>
    refine ⟨?_, ?_⟩
    · simpa [Operation.label?, hop, hv'.labels] using h.labels
    · simpa [Operation.type?, hop] using hv'.types.names_eq_eraseDups h.types
  | neither hlabel htype => exact ⟨by simpa [hlabel] using h.labels, by simpa [htype] using h.types⟩

end Vocabulary

namespace Spelled

variable {v : Vocabulary} {ops : List Operation}

/-- Reading an item meets the operation that becomes of it, if any does. -/
lemma meets_readItem (hv : v.Mirrored) (item : Item) :
    match (readItem v item).1 with
    | .ok op   => v.Meets op (readItem v item).2
    | .error _ => (readItem v item).2 = v := by
  cases item with
  | plain i span => exact .neither rfl rfl
  | reject e => rfl
  | applied i digits span =>
    cases hkind : i.argKind with
    | nothing => simp [readItem, readArgument, hkind]
    | number =>
      cases hword : Binary.decode? (argumentCode digits).toList with
      | none => simp [readItem, readArgument, hkind, hword]
      | some n =>
        simp only [readItem, readArgument, hkind, hword]
        exact .neither rfl rfl
    | label =>
      simp only [readItem, readArgument, hkind]
      exact .label rfl (Vocabulary.recordsLabel_labelForCode hv.labels _)
    | type =>
      simp only [readItem, readArgument, hkind]
      exact .type rfl (Vocabulary.recordsType_typeForCode hv.types _)

lemma lists_readItems (hv : v.Mirrored) (h : v.Lists ops) (items : List Item) :
    (readItems v items).2.Lists (ops ++ (readItems v items).1.filterMap operation?) := by
  induction items generalizing v ops with
  | nil => simpa [readItems] using h
  | cons item items ih =>
    have hmeets := meets_readItem hv item
    simp only [readItems]
    cases hresult : (readItem v item).1 with
    | ok op =>
      rw [hresult] at hmeets
      simpa [operation?] using ih (hmeets.mirrored hv) (h.meets hmeets)
    | error e =>
      rw [hresult] at hmeets
      rw [hmeets, List.filterMap_cons_none (show operation? (.error e) = none from rfl)]
      exact ih hv h

/-! ### Names that readers give -/

/-- The names of labels and of types beyond the built-in ones are invented, one after the other. -/
structure Invented (v : Vocabulary) : Prop where
  labels : v.labels.names = (List.range v.labels.size).map Alphabetic.text
  types  : v.types.names = Vocabulary.builtinNames ++
    (List.range v.customTypes).map fun n => "Type" ++ Alphabetic.text n

lemma invented_initial : Invented Vocabulary.initial := ⟨rfl, by decide⟩

lemma typeText_notMem_builtinNames (n : Nat) :
    Vocabulary.typeText n ∉ Vocabulary.builtinNames := by
  have hhead : (Vocabulary.typeText n).toList.head? = some 'T' := by simp [Vocabulary.typeText]
  intro hmem
  have hbuiltin : ∀ name ∈ Vocabulary.builtinNames, name.toList.head? ≠ some 'T' := by decide
  exact hbuiltin _ hmem hhead

lemma invented_readItem (h : Invented v) (item : Item) : Invented (readItem v item).2 := by
  cases item with
  | plain i span => exact h
  | reject e => exact h
  | applied i digits span =>
    cases hkind : i.argKind with
    | nothing => simpa [readItem, readArgument, hkind] using h
    | number =>
      cases hword : Binary.decode? (argumentCode digits).toList <;>
        simpa [readItem, readArgument, hkind, hword] using h
    | label =>
      simp only [readItem, readArgument, hkind]
      exact ⟨Bijection.names_nameFor Alphabetic.text_injective [] (by simp) h.labels _, h.types⟩
    | type =>
      simp only [readItem, readArgument, hkind]
      exact ⟨h.labels, Bijection.names_nameFor Vocabulary.typeText_injective Vocabulary.builtinNames
        typeText_notMem_builtinNames h.types _⟩

lemma invented_readItems (h : Invented v) (items : List Item) :
    Invented (readItems v items).2 := by
  induction items generalizing v with
  | nil => exact h
  | cons item items ih => exact ih (invented_readItem h item)

lemma invented_read (d : Dialect) (source : String) : Invented (read d source).vocabulary :=
  invented_readItems invented_initial _

lemma lists_read (d : Dialect) (source : String) :
    (read d source).vocabulary.Lists (read d source).operations :=
  lists_readItems Vocabulary.wellFormed_initial.toMirrored Vocabulary.lists_initial _

end Spelled

/-! ### Renamings between programs that list their names -/

section

variable {v v' : Vocabulary} {ρ : Renaming} {ops ops' : List Operation}

lemma Renaming.map_builtinNames (ρ : Renaming) :
    Vocabulary.builtinNames.map ρ.types = Vocabulary.builtinNames := by
  rw [Vocabulary.builtinNames, List.map_map]
  exact List.map_congr_left ρ.builtin

lemma Vocabulary.Lists.labels_rename (hv : v.Lists ops) (hv' : v'.Lists ops')
    (h : SameContents ops' (ops.map (Operation.rename ρ))) :
    v'.labels.names = v.labels.names.map ρ.labels := by
  have hlabels : ops'.filterMap Operation.label? = (ops.filterMap Operation.label?).map ρ.labels :=
    calc ops'.filterMap Operation.label?
        = (ops.map (Operation.rename ρ)).filterMap Operation.label? :=
          h.congr fun ops => by rw [List.filterMap_map]; rfl
      _ = (ops.filterMap Operation.label?).map ρ.labels := by
          rw [List.filterMap_map, List.map_filterMap]
          exact List.filterMap_congr fun op _ => op.label?_rename ρ
  rw [hv'.labels, hlabels, eraseDups_map ρ.labels.injective, hv.labels]

lemma Vocabulary.Lists.types_rename (hv : v.Lists ops) (hv' : v'.Lists ops')
    (h : SameContents ops' (ops.map (Operation.rename ρ))) :
    v'.types.names = v.types.names.map ρ.types := by
  have htypes : ops'.filterMap Operation.type? = (ops.filterMap Operation.type?).map ρ.types :=
    calc ops'.filterMap Operation.type?
        = (ops.map (Operation.rename ρ)).filterMap Operation.type? :=
          h.congr fun ops => by rw [List.filterMap_map]; rfl
      _ = (ops.filterMap Operation.type?).map ρ.types := by
          rw [List.filterMap_map, List.map_filterMap]
          exact List.filterMap_congr fun op _ => op.type?_rename ρ
  rw [hv'.types, htypes, hv.types, ← eraseDups_map ρ.types.injective, List.map_append,
    ρ.map_builtinNames]

/-- Names that are given one after the other leave nothing to rename. -/
lemma eq_of_map_range {name : Nat → String} {f : String → String} {m n : Nat}
    (h : (List.range m).map name = ((List.range n).map name).map f) :
    ∀ k < n, f (name k) = name k := by
  have hlength : m = n := by simpa using congrArg List.length h
  subst hlength
  intro k hk
  rw [List.map_map] at h
  exact (List.map_inj_left.mp h k (List.mem_range.mpr hk)).symm

/-- Programs read from symbols say the same if they do up to names. -/
lemma Spelled.sameContents_of_rename {d d' : Dialect} {source source' : String}
    (h : SameContents (read d' source').operations
      ((read d source).operations.map (Operation.rename ρ))) :
    SameContents (read d' source').operations (read d source).operations := by
  have hlists := lists_read d source
  have hlists' := lists_read d' source'
  have hinvented := invented_read d source
  have hinvented' := invented_read d' source'
  have hlabels : ∀ name ∈ (read d source).vocabulary.labels.names, ρ.labels name = name := by
    have hnames := hlists.labels_rename hlists' h
    rw [hinvented.labels, hinvented'.labels] at hnames
    simpa [hinvented.labels] using eq_of_map_range hnames
  have htypes : ∀ name ∈ (read d source).vocabulary.types.names, ρ.types name = name := by
    have hnames := hlists.types_rename hlists' h
    rw [hinvented.types, hinvented'.types, List.map_append, ρ.map_builtinNames,
      List.append_cancel_left_eq] at hnames
    have hbuiltin : ∀ name ∈ Vocabulary.builtinNames, ρ.types name = name := by
      rw [Vocabulary.builtinNames, List.forall_mem_map]
      exact ρ.builtin
    rw [hinvented.types, List.forall_mem_append]
    exact ⟨hbuiltin, by simpa using eq_of_map_range hnames⟩
  rw [SameContents, h, List.map_map]
  refine List.map_congr_left fun op hop => ?_
  obtain ⟨i, argument, span⟩ := op
  cases argument with
  | none => rfl
  | some argument =>
    cases argument with
    | number n => rfl
    | label name =>
      have hname : name ∈ (read d source).vocabulary.labels.names := by
        rw [hlists.labels, List.mem_eraseDups]
        exact List.mem_filterMap.mpr ⟨_, hop, rfl⟩
      simp [Operation.content, Argument.rename, hlabels name hname]
    | type name =>
      have hname : name ∈ (read d source).vocabulary.types.names := by
        rw [hlists.types, List.mem_eraseDups]
        exact List.mem_append_right _ (List.mem_filterMap.mpr ⟨_, hop, rfl⟩)
      simp [Operation.content, Argument.rename, htypes name hname]

end

end ZeroWidth
