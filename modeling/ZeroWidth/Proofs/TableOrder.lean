import ZeroWidth.Proofs.FirstOccurrence
import ZeroWidth.Proofs.Respelling

/-!
# The order of the tables

After a program has been read, from whatever surface, its tables list exactly the labels and the
types it uses, in order of first occurrence and the types behind the built-in ones. The side that
the text did not give follows from the place alone: names from assembly text are numbered on, and
codes from symbols are named on. Candidates are never found to be taken, neither by an earlier entry
nor by a built-in type.
-/

namespace ZeroWidth

/-! ### Sides that follow from the place -/

namespace Bijection

variable {α β γ : Type} {b : Bijection α β} {start : Nat} {side : α × β → γ} {term : Nat → γ}

/-- From a place on, one side of the pairs runs through a sequence. -/
def RunsThrough (b : Bijection α β) (start : Nat) (side : α × β → γ) (term : Nat → γ) : Prop :=
  ∀ k pair, b.pairs[start + k]? = some pair → side pair = term k

lemma runsThrough_of_map (first : List γ) {n : Nat}
    (h : b.pairs.map side = first ++ (List.range n).map term) (hstart : first.length = start) :
    b.RunsThrough start side term := by
  intro k pair hpair
  have hside : (b.pairs.map side)[start + k]? = some (side pair) := by
    rw [List.getElem?_map, hpair, Option.map_some]
  rw [h, List.getElem?_append_right (by omega), hstart, Nat.add_sub_cancel_left,
    List.getElem?_map] at hside
  obtain ⟨j, hj, hterm⟩ := Option.map_eq_some_iff.mp hside
  obtain ⟨hlt, rfl⟩ := List.getElem?_eq_some_iff.mp hj
  rw [← hterm, List.getElem_range]

/-- A term whose turn it is has not been taken, unless in front of the sequence. -/
lemma RunsThrough.notMem (h : b.RunsThrough start side term) (hterm : Function.Injective term)
    (hfirst : ∀ pair ∈ b.pairs.take start, ∀ k, side pair ≠ term k) :
    term (b.size - start) ∉ b.pairs.map side := by
  rw [List.mem_map]
  rintro ⟨pair, hpair, hside⟩
  obtain ⟨place, hplace, rfl⟩ := List.getElem_of_mem hpair
  rcases Nat.lt_or_ge place start with hlt | hge
  · refine hfirst _ ?_ _ hside
    exact List.mem_take_iff_getElem.mpr ⟨place, by omega, rfl⟩
  · obtain ⟨k, rfl⟩ := Nat.exists_eq_add_of_le hge
    have hk := hterm ((h k _ (List.getElem?_eq_getElem hplace)).symm.trans hside)
    have hsize : b.size = b.pairs.length := rfl
    omega

lemma RunsThrough.concat {b' : Bijection α β} (h : b.RunsThrough start side term) {pair : α × β}
    (hb' : b'.pairs = b.pairs ++ [pair]) (hpair : side pair = term (b.size - start)) :
    b'.RunsThrough start side term := by
  intro k other hother
  simp only [hb', List.getElem?_append, List.getElem?_singleton] at hother
  split at hother
  · exact h k other hother
  · split at hother
    · cases hother
      have hsize : b.size = b.pairs.length := rfl
      rw [hpair]
      congr 1
      omega
    · cases hother

/-- If the first candidate is the term whose turn it is, a left side that is new is given this
term. -/
lemma RunsThrough.codeFor [DecidableEq α] {b : Bijection α Code} {term candidate : Nat → Code}
    {n : Nat} (h : b.RunsThrough start Prod.snd term) (hb : b.Mirrored)
    (hterm : Function.Injective term)
    (hfirst : ∀ pair ∈ b.pairs.take start, ∀ k, pair.2 ≠ term k)
    (hcandidate : candidate n = term (b.size - start)) (name : α) :
    (b.codeFor candidate n name).2.RunsThrough start Prod.snd term := by
  unfold Bijection.codeFor
  split
  · exact h
  · rename_i hname
    have hfree : b.back? (candidate n) = none :=
      hb.back?_eq_none_iff.mpr (hcandidate ▸ h.notMem hterm hfirst)
    have hfresh : firstFree (fun q => (b.back? q).isSome) candidate b.size n = candidate n :=
      firstFree_of_not_taken (by rw [hfree]; rfl) _
    have hinsert : b.insert name (candidate n) = b.put name (candidate n) :=
      if_pos (accepts_iff.mpr ⟨hname, hfree⟩)
    simp only [hfresh, hinsert]
    exact h.concat (pairs_put (forth?_eq_none_iff.mp hname) _) hcandidate

end Bijection

/-! ### Codes by place -/

namespace Vocabulary

variable {v : Vocabulary}

/-- The code of a label is the number of its place, and that of a type is fifteen more than the
number of its place behind the built-in ones. -/
structure CodedByPlace (v : Vocabulary) : Prop where
  labels : v.labels.RunsThrough 0 Prod.snd fun k => Binary.code k
  types  : v.types.RunsThrough builtinTypes.length Prod.snd fun k => Binary.code (15 + k : Nat)

/-- The name of a label is the text of its place, and that of a type is `Type` with the text of its
place behind the built-in ones. -/
structure NamedByPlace (v : Vocabulary) : Prop where
  labels : v.labels.RunsThrough 0 Prod.fst Alphabetic.text
  types  : v.types.RunsThrough builtinTypes.length Prod.fst fun k => "Type" ++ Alphabetic.text k

lemma codedByPlace_initial : initial.CodedByPlace := by
  refine ⟨fun k pair hpair => ?_, fun k pair hpair => ?_⟩
  · cases hpair
  · rw [pairs_initial_types, List.getElem?_eq_none (Nat.le_add_right _ k)] at hpair
    cases hpair

lemma head?_code (n : Nat) : (Binary.code n).toList.head? = some 's' := by
  have hsign : Binary.sign n = .s := by simp [Binary.sign]
  rw [Binary.code, Binary.encode, Symbol.toList_letters, hsign]
  rfl

/-- The code of a built-in type is that of a smaller number, or of no number that a place can be. -/
lemma builtin_ne_code {pair : TypeName × Code} (hpair : pair ∈ builtinTypes) (k : Nat) :
    pair.2 ≠ Binary.code (15 + k : Nat) := by
  intro heq
  have hbuiltin : ∀ pair ∈ builtinTypes,
      pair.2.toList.head? ≠ some 's' ∨ pair.2 = Binary.code 0 ∨ pair.2 = Binary.code 1 := by
    decide +kernel
  rcases hbuiltin pair hpair with hhead | hzero | hone
  · exact hhead (heq ▸ head?_code _)
  · have := Binary.code_injective (hzero.symm.trans heq)
    omega
  · have := Binary.code_injective (hone.symm.trans heq)
    omega

lemma typeCode_injective : Function.Injective fun k : Nat => Binary.code (15 + k : Nat) :=
  numberCode_injective.comp (add_right_injective 15)

lemma builtin_of_mem_take (hv : v.WellFormed) {pair : TypeName × Code}
    (hpair : pair ∈ v.types.pairs.take builtinTypes.length) : pair ∈ builtinTypes := by
  rwa [← List.prefix_iff_eq_take.mp hv.builtin] at hpair

lemma WellFormed.types_size (hv : v.WellFormed) : 10 + v.types.size = 15 + v.customTypes := by
  have hle : builtinTypes.length ≤ v.types.size := hv.builtin.length_le
  simp only [customTypes, builtinTypes, List.length_cons, List.length_nil] at hle ⊢
  omega

/-- Meeting an operation by name numbers on. -/
lemma CodedByPlace.learn (h : v.CodedByPlace) (hv : v.WellFormed) (op : Operation) :
    (v.learn op).CodedByPlace := by
  obtain ⟨i, argument, span⟩ := op
  match argument with
  | none | some (.number n) => exact h
  | some (.label name) =>
    exact ⟨h.labels.codeFor hv.labels numberCode_injective (by simp) rfl name, h.types⟩
  | some (.type name) =>
    refine ⟨h.labels, h.types.codeFor hv.types typeCode_injective ?_ ?_ name⟩
    · exact fun pair hpair => builtin_ne_code (builtin_of_mem_take hv hpair)
    · rw [hv.types_size]
      rfl

lemma CodedByPlace.foldl_learn (h : v.CodedByPlace) (hv : v.WellFormed) (ops : List Operation) :
    (ops.foldl Vocabulary.learn v).CodedByPlace := by
  induction ops generalizing v with
  | nil => exact h
  | cons op ops ih => exact ih (h.learn hv op) (hv.learn op)

/-! ### Names by first occurrence -/

lemma Mirrored.meets_learn (hv : v.Mirrored) (op : Operation) : v.Meets op (v.learn op) := by
  obtain ⟨i, argument, span⟩ := op
  match argument with
  | none | some (.number n) => exact .neither rfl rfl
  | some (.label name) => exact .label rfl (recordsLabel_codeForLabel hv.labels name)
  | some (.type name) => exact .type rfl (recordsType_codeForType hv.types name)

lemma Lists.foldl_learn {ops : List Operation} (h : v.Lists ops) (hv : v.Mirrored)
    (more : List Operation) : (more.foldl Vocabulary.learn v).Lists (ops ++ more) := by
  induction more generalizing v ops with
  | nil => simpa using h
  | cons op more ih =>
    have hmeets := hv.meets_learn op
    simpa using ih (h.meets hmeets) (hmeets.mirrored hv)

end Vocabulary

/-- The types beyond the built-in ones, in order of first occurrence. -/
def customTypeNames (ops : List Operation) : List TypeName :=
  ((ops.filterMap Operation.type?).filter (· ∉ Vocabulary.builtinNames)).eraseDups

lemma Vocabulary.Lists.types_eq {v : Vocabulary} {ops : List Operation} (h : v.Lists ops) :
    v.types.names = builtinNames ++ customTypeNames ops := by
  have hbuiltin : builtinNames.eraseDups = builtinNames := by decide
  rw [h.types, List.eraseDups_append, hbuiltin]
  simp [customTypeNames, List.removeAll]

namespace Surface

lemma lists_read (S : Surface) (source : String) :
    (S.read source).vocabulary.Lists (S.read source).operations := by
  cases S with
  | nossembly =>
    rw [Surface.read, Assembly.vocabulary_read]
    exact Vocabulary.lists_initial.foldl_learn Vocabulary.wellFormed_initial.toMirrored _
  | nospace => exact Spelled.lists_read _ source
  | whitespace => exact Spelled.lists_read _ source

/-- What the place of a label or a type settles: its code if its name was given, and its name if its
code was. -/
def Numbers : Surface → Vocabulary → Prop
  | .nossembly, v => v.CodedByPlace
  | _,          v => v.NamedByPlace

end Surface

lemma Spelled.Invented.namedByPlace {v : Vocabulary} (h : Spelled.Invented v) : v.NamedByPlace where
  labels := Bijection.runsThrough_of_map [] h.labels rfl
  types  := Bijection.runsThrough_of_map _ h.types rfl

/-- The tables of a program that has been read follow from the order in which its labels and types
occur first, and from nothing else but the side that the text gave. -/
theorem Surface.tables_read (S : Surface) (source : String) :
    (S.read source).vocabulary.labels.names =
        ((S.read source).operations.filterMap Operation.label?).eraseDups ∧
      (S.read source).vocabulary.types.names =
        Vocabulary.builtinNames ++ customTypeNames (S.read source).operations ∧
      Vocabulary.builtinTypes <+: (S.read source).vocabulary.types.pairs ∧
      S.Numbers (S.read source).vocabulary := by
  have hlists := S.lists_read source
  refine ⟨hlists.labels, hlists.types_eq, (S.wellFormed_read source).builtin, ?_⟩
  cases S with
  | nossembly =>
    rw [Surface.Numbers, Surface.read, Assembly.vocabulary_read]
    exact Vocabulary.codedByPlace_initial.foldl_learn Vocabulary.wellFormed_initial _
  | nospace => exact (Spelled.invented_read _ source).namedByPlace
  | whitespace => exact (Spelled.invented_read _ source).namedByPlace

-- the label that is mentioned first comes first, wherever it is defined
example :
    let v := (Surface.nossembly.read
      "Jump b\nLabel a\n Cast Foo\nLabel b\n Cast Int\n Assert Foo\n Jump a").vocabulary
    v.labels.pairs = [("b", "ssn"), ("a", "stn")] ∧
      v.types.pairs = [("Never", "ttn"), ("Any", "tsn"), ("Unknown", "tssn"), ("Int", "ssn"),
        ("Char", "stn"), ("Foo", "sttttn")] := by decide +kernel

-- the labels `t` and `tt` are defined, and then `s` is jumped to
example :
    let v := (Surface.whitespace.read "\n  \t\n\n  \t\t\n\n \n \n").vocabulary
    v.labels.pairs = [("A", "tn"), ("B", "ttn"), ("C", "sn")] ∧
      v.types.pairs = Vocabulary.builtinTypes := by decide +kernel

end ZeroWidth
