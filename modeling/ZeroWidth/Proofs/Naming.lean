import Mathlib.Data.List.Nodup
import Mathlib.Tactic.FinCases
import ZeroWidth.Proofs.Grammar
import ZeroWidth.Spelled.Reader

/-!
# Names and codes

A vocabulary only ever grows: each of its four naming functions finds the pair it is asked for, or
puts a new one at the end whose two sides were both free. So a pair that is there stays, and the
tables stay one to one. Invented codes are arguments of the grammar like any other, and the five
built-in types keep the first places.
-/

namespace ZeroWidth

/-! ### Candidates -/

lemma firstFree_of_not_taken {α : Type} {taken : α → Bool} {candidate : Nat → α} {n : Nat}
    (h : taken (candidate n) = false) (tries : Nat) :
    firstFree taken candidate tries n = candidate n := by
  cases tries <;> simp [firstFree, h]

lemma exists_firstFree_eq {α : Type} (taken : α → Bool) (candidate : Nat → α) (tries n : Nat) :
    ∃ m, firstFree taken candidate tries n = candidate m := by
  induction tries generalizing n with
  | zero => exact ⟨n, rfl⟩
  | succ tries ih =>
    rw [firstFree]
    split
    · exact ih (n + 1)
    · exact ⟨n, rfl⟩

/-- With one try more than there are things taken, a free candidate is found. -/
lemma not_taken_firstFree {α : Type} [DecidableEq α] (taken : α → Bool) {candidate : Nat → α}
    (hinj : Function.Injective candidate) (occupied : List α) {tries n : Nat}
    (hoccupied : ∀ m, n ≤ m → taken (candidate m) = true → candidate m ∈ occupied)
    (htries : occupied.length ≤ tries) :
    taken (firstFree taken candidate tries n) = false := by
  induction tries generalizing occupied n with
  | zero =>
    obtain rfl : occupied = [] := by simpa using htries
    simpa [firstFree] using hoccupied n le_rfl
  | succ tries ih =>
    rw [firstFree]
    split
    · rename_i htaken
      have hmem := hoccupied n le_rfl htaken
      -- what is taken from here on is not the candidate that was just tried
      refine ih (occupied.erase (candidate n)) (fun m hm hm' => ?_) ?_
      · have hne : candidate m ≠ candidate n := fun h => by
          have := hinj h
          omega
        exact (List.mem_erase_of_ne hne).mpr (hoccupied m (by omega) hm')
      · rw [List.length_erase_of_mem hmem]
        omega
    · rename_i htaken
      exact Bool.eq_false_iff.mpr htaken

/-! ### Tables -/

namespace Bijection

variable {α β : Type} [DecidableEq α] [DecidableEq β] {b b' : Bijection α β} {p : α} {q : β}

omit [DecidableEq α] [DecidableEq β] in
lemma left_inj {q' : β} (h : (p, q) ∈ b.pairs) (h' : (p, q') ∈ b.pairs) : q = q' :=
  congrArg Prod.snd (List.inj_on_of_nodup_map b.forward.keys_nodup h h' rfl)

omit [DecidableEq β] in
lemma forth?_eq_some_iff : b.forth? p = some q ↔ (p, q) ∈ b.pairs := OrderedMap.get?_eq_some_iff

omit [DecidableEq α] in
lemma Mirrored.back?_eq_some_iff (hb : b.Mirrored) : b.back? q = some p ↔ (p, q) ∈ b.pairs := by
  rw [back?, OrderedMap.get?_eq_some_iff, hb]
  simp

omit [DecidableEq α] [DecidableEq β] in
lemma Mirrored.right_inj (hb : b.Mirrored) {p' : α} (h : (p, q) ∈ b.pairs)
    (h' : (p', q) ∈ b.pairs) : p = p' := by
  have hnodup : (b.pairs.map Prod.snd).Nodup := hb.backward_keys ▸ b.backward.keys_nodup
  exact congrArg Prod.fst (List.inj_on_of_nodup_map hnodup h h' rfl)

/-- The table with the pair in it, which is at the end if it was not there before. -/
inductive Records (b : Bijection α β) (p : α) (q : β) : Bijection α β → Prop
  | known (hpair : (p, q) ∈ b.pairs) : Records b p q b
  | new (hp : p ∉ b.pairs.map Prod.fst) (hq : q ∉ b.pairs.map Prod.snd) : Records b p q (b.put p q)

namespace Records

lemma mem (h : b.Records p q b') : (p, q) ∈ b'.pairs := by
  cases h with
  | known hpair => exact hpair
  | new hp => simp [pairs_put hp]

lemma isPrefix (h : b.Records p q b') : b.pairs <+: b'.pairs := by
  cases h with
  | known => exact List.prefix_rfl
  | new hp => exact pairs_put hp q ▸ List.prefix_append _ _

lemma mirrored (h : b.Records p q b') (hb : b.Mirrored) : b'.Mirrored := by
  cases h with
  | known => exact hb
  | new hp hq => exact hb.put hp hq

/-- What holds of all pairs and of the one recorded holds of all pairs afterwards. -/
lemma forall_mem {P : α × β → Prop} (h : b.Records p q b') (hb : ∀ pair ∈ b.pairs, P pair)
    (hpair : P (p, q)) : ∀ pair ∈ b'.pairs, P pair := by
  cases h with
  | known => exact hb
  | new hp =>
    rw [pairs_put hp, List.forall_mem_append]
    exact ⟨hb, by simpa using hpair⟩

end Records

lemma records_insert (hb : b.Mirrored) (hp : p ∉ b.pairs.map Prod.fst)
    (hq : q ∉ b.pairs.map Prod.snd) : b.Records p q (b.insert p q) := by
  rw [insert, if_pos (accepts_iff.mpr ⟨forth?_eq_none_iff.mpr hp, hb.back?_eq_none_iff.mpr hq⟩)]
  exact .new hp hq

omit [DecidableEq β] in
lemma isSome_forth?_iff : (b.forth? p).isSome = true ↔ p ∈ b.pairs.map Prod.fst := by
  rw [← not_iff_not, ← forth?_eq_none_iff]
  simp

omit [DecidableEq α] in
lemma Mirrored.isSome_back?_iff (hb : b.Mirrored) :
    (b.back? q).isSome = true ↔ q ∈ b.pairs.map Prod.snd := by
  rw [← not_iff_not, ← hb.back?_eq_none_iff]
  simp

omit [DecidableEq β] in
/-- A free left side is found among candidates that differ. -/
lemma firstFree_notMem_left {candidate : Nat → α} (hinj : Function.Injective candidate) (n : Nat) :
    firstFree (fun p => (b.forth? p).isSome) candidate b.size n ∉ b.pairs.map Prod.fst := by
  rw [← isSome_forth?_iff, Bool.not_eq_true]
  exact not_taken_firstFree (fun p => (b.forth? p).isSome) hinj (b.pairs.map Prod.fst)
    (fun m _ hm => isSome_forth?_iff.mp hm) (by simp [size, OrderedMap.size, pairs])

omit [DecidableEq α] in
/-- A free right side is found among candidates that differ. -/
lemma Mirrored.firstFree_notMem_right (hb : b.Mirrored) {candidate : Nat → β}
    (hinj : Function.Injective candidate) (n : Nat) :
    firstFree (fun q => (b.back? q).isSome) candidate b.size n ∉ b.pairs.map Prod.snd := by
  rw [← hb.isSome_back?_iff, Bool.not_eq_true]
  exact not_taken_firstFree (fun q => (b.back? q).isSome) hinj (b.pairs.map Prod.snd)
    (fun m _ hm => hb.isSome_back?_iff.mp hm) (by simp [size, OrderedMap.size, pairs])

/-- All that naming a right side can do. -/
lemma Mirrored.records_nameFor (hb : b.Mirrored) {candidate : Nat → α}
    (hinj : Function.Injective candidate) (n : Nat) (q : β) :
    b.Records (b.nameFor candidate n q).1 q (b.nameFor candidate n q).2 := by
  unfold nameFor
  split
  · rename_i p hback
    exact .known (hb.back?_eq_some_iff.mp hback)
  · rename_i hback
    exact records_insert hb (firstFree_notMem_left hinj n) (hb.back?_eq_none_iff.mp hback)

/-- All that coding a left side can do. -/
lemma Mirrored.records_codeFor (hb : b.Mirrored) {candidate : Nat → β}
    (hinj : Function.Injective candidate) (n : Nat) (p : α) :
    b.Records p (b.codeFor candidate n p).1 (b.codeFor candidate n p).2 := by
  unfold codeFor
  split
  · rename_i q hforth
    exact .known (forth?_eq_some_iff.mp hforth)
  · rename_i hforth
    exact records_insert hb (forth?_eq_none_iff.mp hforth) (hb.firstFree_notMem_right hinj n)

lemma codeFor_of_mem (h : (p, q) ∈ b.pairs) (candidate : Nat → β) (n : Nat) :
    b.codeFor candidate n p = (q, b) := by
  rw [codeFor, forth?_eq_some_iff.mpr h]

/-- What holds of all right sides and of all candidates holds of the code that is given. -/
lemma codeFor_induction {P : β → Prop} (hb : ∀ pair ∈ b.pairs, P pair.2) {candidate : Nat → β}
    (hcandidate : ∀ k, P (candidate k)) (n : Nat) (p : α) : P (b.codeFor candidate n p).1 := by
  unfold codeFor
  split
  · rename_i q hforth
    exact hb _ (forth?_eq_some_iff.mp hforth)
  · obtain ⟨k, hk⟩ := exists_firstFree_eq (fun q => (b.back? q).isSome) candidate b.size n
    exact (congrArg P hk).mpr (hcandidate k)

end Bijection

/-! ### Vocabularies -/

namespace Vocabulary

variable {v v' v'' : Vocabulary} {name : Label} {type : TypeName} {code : Code}

/-- Codes are arguments of the grammar. -/
def IsCode (code : Code) : Prop :=
  ∃ digits : List Symbol, digits ≠ [] ∧ digits.all Symbol.isDigit ∧
    code = Spelled.argumentCode digits

/-- Both tables list the same pairs in both directions. -/
structure Mirrored (v : Vocabulary) : Prop where
  labels : v.labels.Mirrored
  types  : v.types.Mirrored

/-- What every vocabulary is like that readers and printers come to. -/
structure WellFormed (v : Vocabulary) : Prop extends v.Mirrored where
  labelCodes : ∀ pair ∈ v.labels.pairs, IsCode pair.2
  typeCodes  : ∀ pair ∈ v.types.pairs, IsCode pair.2
  builtin    : builtinTypes <+: v.types.pairs

/-- All pairs of the first vocabulary are in the second one, at the same places. -/
structure Grows (v v' : Vocabulary) : Prop where
  labels : v.labels.pairs <+: v'.labels.pairs
  types  : v.types.pairs <+: v'.types.pairs

lemma Grows.refl (v : Vocabulary) : v.Grows v := ⟨List.prefix_rfl, List.prefix_rfl⟩

lemma Grows.trans (h : v.Grows v') (h' : v'.Grows v'') : v.Grows v'' :=
  ⟨h.labels.trans h'.labels, h.types.trans h'.types⟩

/-- The label is recorded under the code. -/
structure RecordsLabel (v : Vocabulary) (name : Label) (code : Code) (v' : Vocabulary) : Prop where
  labels : v.labels.Records name code v'.labels
  types  : v'.types = v.types

/-- The type is recorded under the code. -/
structure RecordsType (v : Vocabulary) (type : TypeName) (code : Code) (v' : Vocabulary) :
    Prop where
  labels : v'.labels = v.labels
  types  : v.types.Records type code v'.types

lemma RecordsLabel.grows (h : v.RecordsLabel name code v') : v.Grows v' :=
  ⟨h.labels.isPrefix, h.types ▸ List.prefix_rfl⟩

lemma RecordsType.grows (h : v.RecordsType type code v') : v.Grows v' :=
  ⟨h.labels ▸ List.prefix_rfl, h.types.isPrefix⟩

lemma RecordsLabel.mirrored (h : v.RecordsLabel name code v') (hv : v.Mirrored) : v'.Mirrored :=
  ⟨h.labels.mirrored hv.labels, h.types ▸ hv.types⟩

lemma RecordsType.mirrored (h : v.RecordsType type code v') (hv : v.Mirrored) : v'.Mirrored :=
  ⟨h.labels ▸ hv.labels, h.types.mirrored hv.types⟩

lemma RecordsLabel.wellFormed (h : v.RecordsLabel name code v') (hv : v.WellFormed)
    (hcode : IsCode code) : v'.WellFormed where
  toMirrored := h.mirrored hv.toMirrored
  labelCodes := h.labels.forall_mem hv.labelCodes hcode
  typeCodes  := h.types ▸ hv.typeCodes
  builtin    := h.types ▸ hv.builtin

lemma RecordsType.wellFormed (h : v.RecordsType type code v') (hv : v.WellFormed)
    (hcode : IsCode code) : v'.WellFormed where
  toMirrored := h.mirrored hv.toMirrored
  labelCodes := h.labels ▸ hv.labelCodes
  typeCodes  := h.types.forall_mem hv.typeCodes hcode
  builtin    := hv.builtin.trans h.types.isPrefix

lemma isCode_code (k : Int) : IsCode (Binary.code k) :=
  ⟨Binary.numeral k, Binary.numeral_ne_nil k, Binary.all_isDigit_numeral k, rfl⟩

lemma pairs_initial_types : initial.types.pairs = builtinTypes := by decide

lemma wellFormed_initial : initial.WellFormed where
  labels     := Bijection.mirrored_empty
  types      := by unfold Bijection.Mirrored; decide
  labelCodes := by simp [initial, Bijection.empty, Bijection.pairs, OrderedMap.empty]
  typeCodes  := by
    have hcode : ∀ digits : List Symbol, digits ≠ [] → digits.all Symbol.isDigit = true →
        IsCode (Spelled.argumentCode digits) :=
      fun digits hne hdigits => ⟨digits, hne, hdigits, rfl⟩
    intro pair hpair
    rw [pairs_initial_types] at hpair
    fin_cases hpair
    · exact hcode [.t, .t] (by decide) (by decide)
    · exact hcode [.t, .s] (by decide) (by decide)
    · exact hcode [.t, .s, .s] (by decide) (by decide)
    · exact hcode [.s, .s] (by decide) (by decide)
    · exact hcode [.s, .t] (by decide) (by decide)
  builtin    := pairs_initial_types ▸ List.prefix_rfl

lemma numberCode_injective : Function.Injective numberCode :=
  Binary.code_injective.comp Nat.cast_injective

lemma typeText_injective : Function.Injective typeText := by
  intro m n h
  have htexts := congrArg String.toList h
  simp only [typeText, String.toList_append, List.append_cancel_left_eq, String.toList_inj]
    at htexts
  exact Alphabetic.text_injective htexts

/-- All that naming the code of a label can do. -/
lemma recordsLabel_labelForCode (hv : v.labels.Mirrored) (code : Code) :
    v.RecordsLabel (v.labelForCode code).1 code (v.labelForCode code).2 :=
  ⟨hv.records_nameFor Alphabetic.text_injective _ code, rfl⟩

lemma recordsType_typeForCode (hv : v.types.Mirrored) (code : Code) :
    v.RecordsType (v.typeForCode code).1 code (v.typeForCode code).2 :=
  ⟨rfl, hv.records_nameFor typeText_injective _ code⟩

/-- All that coding the name of a label can do. -/
lemma recordsLabel_codeForLabel (hv : v.labels.Mirrored) (name : Label) :
    v.RecordsLabel name (v.codeForLabel name).1 (v.codeForLabel name).2 :=
  ⟨hv.records_codeFor numberCode_injective _ name, rfl⟩

lemma recordsType_codeForType (hv : v.types.Mirrored) (type : TypeName) :
    v.RecordsType type (v.codeForType type).1 (v.codeForType type).2 :=
  ⟨rfl, hv.records_codeFor numberCode_injective _ type⟩

lemma isCode_codeForLabel (hv : v.WellFormed) (name : Label) : IsCode (v.codeForLabel name).1 :=
  Bijection.codeFor_induction hv.labelCodes (fun k => isCode_code k) _ name

lemma isCode_codeForType (hv : v.WellFormed) (type : TypeName) : IsCode (v.codeForType type).1 :=
  Bijection.codeFor_induction hv.typeCodes (fun k => isCode_code k) _ type

end Vocabulary

end ZeroWidth
