import Mathlib.Data.List.Basic
import ZeroWidth.Typing.Ty

/-!
# The numbers of custom types

A name that is not built in gets a number when it is first met, and is put into both stores of the
registry then. So looking up the number of a name and the name of a number are inverse to each other
all the time, and no number changes afterwards.
-/

namespace ZeroWidth

/-- Four names are built in. -/
lemma Ty.builtin?_eq_none_iff {name : TypeName} :
    Ty.builtin? name = none ↔ name ∉ ["Never", "Any", "Int", "Char"] := by
  unfold Ty.builtin?
  split <;> simp_all

namespace Registry

variable {r r' r'' : Registry}

/-- All that meeting a name can come to: it is built in, or it has been met, or it is new and put
into both stores. -/
lemma intern_cases (r : Registry) (name : TypeName) :
    (∃ ty, Ty.builtin? name = some ty ∧ r.intern name = (ty, r)) ∨
    (∃ id, Ty.builtin? name = none ∧ r.lookup.get? name = some id ∧
      r.intern name = (.custom id, r)) ∨
    Ty.builtin? name = none ∧ r.lookup.get? name = none ∧
      r.intern name =
        (.custom r.names.size, ⟨(r.names.alloc name).2, r.lookup.insert name r.names.size⟩) := by
  unfold intern
  cases hname : Ty.builtin? name with
  | some ty => exact .inl ⟨ty, rfl, rfl⟩
  | none =>
    cases hid : r.lookup.get? name with
    | some id => exact .inr (.inl ⟨id, rfl, rfl, rfl⟩)
    | none => exact .inr (.inr ⟨rfl, rfl, rfl⟩)

/-- No name stands for the type of what has not been cast. -/
lemma intern_ne_unknown (r : Registry) (name : TypeName) : (r.intern name).1 ≠ .unknown := by
  rcases r.intern_cases name with ⟨ty, hname, hintern⟩ | ⟨id, -, -, hintern⟩ | ⟨-, -, hintern⟩
  · rw [hintern]
    rintro rfl
    unfold Ty.builtin? at hname
    split at hname <;> cases hname
  · rw [hintern]
    exact Ty.noConfusion
  · rw [hintern]
    exact Ty.noConfusion

/-- The two stores are inverse to each other, and no built-in name is in them. -/
structure Sound (r : Registry) : Prop where
  inverse : ∀ name id, r.lookup.get? name = some id ↔ r.names.get? id = some name
  custom  : ∀ name id, r.lookup.get? name = some id → Ty.builtin? name = none

lemma sound_empty : empty.Sound := by
  refine ⟨fun name id => ?_, fun name id h => ?_⟩
  · simp [empty, OrderedMap.get?, OrderedMap.empty]
  · cases h

lemma Sound.intern (h : r.Sound) (name : TypeName) : (r.intern name).2.Sound := by
  rcases r.intern_cases name with ⟨ty, -, hintern⟩ | ⟨id, -, -, hintern⟩ | ⟨hname, hnew, hintern⟩
  · exact hintern ▸ h
  · exact hintern ▸ h
  rw [hintern]
  have hlookup : ∀ other id, (r.lookup.insert name r.names.size).get? other = some id ↔
      r.lookup.get? other = some id ∨ other = name ∧ id = r.names.size := by
    intro other id
    rw [OrderedMap.get?_eq_some_iff,
      OrderedMap.entries_insert (OrderedMap.get?_eq_none_iff.mp hnew), List.mem_append,
      ← OrderedMap.get?_eq_some_iff]
    simp
  refine ⟨fun other id => ?_, fun other id hother => ?_⟩
  · -- the number of the new name is that of no name before it
    rw [hlookup, h.inverse, Arena.get?_alloc]
    by_cases hid : id = r.names.size
    · have hnone : r.names.get? id = none := Arena.get?_eq_none_iff.mpr (Nat.le_of_eq hid.symm)
      rw [if_pos hid, hnone, Option.some.injEq]
      simp [hid, eq_comm]
    · rw [if_neg hid]
      simp [hid]
  · rcases (hlookup other id).mp hother with hother | ⟨rfl, -⟩
    · exact h.custom other id hother
    · exact hname

/-- The numbers that the first registry knows are those that the second one knows first, and the
stores of the second match if those of the first do. -/
structure Grows (r r' : Registry) : Prop where
  lookup : r.lookup.entries <+: r'.lookup.entries
  sound  : r.Sound → r'.Sound

lemma Grows.refl (r : Registry) : r.Grows r := ⟨List.prefix_rfl, id⟩

lemma Grows.trans (h : r.Grows r') (h' : r'.Grows r'') : r.Grows r'' :=
  ⟨h.lookup.trans h'.lookup, h'.sound ∘ h.sound⟩

lemma Grows.get? (h : r.Grows r') {name : TypeName} {id : Nat}
    (hid : r.lookup.get? name = some id) : r'.lookup.get? name = some id := by
  rw [OrderedMap.get?_eq_some_iff] at hid ⊢
  exact h.lookup.subset hid

lemma grows_intern (r : Registry) (name : TypeName) : r.Grows (r.intern name).2 := by
  refine ⟨?_, fun h => h.intern name⟩
  rcases r.intern_cases name with ⟨ty, -, hintern⟩ | ⟨id, -, -, hintern⟩ | ⟨-, hnew, hintern⟩
  · exact hintern ▸ List.prefix_rfl
  · exact hintern ▸ List.prefix_rfl
  · rw [hintern, OrderedMap.entries_insert (OrderedMap.get?_eq_none_iff.mp hnew)]
    exact List.prefix_append _ _

/-- A name that has been met is found where it was put. -/
lemma intern_eq_of_get? {name : TypeName} {id : Nat} (hname : Ty.builtin? name = none)
    (hid : r.lookup.get? name = some id) : r.intern name = (.custom id, r) := by
  simp only [intern, hname, hid]

/-- A name that has been met keeps its type. -/
lemma intern_of_grows {name : TypeName} (h : (r.intern name).2.Grows r') :
    r'.intern name = ((r.intern name).1, r') := by
  rcases r.intern_cases name with
    ⟨ty, hname, hintern⟩ | ⟨id, hname, hid, hintern⟩ | ⟨hname, hnew, hintern⟩
  · simp only [intern, hname]
  · rw [hintern] at h ⊢
    exact intern_eq_of_get? hname (h.get? hid)
  · rw [hintern] at h ⊢
    refine intern_eq_of_get? hname (h.get? ?_)
    rw [OrderedMap.get?_eq_some_iff,
      OrderedMap.entries_insert (OrderedMap.get?_eq_none_iff.mp hnew)]
    simp

end Registry

end ZeroWidth
