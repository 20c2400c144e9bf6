import ZeroWidth.Proofs.LaxErrors

/-!
# Names of types are told apart

A check meets the names of types one after the other. From the first name on, the registry maps
equal names to equal types and different names to different ones, and it shows each type under the
name that it was met by, however many names are met afterwards. Looking up the number of a name and
the name of a number are inverse to each other all the time.
-/

namespace ZeroWidth

namespace Registry

variable {r : Registry} {name : TypeName} {id : Nat}

/-! ### Names and numbers -/

/-- A name stands for a custom type exactly if it is not built in. -/
lemma exists_custom_iff (r : Registry) (name : TypeName) :
    (∃ id, (r.intern name).1 = .custom id) ↔ Ty.builtin? name = none := by
  rcases r.intern_cases name with
    ⟨ty, hname, hintern⟩ | ⟨id, hname, -, hintern⟩ | ⟨hname, -, hintern⟩
  · simpa [hintern, hname] using Ty.ne_custom_of_builtin? hname
  · simp [hintern, hname]
  · simp [hintern, hname]

/-- The number of a name is the type that the name is given. -/
lemma Sound.get?_iff (h : r.Sound) :
    r.lookup.get? name = some id ↔ r.intern name = (.custom id, r) := by
  constructor
  · exact fun hid => intern_eq_of_get? (h.custom name id hid) hid
  · intro hintern
    have hname : Ty.builtin? name = none :=
      (r.exists_custom_iff name).mp ⟨id, by rw [hintern]⟩
    obtain ⟨id', hid, heq⟩ := h.numbers_of_intern hname hintern
    cases heq
    exact hid.number

/-! ### Names that are met one after the other -/

/-- The registry that has met some names in their order. -/
def ofNames (names : List TypeName) : Registry :=
  names.foldl (fun r name => (r.intern name).2) empty

lemma ofNames_append (names rest : List TypeName) :
    ofNames (names ++ rest) = rest.foldl (fun r name => (r.intern name).2) (ofNames names) :=
  List.foldl_append ..

lemma sound_ofNames (names : List TypeName) : (ofNames names).Sound := by
  induction names using List.reverseRecOn with
  | nil => exact sound_empty
  | append_singleton names name ih =>
    rw [ofNames_append]
    exact ih.intern name

/-- What has been met stays. -/
lemma grows_ofNames {names later : List TypeName} (h : names <+: later) :
    (ofNames names).Grows (ofNames later) := by
  obtain ⟨rest, rfl⟩ := h
  induction rest using List.reverseRecOn with
  | nil =>
    rw [List.append_nil]
    exact .refl _
  | append_singleton rest name ih =>
    rw [← List.append_assoc, ofNames_append (names ++ rest)]
    exact ih.trans (grows_intern _ name)

/-- The type that a name is given when other names have been met before it. -/
def typeOf (before : List TypeName) (name : TypeName) : Ty := ((ofNames before).intern name).1

/-- A name that has been met keeps the type that it was given. -/
lemma intern_ofNames {before later : List TypeName} (h : before ++ [name] <+: later) :
    (ofNames later).intern name = (typeOf before name, ofNames later) := by
  refine intern_of_grows ?_
  have hstep : ((ofNames before).intern name).2 = ofNames (before ++ [name]) := by
    rw [ofNames_append]
    rfl
  rw [hstep]
  exact grows_ofNames h

lemma typeOf_eq_iff {names before before' : List TypeName} {name' : TypeName}
    (h : before ++ [name] <+: names) (h' : before' ++ [name'] <+: names) :
    typeOf before name = typeOf before' name' ↔ name = name' := by
  constructor
  · intro heq
    have hname := (sound_ofNames names).name_of_intern (intern_ofNames h)
    rw [heq, (sound_ofNames names).name_of_intern (intern_ofNames h')] at hname
    exact hname.symm
  · rintro rfl
    exact (Prod.mk.inj ((intern_ofNames h).symm.trans (intern_ofNames h'))).1

/-- Interning is faithful. Any two names in a sequence are given the same type exactly if they are
the same. A name is given a built-in type exactly if it is one of the four that are built in. The
type of what has not been cast is given to none, not even to a name that reads like it. Each type is
shown by its name at every later point. At every point the two stores are inverse to each other: one
has a name under a number exactly if the other has the number under the name, and then the name is
given the type of the number. -/
theorem typeOf_faithful {names before before' : List TypeName} {name name' : TypeName}
    (h : before ++ [name] <+: names) (h' : before' ++ [name'] <+: names) :
    (typeOf before name = typeOf before' name' ↔ name = name') ∧
    ((∀ id, typeOf before name ≠ .custom id) ↔ name ∈ ["Never", "Any", "Int", "Char"]) ∧
    typeOf before name ≠ .unknown ∧
    (∀ later, before ++ [name] <+: later → later <+: names →
      (ofNames later).name (typeOf before name) = name) ∧
    ∀ later, later <+: names → ∀ id other,
      ((ofNames later).names.get? id = some other ↔ (ofNames later).lookup.get? other = some id) ∧
      ((ofNames later).lookup.get? other = some id ↔
        (ofNames later).intern other = (.custom id, ofNames later)) := by
  refine ⟨typeOf_eq_iff h h', ?_, intern_ne_unknown _ _, ?_, ?_⟩
  · rw [← not_exists, typeOf, exists_custom_iff, Ty.builtin?_eq_none_iff, not_not]
  · exact fun later hlater _ => (sound_ofNames later).name_of_intern (intern_ofNames hlater)
  · intro later _ id other
    exact ⟨((sound_ofNames later).inverse other id).symm, (sound_ofNames later).get?_iff⟩

/-- The name of a type that no program can name, between others. -/
theorem typeOf_faithful_unknown :
    [] ++ ["Unknown"] <+: ["Unknown", "Int", "Bool", "Unknown"] ∧
    ["Unknown", "Int"] ++ ["Bool"] <+: ["Unknown", "Int", "Bool", "Unknown"] ∧
    typeOf [] "Unknown" = .custom 0 ∧ typeOf ["Unknown", "Int"] "Bool" = .custom 1 ∧
    (typeOf [] "Unknown" = typeOf ["Unknown", "Int"] "Bool" ↔ "Unknown" = "Bool") ∧
    ((∀ id, typeOf [] "Unknown" ≠ .custom id) ↔ "Unknown" ∈ ["Never", "Any", "Int", "Char"]) ∧
    typeOf [] "Unknown" ≠ .unknown ∧
    (∀ later, [] ++ ["Unknown"] <+: later → later <+: ["Unknown", "Int", "Bool", "Unknown"] →
      (ofNames later).name (typeOf [] "Unknown") = "Unknown") ∧
    ∀ later, later <+: ["Unknown", "Int", "Bool", "Unknown"] → ∀ id other,
      ((ofNames later).names.get? id = some other ↔ (ofNames later).lookup.get? other = some id) ∧
      ((ofNames later).lookup.get? other = some id ↔
        (ofNames later).intern other = (.custom id, ofNames later)) := by
  have h : [] ++ ["Unknown"] <+: ["Unknown", "Int", "Bool", "Unknown"] := by decide
  have h' : ["Unknown", "Int"] ++ ["Bool"] <+: ["Unknown", "Int", "Bool", "Unknown"] := by decide
  exact ⟨h, h', by decide, by decide, typeOf_faithful h h'⟩

end Registry

end ZeroWidth
