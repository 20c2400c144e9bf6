/-!
# Sets of ids

Ids are small natural numbers handed out by an arena. A set of them keeps the order of insertion,
which is the order every answer lists them in, and marks its members in a table, so that asking
for a member takes the same time however large the set is. The marks are a mere index: the set is
determined by its list of members.
-/

namespace ZeroWidth

/-- Ids in order of insertion, none of them twice. -/
structure IdSet where
  order   : Array Nat
  marks   : Array Bool
  mem_iff : ∀ id, marks.getD id false = true ↔ id ∈ order

namespace IdSet

/-- Sets the mark of `id`, after lengthening the table as far as needed. -/
def mark (marks : Array Bool) (id : Nat) : Array Bool :=
  (marks ++ Array.replicate (id + 1 - marks.size) false).setIfInBounds id true

theorem getD_mark (marks : Array Bool) (id other : Nat) :
    (mark marks id).getD other false = (decide (id = other) || marks.getD other false) := by
  simp only [mark, Array.getD_eq_getD_getElem?, Array.getElem?_setIfInBounds, Array.size_append,
    Array.size_replicate]
  by_cases h : id = other
  · subst h
    have : id < marks.size + (id + 1 - marks.size) := by omega
    simp [this]
  · simp only [h, if_false, decide_false, Bool.false_or, Array.getElem?_append,
      Array.getElem?_replicate]
    by_cases hlt : other < marks.size
    · simp [hlt]
    · rw [Array.getElem?_eq_none (Nat.le_of_not_lt hlt)]
      split
      · contradiction
      · split <;> rfl

def empty : IdSet := ⟨#[], #[], by simp⟩

def contains (s : IdSet) (id : Nat) : Bool := s.marks.getD id false

/-- The members in order of insertion. -/
def toList (s : IdSet) : List Nat := s.order.toList

def isEmpty (s : IdSet) : Bool := s.order.isEmpty

def size (s : IdSet) : Nat := s.order.size

/-- Puts an id at the end, unless the set has it already. -/
def insert (s : IdSet) (id : Nat) : IdSet :=
  if s.contains id then s
  else
    { order   := s.order.push id
      marks   := mark s.marks id
      mem_iff := fun other => by
        rw [getD_mark, Bool.or_eq_true, decide_eq_true_eq, s.mem_iff, Array.mem_push]
        constructor
        · rintro (rfl | h)
          · exact Or.inr rfl
          · exact Or.inl h
        · rintro (h | rfl)
          · exact Or.inr h
          · exact Or.inl rfl }

def insertAll (s : IdSet) (ids : List Nat) : IdSet := ids.foldl insert s

def ofList (ids : List Nat) : IdSet := empty.insertAll ids

/-! ### The list of members -/

@[simp]
theorem contains_iff {s : IdSet} {id : Nat} : s.contains id = true ↔ id ∈ s.toList := by
  rw [contains, s.mem_iff, toList, Array.mem_toList_iff]

@[simp]
theorem toList_empty : empty.toList = [] := rfl

theorem isEmpty_iff {s : IdSet} : s.isEmpty = true ↔ s.toList = [] := by
  simp [isEmpty, toList, Array.isEmpty_iff]

/-- Insertion only ever appends. -/
theorem toList_insert (s : IdSet) (id : Nat) :
    (s.insert id).toList = if id ∈ s.toList then s.toList else s.toList ++ [id] := by
  unfold insert
  by_cases h : s.contains id = true
  · rw [if_pos h, if_pos (contains_iff.mp h)]
  · rw [if_neg h, if_neg (fun hm => h (contains_iff.mpr hm))]
    simp [toList]

@[simp]
theorem mem_toList_insert {s : IdSet} {id other : Nat} :
    other ∈ (s.insert id).toList ↔ other = id ∨ other ∈ s.toList := by
  rw [toList_insert]
  split
  · rename_i h
    exact ⟨Or.inr, fun hm => hm.elim (fun e => e ▸ h) fun hm => hm⟩
  · rw [List.mem_append, List.mem_singleton, or_comm]

theorem nodup_toList_insert {s : IdSet} (h : s.toList.Nodup) (id : Nat) :
    (s.insert id).toList.Nodup := by
  rw [toList_insert]
  split
  · exact h
  · rename_i hid
    rw [List.nodup_append]
    exact ⟨h, by simp, fun a ha b hb hab => hid (by simp_all)⟩

end IdSet

/-- Puts an id at the end of a list that does not have it yet. -/
def appendNew (ids : List Nat) (id : Nat) : List Nat := if id ∈ ids then ids else ids ++ [id]

theorem mem_appendNew {ids : List Nat} {id other : Nat} :
    other ∈ appendNew ids id ↔ other ∈ ids ∨ other = id := by
  unfold appendNew
  split
  · rename_i h
    exact ⟨Or.inl, fun hm => hm.elim (fun hm => hm) fun e => e ▸ h⟩
  · simp

end ZeroWidth
