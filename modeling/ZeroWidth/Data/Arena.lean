/-!
# Arenas

An arena hands out ids densely, in order of allocation, and never takes an entry back. Reading or
writing an id that was never handed out has no effect.
-/

namespace ZeroWidth

/-- Entries addressed by the order they were allocated in. -/
structure Arena (α : Type) where
  entries : Array α
deriving DecidableEq

namespace Arena

variable {α : Type}

def empty : Arena α := ⟨#[]⟩

def size (a : Arena α) : Nat := a.entries.size

def isEmpty (a : Arena α) : Bool := a.entries.isEmpty

def get? (a : Arena α) (id : Nat) : Option α := a.entries[id]?

/-- A new entry and the id it got, which is the number of entries before it. -/
def alloc (a : Arena α) (x : α) : Nat × Arena α := (a.size, ⟨a.entries.push x⟩)

/-- Changes the entry at `id`, if there is one. -/
def modify (a : Arena α) (id : Nat) (f : α → α) : Arena α := ⟨a.entries.modify id f⟩

def set (a : Arena α) (id : Nat) (x : α) : Arena α := a.modify id fun _ => x

def toList (a : Arena α) : List α := a.entries.toList

/-- All ids with their entries, in order of allocation. -/
def enumerate (a : Arena α) : List (Nat × α) := a.toList.zipIdx.map fun (x, id) => (id, x)

/-! ### What each operation does to look-up and size -/

@[simp]
theorem size_empty : (empty : Arena α).size = 0 := rfl

@[simp]
theorem get?_empty (id : Nat) : (empty : Arena α).get? id = none := by
  simp [empty, get?]

@[simp]
theorem alloc_fst (a : Arena α) (x : α) : (a.alloc x).1 = a.size := rfl

@[simp]
theorem size_alloc (a : Arena α) (x : α) : (a.alloc x).2.size = a.size + 1 := by
  simp [alloc, size]

@[simp]
theorem size_modify (a : Arena α) (id : Nat) (f : α → α) : (a.modify id f).size = a.size := by
  simp [modify, size]

theorem get?_alloc (a : Arena α) (x : α) (id : Nat) :
    (a.alloc x).2.get? id = if id = a.size then some x else a.get? id :=
  Array.getElem?_push

theorem get?_modify (a : Arena α) (id : Nat) (f : α → α) (other : Nat) :
    (a.modify id f).get? other = if id = other then (a.get? other).map f else a.get? other := by
  simp [modify, get?, Array.getElem?_modify]

theorem get?_eq_none_iff {a : Arena α} {id : Nat} : a.get? id = none ↔ a.size ≤ id := by
  simp [get?, size]

end Arena

end ZeroWidth
