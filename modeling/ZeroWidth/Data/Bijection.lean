import ZeroWidth.Data.OrderedMap

/-!
# Bijections

A finite one-to-one table of pairs that remembers the order they came in. It is kept as two maps,
one for each direction. A pair is refused as soon as either side is already in the table, so every
entry stands for good once it is in.
-/

namespace ZeroWidth

/-- A one-to-one table: a map from left to right and one from right to left. -/
structure Bijection (α β : Type) where
  forward  : OrderedMap α β
  backward : OrderedMap β α
deriving DecidableEq

namespace Bijection

variable {α β : Type}

def empty : Bijection α β := ⟨.empty, .empty⟩

/-- The pairs in order of insertion. -/
def pairs (b : Bijection α β) : List (α × β) := b.forward.entries

def size (b : Bijection α β) : Nat := b.forward.size

def isEmpty (b : Bijection α β) : Bool := b.pairs.isEmpty

/-- The partner of a left side. -/
def forth? [DecidableEq α] (b : Bijection α β) (p : α) : Option β := b.forward.get? p

/-- The partner of a right side. -/
def back? [DecidableEq β] (b : Bijection α β) (q : β) : Option α := b.backward.get? q

/-- The two maps list the same pairs in the same order. -/
def Mirrored (b : Bijection α β) : Prop := b.backward.entries = b.pairs.map Prod.swap

theorem mirrored_empty : (empty : Bijection α β).Mirrored := rfl

theorem Mirrored.backward_keys {b : Bijection α β} (h : b.Mirrored) :
    b.backward.keys = b.pairs.map Prod.snd := by
  rw [OrderedMap.keys, h, List.map_map]
  rfl

theorem forth?_eq_none_iff [DecidableEq α] {b : Bijection α β} {p : α} :
    b.forth? p = none ↔ p ∉ b.pairs.map Prod.fst := OrderedMap.get?_eq_none_iff

theorem Mirrored.back?_eq_none_iff [DecidableEq β] {b : Bijection α β} (h : b.Mirrored) {q : β} :
    b.back? q = none ↔ q ∉ b.pairs.map Prod.snd := by
  rw [← h.backward_keys]
  exact OrderedMap.get?_eq_none_iff

variable [DecidableEq α] [DecidableEq β]

/-- Whether the table has neither side yet. -/
def accepts (b : Bijection α β) (p : α) (q : β) : Bool :=
  !(b.forward.contains p || b.backward.contains q)

/-- The table with a pair written into both of its maps. -/
def put (b : Bijection α β) (p : α) (q : β) : Bijection α β :=
  ⟨b.forward.insert p q, b.backward.insert q p⟩

/-- Puts a pair at the end of the table, or leaves the table alone if it refuses the pair. -/
def insert (b : Bijection α β) (p : α) (q : β) : Bijection α β :=
  if b.accepts p q then b.put p q else b

theorem accepts_iff {b : Bijection α β} {p : α} {q : β} :
    b.accepts p q = true ↔ b.forth? p = none ∧ b.back? q = none := by
  simp [accepts, OrderedMap.contains, forth?, back?]

theorem pairs_put {b : Bijection α β} {p : α} (hp : p ∉ b.pairs.map Prod.fst) (q : β) :
    (b.put p q).pairs = b.pairs ++ [(p, q)] := OrderedMap.entries_insert hp q

theorem Mirrored.put {b : Bijection α β} (h : b.Mirrored) {p : α} {q : β}
    (hp : p ∉ b.pairs.map Prod.fst) (hq : q ∉ b.pairs.map Prod.snd) : (b.put p q).Mirrored := by
  rw [Mirrored, pairs_put hp, List.map_append, List.map_singleton, ← h]
  exact OrderedMap.entries_insert (h.backward_keys ▸ hq) p

end Bijection

end ZeroWidth
