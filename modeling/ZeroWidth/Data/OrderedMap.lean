/-!
# Ordered maps

A finite map that lists its entries in the order in which their keys came in. No key is listed
twice: giving a key a value again changes the value in its place.
-/

namespace ZeroWidth

/-- The entries of a map, in order of insertion. -/
structure OrderedMap (κ ν : Type) where
  entries    : List (κ × ν)
  keys_nodup : (entries.map Prod.fst).Nodup
deriving DecidableEq

namespace OrderedMap

variable {κ ν : Type}

def empty : OrderedMap κ ν := ⟨[], .nil⟩

def keys (m : OrderedMap κ ν) : List κ := m.entries.map Prod.fst

def size (m : OrderedMap κ ν) : Nat := m.entries.length

theorem eq_of_entries_eq {m m' : OrderedMap κ ν} (h : m.entries = m'.entries) : m = m' := by
  obtain ⟨entries, _⟩ := m
  obtain ⟨entries', _⟩ := m'
  obtain rfl : entries = entries' := h
  rfl

variable [DecidableEq κ]

def get? (m : OrderedMap κ ν) (key : κ) : Option ν :=
  (m.entries.find? fun entry => entry.1 = key).map Prod.snd

def contains (m : OrderedMap κ ν) (key : κ) : Bool := (m.get? key).isSome

/-- The entries with the value of a key changed. -/
def replaced (entries : List (κ × ν)) (key : κ) (value : ν) : List (κ × ν) :=
  entries.map fun entry => if entry.1 = key then (key, value) else entry

theorem map_fst_replaced (entries : List (κ × ν)) (key : κ) (value : ν) :
    (replaced entries key value).map Prod.fst = entries.map Prod.fst := by
  rw [replaced, List.map_map]
  refine List.map_congr_left fun entry _ => ?_
  by_cases h : entry.1 = key <;> simp [h]

omit [DecidableEq κ] in
theorem nodup_concat (m : OrderedMap κ ν) {key : κ} (h : key ∉ m.keys) (value : ν) :
    ((m.entries ++ [(key, value)]).map Prod.fst).Nodup := by
  rw [List.map_append, List.nodup_append]
  refine ⟨m.keys_nodup, List.pairwise_singleton _ _, fun other hother new hnew heq => h ?_⟩
  rw [List.map_singleton, List.mem_singleton] at hnew
  rwa [heq, hnew] at hother

/-- Gives a key its value: in the place of the one it has, or else at the end. -/
def insert (m : OrderedMap κ ν) (key : κ) (value : ν) : OrderedMap κ ν :=
  if h : key ∈ m.keys then
    ⟨replaced m.entries key value, map_fst_replaced m.entries key value ▸ m.keys_nodup⟩
  else
    ⟨m.entries ++ [(key, value)], m.nodup_concat h value⟩

/-- Changes the value of a key that has one. -/
def modify (m : OrderedMap κ ν) (key : κ) (f : ν → ν) : OrderedMap κ ν :=
  match m.get? key with
  | some value => m.insert key (f value)
  | none       => m

theorem get?_eq_none_iff {m : OrderedMap κ ν} {key : κ} : m.get? key = none ↔ key ∉ m.keys := by
  simp only [get?, keys, Option.map_eq_none_iff, List.find?_eq_none, decide_eq_true_eq,
    List.mem_map]
  constructor
  · rintro h ⟨entry, hmem, rfl⟩
    exact h entry hmem rfl
  · intro h entry hmem heq
    exact h ⟨entry, hmem, heq⟩

theorem get?_eq_some_iff {m : OrderedMap κ ν} {key : κ} {value : ν} :
    m.get? key = some value ↔ (key, value) ∈ m.entries := by
  obtain ⟨entries, hkeys⟩ := m
  induction entries with
  | nil => simp [get?]
  | cons entry entries ih =>
    rw [List.map_cons, List.nodup_cons] at hkeys
    by_cases hentry : entry.1 = key
    · -- the key is nowhere else
      have hrest : (key, value) ∉ entries := fun hmem => hkeys.1 (hentry ▸ List.mem_map_of_mem hmem)
      simp only [get?, List.find?_cons, hentry, decide_true, Option.map_some, Option.some.injEq,
        List.mem_cons, hrest, or_false]
      exact ⟨fun h => by rw [← hentry, ← h], fun h => by rw [← h]⟩
    · have hne : (key, value) ≠ entry := fun h => hentry (h ▸ rfl)
      simpa [get?, hentry, hne] using ih hkeys.2

/-- A new key goes to the end. -/
theorem entries_insert {m : OrderedMap κ ν} {key : κ} (h : key ∉ m.keys) (value : ν) :
    (m.insert key value).entries = m.entries ++ [(key, value)] := by
  rw [insert, dif_neg h]

theorem get?_insert (m : OrderedMap κ ν) (key other : κ) (value : ν) :
    (m.insert key value).get? other = if key = other then some value else m.get? other := by
  unfold insert
  split
  · rename_i hkey
    -- all entries keep their keys, so the same entry is found
    have hfind : (replaced m.entries key value).find? (fun entry => entry.1 = other) =
        (m.entries.find? fun entry => entry.1 = other).map
          fun entry => if entry.1 = key then (key, value) else entry := by
      rw [replaced, List.find?_map]
      congr 2
      funext entry
      by_cases h : entry.1 = key <;> simp [h]
    change ((replaced m.entries key value).find? fun entry => entry.1 = other).map Prod.snd = _
    rw [hfind, get?]
    cases hfound : m.entries.find? fun entry => entry.1 = other with
    | none =>
      have hne : key ≠ other := fun h => get?_eq_none_iff.mp (by rw [get?, hfound]; rfl) (h ▸ hkey)
      rw [if_neg hne]
      rfl
    | some entry =>
      have hentry : entry.1 = other := by simpa using List.find?_some hfound
      by_cases h : key = other
      · simp [hentry, h]
      · simp [hentry, h, Ne.symm h]
  · rename_i hkey
    have hnone : (m.entries.find? fun entry => entry.1 = key) = none :=
      Option.map_eq_none_iff.mp (get?_eq_none_iff.mpr hkey)
    by_cases h : key = other
    · subst h
      simp [get?, List.find?_append, hnone]
    · simp [get?, List.find?_append, h]

theorem get?_modify (m : OrderedMap κ ν) (key other : κ) (f : ν → ν) :
    (m.modify key f).get? other = if key = other then (m.get? other).map f else m.get? other := by
  unfold modify
  by_cases h : key = other
  · subst h
    cases hget : m.get? key <;> simp [hget, get?_insert]
  · cases m.get? key <;> simp [h, get?_insert]

end OrderedMap

end ZeroWidth
