/-!
# Machine words

Number arguments are signed words of 64 bits. An integer outside their range is refused, never
wrapped around. So are the results of checked arithmetic on words without sign.
-/

namespace ZeroWidth

/-- The word of an integer, if there is one. -/
def toWord? (v : Int) : Option Int64 :=
  if Int64.minValue.toInt ≤ v ∧ v ≤ Int64.maxValue.toInt then some (Int64.ofInt v) else none

theorem toWord?_eq_some_iff {v : Int} {n : Int64} : toWord? v = some n ↔ n.toInt = v := by
  unfold toWord?
  constructor
  · intro h
    split at h
    · rename_i hv
      obtain rfl := Option.some.inj h
      rw [Int64.toInt_minValue, Int64.toInt_maxValue] at hv
      exact Int64.toInt_ofInt_of_le hv.1 (Int.lt_of_le_sub_one hv.2)
    · simp at h
  · rintro rfl
    rw [if_pos ⟨n.minValue_le_toInt, n.toInt_le⟩, Int64.ofInt_toInt]

theorem toWord?_isSome_iff {v : Int} :
    (toWord? v).isSome ↔ Int64.minValue.toInt ≤ v ∧ v ≤ Int64.maxValue.toInt := by
  unfold toWord?
  split <;> simp_all

/-- The word without sign of a number, if there is one. -/
def toUnsigned? (v : Nat) : Option UInt64 :=
  if v < UInt64.size then some (UInt64.ofNat v) else none

/-- The sum of two words, unless it is too large for one. -/
def checkedAdd (a b : UInt64) : Option UInt64 := toUnsigned? (a.toNat + b.toNat)

/-- The product of two words, unless it is too large for one. -/
def checkedMul (a b : UInt64) : Option UInt64 := toUnsigned? (a.toNat * b.toNat)

theorem toUnsigned?_of_le {v : Nat} (h : UInt64.size ≤ v) : toUnsigned? v = none :=
  if_neg (Nat.not_lt.mpr h)

theorem toUnsigned?_eq_some_iff {v : Nat} {n : UInt64} : toUnsigned? v = some n ↔ n.toNat = v := by
  unfold toUnsigned?
  constructor
  · intro h
    split at h
    · rename_i hv
      obtain rfl := Option.some.inj h
      exact UInt64.toNat_ofNat_of_lt' hv
    · cases h
  · rintro rfl
    rw [if_pos n.toNat_lt, UInt64.ofNat_toNat]

end ZeroWidth
