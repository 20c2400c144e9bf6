import ZeroWidth.Proofs.Numerals

/-!
# The spelling of numbers

A text is read as a number exactly if it is a sign with binary digits behind it, with or without the
terminator, and the integer it denotes fits a word. Zeros may lead the digits: digits are the
canonical ones of the number they denote with zeros in front. So the spelling that a number is
written in is the shortest among those that are complete.
-/

namespace ZeroWidth.Binary

open ZeroWidth.Symbol (isDigit letters)

/-! ### Reading -/

/-- The text is a sign and binary digits, with the terminator behind them or without it. -/
structure Spells (text : String) (argument : List Symbol) : Prop where
  ne_nil : argument ≠ []
  digits : argument.all isDigit = true
  text   : text = letters argument ∨ text = letters (argument ++ [.n])

lemma dropTerminator_concat (chars : List Char) : dropTerminator (chars ++ ['n']) = chars := by
  simp [dropTerminator]

lemma dropTerminator_cases (chars : List Char) :
    chars = dropTerminator chars ∨ chars = dropTerminator chars ++ ['n'] := by
  unfold dropTerminator
  split
  · rename_i hlast
    exact Or.inr (List.dropLast_append_getLast? 'n' hlast).symm
  · exact Or.inl rfl

/-- Digits do not end in the terminator. -/
lemma dropTerminator_letters {argument : List Symbol} (hdigits : argument.all isDigit = true) :
    dropTerminator (argument.map Symbol.letter) = argument.map Symbol.letter := by
  refine if_neg fun hlast => ?_
  obtain ⟨a, ha, hletter⟩ := List.mem_map.mp (List.mem_of_getLast? hlast)
  obtain rfl : a = .n := Symbol.letter_injective hletter
  exact absurd (List.all_eq_true.mp hdigits _ ha) (by decide)

lemma Spells.dropTerminator_eq {text : String} {argument : List Symbol}
    (h : Spells text argument) : dropTerminator text.toList = argument.map Symbol.letter := by
  rcases h.text with rfl | rfl
  · rw [Symbol.toList_letters, dropTerminator_letters h.digits]
  · rw [Symbol.toList_letters, List.map_append]
    exact dropTerminator_concat _

lemma spells_of_dropTerminator {text : String} {argument : List Symbol} (hne : argument ≠ [])
    (hdigits : argument.all isDigit = true)
    (h : dropTerminator text.toList = argument.map Symbol.letter) : Spells text argument := by
  refine ⟨hne, hdigits, ?_⟩
  rcases dropTerminator_cases text.toList with htext | htext
  · exact Or.inl (String.toList_inj.mp (by rw [htext, h, Symbol.toList_letters]))
  · refine Or.inr (String.toList_inj.mp ?_)
    rw [htext, h, Symbol.toList_letters]
    simp [Symbol.letter]

/-- A digit that adds to a value is a binary one. -/
lemma exists_of_addDigit {value next : UInt64} {c : Char} (h : addDigit value c = some next) :
    ∃ a : Symbol, a.isDigit = true ∧ c = a.letter := by
  obtain ⟨bit, hbit, -⟩ := Option.bind_eq_some_iff.mp h
  unfold bit? at hbit
  split at hbit
  · exact ⟨.s, rfl, rfl⟩
  · exact ⟨.t, rfl, rfl⟩
  · cases hbit

lemma exists_of_foldlM_addDigit {chars : List Char} {start value : UInt64}
    (h : chars.foldlM addDigit start = some value) :
    ∃ digits : List Symbol, digits.all isDigit = true ∧ chars = digits.map Symbol.letter := by
  induction chars generalizing start with
  | nil => exact ⟨[], rfl, rfl⟩
  | cons c chars ih =>
    rw [List.foldlM_cons] at h
    obtain ⟨next, hnext, hrest⟩ := Option.bind_eq_some_iff.mp h
    obtain ⟨a, ha, rfl⟩ := exists_of_addDigit hnext
    obtain ⟨digits, hdigits, rfl⟩ := ih hrest
    exact ⟨a :: digits, by simp [ha, hdigits], rfl⟩

lemma exists_of_sign? {c : Char} {negative : Bool} (h : sign? c = some negative) :
    ∃ a : Symbol, a.isDigit = true ∧ c = a.letter := by
  unfold sign? at h
  split at h
  · exact ⟨.s, rfl, rfl⟩
  · exact ⟨.t, rfl, rfl⟩
  · cases h

/-- Whatever is read has been spelled. -/
lemma exists_spells_of_decode? {text : String} {n : Int64} (h : decode? text.toList = some n) :
    ∃ argument, Spells text argument := by
  unfold decode? at h
  split at h
  · cases h
  · rename_i head chars hdrop
    obtain ⟨negative, hsign, h⟩ := Option.bind_eq_some_iff.mp h
    obtain ⟨value, hvalue, -⟩ := Option.bind_eq_some_iff.mp h
    obtain ⟨a, ha, rfl⟩ := exists_of_sign? hsign
    obtain ⟨digits, hdigits, rfl⟩ := exists_of_foldlM_addDigit hvalue
    exact ⟨a :: digits, spells_of_dropTerminator (List.cons_ne_nil a digits) (by simp [ha, hdigits])
      hdrop⟩

lemma decode?_congr {chars chars' : List Char} (h : dropTerminator chars = dropTerminator chars') :
    decode? chars = decode? chars' := by
  rw [decode?, decode?, h]

/-- What is spelled is read as the integer it denotes, if that is a word. -/
lemma Spells.decode?_eq {text : String} {argument : List Symbol} (h : Spells text argument) :
    decode? text.toList = toWord? (denoted argument) := by
  have hterminated : Spells (letters (argument ++ [.n])) argument :=
    ⟨h.ne_nil, h.digits, Or.inr rfl⟩
  rw [← decode?_letters h.ne_nil h.digits, ← Symbol.toList_letters]
  exact decode?_congr (h.dropTerminator_eq.trans hterminated.dropTerminator_eq.symm)

/-- A text is read as an integer exactly if it spells one that fits a word. -/
lemma decode?_eq_some_iff {text : String} {v : Int} :
    (decode? text.toList).map Int64.toInt = some v ↔
      (∃ argument, Spells text argument ∧ denoted argument = v) ∧
        -2 ^ 63 ≤ v ∧ v ≤ 2 ^ 63 - 1 := by
  rw [Option.map_eq_some_iff]
  constructor
  · rintro ⟨n, hn, rfl⟩
    obtain ⟨argument, hspells⟩ := exists_spells_of_decode? hn
    rw [hspells.decode?_eq, toWord?_eq_some_iff] at hn
    exact ⟨⟨argument, hspells, hn.symm⟩, n.le_toInt, Int.le_sub_one_of_lt n.toInt_lt⟩
  · rintro ⟨⟨argument, hspells, rfl⟩, hlow, hhigh⟩
    have hword : (toWord? (denoted argument)).isSome = true := by
      rw [toWord?_isSome_iff, Int64.toInt_minValue, Int64.toInt_maxValue]
      exact ⟨hlow, hhigh⟩
    obtain ⟨n, hn⟩ := Option.isSome_iff_exists.mp hword
    exact ⟨n, hspells.decode?_eq.trans hn, toWord?_eq_some_iff.mp hn⟩

/-! ### Canonical digits -/

lemma bit_worth {a : Symbol} (ha : a.isDigit = true) : bit (worth a) = a := by
  cases a with
  | s | t => rfl
  | n | x => cases ha

lemma worth_lt_two (a : Symbol) : worth a < 2 := by
  cases a <;> decide

/-- Digits are the canonical ones of the number they denote, with zeros in front. -/
lemma exists_eq_replicate_append_digits {ds : List Symbol} (hne : ds ≠ [])
    (hdigits : ds.all isDigit = true) :
    ∃ k, ds = List.replicate k .s ++ digits (magnitude ds) := by
  induction ds using List.reverseRecOn with
  | nil => exact absurd rfl hne
  | append_singleton ds a ih =>
    simp only [List.all_append, List.all_cons, List.all_nil, Bool.and_true, Bool.and_eq_true]
      at hdigits
    have hbit := bit_worth hdigits.2
    have hworth := worth_lt_two a
    rw [magnitude_concat]
    rcases List.eq_nil_or_concat ds with rfl | ⟨_, _, hds⟩
    · refine ⟨0, ?_⟩
      rw [digits, if_pos (by simpa [magnitude] using hworth)]
      simp [magnitude, hbit]
    · obtain ⟨k, hk⟩ := ih (by simp [hds]) hdigits.1
      by_cases hzero : magnitude ds = 0
      · -- all the digits in front of the last one are zeros
        refine ⟨k + 1, ?_⟩
        rw [hzero, digits, if_pos (by omega)] at hk
        rw [hzero, digits, if_pos (by omega), Nat.mul_zero, Nat.zero_add, hbit, hk,
          List.replicate_succ']
        rfl
      · refine ⟨k, ?_⟩
        rw [digits, if_neg (by omega),
          show (2 * magnitude ds + worth a) / 2 = magnitude ds by omega,
          show (2 * magnitude ds + worth a) % 2 = worth a by omega, hbit, ← List.append_assoc, ← hk]

/-- Zeros never lead canonical digits, apart from zero itself. -/
lemma digits_eq_or_head? (n : Nat) : digits n = [.s] ∨ (digits n).head? = some .t := by
  induction n using digits.induct with
  | case1 n hn =>
    rw [digits, if_pos hn]
    interval_cases n <;> decide
  | case2 n hn ih =>
    refine Or.inr ?_
    rw [digits, if_neg hn]
    rcases ih with hzero | hhead
    · have hhalf : n / 2 = 0 := by
        rw [← magnitude_digits (n / 2), hzero]
        rfl
      omega
    · simp [hhead]

lemma digits_ne_nil (n : Nat) : digits n ≠ [] := by
  rcases digits_eq_or_head? n with h | h
  · simp [h]
  · exact fun hnil => by simp [hnil] at h

/-! ### Writing -/

/-- The text ends in the terminator, has at least one digit, and has the minus sign if and only if
the number is negative. -/
def IsComplete (v : Int) (text : String) : Prop :=
  ∃ sign digits, text = letters (sign :: digits ++ [.n]) ∧ (sign :: digits).all isDigit = true ∧
    digits ≠ [] ∧ (sign = .t ↔ v < 0)

lemma isComplete_code (v : Int) : IsComplete v (code v) := by
  refine ⟨sign v, digits v.natAbs, rfl, all_isDigit_numeral v, digits_ne_nil _, ?_⟩
  unfold sign
  split <;> simp_all

/-- A complete text that denotes a number is its spelling with zeros in front of the digits. -/
lemma IsComplete.exists_zeros {v : Int} {text : String} {n : Int64} (h : IsComplete v text)
    (hread : decode? text.toList = some n) (hv : n.toInt = v) :
    ∃ k, text = letters (sign v :: List.replicate k .s ++ digits v.natAbs ++ [.n]) := by
  obtain ⟨a, ds, rfl, hdigits, hne, hsign⟩ := h
  have hspells : Spells (letters (a :: ds ++ [.n])) (a :: ds) :=
    ⟨List.cons_ne_nil a ds, hdigits, Or.inr rfl⟩
  rw [hspells.decode?_eq, toWord?_eq_some_iff, hv, denoted] at hread
  obtain ⟨hdigit, hdigits⟩ : a.isDigit = true ∧ ds.all isDigit = true := by
    simpa only [List.all_cons, Bool.and_eq_true] using hdigits
  have ha : a = sign v := by
    by_cases hneg : v < 0
    · simp [sign, hneg, hsign.mpr hneg]
    · cases a with
      | s => simp [sign, hneg]
      | t => exact absurd (hsign.mp rfl) hneg
      | n | x => cases hdigit
  have hmagnitude : magnitude ds = v.natAbs := by
    split at hread <;> omega
  obtain ⟨k, hk⟩ := exists_eq_replicate_append_digits hne hdigits
  refine ⟨k, ?_⟩
  rw [hmagnitude] at hk
  simp only [ha, hk, List.cons_append]

/-- The text is read as the number, it is complete, and every other complete text that is read as
the number is longer. Its digits begin with a zero only if that is all there is. -/
structure Canonical (n : Int64) (text : String) : Prop where
  read     : decode? text.toList = some n
  complete : IsComplete n.toInt text
  shortest : ∀ other, IsComplete n.toInt other → decode? other.toList = some n →
    other = text ∨ text.length < other.length
  leading  : ∀ sign digits, text = letters (sign :: digits ++ [.n]) →
    digits = [.s] ∨ digits.head? = some .t

lemma canonical_code (n : Int64) : Canonical n (code n.toInt) where
  read     := by
    have hspells : Spells (code n.toInt) (numeral n.toInt) :=
      ⟨numeral_ne_nil _, all_isDigit_numeral _, Or.inr (code_eq _)⟩
    rw [hspells.decode?_eq, denoted_numeral, toWord?_eq_some_iff]
  complete := isComplete_code n.toInt
  shortest := fun other hcomplete hread => by
    obtain ⟨k, rfl⟩ := hcomplete.exists_zeros hread rfl
    cases k with
    | zero => exact Or.inl rfl
    | succ k =>
      refine Or.inr ?_
      simp [code, encode, letters]
  leading  := fun a ds h => by
    have hsymbols := Symbol.letters_injective h
    have hds : digits n.toInt.natAbs = ds :=
      (List.cons.inj (List.append_cancel_right hsymbols)).2
    exact hds ▸ digits_eq_or_head? _

/-- The spelling of numbers. A text is read as an integer exactly if it is a sign with binary digits
that denote the integer, with or without the terminator, and the integer fits 64 bits. A number is
read back from its spelling, which is the shortest complete one and no other number's. -/
theorem codec_exact :
    (∀ (text : String) (v : Int), (decode? text.toList).map Int64.toInt = some v ↔
      (∃ argument, Spells text argument ∧ denoted argument = v) ∧
        -2 ^ 63 ≤ v ∧ v ≤ 2 ^ 63 - 1) ∧
    (∀ n : Int64, Canonical n (code n.toInt)) ∧
    Function.Injective fun n : Int64 => code n.toInt :=
  ⟨fun _ _ => decode?_eq_some_iff, canonical_code,
    fun _ _ h => Int64.toInt_inj.mp (code_injective h)⟩

end ZeroWidth.Binary
