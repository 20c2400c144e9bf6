import Mathlib.Data.List.Basic
import Mathlib.Data.List.Induction
import Mathlib.Data.Nat.Digits.Defs
import Mathlib.Tactic.IntervalCases
import Mathlib.Tactic.Ring
import ZeroWidth.Numeral.Alphabetic
import ZeroWidth.Numeral.Binary
import ZeroWidth.Numeral.Decimal

/-!
# What numerals denote

Binary numerals are read as the integers they denote, whatever zeros lead them, and the numeral that
an integer is written as denotes it. Alphabetic numerals of different numbers differ, and decimal
numerals are read back.
-/

namespace ZeroWidth

namespace Symbol

/-- The symbols that arguments are made of. -/
def isDigit : Symbol → Bool
  | s | t => true
  | n | x => false

lemma letter_injective : Function.Injective letter := by
  intro a b h
  have := congrArg ofLetter? h
  simpa using this

lemma letters_injective : Function.Injective letters := by
  intro a b h
  have := congrArg String.toList h
  simp only [toList_letters] at this
  exact letter_injective.list_map this

lemma letters_append (a b : List Symbol) : letters (a ++ b) = letters a ++ letters b := by
  simp [letters]

end Symbol

namespace Binary

open ZeroWidth.Symbol (isDigit)

/-- What a digit counts. -/
def worth : Symbol → Nat
  | .t => 1
  | _  => 0

/-- The number that binary digits denote, the highest digit first. -/
def magnitude (digits : List Symbol) : Nat := Nat.ofDigits 2 (digits.reverse.map worth)

/-- The integer that a sign and binary digits denote. -/
def denoted : List Symbol → Int
  | []             => 0
  | sign :: digits => if sign = .t then -(magnitude digits : Int) else magnitude digits

/-- The spelling of an integer without its terminator. -/
def numeral (v : Int) : List Symbol := sign v :: digits v.natAbs

lemma magnitude_concat (digits : List Symbol) (a : Symbol) :
    magnitude (digits ++ [a]) = 2 * magnitude digits + worth a := by
  simp [magnitude, Nat.ofDigits_cons, add_comm]

/-- A digit adds to a value that fits, and a value that does not fit is not made to by digits. -/
lemma bind_addDigit {a : Symbol} (ha : a.isDigit = true) (v : Nat) :
    ((toUnsigned? v).bind fun value => addDigit value a.letter) =
      toUnsigned? (2 * v + worth a) := by
  have hbit : ∃ bit, bit? a.letter = some bit ∧ bit.toNat = worth a := by
    cases a with
    | s => exact ⟨0, rfl, rfl⟩
    | t => exact ⟨1, rfl, rfl⟩
    | n | x => cases ha
  obtain ⟨bit, hbit, hworth⟩ := hbit
  cases hv : toUnsigned? v with
  | none =>
    have hle : UInt64.size ≤ v := by simpa [toUnsigned?] using hv
    rw [toUnsigned?_of_le (by omega)]
    rfl
  | some value =>
    have hvalue := toUnsigned?_eq_some_iff.mp hv
    have hmul : checkedMul value 2 = toUnsigned? (2 * v) := by
      rw [checkedMul, hvalue, Nat.mul_comm]
      rfl
    simp only [Option.bind_some, addDigit, hbit, hmul, Option.bind_eq_bind]
    cases hdouble : toUnsigned? (2 * v) with
    | none =>
      have hle : UInt64.size ≤ 2 * v := by simpa [toUnsigned?] using hdouble
      rw [toUnsigned?_of_le (by omega)]
      rfl
    | some double =>
      rw [Option.bind_some, checkedAdd, toUnsigned?_eq_some_iff.mp hdouble, hworth]

/-- Adding digit by digit comes to checking the exact value once. -/
lemma value?_letters {digits : List Symbol} (hdigits : digits.all isDigit) :
    value? (digits.map Symbol.letter) = toUnsigned? (magnitude digits) := by
  induction digits using List.reverseRecOn with
  | nil => rfl
  | append_singleton digits a ih =>
    simp only [List.all_append, List.all_cons, List.all_nil, Bool.and_true, Bool.and_eq_true]
      at hdigits
    have ih := ih hdigits.1
    rw [value?] at ih ⊢
    rw [List.map_append, List.foldlM_append, ih, magnitude_concat, ← bind_addDigit hdigits.2]
    simp

/-- A word with a sign is the integer it denotes. -/
lemma toInt_signed (negative : Bool) (magnitude : UInt64) :
    (signed negative magnitude).toInt =
      if negative then -(magnitude.toNat : Int) else magnitude.toNat := by
  have hlt := magnitude.toNat_lt
  have hwide : (magnitude.toBitVec.setWidth 128).toInt = magnitude.toNat := by
    rw [BitVec.toInt_setWidth, UInt64.toNat_toBitVec]
    exact Int.bmod_eq_of_le (by omega) (by omega)
  cases negative with
  | false => exact hwide
  | true =>
    simp only [signed, if_true, BitVec.toInt_neg, hwide]
    exact Int.bmod_eq_of_le (by omega) (by omega)

/-- A terminated argument is read as the integer it denotes, if that is a word. -/
lemma decode?_letters {argument : List Symbol} (hne : argument ≠ [])
    (hdigits : argument.all isDigit) :
    decode? ((argument ++ [Symbol.n]).map Symbol.letter) = toWord? (denoted argument) := by
  obtain ⟨sign, digits, rfl⟩ := List.exists_cons_of_ne_nil hne
  have hdrop : dropTerminator ((sign :: digits ++ [Symbol.n]).map Symbol.letter) =
      sign.letter :: digits.map Symbol.letter := by
    simp [dropTerminator, Symbol.letter, List.getLast?_cons, List.dropLast_cons_of_ne_nil]
  simp only [List.all_cons, Bool.and_eq_true] at hdigits
  have hsign : sign? sign.letter = some (decide (sign = .t)) := by
    cases sign with
    | s | t => rfl
    | n | x => cases hdigits.1
  rw [decode?, hdrop]
  simp only [hsign, value?_letters hdigits.2, Option.bind_eq_bind, Option.bind_some, denoted]
  cases hvalue : toUnsigned? (magnitude digits) with
  | some value =>
    rw [Option.bind_some, toInt_signed, toUnsigned?_eq_some_iff.mp hvalue]
    simp
  | none =>
    -- what is too large without sign is too large with either sign
    have hle : UInt64.size ≤ magnitude digits := by simpa [toUnsigned?] using hvalue
    have hword : ¬ (toWord? (denoted (sign :: digits))).isSome = true := by
      rw [toWord?_isSome_iff, Int64.toInt_minValue, Int64.toInt_maxValue, denoted]
      have hsize : UInt64.size = 2 ^ 64 := rfl
      split <;> omega
    exact (Option.not_isSome_iff_eq_none.mp hword).symm

lemma worth_bit {d : Nat} (h : d < 2) : worth (bit d) = d := by
  interval_cases d <;> rfl

lemma magnitude_digits (n : Nat) : magnitude (digits n) = n := by
  induction n using digits.induct with
  | case1 n hn =>
    rw [digits, if_pos hn]
    simp [magnitude, worth_bit hn]
  | case2 n hn ih =>
    rw [digits, if_neg hn, magnitude_concat, ih, worth_bit (Nat.mod_lt _ two_pos)]
    exact Nat.div_add_mod n 2

lemma isDigit_bit (d : Nat) : (bit d).isDigit = true := by
  unfold bit
  split <;> rfl

lemma all_isDigit_digits (n : Nat) : (digits n).all isDigit := by
  induction n using digits.induct with
  | case1 n hn =>
    rw [digits, if_pos hn]
    simp [isDigit_bit]
  | case2 n hn ih =>
    rw [digits, if_neg hn]
    simp only [List.all_append, ih, List.all_cons, List.all_nil, isDigit_bit, Bool.and_self]

lemma numeral_ne_nil (v : Int) : numeral v ≠ [] := List.cons_ne_nil _ _

lemma all_isDigit_numeral (v : Int) : (numeral v).all isDigit := by
  have hsign : (sign v).isDigit = true := by
    unfold sign
    split <;> rfl
  simp only [numeral, List.all_cons, hsign, all_isDigit_digits, Bool.and_self]

@[simp]
lemma denoted_numeral (v : Int) : denoted (numeral v) = v := by
  simp only [numeral, denoted, magnitude_digits, sign]
  by_cases hv : v < 0
  · simp [hv, abs_of_neg hv]
  · simp [hv, abs_of_nonneg (not_lt.mp hv)]

lemma code_eq (v : Int) : code v = Symbol.letters (numeral v ++ [.n]) := rfl

lemma code_injective : Function.Injective code := by
  intro v w h
  rw [code_eq, code_eq] at h
  have hnumeral : numeral v = numeral w := List.append_cancel_right (Symbol.letters_injective h)
  simpa using congrArg denoted hnumeral

end Binary

namespace Alphabetic

lemma toNat_digit {d : Nat} (h : d < 26) : (digit d).toNat = 65 + d := by
  interval_cases d <;> rfl

/-- The number that letters stand for. -/
def value (letters : List Char) : Nat := letters.foldl (fun v c => 26 * v + (c.toNat - 65)) 0

lemma value_letters (n : Nat) : value (letters n) = n := by
  induction n using letters.induct with
  | case1 n hn =>
    rw [letters, if_pos hn]
    simp [value, toNat_digit hn]
  | case2 n hn ih =>
    rw [letters, if_neg hn, value, List.foldl_append, ← value, ih]
    simp only [List.foldl_cons, List.foldl_nil, toNat_digit (Nat.mod_lt n (by decide : 26 > 0)),
      Nat.add_sub_cancel_left]
    exact Nat.div_add_mod n 26

lemma text_injective : Function.Injective text := by
  intro m n h
  have hletters : letters m = letters n := by simpa [text] using congrArg String.toList h
  simpa [value_letters] using congrArg value hletters

lemma exists_digit_of_mem {n : Nat} {c : Char} (hc : c ∈ letters n) : ∃ d < 26, c = digit d := by
  induction n using letters.induct with
  | case1 n hn =>
    rw [letters, if_pos hn, List.mem_singleton] at hc
    exact ⟨n, hn, hc⟩
  | case2 n hn ih =>
    rw [letters, if_neg hn, List.mem_append, List.mem_singleton] at hc
    rcases hc with hc | hc
    · exact ih hc
    · exact ⟨n % 26, Nat.mod_lt n (by decide), hc⟩

lemma letters_ne_nil (n : Nat) : letters n ≠ [] := by
  rw [letters]
  split <;> simp

end Alphabetic

namespace Decimal

lemma foldlM_addDigit {digits : List Char} (hdigits : ∀ c ∈ digits, c.isDigit = true)
    (start : Nat) : digits.foldlM addDigit start = some (Nat.ofDigitChars 10 digits start) := by
  induction digits generalizing start with
  | nil => simp
  | cons c digits ih =>
    have hc : c.isDigit = true := hdigits c List.mem_cons_self
    rw [List.foldlM_cons, Nat.ofDigitChars_cons]
    simp only [addDigit, digit?, hc, if_true, Option.map_some, Option.bind_eq_bind,
      Option.bind_some]
    exact ih (fun d hd => hdigits d (List.mem_cons_of_mem _ hd)) _

lemma natural?_toDigits (n : Nat) : natural? (Nat.toDigits 10 n) = some n := by
  have hne : (Nat.toDigits 10 n).isEmpty = false := by simp [Nat.toDigits_ne_nil]
  rw [natural?, hne, foldlM_addDigit fun c hc => Nat.isDigit_of_mem_toDigits (by decide) le_rfl hc]
  simp

lemma integer?_of_isDigit {digits : List Char} (hdigits : ∀ c ∈ digits, c.isDigit = true) :
    integer? digits = (natural? digits).map fun n => (n : Int) := by
  unfold integer?
  split
  · have := hdigits _ List.mem_cons_self
    simp at this
  · have := hdigits _ List.mem_cons_self
    simp at this
  · rfl

lemma toList_toString_ofNat (n : Nat) : (toString (Int.ofNat n)).toList = Nat.toDigits 10 n :=
  Nat.toList_repr

lemma toList_toString_negSucc (n : Nat) :
    (toString (Int.negSucc n)).toList = '-' :: Nat.toDigits 10 (n + 1) := by
  change ("-" ++ (n + 1).repr).toList = _
  rw [String.toList_append, Nat.toList_repr]
  rfl

lemma integer?_toString (v : Int) : integer? (toString v).toList = some v := by
  cases v with
  | ofNat n =>
    rw [toList_toString_ofNat,
      integer?_of_isDigit fun c hc => Nat.isDigit_of_mem_toDigits (by decide) le_rfl hc,
      natural?_toDigits]
    rfl
  | negSucc n =>
    rw [toList_toString_negSucc, integer?, natural?_toDigits]
    rfl

/-- A number is read back from its decimal text. -/
lemma word?_text (n : Int64) : word? (text n) = some n := by
  rw [word?, text, integer?_toString, Option.bind_some, toWord?_eq_some_iff]

end Decimal

end ZeroWidth
