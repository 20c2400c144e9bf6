import ZeroWidth.Proofs.Conversion

/-!
# Spelling again what has been read

A program that has been read from symbols is spelled by the same symbols again, apart from its
numbers: these lose the zeros that lead them. Codes of labels and types are looked up in the tables
that reading has made of them, so they come back symbol for symbol, even if two of them would be the
same as numbers. What has been spelled once is spelled the same ever after.
-/

namespace ZeroWidth.Spelled

variable {v : Vocabulary} {d : Dialect} {source : String} {phrases : List Phrase}

/-- The argument of an instruction as it is written again: a number by the numeral of its value, the
code of a label or a type as it stood. -/
def rewrittenArgument (i : Instruction) (digits : List Symbol) : List Symbol :=
  match i.argKind with
  | .number => Binary.encode (Binary.denoted digits)
  | _       => digits ++ [.n]

/-- The symbols of a phrase as it is written again. -/
def Phrase.rewritten (p : Phrase) : List Symbol :=
  p.instruction.code ++ p.argument.elim [] (rewrittenArgument p.instruction)

/-- What is read of an argument is looked up where it was tabled, so nothing new is learnt. -/
lemma codeForArgument_of_saysIn {i : Instruction} {digits : List Symbol} {argument : Argument}
    (hsaid : (⟨i, some digits⟩ : Phrase).SaysIn v (i, some argument)) :
    v.codeForArgument argument = (Symbol.letters (rewrittenArgument i digits), v) := by
  cases hsaid with
  | number hi hn =>
    simp only [rewrittenArgument, hi, ← hn]
    rfl
  | label hi hname =>
    simp only [Vocabulary.codeForArgument, Vocabulary.codeForLabel, rewrittenArgument, hi,
      Bijection.codeFor_of_mem hname]
    rfl
  | type hi hname =>
    simp only [Vocabulary.codeForArgument, Vocabulary.codeForType, rewrittenArgument, hi,
      Bijection.codeFor_of_mem hname]
    rfl

/-- Operations that phrases say are spelled by these phrases, written again. -/
lemma spell_of_saysIn {ops : List Operation}
    (hsaid : List.Forall₂ (Phrase.SaysIn v) phrases (ops.map Operation.content)) :
    spell v ops = Symbol.letters (phrases.flatMap Phrase.rewritten) := by
  induction ops generalizing phrases with
  | nil =>
    obtain rfl : phrases = [] := by simpa using hsaid
    rfl
  | cons op ops ih =>
    cases hsaid with
    | @cons p _ phrases _ hop hops =>
      obtain ⟨i, argument, span⟩ := op
      rw [List.flatMap_cons, Symbol.letters_append, ← ih hops]
      cases argument with
      | none =>
        cases hop with
        | plain hi => simp [spell, Phrase.rewritten]
      | some argument =>
        obtain ⟨digits, rfl⟩ : ∃ digits, p = ⟨i, some digits⟩ := by cases hop <;> exact ⟨_, rfl⟩
        simp only [spell, codeForArgument_of_saysIn hop, Phrase.rewritten, Option.elim_some,
          Symbol.letters_append]

/-- What is printed of a program that has been read from phrases is all that it says. -/
lemma print_read (hparses : Parses phrases (d.symbols source.toList)) :
    print d (read d source) =
      d.respell (spell (read d source).vocabulary (read d source).operations) := by
  rw [print_eq, spoken_of_fits (fits_of_parses hparses)]

lemma wellKinded_of_mem_read {op : Operation} (hop : op ∈ (read d source).operations) :
    op.WellKinded := by
  rw [← d.read_surface] at hop
  exact ((d.surface.printable_read source).sayable op hop).wellKinded

/-- Printing settles after one trip. -/
lemma print_read_print (d : Dialect) (source : String) :
    print d (read d (print d (read d source))) = print d (read d source) := by
  have hv := wellFormed_read d source
  have hkinds : ∀ op ∈ (read d source).operations, op.WellKinded := fun _ => wellKinded_of_mem_read
  obtain ⟨again, -, hagain, -⟩ := exists_parses_print d hv hkinds
  rw [print_read hagain, spell_read_print d hv hkinds, print_eq]

/-- A text without faults in its symbols is spelled by the same symbols again, with each number
written as its value is written and everything else as it was; so what is printed of it is printed
again from itself. -/
theorem letters_read (d : Dialect) (source : String)
    (h : ∀ e ∈ (read d source).errors, e.fault.isAboutLabels = true) :
    ∃ phrases, Parses phrases (d.symbols source.toList) ∧
      (∀ others, Parses others (d.symbols source.toList) → others = phrases) ∧
      letters (read d source) true = Symbol.letters (phrases.flatMap Phrase.rewritten) ∧
      print d (read d source) = d.respell (Symbol.letters (phrases.flatMap Phrase.rewritten)) ∧
      print d (read d (print d (read d source))) = print d (read d source) := by
  obtain ⟨phrases, hparses⟩ := exists_parses_of_errors h
  have hspell := spell_of_saysIn (says_read hparses).1
  refine ⟨phrases, hparses, fun _ hothers => hparses.unique hothers, hspell, ?_,
    print_read_print d source⟩
  rw [print_read hparses, hspell]

/-- Two labels whose codes are both zero, a number with zeros in front and a jump to a label that is
nowhere, in blanks. -/
def paddedZeros : String := "\n    \n\n   \n     \t\n\n \n\t\n"

def paddedZerosPhrases : List Phrase :=
  [⟨.label, some [.s, .s]⟩, ⟨.label, some [.s]⟩, ⟨.push, some [.s, .s, .s, .t]⟩,
    ⟨.jump, some [.t]⟩]

lemma parses_paddedZeros :
    Parses paddedZerosPhrases (Dialect.whitespace.symbols paddedZeros.toList) where
  shaped  := by
    simp only [paddedZerosPhrases, List.forall_mem_cons]
    exact ⟨.applied rfl (by simp) rfl, .applied rfl (by simp) rfl, .applied rfl (by simp) rfl,
      .applied rfl (by simp) rfl, by simp⟩
  inRange := by
    simp only [paddedZerosPhrases, List.forall_mem_cons]
    exact ⟨inRange_of_ne (by decide), inRange_of_ne (by decide),
      (inRange_number rfl).mpr (by decide), inRange_of_ne (by decide), by simp⟩
  symbols := by decide

theorem letters_read_paddedZeros :
    (∀ e ∈ (read .whitespace paddedZeros).errors, e.fault.isAboutLabels = true) ∧
      letters (read .whitespace paddedZeros) true = "nssssnnsssnssstnnsntn" ∧
      print .whitespace (read .whitespace paddedZeros) = "\n    \n\n   \n   \t\n\n \n\t\n" := by
  have hlabels : ∀ e ∈ (read .whitespace paddedZeros).errors, e.fault.isAboutLabels = true := by
    rw [(says_read parses_paddedZeros).2]
    exact fun _ => isAboutLabels_of_mem_labelErrors
  obtain ⟨phrases, -, hunique, hletters, hprint, -⟩ := letters_read .whitespace paddedZeros hlabels
  obtain rfl := hunique _ parses_paddedZeros
  exact ⟨hlabels, hletters.trans (by decide +kernel), hprint.trans (by decide +kernel)⟩

end ZeroWidth.Spelled
