import Mathlib.SetTheory.Cardinal.Arithmetic
import ZeroWidth.Proofs.AssemblyText
import ZeroWidth.Proofs.Reading
import ZeroWidth.Surface

/-!
# Reading what has been spelled

The letters of a program are those of phrases, which say the operations in the vocabulary that the
operations have taught by then. Reading them finds the same phrases and names their codes anew. So
the operations come back with their names changed: two tables over the same codes make a renaming.
-/

namespace ZeroWidth

/-- Two tables give one name for another wherever they share a code. -/
lemma Bijection.exists_perm {α β : Type} [Infinite α] {b b' : Bijection α β} (hb : b.Mirrored)
    (hb' : b'.Mirrored) :
    ∃ f : Equiv.Perm α, ∀ p p' q, (p, q) ∈ b.pairs → (p', q) ∈ b'.pairs → f p = p' := by
  let shared : Set α := {p | ∃ q p', (p, q) ∈ b.pairs ∧ (p', q) ∈ b'.pairs}
  have hfinite : shared.Finite := by
    refine (b.pairs.map Prod.fst).finite_toSet.subset ?_
    rintro p ⟨q, -, hp, -⟩
    exact List.mem_map.mpr ⟨(p, q), hp, rfl⟩
  choose code name hcode hname using fun p : shared => p.2
  have hinj : Function.Injective name := by
    intro p r h
    have hsame : code p = code r := Bijection.left_inj (h ▸ hname p) (hname r)
    exact Subtype.ext (hb.right_inj (hsame ▸ hcode p) (hcode r))
  have hlt : Cardinal.mk shared < Cardinal.mk α :=
    hfinite.lt_aleph0.trans_le (Cardinal.aleph0_le_mk α)
  obtain ⟨f, hf⟩ := Cardinal.extend_function_of_lt ⟨name, hinj⟩ hlt ⟨Equiv.refl α⟩
  refine ⟨f, fun p p' q hp hp' => ?_⟩
  have hshared : p ∈ shared := ⟨q, p', hp, hp'⟩
  have hsame : code ⟨p, hshared⟩ = q := Bijection.left_inj (hcode ⟨p, hshared⟩) hp
  exact (hf ⟨p, hshared⟩).trans (hb'.right_inj (hname ⟨p, hshared⟩) (hsame ▸ hp'))

/-- If one name is given for another as the tables have them under the same code, the new name is
found under the code of the old one. -/
lemma Bijection.Mirrored.back?_forth? {α β : Type} [DecidableEq α] [DecidableEq β]
    {b b' : Bijection α β} (hb' : b'.Mirrored) {f : α → α}
    (hf : ∀ p p' q, (p, q) ∈ b.pairs → (p', q) ∈ b'.pairs → f p = p') {p p' : α} {q : β}
    (h : (p, q) ∈ b.pairs) (h' : (p', q) ∈ b'.pairs) (other : β) :
    b'.back? ((b.forth? p).getD other) = some (f p) := by
  rw [forth?_eq_some_iff.mpr h, Option.getD_some, hb'.back?_eq_some_iff, hf p p' q h h']
  exact h'

namespace Vocabulary

variable {v : Vocabulary}

/-- The code that an argument has, as far as the vocabulary knows. -/
def code (v : Vocabulary) : Argument → Code
  | .number n   => Binary.code n.toInt
  | .label name => (v.labels.forth? name).getD ""
  | .type name  => (v.types.forth? name).getD ""

/-- The letters of an operation in a vocabulary. -/
def spelling (v : Vocabulary) (op : Operation) : String :=
  Symbol.letters op.instruction.code ++ (op.argument.map v.code).getD ""

lemma WellFormed.grows_learn (hv : v.WellFormed) (op : Operation) : v.Grows (v.learn op) := by
  unfold Vocabulary.learn
  split
  · rename_i argument _
    cases argument with
    | number n => exact .refl v
    | label name => exact (recordsLabel_codeForLabel hv.labels name).grows
    | type name => exact (recordsType_codeForType hv.types name).grows
  · exact .refl v

lemma WellFormed.learn (hv : v.WellFormed) (op : Operation) : (v.learn op).WellFormed := by
  unfold Vocabulary.learn
  split
  · rename_i argument _
    cases argument with
    | number n => exact hv
    | label name =>
      exact (recordsLabel_codeForLabel hv.labels name).wellFormed hv (isCode_codeForLabel hv name)
    | type name =>
      exact (recordsType_codeForType hv.types name).wellFormed hv (isCode_codeForType hv name)
  · exact hv

lemma WellFormed.grows_foldl_learn (hv : v.WellFormed) (ops : List Operation) :
    v.Grows (ops.foldl Vocabulary.learn v) := by
  induction ops generalizing v with
  | nil => exact .refl v
  | cons op ops ih => exact (hv.grows_learn op).trans (ih (hv.learn op))

lemma WellFormed.foldl_learn (hv : v.WellFormed) (ops : List Operation) :
    (ops.foldl Vocabulary.learn v).WellFormed := by
  induction ops generalizing v with
  | nil => exact hv
  | cons op ops ih => exact ih (hv.learn op)

end Vocabulary

namespace Spelled

variable {v : Vocabulary} {op : Operation} {ops : List Operation} {d : Dialect}

/-! ### The phrases of operations -/

/-- The phrase of a code says what the code stands for. -/
lemma exists_phrase_of_argument {argument : Argument} (hv : v.WellFormed)
    (hkind : argument.kind = op.instruction.argKind) (hargument : op.argument = some argument) :
    ∃ digits, (v.codeForArgument argument).1 = argumentCode digits ∧
      (⟨op.instruction, some digits⟩ : Phrase).Shaped ∧
      (⟨op.instruction, some digits⟩ : Phrase).InRange ∧
      (⟨op.instruction, some digits⟩ : Phrase).SaysIn (v.learn op) op.content := by
  have htakes : op.instruction.takesArgument = true := by
    rw [Instruction.takesArgument, ← hkind]
    cases argument <;> rfl
  have hcontent : op.content = (op.instruction, some argument) := by
    rw [Operation.content, hargument]
  have hlearn : v.learn op = (v.codeForArgument argument).2 := by
    simp [Vocabulary.learn, hargument]
  rw [hcontent, hlearn]
  cases argument with
  | number n =>
    refine ⟨Binary.numeral n.toInt, rfl, .applied htakes (Binary.numeral_ne_nil _)
      (Binary.all_isDigit_numeral _), (inRange_number hkind.symm).mpr ?_, .number hkind.symm ?_⟩
    · rw [Binary.denoted_numeral, toWord?_eq_some_iff.mpr rfl]
      rfl
    · rw [Binary.denoted_numeral]
  | label name =>
    obtain ⟨digits, hne, hdigits, hcode⟩ := Vocabulary.isCode_codeForLabel hv name
    exact ⟨digits, hcode, .applied htakes hne hdigits,
      inRange_of_ne (by simp [← hkind, Argument.kind]),
      .label hkind.symm (hcode ▸ (Vocabulary.recordsLabel_codeForLabel hv.labels name).labels.mem)⟩
  | type name =>
    obtain ⟨digits, hne, hdigits, hcode⟩ := Vocabulary.isCode_codeForType hv name
    exact ⟨digits, hcode, .applied htakes hne hdigits,
      inRange_of_ne (by simp [← hkind, Argument.kind]),
      .type hkind.symm (hcode ▸ (Vocabulary.recordsType_codeForType hv.types name).types.mem)⟩

/-- Operations are spelled in phrases that say them in the vocabulary they teach. -/
lemma exists_phrases_of_spell (hv : v.WellFormed) (hops : ∀ op ∈ ops, op.WellKinded) :
    ∃ phrases : List Phrase, spell v ops = Symbol.letters (phrases.flatMap Phrase.symbols) ∧
      (∀ p ∈ phrases, p.Shaped) ∧ (∀ p ∈ phrases, p.InRange) ∧
      List.Forall₂ (Phrase.SaysIn (ops.foldl Vocabulary.learn v)) phrases
        (ops.map Operation.content) := by
  induction ops generalizing v with
  | nil => exact ⟨[], rfl, by simp, by simp, .nil⟩
  | cons op ops ih =>
    obtain ⟨phrases, hspell, hshaped, hrange, hsaid⟩ :=
      ih (hv.learn op) fun op hop => hops op (List.mem_cons_of_mem _ hop)
    have hgrows := (hv.learn op).grows_foldl_learn ops
    have hkind : op.argKind = op.instruction.argKind := hops op List.mem_cons_self
    -- one phrase for the operation, in front of those of the rest
    suffices h : ∃ p : Phrase, spell v (op :: ops) =
        Symbol.letters p.symbols ++ spell (v.learn op) ops ∧ p.Shaped ∧ p.InRange ∧
        p.SaysIn (v.learn op) op.content by
      obtain ⟨p, hspell', hshaped', hrange', hsaid'⟩ := h
      refine ⟨p :: phrases, ?_, List.forall_mem_cons.mpr ⟨hshaped', hshaped⟩,
        List.forall_mem_cons.mpr ⟨hrange', hrange⟩, .cons (hsaid'.grows hgrows) hsaid⟩
      rw [hspell', hspell, List.flatMap_cons, Symbol.letters_append]
    cases hargument : op.argument with
    | none =>
      have hnothing : op.instruction.argKind = .nothing := by
        rw [← hkind, Operation.argKind, hargument]
        rfl
      refine ⟨⟨op.instruction, none⟩, ?_, .plain (by simp [Instruction.takesArgument, hnothing]),
        inRange_of_ne (by simp [hnothing]), ?_⟩
      · simp [spell, hargument, Vocabulary.learn, Phrase.symbols]
      · rw [Operation.content, hargument]
        exact .plain hnothing
    | some argument =>
      rw [Operation.argKind, hargument] at hkind
      obtain ⟨digits, hcode, hshaped', hrange', hsaid'⟩ :=
        exists_phrase_of_argument hv hkind hargument
      refine ⟨_, ?_, hshaped', hrange', hsaid'⟩
      simp only [spell, hargument, hcode, Vocabulary.learn, Phrase.symbols, Option.elim_some,
        Symbol.letters_append, argumentCode]

/-! ### Respelling symbols -/

/-- Symbols that a dialect can write are read back. -/
lemma symbols_respell {w : List Symbol} (hw : ∀ a ∈ w, (d.write? a).isSome = true) :
    d.symbols (d.respell (Symbol.letters w)).toList = w := by
  have hwritten : d.symbols (d.respell (Symbol.letters w)).toList =
      (w.filterMap d.write?).filterMap d.read? := by
    simp [Dialect.symbols, Dialect.respell, List.filterMap_map]
  rw [hwritten]
  clear hwritten
  induction w with
  | nil => rfl
  | cons a w ih =>
    obtain ⟨ch, hch⟩ := Option.isSome_iff_exists.mp (hw a List.mem_cons_self)
    have ih := ih fun b hb => hw b (List.mem_cons_of_mem _ hb)
    simp [hch, Dialect.read?_of_write? hch, ih]

lemma write?_code {i : Instruction} (hi : d = .nospace ∨ i.isAdvisory = false) :
    ∀ a ∈ i.code, (d.write? a).isSome = true := by
  cases d with
  | nospace => exact fun a _ => rfl
  | whitespace =>
    have hi : i.isAdvisory = false := by simpa using hi
    revert hi
    cases i <;> decide

lemma write?_digit {a : Symbol} (ha : a.isDigit = true) : (d.write? a).isSome = true := by
  cases d with
  | nospace => rfl
  | whitespace =>
    cases a with
    | s | t => rfl
    | n | x => cases ha

lemma write?_symbols {p : Phrase} (hp : p.Shaped)
    (hi : d = .nospace ∨ p.instruction.isAdvisory = false) :
    ∀ a ∈ p.symbols, (d.write? a).isSome = true := by
  intro a ha
  cases hp with
  | plain => exact write?_code hi a (by simpa [Phrase.symbols] using ha)
  | applied _ _ hdigits =>
    simp only [Phrase.symbols, Option.elim_some, List.mem_append, List.mem_singleton] at ha
    rcases ha with ha | ha | rfl
    · exact write?_code hi a ha
    · exact write?_digit (List.all_eq_true.mp hdigits a ha)
    · cases d <;> rfl

/-- The operations that a dialect has room for. -/
def spoken (d : Dialect) (ops : List Operation) : List Operation :=
  if d = .nospace then ops else effective ops

lemma mem_of_mem_spoken (hop : op ∈ spoken d ops) : op ∈ ops := by
  unfold spoken effective at hop
  split at hop
  · exact hop
  · exact (List.mem_filter.mp hop).1

lemma isAdvisory_of_mem_spoken (hop : op ∈ spoken d ops) :
    d = .nospace ∨ op.instruction.isAdvisory = false := by
  unfold spoken effective at hop
  split at hop
  · exact Or.inl ‹_›
  · exact Or.inr (by simpa using (List.mem_filter.mp hop).2)

lemma print_eq (d : Dialect) (p : Program) :
    print d p = d.respell (spell p.vocabulary (spoken d p.operations)) := by
  simp [print, letters, spoken]

/-! ### What comes back -/

/-- The vocabulary that a program is spelled in, behind its last operation. -/
def taught (d : Dialect) (p : Program) : Vocabulary :=
  (spoken d p.operations).foldl Vocabulary.learn p.vocabulary

lemma instruction_of_saysIn {p : Phrase} {content : Instruction × Option Argument}
    (h : p.SaysIn v content) : p.instruction = content.1 := by
  cases h <;> rfl

/-- A printed program is made of the phrases that say its operations. -/
lemma exists_parses_print {p : Program} (d : Dialect) (hv : p.vocabulary.WellFormed)
    (hkinds : ∀ op ∈ p.operations, op.WellKinded) :
    ∃ phrases, spell p.vocabulary (spoken d p.operations) =
        Symbol.letters (phrases.flatMap Phrase.symbols) ∧
      Parses phrases (d.symbols (print d p).toList) ∧
      List.Forall₂ (Phrase.SaysIn (taught d p)) phrases
        ((spoken d p.operations).map Operation.content) := by
  obtain ⟨phrases, hspell, hshaped, hrange, hsaid⟩ :=
    exists_phrases_of_spell hv fun op hop => hkinds op (mem_of_mem_spoken hop)
  refine ⟨phrases, hspell, ⟨hshaped, hrange, ?_⟩, hsaid⟩
  rw [print_eq, hspell]
  refine (symbols_respell fun a ha => ?_).symm
  obtain ⟨p, hp, ha⟩ := List.mem_flatMap.mp ha
  obtain ⟨content, hcontent, hsay⟩ := exists_mem_of_forall₂_left hsaid hp
  obtain ⟨op, hop, rfl⟩ := List.mem_map.mp hcontent
  refine write?_symbols (hshaped p hp) ?_ a ha
  rw [instruction_of_saysIn hsay]
  exact isAdvisory_of_mem_spoken hop

end Spelled

/-- One name for another, as two vocabularies have them under the same code. -/
structure Renaming.Links (ρ : Renaming) (v v' : Vocabulary) : Prop where
  labels : ∀ name name' code, (name, code) ∈ v.labels.pairs → (name', code) ∈ v'.labels.pairs →
    ρ.labels name = name'
  types  : ∀ name name' code, (name, code) ∈ v.types.pairs → (name', code) ∈ v'.types.pairs →
    ρ.types name = name'

lemma Renaming.exists_links {v v' : Vocabulary} (hv : v.WellFormed) (hv' : v'.WellFormed) :
    ∃ ρ : Renaming, ρ.Links v v' := by
  obtain ⟨labels, hlabels⟩ := Bijection.exists_perm hv.labels hv'.labels
  obtain ⟨types, htypes⟩ := Bijection.exists_perm hv.types hv'.types
  refine ⟨⟨labels, types, fun pair hpair => ?_⟩, hlabels, htypes⟩
  exact htypes _ _ pair.2 (hv.builtin.subset hpair) (hv'.builtin.subset hpair)

lemma forall₂_of_common {α β γ : Type} {R : α → β → Prop} {S : α → γ → Prop} {as : List α}
    {bs : List β} {cs : List γ} (hR : List.Forall₂ R as bs) (hS : List.Forall₂ S as cs) :
    List.Forall₂ (fun b c => ∃ a, R a b ∧ S a c) bs cs := by
  induction hR generalizing cs with
  | nil =>
    cases hS
    exact .nil
  | cons hab _ ih =>
    cases hS with
    | cons hac hS => exact .cons ⟨_, hab, hac⟩ (ih hS)

namespace Spelled

variable {v v' : Vocabulary} {ρ : Renaming} {ops ops' : List Operation}

/-- The same phrase says things in two vocabularies that differ in their names alone. -/
lemma content_of_saysIn {p : Phrase} {content content' : Instruction × Option Argument}
    (hρ : ρ.Links v v') (h : p.SaysIn v content) (h' : p.SaysIn v' content') :
    content' = (content.1, content.2.map (Argument.rename ρ)) := by
  cases h with
  | plain =>
    cases h' with
    | plain => rfl
  | number hi hn =>
    cases h' with
    | number _ hn' => rw [Int64.toInt_inj.mp (hn'.trans hn.symm)]; rfl
    | label hi' | type hi' => simp [hi] at hi'
  | label hi hname =>
    cases h' with
    | label _ hname' => rw [← hρ.labels _ _ _ hname hname']; rfl
    | number hi' | type hi' => simp [hi] at hi'
  | type hi hname =>
    cases h' with
    | type _ hname' => rw [← hρ.types _ _ _ hname hname']; rfl
    | number hi' | label hi' => simp [hi] at hi'

/-- Two lists of operations that the same phrases say, each in its own vocabulary. -/
def Counterparts (v v' : Vocabulary) (ops ops' : List Operation) : Prop :=
  List.Forall₂ (fun content content' => ∃ p : Phrase, p.SaysIn v content ∧ p.SaysIn v' content')
    (ops.map Operation.content) (ops'.map Operation.content)

namespace Counterparts

lemma sameContents (h : Counterparts v v' ops ops') (hρ : ρ.Links v v') :
    SameContents ops' (ops.map (Operation.rename ρ)) := by
  have heq : List.Forall₂ (fun content content' =>
      (content.1, content.2.map (Argument.rename ρ)) = content')
      (ops.map Operation.content) (ops'.map Operation.content) :=
    h.imp fun content content' ⟨p, hp, hp'⟩ => (content_of_saysIn hρ hp hp').symm
  rw [← List.forall₂_map_left_iff, List.forall₂_eq_eq_eq, List.map_map] at heq
  rw [SameContents, ← heq, List.map_map]
  rfl

lemma exists_of_mem (h : Counterparts v v' ops ops') {op : Operation} (hop : op ∈ ops) :
    ∃ content' p, Phrase.SaysIn v p op.content ∧ Phrase.SaysIn v' p content' := by
  obtain ⟨content', -, p, hp, hp'⟩ := exists_mem_of_forall₂_left h (List.mem_map_of_mem hop)
  exact ⟨content', p, hp, hp'⟩

/-- The new name of a label or a type is tabled under the code of the old one. -/
lemma back?_code (h : Counterparts v v' ops ops') (hρ : ρ.Links v v') (hv' : v'.WellFormed)
    {op : Operation} (hop : op ∈ ops) {argument : Argument}
    (hargument : op.argument = some argument) :
    match argument with
    | .number _   => True
    | .label name => v'.labels.back? (v.code (.label name)) = some (ρ.labels name)
    | .type name  => v'.types.back? (v.code (.type name)) = some (ρ.types name) := by
  obtain ⟨content', p, hp, hp'⟩ := h.exists_of_mem hop
  rw [Operation.content, hargument] at hp
  cases hp with
  | number => trivial
  | label hi htabled =>
    cases hp' with
    | label _ htabled' => exact hv'.labels.back?_forth? hρ.labels htabled htabled' ""
    | number hi' | type hi' => simp [hi] at hi'
  | type hi htabled =>
    cases hp' with
    | type _ htabled' => exact hv'.types.back?_forth? hρ.types htabled htabled' ""
    | number hi' | label hi' => simp [hi] at hi'

end Counterparts

/-- Reading a printed program gives its operations, in the vocabulary of the reader. -/
lemma counterparts_read_print {p : Program} (d : Dialect) (hv : p.vocabulary.WellFormed)
    (hkinds : ∀ op ∈ p.operations, op.WellKinded) :
    Counterparts (taught d p) (read d (print d p)).vocabulary (spoken d p.operations)
        (read d (print d p)).operations ∧
      (read d (print d p)).errors = labelErrors (read d (print d p)).operations := by
  obtain ⟨phrases, -, hparses, hsaid⟩ := exists_parses_print d hv hkinds
  obtain ⟨hsaid', herrors⟩ := says_read hparses
  exact ⟨forall₂_of_common hsaid hsaid', herrors⟩

/-! ### The codes that operations are spelled with -/

lemma code_eq_of_grows {argument : Argument} (hv : v.WellFormed)
    (hgrows : (v.codeForArgument argument).2.Grows v') :
    v'.code argument = (v.codeForArgument argument).1 := by
  cases argument with
  | number n => rfl
  | label name =>
    have hmem :=
      hgrows.labels.subset (Vocabulary.recordsLabel_codeForLabel hv.labels name).labels.mem
    rw [Vocabulary.code, Bijection.forth?_eq_some_iff.mpr hmem]
    rfl
  | type name =>
    have hmem := hgrows.types.subset (Vocabulary.recordsType_codeForType hv.types name).types.mem
    rw [Vocabulary.code, Bijection.forth?_eq_some_iff.mpr hmem]
    rfl

/-- Since no code changes, every operation is spelled as in the vocabulary that is there in the
end. -/
lemma spell_eq_join (hv : v.WellFormed) (ops : List Operation) :
    spell v ops = String.join (ops.map (ops.foldl Vocabulary.learn v).spelling) := by
  induction ops generalizing v with
  | nil => rfl
  | cons op ops ih =>
    rw [List.map_cons, String.join_cons, List.foldl_cons, ← ih (hv.learn op)]
    cases hargument : op.argument with
    | none => simp [spell, hargument, Vocabulary.spelling, Vocabulary.learn]
    | some argument =>
      have hlearn : v.learn op = (v.codeForArgument argument).2 := by
        simp [Vocabulary.learn, hargument]
      have hgrows := (hv.learn op).grows_foldl_learn ops
      rw [hlearn] at hgrows
      have hcode := code_eq_of_grows hv hgrows
      simp only [spell, hargument, Vocabulary.spelling, Option.map_some, Option.getD_some, hcode,
        hlearn]

end Spelled

/-! ### Vocabularies of readers -/

lemma Surface.wellFormed_read (surface : Surface) (source : String) :
    (surface.read source).vocabulary.WellFormed := by
  cases surface with
  | nossembly =>
    rw [Surface.read, Assembly.vocabulary_read]
    exact Vocabulary.wellFormed_initial.foldl_learn _
  | nospace => exact Spelled.wellFormed_read _ _
  | whitespace => exact Spelled.wellFormed_read _ _

namespace Spelled

/-- Reading undoes spelling up to names. A program that is spelled and read again has faults in its
labels at most, and its operations, without those that the dialect has no room for, come back with
their labels and types renamed: each to the name that the reader has tabled under the code the old
name was spelled with. -/
theorem read_print_renames (d : Dialect) (p : Program) (hkinds : ∀ op ∈ p.operations, op.WellKinded)
    (hvocabulary : p.vocabulary = .initial ∨ ∃ (surface : Surface) (source : String),
      p.vocabulary = (surface.read source).vocabulary) :
    (∀ e ∈ (read d (print d p)).errors, e.fault.isAboutLabels = true) ∧
    letters p (d = .nospace) = String.join ((spoken d p.operations).map (taught d p).spelling) ∧
    ∃ ρ : Renaming,
      (read d (print d p)).operations.map Operation.content =
        (spoken d p.operations).map (fun op => (op.rename ρ).content) ∧
      (∀ op ∈ spoken d p.operations, ∀ name, op.label? = some name →
        (read d (print d p)).vocabulary.labels.back? ((taught d p).code (.label name)) =
          some (ρ.labels name)) ∧
      ∀ op ∈ spoken d p.operations, ∀ name, op.type? = some name →
        (read d (print d p)).vocabulary.types.back? ((taught d p).code (.type name)) =
          some (ρ.types name) := by
  have hv : p.vocabulary.WellFormed := by
    rcases hvocabulary with h | ⟨surface, source, h⟩
    · exact h ▸ Vocabulary.wellFormed_initial
    · exact h ▸ surface.wellFormed_read source
  have htaught : (taught d p).WellFormed := hv.foldl_learn _
  have hread := wellFormed_read d (print d p)
  obtain ⟨hcounterparts, herrors⟩ := counterparts_read_print d hv hkinds
  obtain ⟨ρ, hρ⟩ := Renaming.exists_links htaught hread
  refine ⟨fun e he => ?_, ?_, ρ, ?_, fun op hop name hname => ?_, fun op hop name hname => ?_⟩
  · exact isAboutLabels_of_mem_labelErrors (herrors ▸ he)
  · rw [taught, ← spell_eq_join hv]
    simp [letters, spoken]
  · simpa [SameContents, Function.comp_def] using hcounterparts.sameContents hρ
  · exact hcounterparts.back?_code hρ hread hop (Operation.argument_of_label? hname)
  · exact hcounterparts.back?_code hρ hread hop (Operation.argument_of_type? hname)

/-- Operations with the least number there is, a type of their own and a label. -/
def extremes : Program :=
  Program.ofOperations [⟨.label, some (.label "start"), .nowhere⟩,
    ⟨.push, some (.number Int64.minValue), .nowhere⟩, ⟨.cast, some (.type "Money"), .nowhere⟩,
    ⟨.jump, some (.label "start"), .nowhere⟩]

theorem read_print_renames_extremes :
    (∀ op ∈ extremes.operations, op.WellKinded) ∧
    ∃ ρ : Renaming, (read .nospace (print .nospace extremes)).operations.map Operation.content =
      extremes.operations.map (fun op => (op.rename ρ).content) := by
  have hkinds : ∀ op ∈ extremes.operations, op.WellKinded := by decide
  obtain ⟨-, -, ρ, hoperations, -, -⟩ := read_print_renames .nospace extremes hkinds (Or.inl rfl)
  exact ⟨hkinds, ρ, hoperations⟩

end Spelled

end ZeroWidth
