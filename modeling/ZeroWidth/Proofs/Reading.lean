import Mathlib.Data.List.Forall2
import ZeroWidth.Proofs.Naming

/-!
# Reading a spelled program

Each item that the scanner finds becomes an operation, apart from what it rejects and from numbers
that do not fit. An operation says what its phrase spells in the vocabulary that is there in the
end. So a text is read without faults exactly if its symbols are made of phrases whose numbers fit,
and then it is read as these.
-/

namespace ZeroWidth

lemma exists_mem_of_forall₂_left {α β : Type} {R : α → β → Prop} {as : List α} {bs : List β}
    (h : List.Forall₂ R as bs) {a : α} (ha : a ∈ as) : ∃ b ∈ bs, R a b := by
  induction h with
  | nil => cases ha
  | cons hab _ ih =>
    rcases List.mem_cons.mp ha with rfl | ha
    · exact ⟨_, List.mem_cons_self, hab⟩
    · obtain ⟨b, hb, hab⟩ := ih ha
      exact ⟨b, List.mem_cons_of_mem _ hb, hab⟩

namespace Spelled

variable {v v' : Vocabulary} {item : Item} {p : Phrase}

/-- What a phrase says, given what the codes of labels and types stand for. -/
inductive Phrase.Says (label : List Symbol → Label → Prop) (type : List Symbol → TypeName → Prop) :
    Phrase → Instruction × Option Argument → Prop
  | plain {i : Instruction} (hi : i.argKind = .nothing) : Says label type ⟨i, none⟩ (i, none)
  | number {i : Instruction} {digits : List Symbol} {n : Int64} (hi : i.argKind = .number)
      (hn : n.toInt = Binary.denoted digits) :
      Says label type ⟨i, some digits⟩ (i, some (.number n))
  | label {i : Instruction} {digits : List Symbol} {name : Label} (hi : i.argKind = .label)
      (hname : label digits name) : Says label type ⟨i, some digits⟩ (i, some (.label name))
  | type {i : Instruction} {digits : List Symbol} {name : TypeName} (hi : i.argKind = .type)
      (hname : type digits name) : Says label type ⟨i, some digits⟩ (i, some (.type name))

/-- What a phrase says in a vocabulary. -/
def Phrase.SaysIn (v : Vocabulary) : Phrase → Instruction × Option Argument → Prop :=
  Says (fun digits name => (name, argumentCode digits) ∈ v.labels.pairs)
    (fun digits name => (name, argumentCode digits) ∈ v.types.pairs)

lemma Phrase.SaysIn.grows {content : Instruction × Option Argument} (h : p.SaysIn v content)
    (hv : v.Grows v') : p.SaysIn v' content := by
  cases h with
  | plain hi => exact .plain hi
  | number hi hn => exact .number hi hn
  | label hi hname => exact .label hi (hv.labels.subset hname)
  | type hi hname => exact .type hi (hv.types.subset hname)

/-- What can become of an item. -/
inductive Outcome (v : Vocabulary) : Item → Except ParseError Operation → Prop
  | ok {item : Item} {p : Phrase} {op : Operation} (hitem : item.phrase? = some p)
      (hrange : p.InRange) (hsaid : p.SaysIn v op.content) : Outcome v item (.ok op)
  | error {item : Item} {e : ParseError} (hlabels : e.fault.isAboutLabels = false)
      (hrange : ∀ p, item.phrase? = some p → ¬ p.InRange) : Outcome v item (.error e)

lemma Outcome.grows {result : Except ParseError Operation} (h : Outcome v item result)
    (hv : v.Grows v') : Outcome v' item result := by
  cases h with
  | ok hitem hrange hsaid => exact .ok hitem hrange (hsaid.grows hv)
  | error hlabels hrange => exact .error hlabels hrange

lemma inRange_number {i : Instruction} {digits : List Symbol} (hi : i.argKind = .number) :
    (⟨i, some digits⟩ : Phrase).InRange ↔ (toWord? (Binary.denoted digits)).isSome = true := by
  rw [toWord?_isSome_iff, Int64.toInt_minValue, Int64.toInt_maxValue]
  simp only [Phrase.InRange, hi, true_implies, Option.some.injEq, forall_eq']
  omega

lemma inRange_of_ne {i : Instruction} {argument : Option (List Symbol)} (hi : i.argKind ≠ .number) :
    (⟨i, argument⟩ : Phrase).InRange := fun h => absurd h hi

/-- Reading an item keeps the vocabulary in order and says what becomes of the item. -/
lemma outcome_readItem (hv : v.WellFormed) (hitem : item.Sound) :
    v.Grows (readItem v item).2 ∧ (readItem v item).2.WellFormed ∧
      Outcome (readItem v item).2 item (readItem v item).1 := by
  cases item with
  | reject e => exact ⟨.refl v, hv, .error hitem (by simp [Item.phrase?])⟩
  | plain i span =>
    cases hitem with
    | plain hi =>
      have hkind : i.argKind = .nothing := by simpa [Instruction.takesArgument] using hi
      exact ⟨.refl v, hv, .ok rfl (inRange_of_ne (by simp [hkind])) (.plain hkind)⟩
  | applied i digits span =>
    cases hitem with
    | applied hi hne hdigits =>
      have hcode : Vocabulary.IsCode (argumentCode digits) := ⟨digits, hne, hdigits, rfl⟩
      have hletters : (argumentCode digits).toList = (digits ++ [Symbol.n]).map Symbol.letter :=
        Symbol.toList_letters _
      cases hkind : i.argKind with
      | nothing => simp [Instruction.takesArgument, hkind] at hi
      | number =>
        cases hword : toWord? (Binary.denoted digits) with
        | none =>
          have hread : readItem v (.applied i digits span) =
              (.error ⟨.numberOutOfRange i, span⟩, v) := by
            simp only [readItem, readArgument, hkind, hletters, Binary.decode?_letters hne hdigits,
              hword]
          rw [hread]
          refine ⟨.refl v, hv, .error rfl fun p hp => ?_⟩
          cases hp
          simp [inRange_number hkind, hword]
        | some n =>
          have hread : readItem v (.applied i digits span) =
              (.ok ⟨i, some (.number n), span⟩, v) := by
            simp only [readItem, readArgument, hkind, hletters, Binary.decode?_letters hne hdigits,
              hword]
          rw [hread]
          exact ⟨.refl v, hv, .ok rfl ((inRange_number hkind).mpr (by simp [hword]))
            (.number hkind (toWord?_eq_some_iff.mp hword))⟩
      | label =>
        have hrecords := Vocabulary.recordsLabel_labelForCode hv.labels (argumentCode digits)
        have hread : readItem v (.applied i digits span) =
            (.ok ⟨i, some (.label (v.labelForCode (argumentCode digits)).1), span⟩,
              (v.labelForCode (argumentCode digits)).2) := by
          simp only [readItem, readArgument, hkind]
        rw [hread]
        exact ⟨hrecords.grows, hrecords.wellFormed hv hcode,
          .ok rfl (inRange_of_ne (by simp [hkind])) (.label hkind hrecords.labels.mem)⟩
      | type =>
        have hrecords := Vocabulary.recordsType_typeForCode hv.types (argumentCode digits)
        have hread : readItem v (.applied i digits span) =
            (.ok ⟨i, some (.type (v.typeForCode (argumentCode digits)).1), span⟩,
              (v.typeForCode (argumentCode digits)).2) := by
          simp only [readItem, readArgument, hkind]
        rw [hread]
        exact ⟨hrecords.grows, hrecords.wellFormed hv hcode,
          .ok rfl (inRange_of_ne (by simp [hkind])) (.type hkind hrecords.types.mem)⟩

/-- What becomes of all items, in the vocabulary that is there in the end. -/
lemma outcome_readItems {items : List Item} (hv : v.WellFormed)
    (hitems : ∀ item ∈ items, item.Sound) :
    v.Grows (readItems v items).2 ∧ (readItems v items).2.WellFormed ∧
      List.Forall₂ (Outcome (readItems v items).2) items (readItems v items).1 := by
  induction items generalizing v with
  | nil => exact ⟨.refl v, hv, .nil⟩
  | cons item items ih =>
    obtain ⟨hgrows, hwell, houtcome⟩ := outcome_readItem hv (hitems item List.mem_cons_self)
    obtain ⟨hgrows', hwell', houtcomes⟩ :=
      ih hwell fun item hitem => hitems item (List.mem_cons_of_mem _ hitem)
    exact ⟨hgrows.trans hgrows', hwell', .cons (houtcome.grows hgrows') houtcomes⟩

end Spelled

/-! ### Faults of labels -/

lemma isAboutLabels_of_mem_redefinitions {seen : List Label} {ops : List Operation} {e : ParseError}
    (he : e ∈ redefinitions seen ops) : e.fault.isAboutLabels = true := by
  induction ops generalizing seen with
  | nil => simp [redefinitions] at he
  | cons op ops ih =>
    simp only [redefinitions] at he
    split at he
    · exact ih he
    · split at he
      · rcases List.mem_cons.mp he with rfl | he
        · rfl
        · exact ih he
      · exact ih he

lemma isAboutLabels_of_mem_labelErrors {ops : List Operation} {e : ParseError}
    (he : e ∈ labelErrors ops) : e.fault.isAboutLabels = true := by
  rcases List.mem_append.mp he with he | he
  · exact isAboutLabels_of_mem_redefinitions he
  · obtain ⟨op, -, hop⟩ := List.mem_filterMap.mp he
    split at hop
    · cases hop
    · split at hop
      · cases hop
      · cases hop
        rfl

namespace Spelled

/-! ### Whole programs -/

variable {d : Dialect} {source : String} {phrases : List Phrase}

/-- The results that a program is put together from. -/
def results (d : Dialect) (source : String) : List (Except ParseError Operation) :=
  (readItems Vocabulary.initial (items d source.toList)).1

lemma operations_read (d : Dialect) (source : String) :
    (read d source).operations = (results d source).filterMap operation? := rfl

lemma errors_read (d : Dialect) (source : String) :
    (read d source).errors =
      (results d source).filterMap error? ++ labelErrors (read d source).operations := rfl

lemma sound_of_mem_items {text : List Char} {item : Item} (hitem : item ∈ items d text) :
    item.Sound := sound_of_mem_scan Mode.valid_idle hitem

lemma wellFormed_read (d : Dialect) (source : String) : (read d source).vocabulary.WellFormed :=
  (outcome_readItems Vocabulary.wellFormed_initial fun _ => sound_of_mem_items).2.1

lemma outcomes_read (d : Dialect) (source : String) :
    List.Forall₂ (Outcome (read d source).vocabulary) (items d source.toList) (results d source) :=
  (outcome_readItems Vocabulary.wellFormed_initial fun _ => sound_of_mem_items).2.2

lemma parses_iff {w : List Symbol} {text : List Char} (hw : d.symbols text = w) :
    Parses phrases w ↔
      (items d text).map Item.phrase? = phrases.map some ∧ ∀ p ∈ phrases, p.InRange := by
  subst hw
  rw [map_phrase?_items_iff]
  exact ⟨fun h => ⟨⟨h.shaped, h.symbols⟩, h.inRange⟩, fun h => ⟨h.1.1, h.2, h.1.2⟩⟩

/-- The decomposition into phrases is unique. -/
lemma Parses.unique {others : List Phrase} {text : List Char}
    (h : Parses phrases (d.symbols text)) (h' : Parses others (d.symbols text)) :
    others = phrases := by
  have heq := ((parses_iff rfl).mp h').1.symm.trans ((parses_iff rfl).mp h).1
  exact (Option.some_injective _).list_map heq

/-- A text made of phrases is read as these, and nothing but its labels can be at fault. -/
lemma says_of_outcomes {found : List Item} {results : List (Except ParseError Operation)}
    (houtcomes : List.Forall₂ (Outcome v) found results)
    (hfound : found.map Item.phrase? = phrases.map some) (hrange : ∀ p ∈ phrases, p.InRange) :
    List.Forall₂ (Phrase.SaysIn v) phrases
        ((results.filterMap operation?).map Operation.content) ∧
      results.filterMap error? = [] := by
  induction houtcomes generalizing phrases with
  | nil =>
    obtain rfl : phrases = [] := by simpa using hfound.symm
    exact ⟨.nil, rfl⟩
  | cons houtcome houtcomes ih =>
    obtain ⟨p, phrases, rfl, hp, hfound'⟩ := List.map_eq_cons_iff.mp hfound.symm
    have hrest := ih hfound'.symm fun q hq => hrange q (List.mem_cons_of_mem _ hq)
    cases houtcome with
    | ok hitem _ hsaid =>
      obtain rfl := Option.some.inj (hp.trans hitem)
      exact ⟨.cons hsaid hrest.1, hrest.2⟩
    | error _ hout => exact absurd (hrange p List.mem_cons_self) (hout p hp.symm)

lemma says_read (h : Parses phrases (d.symbols source.toList)) :
    List.Forall₂ (Phrase.SaysIn (read d source).vocabulary) phrases
        ((read d source).operations.map Operation.content) ∧
      (read d source).errors = labelErrors (read d source).operations := by
  obtain ⟨hfound, hrange⟩ := (parses_iff rfl).mp h
  obtain ⟨hsaid, herrors⟩ := says_of_outcomes (outcomes_read d source) hfound hrange
  exact ⟨hsaid, by rw [errors_read, herrors, List.nil_append]⟩

/-- Items none of which is at fault are phrases. -/
lemma exists_phrases_of_outcomes {found : List Item} {results : List (Except ParseError Operation)}
    (houtcomes : List.Forall₂ (Outcome v) found results)
    (hlabels : ∀ e ∈ results.filterMap error?, e.fault.isAboutLabels = true) :
    ∃ phrases : List Phrase, found.map Item.phrase? = phrases.map some ∧
      ∀ p ∈ phrases, p.InRange := by
  induction houtcomes with
  | nil => exact ⟨[], rfl, by simp⟩
  | cons houtcome houtcomes ih =>
    cases houtcome with
    | ok hitem hrange _ =>
      obtain ⟨phrases, hfound, hranges⟩ := ih hlabels
      exact ⟨_ :: phrases, by simp [hitem, hfound], List.forall_mem_cons.mpr ⟨hrange, hranges⟩⟩
    | error hfault _ =>
      have := hlabels _ List.mem_cons_self
      simp [hfault] at this

lemma exists_parses_of_errors (h : ∀ e ∈ (read d source).errors, e.fault.isAboutLabels = true) :
    ∃ phrases, Parses phrases (d.symbols source.toList) := by
  obtain ⟨phrases, hfound, hrange⟩ := exists_phrases_of_outcomes (outcomes_read d source)
    fun e he => h e (List.mem_append_left _ he)
  exact ⟨phrases, (parses_iff rfl).mpr ⟨hfound, hrange⟩⟩

/-! ### The codes of a program -/

/-- The codes that phrases spell labels or types with. -/
def codesOf (kind : ArgKind) (phrases : List Phrase) : Set (List Symbol) :=
  {digits | ∃ p ∈ phrases, p.instruction.argKind = kind ∧ p.argument = some digits}

lemma argumentCode_injective : Function.Injective argumentCode := by
  intro a b h
  exact List.append_cancel_right (Symbol.letters_injective h)

/-- The left side that a code stands for in a table. -/
def nameIn (b : Bijection String Code) (digits : List Symbol) : String :=
  (b.back? (argumentCode digits)).getD ""

lemma nameIn_eq {b : Bijection String Code} (hb : b.Mirrored) {digits : List Symbol} {name : String}
    (h : (name, argumentCode digits) ∈ b.pairs) : nameIn b digits = name := by
  rw [nameIn, hb.back?_eq_some_iff.mpr h, Option.getD_some]

lemma nameIn_injOn {b : Bijection String Code} (hb : b.Mirrored) {codes : Set (List Symbol)}
    (hcodes : ∀ digits ∈ codes, ∃ name, (name, argumentCode digits) ∈ b.pairs) :
    Set.InjOn (nameIn b) codes := by
  intro digits hdigits digits' hdigits' heq
  obtain ⟨name, hname⟩ := hcodes digits hdigits
  obtain ⟨name', hname'⟩ := hcodes digits' hdigits'
  rw [nameIn_eq hb hname, nameIn_eq hb hname'] at heq
  subst heq
  exact argumentCode_injective (Bijection.left_inj hname hname')

/-- The table that the names of a kind of argument are in. -/
def tableOf (v : Vocabulary) : ArgKind → Bijection String Code
  | .label => v.labels
  | _      => v.types

lemma exists_name_of_saysIn {contents : List (Instruction × Option Argument)} {kind : ArgKind}
    (hkind : kind = .label ∨ kind = .type)
    (hsaid : List.Forall₂ (Phrase.SaysIn v) phrases contents) {digits : List Symbol}
    (hdigits : digits ∈ codesOf kind phrases) :
    ∃ name, (name, argumentCode digits) ∈ (tableOf v kind).pairs := by
  obtain ⟨p, hp, rfl, hargument⟩ := hdigits
  obtain ⟨content, -, hcontent⟩ := exists_mem_of_forall₂_left hsaid hp
  cases hcontent with
  | label hi hname | type hi hname =>
    cases hargument
    exact ⟨_, by simpa [tableOf, hi] using hname⟩
  | plain hi | number hi => simp [hi] at hkind

/-- The reader accepts exactly its grammar: a text has no fault but in its labels if and only if its
symbols are phrases whose numbers are words. They are so in one way, and the operations are these
phrases in their order, with equal codes of labels or types, and only those, sharing a name. -/
theorem read_accepts_grammar (d : Dialect) (source : String) :
    ((∀ e ∈ (read d source).errors, e.fault.isAboutLabels = true) ↔
      ∃ phrases, Parses phrases (d.symbols source.toList)) ∧
    ∀ phrases, Parses phrases (d.symbols source.toList) →
      (∀ others, Parses others (d.symbols source.toList) → others = phrases) ∧
      ∃ (label : List Symbol → Label) (type : List Symbol → TypeName),
        Set.InjOn label (codesOf .label phrases) ∧ Set.InjOn type (codesOf .type phrases) ∧
        List.Forall₂ (Phrase.Says (fun digits name => label digits = name)
            fun digits name => type digits = name)
          phrases ((read d source).operations.map Operation.content) := by
  refine ⟨⟨exists_parses_of_errors, ?_⟩, fun phrases h => ⟨fun others h' => h.unique h', ?_⟩⟩
  · rintro ⟨phrases, h⟩ e he
    rw [(says_read h).2] at he
    exact isAboutLabels_of_mem_labelErrors he
  · have hv := wellFormed_read d source
    have hsaid := (says_read h).1
    refine ⟨nameIn (read d source).vocabulary.labels, nameIn (read d source).vocabulary.types,
      nameIn_injOn hv.labels ?_, nameIn_injOn hv.types ?_, hsaid.imp ?_⟩
    · exact fun digits hdigits => exists_name_of_saysIn (.inl rfl) hsaid hdigits
    · exact fun digits hdigits => exists_name_of_saysIn (.inr rfl) hsaid hdigits
    · intro p content hcontent
      cases hcontent with
      | plain hi => exact .plain hi
      | number hi hn => exact .number hi hn
      | label hi hname => exact .label hi (nameIn_eq hv.labels hname)
      | type hi hname => exact .type hi (nameIn_eq hv.types hname)

/-- A label, a number and a jump in blanks, with a comment in the middle of the number. -/
def commentedLoop : String := "\n  \t\n  \t:\t\n\n \n\t\n"

def commentedLoopPhrases : List Phrase :=
  [⟨.label, some [.t]⟩, ⟨.push, some [.t, .t]⟩, ⟨.jump, some [.t]⟩]

lemma parses_commentedLoop :
    Parses commentedLoopPhrases (Dialect.whitespace.symbols commentedLoop.toList) where
  shaped  := by
    simp only [commentedLoopPhrases, List.forall_mem_cons]
    exact ⟨.applied rfl (by simp) rfl, .applied rfl (by simp) rfl, .applied rfl (by simp) rfl,
      by simp⟩
  inRange := by
    simp only [commentedLoopPhrases, List.forall_mem_cons]
    exact ⟨inRange_of_ne (by decide), (inRange_number rfl).mpr (by decide),
      inRange_of_ne (by decide), by simp⟩
  symbols := by decide

theorem read_accepts_commentedLoop :
    Parses commentedLoopPhrases (Dialect.whitespace.symbols commentedLoop.toList) ∧
    (∀ e ∈ (read .whitespace commentedLoop).errors, e.fault.isAboutLabels = true) ∧
    ∃ (label : List Symbol → Label) (type : List Symbol → TypeName),
      List.Forall₂ (Phrase.Says (fun digits name => label digits = name)
          fun digits name => type digits = name)
        commentedLoopPhrases
        ((read .whitespace commentedLoop).operations.map Operation.content) := by
  obtain ⟨haccepts, hsaid⟩ := read_accepts_grammar .whitespace commentedLoop
  obtain ⟨-, label, type, -, -, hoperations⟩ := hsaid _ parses_commentedLoop
  exact ⟨parses_commentedLoop, haccepts.mpr ⟨_, parses_commentedLoop⟩, label, type, hoperations⟩

end Spelled

end ZeroWidth
