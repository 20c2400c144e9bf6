import ZeroWidth.Build.Basic
import ZeroWidth.Proofs.FirstOccurrence
import ZeroWidth.Proofs.Respelling

/-!
# Conversion

A program that is printed on a surface and read there again comes back renamed, without what the
surface has no room for, and with no fault if its labels had none. One such trip settles its names:
assembly text keeps the names it is given, a reader of symbols gives them by order of first
occurrence, and a spelling gives back the codes it was read with.
-/

namespace ZeroWidth

/-! ### Dialects as surfaces -/

def Dialect.surface : Dialect → Surface
  | nospace    => .nospace
  | whitespace => .whitespace

@[simp]
lemma Dialect.read_surface (d : Dialect) (source : String) :
    d.surface.read source = Spelled.read d source := by
  cases d <;> rfl

@[simp]
lemma Dialect.print_surface (d : Dialect) (p : Program) :
    d.surface.print p = Spelled.print d p := by
  cases d <;> rfl

namespace Surface

lemma eq_nossembly_or_exists (surface : Surface) :
    surface = nossembly ∨ ∃ d : Dialect, surface = d.surface := by
  cases surface with
  | nossembly => exact Or.inl rfl
  | nospace => exact Or.inr ⟨.nospace, rfl⟩
  | whitespace => exact Or.inr ⟨.whitespace, rfl⟩

/-- The operations that a surface has room for. -/
def spoken (surface : Surface) (ops : List Operation) : List Operation :=
  if surface = whitespace then Spelled.effective ops else ops

/-- The program after a trip over a surface. -/
def trip (surface : Surface) (p : Program) : Program := surface.read (surface.print p)

end Surface

@[simp]
lemma Dialect.spoken_surface (d : Dialect) (ops : List Operation) :
    d.surface.spoken ops = Spelled.spoken d ops := by
  cases d <;> rfl

@[simp]
lemma Dialect.trip_surface (d : Dialect) (p : Program) :
    d.surface.trip p = Spelled.read d (Spelled.print d p) := by
  rw [Surface.trip, read_surface, print_surface]

/-! ### What readers can say -/

namespace Spelled

variable {v : Vocabulary} {d d' : Dialect} {source : String} {ops ops' : List Operation}
  {op : Operation}

lemma isWordChar_of_mem_letters {n : Nat} {c : Char} (hc : c ∈ Alphabetic.letters n) :
    Assembly.isWordChar c = true := by
  have hdigits : ∀ k < 26, Assembly.isWordChar (Alphabetic.digit k) = true := by decide
  obtain ⟨k, hk, rfl⟩ := Alphabetic.exists_digit_of_mem hc
  exact hdigits k hk

lemma isName_of_mem_labels (h : Invented v) {name : Label} (hname : name ∈ v.labels.names) :
    Assembly.IsName name.toList := by
  rw [h.labels] at hname
  obtain ⟨n, -, rfl⟩ := List.mem_map.mp hname
  rw [Alphabetic.text, String.toList_ofList]
  exact .word (Alphabetic.letters_ne_nil n) fun c hc => isWordChar_of_mem_letters hc

lemma isName_of_mem_types (h : Invented v) {name : TypeName} (hname : name ∈ v.types.names) :
    Assembly.IsName name.toList := by
  rw [h.types, List.mem_append] at hname
  rcases hname with hname | hname
  · have hbuiltin : ∀ name ∈ Vocabulary.builtinNames,
        name.toList ≠ [] ∧ name.toList.all Assembly.isWordChar = true := by decide
    exact .word (hbuiltin name hname).1 (List.all_eq_true.mp (hbuiltin name hname).2)
  · obtain ⟨n, -, rfl⟩ := List.mem_map.mp hname
    have hchars : "Type".toList.all Assembly.isWordChar = true := by decide
    have htext : ("Type" ++ Alphabetic.text n).toList = "Type".toList ++ Alphabetic.letters n := by
      simp [Alphabetic.text]
    rw [htext]
    refine .word (by simp) (List.forall_mem_append.mpr ⟨List.all_eq_true.mp hchars, ?_⟩)
    exact fun c hc => isWordChar_of_mem_letters hc

lemma sayable_of_saysIn {p : Phrase} (hv : Invented v) (h : p.SaysIn v op.content) :
    Assembly.Sayable op := by
  obtain ⟨i, argument, span⟩ := op
  cases h with
  | plain hi => exact ⟨hi.symm, by simp⟩
  | number hi hn => exact ⟨hi.symm, by simpa [Argument.text] using Assembly.isName_text _⟩
  | label hi hname =>
    have hname := isName_of_mem_labels hv (List.mem_map_of_mem hname)
    exact ⟨hi.symm, by simpa [Argument.text] using hname⟩
  | type hi hname =>
    have hname := isName_of_mem_types hv (List.mem_map_of_mem hname)
    exact ⟨hi.symm, by simpa [Argument.text] using hname⟩

lemma exists_of_mem_operations (hop : op ∈ (read d source).operations) :
    ∃ p : Phrase, p.SaysIn (read d source).vocabulary op.content := by
  rw [operations_read] at hop
  obtain ⟨result, hresult, hop⟩ := List.mem_filterMap.mp hop
  obtain ⟨item, -, houtcome⟩ := exists_mem_of_forall₂_left (outcomes_read d source).flip hresult
  cases houtcome with
  | ok hitem hrange hsaid =>
    cases hop
    exact ⟨_, hsaid⟩
  | error => cases hop

/-! ### Room for operations -/

/-- There is nothing among the operations that the dialect has no room for. -/
def Fits (d : Dialect) (ops : List Operation) : Prop :=
  ∀ op ∈ ops, d = .nospace ∨ op.instruction.isAdvisory = false

lemma spoken_of_fits (h : Fits d ops) : spoken d ops = ops := by
  unfold spoken effective
  split
  · rfl
  · rename_i hd
    rw [List.filter_eq_self]
    intro op hop
    simpa [hd] using h op hop

lemma fits_spoken (d : Dialect) (ops : List Operation) : Fits d (spoken d ops) :=
  fun _ hop => isAdvisory_of_mem_spoken hop

lemma Fits.spoken (h : Fits d ops) (d' : Dialect) : Fits d (spoken d' ops) :=
  fun op hop => h op (mem_of_mem_spoken hop)

lemma Fits.of_rename {ρ : Renaming} (h : Fits d ops)
    (hops : SameContents ops' (ops.map (Operation.rename ρ))) : Fits d ops' := by
  intro op' hop'
  have hmem : op'.content ∈ (ops.map (Operation.rename ρ)).map Operation.content :=
    hops ▸ List.mem_map_of_mem hop'
  obtain ⟨_, hrenamed, hcontent⟩ := List.mem_map.mp hmem
  obtain ⟨op, hop, rfl⟩ := List.mem_map.mp hrenamed
  have hinstruction : op.instruction = op'.instruction := congrArg Prod.fst hcontent
  exact hinstruction ▸ h op hop

lemma read?_whitespace_ne_x (c : Char) : Dialect.whitespace.read? c ≠ some .x := by
  change Symbol.ofBlank? c ≠ some .x
  unfold Symbol.ofBlank?
  split <;> simp

lemma fits_of_parses {phrases : List Phrase} (hparses : Parses phrases (d.symbols source.toList)) :
    Fits d (read d source).operations := by
  intro op hop
  obtain ⟨p, hp, hsaid⟩ :=
    exists_mem_of_forall₂_left (says_read hparses).1.flip (List.mem_map_of_mem hop)
  have hinstruction : p.instruction = op.instruction := instruction_of_saysIn hsaid
  cases d with
  | nospace => exact Or.inl rfl
  | whitespace =>
    refine Or.inr ?_
    -- every advisory instruction is spelled with an `x`, which is read nowhere
    have hcode : Symbol.x ∉ op.instruction.code := by
      intro hx
      have hmem : Symbol.x ∈ phrases.flatMap Phrase.symbols :=
        List.mem_flatMap.mpr ⟨p, hp, List.mem_append_left _ (hinstruction ▸ hx)⟩
      rw [hparses.symbols] at hmem
      obtain ⟨c, -, hc⟩ := List.mem_filterMap.mp hmem
      exact read?_whitespace_ne_x c hc
    revert hcode
    cases op.instruction <;> decide

lemma fits_read (h : (read d source).errors = []) : Fits d (read d source).operations := by
  have hlabels : ∀ e ∈ (read d source).errors, e.fault.isAboutLabels = true := by simp [h]
  obtain ⟨phrases, hparses⟩ := exists_parses_of_errors hlabels
  exact fits_of_parses hparses

/-! ### Codes that come back -/

lemma spelling_of_saysIn {v' : Vocabulary} {op' : Operation} {p : Phrase}
    (h : p.SaysIn v op.content) (h' : p.SaysIn v' op'.content) :
    v.spelling op = v'.spelling op' := by
  obtain ⟨i, argument, span⟩ := op
  obtain ⟨i', argument', span'⟩ := op'
  cases h with
  | plain hi =>
    cases h' with
    | plain => rfl
  | number hi hn =>
    cases h' with
    | number _ hn' => rw [Int64.toInt_inj.mp (hn'.trans hn.symm)]; rfl
    | label hi' | type hi' => simp [hi] at hi'
  | label hi hname =>
    cases h' with
    | label _ hname' =>
      simp [Vocabulary.spelling, Vocabulary.code, Bijection.forth?_eq_some_iff.mpr hname,
        Bijection.forth?_eq_some_iff.mpr hname']
    | number hi' | type hi' => simp [hi] at hi'
  | type hi hname =>
    cases h' with
    | type _ hname' =>
      simp [Vocabulary.spelling, Vocabulary.code, Bijection.forth?_eq_some_iff.mpr hname,
        Bijection.forth?_eq_some_iff.mpr hname']
    | number hi' | label hi' => simp [hi] at hi'

/-- Counterparts are spelled alike, each in its own vocabulary. -/
lemma Counterparts.map_spelling {v' : Vocabulary} (h : Counterparts v v' ops ops') :
    ops.map v.spelling = ops'.map v'.spelling := by
  induction ops generalizing ops' with
  | nil =>
    have hnil : ops'.map Operation.content = [] := by simpa [Counterparts] using h
    simp [List.map_eq_nil_iff.mp hnil]
  | cons op ops ih =>
    cases ops' with
    | nil => cases h
    | cons op' ops' =>
      cases h with
      | cons hop hops =>
        obtain ⟨p, hp, hp'⟩ := hop
        rw [List.map_cons, List.map_cons, spelling_of_saysIn hp hp', ih hops]

lemma Counterparts.grows {v' v'' : Vocabulary} (h : Counterparts v v' ops ops')
    (hgrows : v'.Grows v'') : Counterparts v v'' ops ops' :=
  h.imp fun _ _ ⟨p, hp, hp'⟩ => ⟨p, hp, hp'.grows hgrows⟩

/-- What has been read from a spelling is spelled by the same letters. -/
lemma spell_read_print {p : Program} (d : Dialect) (hv : p.vocabulary.WellFormed)
    (hkinds : ∀ op ∈ p.operations, op.WellKinded) :
    spell (read d (print d p)).vocabulary (read d (print d p)).operations =
      spell p.vocabulary (spoken d p.operations) := by
  have hread := wellFormed_read d (print d p)
  have hgrows := hread.grows_foldl_learn (read d (print d p)).operations
  have hcounterparts := (counterparts_read_print d hv hkinds).1.grows hgrows
  rw [spell_eq_join hread, spell_eq_join hv, ← hcounterparts.map_spelling]
  rfl

end Spelled

/-! ### Assembly text without places -/

namespace Assembly

lemma layout_unplaced (inParagraph first : Bool) (ops : List Operation) :
    layout inParagraph first (ops.map Operation.unplaced) = layout inParagraph first ops := by
  induction ops generalizing inParagraph first with
  | nil => rfl
  | cons op ops ih =>
    rw [List.map_cons, layout, layout, ih, ih]
    rfl

lemma print_eq_of_sameContents {p q : Program} (h : SameContents p.operations q.operations) :
    print p = print q := by
  rw [print, print, h.congr (layout_unplaced false true)]

end Assembly

/-! ### Labels without annotations -/

section

variable {ops : List Operation} {op : Operation} {v v' : Vocabulary}

lemma label?_of_isAdvisory (hop : op.WellKinded) (h : op.instruction.isAdvisory = true) :
    op.label? = none := by
  have hkind : op.argKind ≠ .label := by
    rw [show op.argKind = op.instruction.argKind from hop]
    revert h
    cases op.instruction <;> decide
  rwa [← Option.not_isSome_iff_eq_none, op.isSome_label?_iff]

lemma type?_of_not_isAdvisory (hop : op.WellKinded) (h : op.instruction.isAdvisory = false) :
    op.type? = none := by
  have hkind : op.argKind ≠ .type := by
    rw [show op.argKind = op.instruction.argKind from hop]
    revert h
    cases op.instruction <;> decide
  rwa [← Option.not_isSome_iff_eq_none, op.isSome_type?_iff]

lemma filterMap_effective {α : Type} {f : Operation → Option α}
    (hf : ∀ op ∈ ops, op.instruction.isAdvisory = true → f op = none) :
    (Spelled.effective ops).filterMap f = ops.filterMap f := by
  rw [Spelled.effective, List.filterMap_filter]
  refine List.filterMap_congr fun op hop => ?_
  cases h : op.instruction.isAdvisory with
  | true => simpa using (hf op hop h).symm
  | false => rfl

/-- Annotations have no part in what is wrong with labels. -/
lemma labelErrors_effective (hops : ∀ op ∈ ops, op.WellKinded) :
    labelErrors (Spelled.effective ops) = [] ↔ labelErrors ops = [] := by
  have hdefined : definedLabels (Spelled.effective ops) = definedLabels ops := by
    refine filterMap_effective fun op hop h => ?_
    simp [Operation.definedLabel?, label?_of_isAdvisory (hops op hop) h]
  have hused : usedLabels (Spelled.effective ops) = usedLabels ops := by
    refine filterMap_effective fun op hop h => ?_
    simp [Operation.usedLabel?, label?_of_isAdvisory (hops op hop) h]
  rw [labelErrors_eq_nil_iff, labelErrors_eq_nil_iff, hdefined, hused]

/-- The codes of labels have nothing to do with types. -/
lemma codeForLabel_congr (h : v.labels = v'.labels) (name : Label) :
    (v.codeForLabel name).1 = (v'.codeForLabel name).1 ∧
      (v.codeForLabel name).2.labels = (v'.codeForLabel name).2.labels := by
  simp [Vocabulary.codeForLabel, h]

lemma labels_learn (h : v.labels = v'.labels) (op : Operation) :
    (v.learn op).labels = (v'.learn op).labels := by
  unfold Vocabulary.learn
  cases op.argument with
  | none => exact h
  | some argument =>
    cases argument with
    | number n => exact h
    | label name => exact (codeForLabel_congr h name).2
    | type name => exact h

lemma labels_learn_of_label? (hop : op.label? = none) : (v.learn op).labels = v.labels := by
  unfold Vocabulary.learn
  cases hargument : op.argument with
  | none => rfl
  | some argument =>
    cases argument with
    | number n => rfl
    | label name => simp [Operation.label?, hargument] at hop
    | type name => rfl

/-- Annotations teach no labels. -/
lemma labels_foldl_learn_effective (h : v.labels = v'.labels) (hops : ∀ op ∈ ops, op.WellKinded) :
    ((Spelled.effective ops).foldl Vocabulary.learn v).labels =
      (ops.foldl Vocabulary.learn v').labels := by
  induction ops generalizing v v' with
  | nil => exact h
  | cons op ops ih =>
    have hkinds := fun op hop => hops op (List.mem_cons_of_mem _ hop)
    unfold Spelled.effective at ih ⊢
    cases hadvisory : op.instruction.isAdvisory with
    | true =>
      have hlabel := label?_of_isAdvisory (hops op List.mem_cons_self) hadvisory
      rw [List.filter_cons_of_neg (by simp [hadvisory]), List.foldl_cons]
      exact ih (h.trans (labels_learn_of_label? hlabel).symm) hkinds
    | false =>
      rw [List.filter_cons_of_pos (by simp [hadvisory]), List.foldl_cons, List.foldl_cons]
      exact ih (labels_learn h op) hkinds

lemma spell_congr (h : v.labels = v'.labels) (hops : ∀ op ∈ ops, op.type? = none) :
    Spelled.spell v ops = Spelled.spell v' ops := by
  induction ops generalizing v v' with
  | nil => rfl
  | cons op ops ih =>
    have hrest := fun op hop => hops op (List.mem_cons_of_mem _ hop)
    cases hargument : op.argument with
    | none => simp [Spelled.spell, hargument, ih h hrest]
    | some argument =>
      cases argument with
      | number n => simp [Spelled.spell, hargument, Vocabulary.codeForArgument, ih h hrest]
      | label name =>
        obtain ⟨hcode, hlabels⟩ := codeForLabel_congr h name
        simp [Spelled.spell, hargument, Vocabulary.codeForArgument, hcode, ih hlabels hrest]
      | type name =>
        have htype := hops op List.mem_cons_self
        simp [Operation.type?, hargument] at htype

end

/-! ### Trips -/

/-- A program that every surface can print. -/
structure Program.Printable (p : Program) : Prop where
  wellFormed : p.vocabulary.WellFormed
  sayable    : ∀ op ∈ p.operations, Assembly.Sayable op

namespace Surface

variable {p : Program} {S : Surface} {d : Dialect} {source : String}

lemma printable_read (S : Surface) (source : String) : (S.read source).Printable := by
  refine ⟨S.wellFormed_read source, ?_⟩
  obtain rfl | ⟨d, rfl⟩ := S.eq_nossembly_or_exists
  · exact fun op hop => ((Assembly.saidIn_statementsOf .initial 0 _).1 op hop).1
  · rw [d.read_surface]
    intro op hop
    obtain ⟨p, hp⟩ := Spelled.exists_of_mem_operations hop
    exact Spelled.sayable_of_saysIn (Spelled.invented_read d source) hp

lemma printable_trip (S : Surface) (p : Program) : (S.trip p).Printable := S.printable_read _

lemma labelErrors_read (h : (S.read source).errors = []) :
    labelErrors (S.read source).operations = [] := by
  cases S with
  | nossembly | nospace | whitespace => exact (List.append_eq_nil_iff.mp h).2

/-- A trip over a surface renames what the surface has room for. -/
lemma exists_renaming_trip (S : Surface) (hp : p.Printable) :
    ∃ ρ : Renaming,
      SameContents (S.trip p).operations ((S.spoken p.operations).map (Operation.rename ρ)) ∧
      (S.trip p).errors = labelErrors (S.trip p).operations := by
  obtain rfl | ⟨d, rfl⟩ := S.eq_nossembly_or_exists
  · obtain ⟨hcontents, herrors⟩ := Assembly.read_print hp.sayable
    exact ⟨Renaming.refl, by rwa [map_rename_refl], herrors⟩
  · have hkinds := fun op hop => (hp.sayable op hop).wellKinded
    obtain ⟨hcounterparts, herrors⟩ := Spelled.counterparts_read_print d hp.wellFormed hkinds
    obtain ⟨ρ, hρ⟩ :=
      Renaming.exists_links (hp.wellFormed.foldl_learn _) (Spelled.wellFormed_read d _)
    refine ⟨ρ, ?_, ?_⟩
    · simpa using hcounterparts.sameContents hρ
    · simpa using herrors

/-- A trip brings no fault with it. -/
lemma errors_trip (S : Surface) (hp : p.Printable) (hlabels : labelErrors p.operations = []) :
    (S.trip p).errors = [] := by
  obtain ⟨ρ, hcontents, herrors⟩ := S.exists_renaming_trip hp
  rw [herrors, hcontents.labelErrors_eq_nil_iff, spoken]
  split
  · exact (labelErrors_effective fun op hop => (hp.sayable op hop).wellKinded).mpr hlabels
  · exact hlabels

/-! ### What a second trip prints -/

lemma fits_read (h : (d.surface.read source).errors = []) :
    Spelled.Fits d (d.surface.read source).operations := by
  rw [d.read_surface] at h ⊢
  exact Spelled.fits_read h

lemma sameContents_trip_nossembly (hp : p.Printable) :
    SameContents (nossembly.trip p).operations p.operations := (Assembly.read_print hp.sayable).1

/-- Assembly text keeps the names, and a reader of symbols gives the same ones again. -/
lemma sameContents_trip_trip (S : Surface) (h : (S.read source).errors = []) :
    SameContents (S.trip (nossembly.trip (S.read source))).operations
      (S.read source).operations := by
  have hthere := sameContents_trip_nossembly (S.printable_read source)
  have hprintable := nossembly.printable_trip (S.read source)
  obtain rfl | ⟨d, rfl⟩ := S.eq_nossembly_or_exists
  · exact (sameContents_trip_nossembly hprintable).trans hthere
  · obtain ⟨ρ, hback, -⟩ := d.surface.exists_renaming_trip hprintable
    have hfits : Spelled.Fits d (nossembly.trip (d.surface.read source)).operations :=
      (fits_read h).of_rename (by rwa [map_rename_refl])
    rw [d.spoken_surface, Spelled.spoken_of_fits hfits] at hback
    have hcontents := hback.trans (hthere.rename ρ)
    rw [d.trip_surface, d.read_surface] at hcontents ⊢
    exact Spelled.sameContents_of_rename hcontents

/-- The letters that operations have when nothing but themselves has been met before. -/
def lettersAlone (ops : List Operation) : String :=
  Spelled.spell (ops.foldl Vocabulary.learn Vocabulary.initial) ops

lemma lettersAlone_rename (ρ : Renaming) (ops : List Operation) :
    lettersAlone (ops.map (Operation.rename ρ)) = lettersAlone ops := by
  have hlearn := Vocabulary.foldl_learn_rename ρ Vocabulary.initial ops
  rw [Vocabulary.rename_initial] at hlearn
  rw [lettersAlone, hlearn, Spelled.spell_rename, lettersAlone]

lemma lettersAlone_unplaced (ops : List Operation) :
    lettersAlone (ops.map Operation.unplaced) = lettersAlone ops := by
  rw [lettersAlone, Vocabulary.foldl_learn_unplaced, Spelled.spell_unplaced, lettersAlone]

lemma lettersAlone_spoken (d : Dialect) {ops : List Operation} (hops : ∀ op ∈ ops, op.WellKinded) :
    lettersAlone (Spelled.spoken d ops) =
      Spelled.spell (ops.foldl Vocabulary.learn Vocabulary.initial) (Spelled.spoken d ops) := by
  cases d with
  | nospace => rfl
  | whitespace =>
    refine spell_congr (labels_foldl_learn_effective rfl hops) fun op hop => ?_
    have hadvisory : op.instruction.isAdvisory = false := by
      simpa using Spelled.isAdvisory_of_mem_spoken hop
    exact type?_of_not_isAdvisory (hops op (Spelled.mem_of_mem_spoken hop)) hadvisory

lemma vocabulary_trip_nossembly (p : Program) :
    (nossembly.trip p).vocabulary =
      (nossembly.trip p).operations.foldl Vocabulary.learn Vocabulary.initial :=
  Assembly.vocabulary_read _

/-- Names do not matter for symbols, so names that assembly text keeps do not either. -/
lemma spell_trip_nossembly (hp : p.Printable)
    (hlearnt : p.vocabulary = p.operations.foldl Vocabulary.learn Vocabulary.initial) :
    Spelled.spell (nossembly.trip (d.surface.trip p)).vocabulary
        (Spelled.spoken d (nossembly.trip (d.surface.trip p)).operations) =
      Spelled.spell p.vocabulary (Spelled.spoken d p.operations) := by
  obtain ⟨ρ, hthere, -⟩ := d.surface.exists_renaming_trip hp
  have hback := (sameContents_trip_nossembly (d.surface.printable_trip p)).trans hthere
  rw [d.spoken_surface] at hback
  have hfits := (Spelled.fits_spoken d p.operations).of_rename hback
  calc Spelled.spell (nossembly.trip (d.surface.trip p)).vocabulary
        (Spelled.spoken d (nossembly.trip (d.surface.trip p)).operations)
      = lettersAlone (nossembly.trip (d.surface.trip p)).operations := by
        rw [Spelled.spoken_of_fits hfits, vocabulary_trip_nossembly]
        rfl
    _ = lettersAlone ((Spelled.spoken d p.operations).map (Operation.rename ρ)) :=
        SameContents.congr hback lettersAlone_unplaced
    _ = lettersAlone (Spelled.spoken d p.operations) := lettersAlone_rename ρ _
    _ = Spelled.spell p.vocabulary (Spelled.spoken d p.operations) := by
        rw [lettersAlone_spoken d fun op hop => (hp.sayable op hop).wellKinded, hlearnt]

lemma spell_trip (d : Dialect) (hp : p.Printable) :
    Spelled.spell (d.surface.trip p).vocabulary (d.surface.trip p).operations =
      Spelled.spell p.vocabulary (Spelled.spoken d p.operations) := by
  rw [d.trip_surface]
  exact Spelled.spell_read_print d hp.wellFormed fun op hop => (hp.sayable op hop).wellKinded

/-- Codes come back from every spelling, so they do from two of them. -/
lemma spell_trip_trip {d' : Dialect} (hp : p.Printable) (hfits : Spelled.Fits d' p.operations) :
    Spelled.spell (d'.surface.trip (d.surface.trip p)).vocabulary
        (Spelled.spoken d (d'.surface.trip (d.surface.trip p)).operations) =
      Spelled.spell p.vocabulary (Spelled.spoken d p.operations) := by
  have hprintable := d.surface.printable_trip p
  obtain ⟨ρ, hthere, -⟩ := d.surface.exists_renaming_trip hp
  rw [d.spoken_surface] at hthere
  have hthereFits' : Spelled.Fits d' (d.surface.trip p).operations :=
    (hfits.spoken d).of_rename hthere
  obtain ⟨ρ', hback, -⟩ := d'.surface.exists_renaming_trip hprintable
  rw [d'.spoken_surface, Spelled.spoken_of_fits hthereFits'] at hback
  have hbackFits : Spelled.Fits d (d'.surface.trip (d.surface.trip p)).operations :=
    ((Spelled.fits_spoken d p.operations).of_rename hthere).of_rename hback
  rw [Spelled.spoken_of_fits hbackFits, spell_trip d' hprintable,
    Spelled.spoken_of_fits hthereFits', spell_trip d hp]

/-- Printing after a trip there and back gives the text that the trip went over. -/
lemma print_trip_trip (S T : Surface) (h : (S.read source).errors = []) :
    T.print (S.trip (T.trip (S.read source))) = T.print (S.read source) := by
  have hprintable := S.printable_read source
  obtain rfl | ⟨d, rfl⟩ := T.eq_nossembly_or_exists
  · exact Assembly.print_eq_of_sameContents (S.sameContents_trip_trip h)
  · rw [d.print_surface, d.print_surface, Spelled.print_eq, Spelled.print_eq]
    obtain rfl | ⟨d', rfl⟩ := S.eq_nossembly_or_exists
    · rw [spell_trip_nossembly hprintable (Assembly.vocabulary_read source)]
    · rw [spell_trip_trip hprintable (fits_read h)]

end Surface

lemma convert_of_errors {S : Surface} {source : String} (h : (S.read source).errors = [])
    (T : Surface) : convert S source T = .ok (T.print (S.read source)) := by
  simp [convert, Program.isOk, h]

/-- Names settle after one trip: a text without faults can be converted to any surface, back, and
there again, and the second conversion there gives the text that the first one gave. -/
theorem convert_settles (S T : Surface) (x : String) (hx : (S.read x).errors = []) :
    ∃ y z, convert S x T = .ok y ∧ convert T y S = .ok z ∧ convert S z T = .ok y := by
  have hp := S.printable_read x
  have hthere : (T.trip (S.read x)).errors = [] := T.errors_trip hp (Surface.labelErrors_read hx)
  have hback : (S.trip (T.trip (S.read x))).errors = [] :=
    S.errors_trip (T.printable_trip _) (Surface.labelErrors_read hthere)
  refine ⟨T.print (S.read x), S.print (T.trip (S.read x)), convert_of_errors hx T,
    convert_of_errors hthere S, ?_⟩
  rw [convert_of_errors hback T]
  exact congrArg Except.ok (S.print_trip_trip T hx)

/-- An endless loop in assembly text, with a comment and an annotation. -/
def annotatedLoop : String := "Label loop # forever\n Push -1\n Cast Foo\n Pop\n Jump loop"

/-- The loop without its annotation, in blanks. -/
def blankLoop : String := "\n    \n  \t\t\n \n\n\n \n  \n"

theorem annotatedLoop_settles :
    (Surface.nossembly.read annotatedLoop).errors = [] ∧
      convert .nossembly annotatedLoop .whitespace = .ok blankLoop ∧
      convert .whitespace blankLoop .nossembly = .ok "Label A\n Push -1\n Pop\n Jump A\n" ∧
      convert .nossembly "Label A\n Push -1\n Pop\n Jump A\n" .whitespace = .ok blankLoop := by
  have hread : (Surface.nossembly.read annotatedLoop).errors = [] := by decide +kernel
  have hthere : (convert .nossembly annotatedLoop .whitespace).toOption = some blankLoop := by
    decide +kernel
  have hback : (convert .whitespace blankLoop .nossembly).toOption =
      some "Label A\n Push -1\n Pop\n Jump A\n" := by decide +kernel
  obtain ⟨y, z, hy, hz, hagain⟩ := convert_settles .nossembly .whitespace annotatedLoop hread
  rw [hy] at hthere
  obtain rfl := Option.some.inj hthere
  rw [hz] at hback
  obtain rfl := Option.some.inj hback
  exact ⟨hread, hy, hz, hagain⟩

/-! ### Assembly text printed and read again -/

/-- Whatever has been read, with faults or without, can be printed as assembly text and read again:
the operations say the same, nothing but their labels is found fault with, and printing once more
gives the same text. Assembly text brings its tables back as well, pair by pair. -/
theorem Assembly.read_print_read (S : Surface) (x : String) :
    SameContents (read (print (S.read x))).operations (S.read x).operations ∧
    (read (print (S.read x))).errors = labelErrors (read (print (S.read x))).operations ∧
    (read (print (S.read x))).errors.map ParseError.fault =
      (labelErrors (S.read x).operations).map ParseError.fault ∧
    (S = .nossembly → (read (print (S.read x))).vocabulary = (S.read x).vocabulary) ∧
    print (read (print (S.read x))) = print (S.read x) := by
  obtain ⟨hcontents, herrors⟩ := read_print (S.printable_read x).sayable
  refine ⟨hcontents, herrors, ?_, ?_, print_eq_of_sameContents hcontents⟩
  · rw [herrors]
    exact hcontents.congr (f := fun ops => (labelErrors ops).map ParseError.fault)
      fault_labelErrors_unplaced
  · rintro rfl
    rw [Surface.read, vocabulary_read, vocabulary_read]
    exact hcontents.congr (f := fun ops => ops.foldl Vocabulary.learn Vocabulary.initial)
      (Vocabulary.foldl_learn_unplaced Vocabulary.initial)

/-- Names shaped like pragmas, an odd spelling of a number, labels gone wrong and an argument that
is missing. -/
def faulty : String :=
  "#define a b\nPush +5 # five\nLabel #x\nLabel #x\n Cast #if\n Jump gone\n Push"

theorem faulty_read_print_read :
    Surface.nossembly = .nossembly ∧
    (Assembly.read faulty).errors.map ParseError.fault =
      [.missingArgument .push, .duplicatedLabel "#x", .undefinedLabel "gone"] ∧
    Assembly.print (Assembly.read faulty) =
      "Push 5\n\nLabel #x\n\nLabel #x\n Cast #if\n Jump gone\n" ∧
    (Assembly.read (Assembly.print (Assembly.read faulty))).errors.map ParseError.fault =
      (labelErrors (Assembly.read faulty).operations).map ParseError.fault ∧
    (Assembly.read (Assembly.print (Assembly.read faulty))).vocabulary =
      (Assembly.read faulty).vocabulary :=
  have hagain := Assembly.read_print_read .nossembly faulty
  ⟨rfl, by decide +kernel, by decide +kernel, hagain.2.2.1, hagain.2.2.2.1 rfl⟩

end ZeroWidth
