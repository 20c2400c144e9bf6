import ZeroWidth.Proofs.Naming

/-!
# Tables over whole runs

Whatever a vocabulary is asked, by name or by code, and whatever pairs are offered to it on the
way, its two tables stay bijections: the map from names to codes and the one from codes to names
that a table keeps are inverse to each other and list the same pairs in the same order. Pairs are
only ever put at the end, one for a request at most.
-/

namespace ZeroWidth

/-! ### Searches -/

/-- Of the candidates from `start` on, the first that is not taken, if so many tries get to it. -/
def FoundWithin {α : Type} (taken : α → Bool) (candidate : Nat → α) (start tries : Nat)
    (found : α) : Prop :=
  ∃ k < tries, found = candidate (start + k) ∧ taken found = false ∧
    ∀ j < k, taken (candidate (start + j)) = true

lemma foundWithin_firstFree {α : Type} {taken : α → Bool} {candidate : Nat → α} {tries start : Nat}
    (hfree : taken (firstFree taken candidate tries start) = false) :
    FoundWithin taken candidate start (tries + 1) (firstFree taken candidate tries start) := by
  induction tries generalizing start with
  | zero => exact ⟨0, Nat.zero_lt_one, rfl, hfree, by simp⟩
  | succ tries ih =>
    rw [firstFree] at hfree ⊢
    split
    · rename_i htaken
      rw [if_pos htaken] at hfree
      obtain ⟨k, hk, hfound, hfree, hbefore⟩ := ih hfree
      refine ⟨k + 1, by omega, by rw [hfound, Nat.add_right_comm]; rfl, hfree, fun j hj => ?_⟩
      cases j with
      | zero => exact htaken
      | succ j =>
        rw [← Nat.add_assoc, Nat.add_right_comm]
        exact hbefore j (by omega)
    · rename_i htaken
      exact ⟨0, by omega, rfl, Bool.eq_false_iff.mpr htaken, by simp⟩

namespace Bijection

variable {α β : Type} [DecidableEq α] [DecidableEq β] {b b' : Bijection α β} {p : α} {q : β}
  {left : Nat → α} {right : Nat → β}

/-- The two maps of a table list the same pairs in the same order, each of them answers what it
lists, and they are inverse to each other. -/
structure TwoWay (b : Bijection α β) : Prop where
  order   : b.backward.entries = b.forward.entries.map Prod.swap
  forth   : ∀ p q, b.forth? p = some q ↔ (p, q) ∈ b.forward.entries
  back    : ∀ p q, b.back? q = some p ↔ (q, p) ∈ b.backward.entries
  inverse : ∀ p q, b.forth? p = some q ↔ b.back? q = some p

lemma Mirrored.twoWay (hb : b.Mirrored) : b.TwoWay where
  order   := hb
  forth   := fun _ _ => forth?_eq_some_iff
  back    := fun _ _ => OrderedMap.get?_eq_some_iff
  inverse := fun _ _ => by rw [forth?_eq_some_iff, hb.back?_eq_some_iff]

/-- The left side that a table gives for a right side: the partner it has afterwards, which is the
first candidate that is free if it had none before. -/
def AnswersLeft (b b' : Bijection α β) (candidate : Nat → α) (start : Nat) (q : β) (p : α) : Prop :=
  b'.back? q = some p ∧ (b.back? q = none →
    FoundWithin (fun p => (b.forth? p).isSome) candidate start (b.size + 1) p)

/-- The right side that a table gives for a left side. -/
def AnswersRight (b b' : Bijection α β) (candidate : Nat → β) (start : Nat) (p : α) (q : β) :
    Prop :=
  b'.forth? p = some q ∧ (b.forth? p = none →
    FoundWithin (fun q => (b.back? q).isSome) candidate start (b.size + 1) q)

/-- What a table does with a pair that is offered to it: it refuses the pair if it has one of the
sides, and takes it in at the end otherwise. -/
def Offered (b b' : Bijection α β) (p : α) (q : β) (accepted : Bool) : Prop :=
  if (b.forth? p).isSome ∨ (b.back? q).isSome then accepted = false ∧ b' = b
  else accepted = true ∧ b'.pairs = b.pairs ++ [(p, q)]

lemma offered_insert (b : Bijection α β) (p : α) (q : β) :
    b.Offered (b.insert p q) p q (b.accepts p q) := by
  unfold Offered
  split
  · rename_i hsome
    have hrefused : b.accepts p q = false := by
      rw [← Bool.not_eq_true, accepts_iff]
      rintro ⟨hforth, hback⟩
      simp [hforth, hback] at hsome
    exact ⟨hrefused, by rw [insert, if_neg (by simp [hrefused])]⟩
  · rename_i hnone
    obtain ⟨hforth, hback⟩ : b.forth? p = none ∧ b.back? q = none := by simpa using hnone
    have haccepted := accepts_iff.mpr ⟨hforth, hback⟩
    exact ⟨haccepted, by rw [insert, if_pos haccepted, pairs_put (forth?_eq_none_iff.mp hforth)]⟩

lemma Mirrored.insert_eq_or_records (hb : b.Mirrored) (p : α) (q : β) :
    b.insert p q = b ∨ b.Records p q (b.insert p q) := by
  by_cases haccepts : b.accepts p q = true
  · obtain ⟨hforth, hback⟩ := accepts_iff.mp haccepts
    exact .inr (records_insert hb (forth?_eq_none_iff.mp hforth) (hb.back?_eq_none_iff.mp hback))
  · exact .inl (if_neg haccepts)

lemma Records.size_le (h : b.Records p q b') : b'.size ≤ b.size + 1 := by
  cases h with
  | known => exact Nat.le_succ _
  | new hp =>
    have hlength := congrArg List.length (pairs_put hp q)
    rw [List.length_append, List.length_singleton] at hlength
    exact hlength.le

lemma Mirrored.answersLeft_nameFor (hb : b.Mirrored) (hinj : Function.Injective left) (start : Nat)
    (q : β) :
    b.AnswersLeft (b.nameFor left start q).2 left start q (b.nameFor left start q).1 := by
  have hrecords := hb.records_nameFor hinj start q
  refine ⟨(hrecords.mirrored hb).back?_eq_some_iff.mpr hrecords.mem, fun hnone => ?_⟩
  rw [nameFor, hnone]
  apply foundWithin_firstFree
  rw [← Bool.not_eq_true, isSome_forth?_iff]
  exact firstFree_notMem_left hinj start

lemma Mirrored.answersRight_codeFor (hb : b.Mirrored) (hinj : Function.Injective right)
    (start : Nat) (p : α) :
    b.AnswersRight (b.codeFor right start p).2 right start p (b.codeFor right start p).1 := by
  have hrecords := hb.records_codeFor hinj start p
  refine ⟨forth?_eq_some_iff.mpr hrecords.mem, fun hnone => ?_⟩
  rw [codeFor, hnone]
  apply foundWithin_firstFree
  rw [← Bool.not_eq_true, hb.isSome_back?_iff]
  exact hb.firstFree_notMem_right hinj start

end Bijection

/-! ### Requests -/

namespace Vocabulary

variable {v v' : Vocabulary}

/-- What a vocabulary can be asked: the name of a code, the code of a name, to take in a pair. -/
inductive Request
  | nameLabel (code : Code)
  | nameType (code : Code)
  | codeLabel (name : Label)
  | codeType (name : TypeName)
  | codeArgument (argument : Argument)
  | pairLabel (name : Label) (code : Code)
  | pairType (name : TypeName) (code : Code)

inductive Reply
  | name (name : String)
  | code (code : Code)
  | pair (accepted : Bool)

def serve (v : Vocabulary) : Request → Reply × Vocabulary
  | .nameLabel code        => (v.labelForCode code).map .name id
  | .nameType code         => (v.typeForCode code).map .name id
  | .codeLabel name        => (v.codeForLabel name).map .code id
  | .codeType name         => (v.codeForType name).map .code id
  | .codeArgument argument => (v.codeForArgument argument).map .code id
  | .pairLabel name code   =>
    (.pair (v.labels.accepts name code), { v with labels := v.labels.insert name code })
  | .pairType name code    =>
    (.pair (v.types.accepts name code), { v with types := v.types.insert name code })

def run (v : Vocabulary) (requests : List Request) : Vocabulary :=
  requests.foldl (fun v request => (v.serve request).2) v

/-- The number of pairs in both tables. -/
def entries (v : Vocabulary) : Nat := v.labels.size + v.types.size

/-- What a reply to a request means for the vocabulary afterwards. -/
def Answers (v v' : Vocabulary) : Request → Reply → Prop
  | .nameLabel code, .name name =>
    v.labels.AnswersLeft v'.labels Alphabetic.text v.labels.size code name
  | .nameType code, .name name =>
    v.types.AnswersLeft v'.types (fun n => "Type" ++ Alphabetic.text n) v.customTypes code name
  | .codeLabel name, .code code | .codeArgument (.label name), .code code =>
    v.labels.AnswersRight v'.labels (fun n : Nat => Binary.code n) v.labels.size name code
  | .codeType name, .code code | .codeArgument (.type name), .code code =>
    v.types.AnswersRight v'.types (fun n : Nat => Binary.code n) (10 + v.types.size) name code
  | .codeArgument (.number n), .code code => code = Binary.code n.toInt ∧ v' = v
  | .pairLabel name code, .pair accepted =>
    v.labels.Offered v'.labels name code accepted ∧ v'.types = v.types
  | .pairType name code, .pair accepted =>
    v'.labels = v.labels ∧ v.types.Offered v'.types name code accepted
  | _, _ => False

/-- All that a request can do to a vocabulary: nothing, or put a pair into one of the tables. -/
inductive Takes (v v' : Vocabulary) : Prop
  | none (h : v' = v)
  | label (name : Label) (code : Code) (h : v.RecordsLabel name code v')
  | type (name : TypeName) (code : Code) (h : v.RecordsType name code v')

lemma Mirrored.takes_serve (hv : v.Mirrored) (request : Request) : v.Takes (v.serve request).2 := by
  cases request with
  | nameLabel code => exact .label _ _ (recordsLabel_labelForCode hv.labels code)
  | nameType code => exact .type _ _ (recordsType_typeForCode hv.types code)
  | codeLabel name => exact .label _ _ (recordsLabel_codeForLabel hv.labels name)
  | codeType name => exact .type _ _ (recordsType_codeForType hv.types name)
  | codeArgument argument =>
    cases argument with
    | number n => exact .none rfl
    | label name => exact .label _ _ (recordsLabel_codeForLabel hv.labels name)
    | type name => exact .type _ _ (recordsType_codeForType hv.types name)
  | pairLabel name code =>
    rcases hv.labels.insert_eq_or_records name code with hsame | hrecords
    · exact .none (by rw [serve, hsame])
    · exact .label name code ⟨hrecords, rfl⟩
  | pairType name code =>
    rcases hv.types.insert_eq_or_records name code with hsame | hrecords
    · exact .none (by rw [serve, hsame])
    · exact .type name code ⟨rfl, hrecords⟩

lemma Takes.grows (h : v.Takes v') : v.Grows v' := by
  cases h with
  | none h => exact h ▸ .refl v
  | label name code h => exact h.grows
  | type name code h => exact h.grows

lemma Takes.mirrored (h : v.Takes v') (hv : v.Mirrored) : v'.Mirrored := by
  cases h with
  | none h => exact h ▸ hv
  | label name code h => exact h.mirrored hv
  | type name code h => exact h.mirrored hv

lemma Takes.entries_le (h : v.Takes v') : v'.entries ≤ v.entries + 1 := by
  cases h with
  | none h => exact h ▸ Nat.le_succ _
  | label name code h =>
    have hsize := h.labels.size_le
    rw [entries, entries, h.types]
    omega
  | type name code h =>
    have hsize := h.types.size_le
    rw [entries, entries, h.labels]
    omega

lemma Mirrored.run (hv : v.Mirrored) (requests : List Request) : (v.run requests).Mirrored := by
  induction requests generalizing v with
  | nil => exact hv
  | cons request requests ih => exact ih ((hv.takes_serve request).mirrored hv)

lemma Mirrored.grows_run (hv : v.Mirrored) (requests : List Request) :
    v.Grows (v.run requests) := by
  induction requests generalizing v with
  | nil => exact .refl v
  | cons request requests ih =>
    have htakes := hv.takes_serve request
    exact htakes.grows.trans (ih (htakes.mirrored hv))

lemma Mirrored.answers_serve (hv : v.Mirrored) (request : Request) :
    v.Answers (v.serve request).2 request (v.serve request).1 := by
  cases request with
  | nameLabel code => exact hv.labels.answersLeft_nameFor Alphabetic.text_injective _ code
  | nameType code => exact hv.types.answersLeft_nameFor typeText_injective _ code
  | codeLabel name => exact hv.labels.answersRight_codeFor numberCode_injective _ name
  | codeType name => exact hv.types.answersRight_codeFor numberCode_injective _ name
  | codeArgument argument =>
    cases argument with
    | number n => exact ⟨rfl, rfl⟩
    | label name => exact hv.labels.answersRight_codeFor numberCode_injective _ name
    | type name => exact hv.types.answersRight_codeFor numberCode_injective _ name
  | pairLabel name code => exact ⟨v.labels.offered_insert name code, rfl⟩
  | pairType name code => exact ⟨rfl, v.types.offered_insert name code⟩

/-- However a vocabulary has come about, its tables are bijections, what is in them stays there, and
another request adds one pair at most and is answered by what is in the tables then. -/
theorem run_initial_twoWay (requests more : List Request) (request : Request) :
    (initial.run requests).labels.TwoWay ∧ (initial.run requests).types.TwoWay ∧
      (initial.run requests).Grows (initial.run (requests ++ more)) ∧
      ((initial.run requests).serve request).2.entries ≤ (initial.run requests).entries + 1 ∧
      (initial.run requests).Answers ((initial.run requests).serve request).2 request
        ((initial.run requests).serve request).1 := by
  have hv := wellFormed_initial.toMirrored.run requests
  refine ⟨hv.labels.twoWay, hv.types.twoWay, ?_, (hv.takes_serve request).entries_le,
    hv.answers_serve request⟩
  have happend : initial.run (requests ++ more) = (initial.run requests).run more :=
    List.foldl_append
  rw [happend]
  exact hv.grows_run more

end Vocabulary

end ZeroWidth
