import ZeroWidth.Proofs.Deletion
import ZeroWidth.Proofs.Interning
import ZeroWidth.Proofs.Numbering
import ZeroWidth.Proofs.Saturation

/-!
# Taking an assertion out of a graph

An assertion lets items through that suit it. If it is taken out of a graph and what comes before it
is linked to what comes behind it, then everything that came to lie in front of another node by way
of it still does, and so no node gets stuck that was not.
-/

namespace ZeroWidth

namespace EffectGraph

variable {g g' h h' : EffectGraph} {r r' : Registry} {α id u n : Nat} {F : Nat → Nat → Prop}
  {stuck stuck' : List Nat}

/-- The graph `g'` is `g` without the assertion that is node `α` of it: edges that led there lead on
to what comes behind it. -/
structure Spliced (r' r : Registry) (g' g : EffectGraph) (α : Nat) : Prop where
  lt      : g.root < α
  root    : g'.root = g.root
  alike   : ∀ n, NodesAlike r' r g' g n (shift α n)
  asserts : ∃ ty, g.effect? α = some (.assert ty)
  edge    : ∀ {u n}, g.Edge (shift α u) (shift α n) → g'.Edge u n
  bypass  : ∀ {u n}, g.Edge (shift α u) α → g.Edge α (shift α n) → g'.Edge u n
  back    : ∀ {u n}, g'.Edge u n →
    g.Edge (shift α u) (shift α n) ∨ g.Edge (shift α u) α ∧ g.Edge α (shift α n)

/-- The edges `F` lead from node `u` to all that comes behind node `α` of `g`. -/
def Precedes (g : EffectGraph) (α : Nat) (F : Nat → Nat → Prop) (u : Nat) : Prop :=
  ∀ n, g.Edge α (shift α n) → F u n

/-- Edges between all nodes, given those between all others than `α`: what leads to all that comes
behind `α` leads to `α` as well, and `α` leads to what everything leads to that does so. -/
structure Lifted (g : EffectGraph) (α : Nat) (F : Nat → Nat → Prop) (a b : Nat) : Prop where
  kept  : ∀ u n, a = shift α u → b = shift α n → F u n
  into  : ∀ u, a = shift α u → b = α → g.Precedes α F u
  outOf : ∀ n, a = α → b = shift α n → ∀ u, g.Precedes α F u → F u n

namespace Spliced

lemma shift_root (hs : Spliced r' r g' g α) : shift α g'.root = g.root := by
  rw [hs.root]
  exact if_pos hs.lt

lemma isPush_assertion (hs : Spliced r' r g' g α) : g.isPush α = false := by
  obtain ⟨ty, heffect⟩ := hs.asserts
  rw [isPush, heffect]
  rfl

lemma reached_shift (hs : Spliced r' r g' g α) (hn : g'.Reached n) : g.Reached (shift α n) := by
  induction hn with
  | refl =>
    rw [hs.shift_root]
    exact .refl
  | tail _ hedge ih =>
    rcases hs.back hedge with hedge | ⟨hinto, houtOf⟩
    · exact ih.tail hedge
    · exact (ih.tail hinto).tail houtOf

/-- What is reached is reached without the assertion, and so is all that comes behind it. -/
lemma reached_of_reached (hs : Spliced r' r g' g α) {m : Nat} (hm : g.Reached m) :
    (∀ n, m = shift α n → g'.Reached n) ∧
      (m = α → ∀ n, g.Edge α (shift α n) → g'.Reached n) := by
  induction hm with
  | refl =>
    constructor
    · intro n hn
      rw [← hs.shift_root] at hn
      rw [← shift_injective α hn]
      exact .refl
    · intro heq
      exact absurd heq hs.lt.ne
  | @tail m m' _ hedge ih =>
    by_cases hm : m = α
    · subst hm
      constructor
      · rintro n rfl
        exact ih.2 rfl n hedge
      · rintro -
        exact ih.2 rfl
    · obtain ⟨u, rfl⟩ := exists_shift_eq hm
      have hu := ih.1 u rfl
      constructor
      · rintro n rfl
        exact hu.tail (hs.edge hedge)
      · rintro rfl n houtOf
        exact hu.tail (hs.bypass hedge houtOf)

lemma edge_lifted (hs : Spliced r' r g' g α) (hF : g'.Edge ≤ F) : g.Edge ≤ g.Lifted α F := by
  intro a b hedge
  constructor
  · rintro u n rfl rfl
    exact hF _ _ (hs.edge hedge)
  · rintro u rfl rfl n houtOf
    exact hF _ _ (hs.bypass hedge houtOf)
  · rintro n rfl rfl u hu
    exact hu n hedge

/-- Nothing but an item suits a node, so not the assertion. -/
lemma exists_item (hs : Spliced r' r g' g α) {item : Nat} (hsuits : g.suits item id = true) :
    ∃ i, item = shift α i := by
  apply exists_shift_eq
  rintro rfl
  have hpush := isPush_of_suits hsuits
  rw [hs.isPush_assertion] at hpush
  cases hpush

lemma lifted_of_assertion (hs : Spliced r' r g' g α) (hpass : g.Passes (g.Lifted α F) α u n) :
    g.Lifted α F u n := by
  obtain ⟨ty, hassert⟩ := hs.asserts
  cases hpass with
  | pop heffect => cases heffect.symm.trans hassert
  | assert _ hitem hsuits hchild =>
    obtain ⟨i, rfl⟩ := hs.exists_item hsuits
    have hprecedes := hitem.into i rfl rfl
    constructor
    · rintro v c hv rfl
      rw [← shift_injective α hv]
      exact hchild.outOf c rfl rfl i hprecedes
    · rintro v hv -
      rw [← shift_injective α hv]
      exact hprecedes
    · rintro c heq -
      exact absurd heq (shift_ne α i)

/-- What a node other than the assertion lets through it lets through without the assertion. -/
lemma lifted_of_shift (hs : Spliced r' r g' g α) (hclosed : g'.ClosedUnder F) {m : Nat}
    (hm : g'.Reached m) (hpass : g.Passes (g.Lifted α F) (shift α m) u n) :
    g.Lifted α F u n := by
  cases hpass with
  | @pop ty under item child heffect hitem hsuits hunder hchild =>
    obtain ⟨i, rfl⟩ := hs.exists_item hsuits
    obtain ⟨effect', heffect', halike⟩ := (hs.alike m).symm.exists_of_effect? heffect
    cases halike with
    | @pop _ ty' _ =>
      have hsuits' : g'.suits i m = true := ((hs.alike i).suits_eq (hs.alike m)).trans hsuits
      have hthrough : ∀ v c, F v i → F m c → F v c := fun v c hv hc =>
        hclosed m hm v c (.pop heffect' (hitem.kept i m rfl rfl) hsuits' hv hc)
      constructor
      · rintro v c rfl rfl
        exact hthrough v c (hunder.kept v i rfl rfl) (hchild.kept m c rfl rfl)
      · rintro v rfl rfl c hc
        exact hthrough v c (hunder.kept v i rfl rfl) (hchild.into m rfl rfl c hc)
      · rintro c rfl rfl v hv
        exact hthrough v c (hunder.outOf i rfl rfl v hv) (hchild.kept m c rfl rfl)
  | @assert ty item child heffect hitem hsuits hchild =>
    obtain ⟨i, rfl⟩ := hs.exists_item hsuits
    obtain ⟨effect', heffect', halike⟩ := (hs.alike m).symm.exists_of_effect? heffect
    cases halike with
    | @assert _ ty' _ =>
      have hsuits' : g'.suits i m = true := ((hs.alike i).suits_eq (hs.alike m)).trans hsuits
      have hthrough : ∀ c, F m c → F i c := fun c hc =>
        hclosed m hm i c (.assert heffect' (hitem.kept i m rfl rfl) hsuits' hc)
      constructor
      · rintro v c hv rfl
        rw [← shift_injective α hv]
        exact hthrough c (hchild.kept m c rfl rfl)
      · rintro v hv rfl c hc
        rw [← shift_injective _ hv]
        exact hthrough c (hchild.into m rfl rfl c hc)
      · rintro c heq -
        exact absurd heq (shift_ne α i)

/-- The rules come to nothing with the assertion that they do not come to without it. -/
lemma closedUnder_lifted (hs : Spliced r' r g' g α) (hclosed : g'.ClosedUnder F) :
    g.ClosedUnder (g.Lifted α F) := by
  intro id hreached u n hpass
  by_cases hid : id = α
  · subst hid
    exact hs.lifted_of_assertion hpass
  · obtain ⟨m, rfl⟩ := exists_shift_eq hid
    exact hs.lifted_of_shift hclosed ((hs.reached_of_reached hreached).1 m rfl) hpass

/-- What is stuck without the assertion was stuck with it. -/
theorem mem_stuck (hs : Spliced r' r g' g α) (hsat' : g'.Saturated h' stuck')
    (hsat : g.Saturated h stuck) (hn : n ∈ stuck') : shift α n ∈ stuck := by
  obtain ⟨hreached, hpush, hnone⟩ := (hsat'.stuck n).mp hn
  have hlifted : h.Edge ≤ g.Lifted α h'.Edge := by
    apply hsat.least.2
    exact ⟨hs.edge_lifted hsat'.least.1.1, hs.closedUnder_lifted hsat'.least.1.2⟩
  refine (hsat.stuck _).mpr ⟨hs.reached_shift hreached, ?_, fun item hitem => ?_⟩
  · rw [← (hs.alike n).isPush_eq, hpush]
  · by_contra hsuits
    have hsuits := Bool.eq_true_of_not_eq_false hsuits
    obtain ⟨i, rfl⟩ := hs.exists_item hsuits
    have hsuits' := hnone i ((hlifted _ _ hitem).kept i n rfl rfl)
    rw [(hs.alike i).suits_eq (hs.alike n), hsuits] at hsuits'
    cases hsuits'

end Spliced

end EffectGraph

end ZeroWidth
