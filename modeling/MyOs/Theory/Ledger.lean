import Mathlib.Data.Set.BooleanAlgebra
import Mathlib.Data.Set.Disjoint
import Mathlib.Logic.Function.Basic
import Mathlib.Order.CompletePartialOrder

/-!
# What is held and what was handed out

Holders `τ` collect things of a type `ι` and hand them out, a set at a time.  `Ledger hold out` says that nothing
is in two hands: the sets held are disjoint from each other and from everything in `out`, and no two sets of
`out` meet.

* `Ledger.grow`: a holder takes more, none of it held or handed out.
* `Ledger.handOut`: a holder hands out all it has.
* `Ledger.drop`: a holder gives up.
-/

variable {τ ι : Type}

structure Ledger (hold : τ → Set ι) (out : List (Set ι)) : Prop where
  held : ∀ t t', t ≠ t' → Disjoint (hold t) (hold t')
  given : out.Pairwise Disjoint
  both : ∀ t, ∀ B ∈ out, Disjoint (hold t) B

namespace Ledger

variable {hold hold' : τ → Set ι} {out : List (Set ι)}

theorem nil : Ledger (fun _ : τ => (∅ : Set ι)) [] where
  held t t' _ := disjoint_bot_left
  given := .nil
  both t B hB := by simp at hB

/-- One holder changes what it holds, to things that nobody else has. -/
theorem grow (h : Ledger hold out) (t : τ) (hother : ∀ t', t' ≠ t → hold' t' = hold t')
    (hnew : ∀ i ∈ hold' t, i ∉ hold t → (∀ t', t' ≠ t → i ∉ hold t') ∧ ∀ B ∈ out, i ∉ B) :
    Ledger hold' out := by
  have hapart : ∀ t', t' ≠ t → Disjoint (hold' t) (hold t') := by
    intro t' ht
    refine Set.disjoint_left.mpr fun i hi hi' => ?_
    by_cases hold_i : i ∈ hold t
    · exact Set.disjoint_left.mp (h.held t t' (Ne.symm ht)) hold_i hi'
    · exact (hnew i hi hold_i).1 t' ht hi'
  constructor
  · intro t₁ t₂ hne
    by_cases h1 : t₁ = t
    · subst h1
      rw [hother t₂ (Ne.symm hne)]
      exact hapart t₂ (Ne.symm hne)
    · by_cases h2 : t₂ = t
      · subst h2
        rw [hother t₁ h1]
        exact (hapart t₁ h1).symm
      · rw [hother t₁ h1, hother t₂ h2]
        exact h.held t₁ t₂ hne
  · exact h.given
  · intro t' B hB
    by_cases ht : t' = t
    · subst ht
      refine Set.disjoint_left.mpr fun i hi hiB => ?_
      by_cases hold_i : i ∈ hold t'
      · exact Set.disjoint_left.mp (h.both t' B hB) hold_i hiB
      · exact (hnew i hi hold_i).2 B hB hiB
    · rw [hother t' ht]
      exact h.both t' B hB

theorem drop (h : Ledger hold out) (t : τ) (hother : ∀ t', t' ≠ t → hold' t' = hold t')
    (ht : hold' t = ∅) : Ledger hold' out := by
  refine h.grow t hother fun i hi _ => ?_
  rw [ht] at hi
  exact absurd hi (Set.notMem_empty i)

theorem handOut (h : Ledger hold out) (t : τ) (hother : ∀ t', t' ≠ t → hold' t' = hold t')
    (ht : hold' t = ∅) : Ledger hold' (hold t :: out) where
  held := (h.drop t hother ht).held
  given := List.pairwise_cons.mpr ⟨h.both t, h.given⟩
  both t' B hB := by
    rcases List.mem_cons.mp hB with rfl | hB
    · by_cases he : t' = t
      · rw [he, ht]
        exact disjoint_bot_left
      · rw [hother t' he]
        exact h.held t' t he
    · exact (h.drop t hother ht).both t' B hB

theorem congr (h : Ledger hold out) (he : ∀ t, hold' t = hold t) : Ledger hold' out := by
  rw [show hold' = hold from funext he]
  exact h

end Ledger
