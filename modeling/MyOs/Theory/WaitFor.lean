import Mathlib.Logic.Relation

/-!
# Agents that wait for one another

An agent that waits for a resource goes on when another one, that answers for the resource, has done something.
Resources have ranks, and an agent that waits answers for resources of a lower rank only.

    RankedWaits.acyclic    nobody waits, over any number of agents, for himself
    RankedWaits.ends       a chain of waiting agents ends with one that does not wait
-/

open Relation

variable {T L : Type}

/-- `t` waits for a resource that `u` answers for. -/
def WaitsFor (waits answers : T → L → Prop) (t u : T) : Prop := ∃ l, waits t l ∧ answers u l

def RankedWaits (waits answers : T → L → Prop) (rank : L → Nat) : Prop :=
  ∀ t l l', waits t l → answers t l' → rank l' < rank l

namespace RankedWaits

variable {waits answers : T → L → Prop} {rank : L → Nat} {t u : T}

/-- Along a chain the ranks do not fall. -/
theorem chain (h : RankedWaits waits answers rank) (hc : TransGen (WaitsFor waits answers) t u) :
    ∃ l l', waits t l ∧ answers u l' ∧ rank l ≤ rank l' := by
  induction hc with
  | single hw =>
    obtain ⟨l, hl, ha⟩ := hw
    exact ⟨l, l, hl, ha, Nat.le_refl _⟩
  | tail _ hw ih =>
    obtain ⟨l, l', hl, ha', hle⟩ := ih
    obtain ⟨l2, hl2, ha⟩ := hw
    have hlt := h _ l2 l' hl2 ha'
    exact ⟨l, l2, hl, ha, by omega⟩

theorem acyclic (h : RankedWaits waits answers rank) (t : T) : ¬ TransGen (WaitsFor waits answers) t t := by
  intro hc
  obtain ⟨l, l', hl, ha, hle⟩ := h.chain hc
  have hlt := h t l l' hl ha
  omega

/-- Where the ranks are bounded and somebody answers for every resource that is waited for. -/
theorem ends (h : RankedWaits waits answers rank) {m : Nat} (hm : ∀ t l, waits t l → rank l ≤ m)
    (ha : ∀ t l, waits t l → ∃ u, answers u l) (t : T) (l : L) (hw : waits t l) :
    ∃ u, TransGen (WaitsFor waits answers) t u ∧ ∀ l, ¬ waits u l := by
  -- induction on how far the rank of the lock is below the bound
  have hgen : ∀ (n : Nat) (t : T) (l : L), m < rank l + n → waits t l →
      ∃ u, TransGen (WaitsFor waits answers) t u ∧ ∀ l, ¬ waits u l := by
    intro n
    induction n with
    | zero =>
      intro t l hn hw
      have := hm t l hw
      omega
    | succ n ih =>
      intro t l hn hw
      obtain ⟨u, hu⟩ := ha t l hw
      have hone : WaitsFor waits answers t u := ⟨l, hw, hu⟩
      by_cases hend : ∃ l', waits u l'
      · obtain ⟨l', hl'⟩ := hend
        have hlt := h u l' l hl' hu
        obtain ⟨v, hv, hstop⟩ := ih u l' (by omega) hl'
        exact ⟨v, .head hone hv, hstop⟩
      · exact ⟨u, .single hone, fun l' hl' => hend ⟨l', hl'⟩⟩
  exact hgen (m + 1) t l (by omega) hw

end RankedWaits
