import Mathlib.Data.List.Perm.Basic
import Mathlib.Data.List.Nodup
import Mathlib.Logic.Function.Basic

/-!
# Elements that stand in one list at a time

A family of lists `L : π → List τ` shares one link per element, so an element may stand in one of the
lists at most, and there once.  `Placed L place` says where: `place t = some p` when `t` stands in `L p`,
`place t = none` when it stands nowhere.

    Placed.leave   taking an element out of its list
    Placed.enter   putting an element that stands nowhere into a list

The order inside a list is free: both lemmas speak of permutations, so a list may be used as a queue,
as a stack, or with removal from the middle.
-/

variable {τ π : Type} [DecidableEq τ] [DecidableEq π]

def Placed (L : π → List τ) (place : τ → Option π) : Prop :=
  ∀ p t, (L p).count t = if place t = some p then 1 else 0

namespace Placed

variable {L L' : π → List τ} {place : τ → Option π}

theorem mem_iff (h : Placed L place) (p : π) (t : τ) : t ∈ L p ↔ place t = some p := by
  rw [← List.count_pos_iff, h p t]
  split
  · rename_i hp
    simp [hp]
  · rename_i hp
    simp [hp]

theorem eq_of_mem (h : Placed L place) {p q : π} {t : τ} (hp : t ∈ L p) (hq : t ∈ L q) : p = q := by
  have h1 := (h.mem_iff p t).mp hp
  have h2 := (h.mem_iff q t).mp hq
  exact Option.some.inj (h1.symm.trans h2)

/-- `t` leaves `L p`; every other list is as before. -/
theorem leave (h : Placed L place) (p : π) {t : τ} (hp : (L p).Perm (t :: L' p))
    (ho : ∀ r, r ≠ p → L' r = L r) : Placed L' (Function.update place t none) := by
  have ht : place t = some p := (h.mem_iff p t).mp (hp.mem_iff.mpr (by simp))
  intro r s
  by_cases hs : s = t
  · subst hs
    rw [Function.update_self]
    by_cases hr : r = p
    · subst hr
      have hc := hp.count_eq s
      rw [h r s, if_pos ht, List.count_cons_self] at hc
      simp
      omega
    · rw [ho r hr, h r s, ht]
      simp [Ne.symm hr]
  · rw [Function.update_of_ne hs]
    by_cases hr : r = p
    · subst hr
      have hc := hp.count_eq s
      rw [h r s, List.count_cons_of_ne (Ne.symm hs)] at hc
      exact hc.symm
    · rw [ho r hr, h r s]

/-- `t`, which stood nowhere, enters `L q`; every other list is as before. -/
theorem enter (h : Placed L place) (q : π) {t : τ} (ht : place t = none)
    (hq : (L' q).Perm (t :: L q)) (ho : ∀ r, r ≠ q → L' r = L r) :
    Placed L' (Function.update place t (some q)) := by
  intro r s
  by_cases hs : s = t
  · subst hs
    rw [Function.update_self]
    by_cases hr : r = q
    · subst hr
      rw [hq.count_eq s, List.count_cons_self, h r s, ht]
      simp
    · rw [ho r hr, h r s, ht]
      simp [Ne.symm hr]
  · rw [Function.update_of_ne hs]
    by_cases hr : r = q
    · subst hr
      rw [hq.count_eq s, List.count_cons_of_ne (Ne.symm hs), h r s]
    · rw [ho r hr, h r s]

end Placed
