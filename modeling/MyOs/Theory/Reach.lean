import Mathlib.Logic.Function.Iterate

/-!
# What a step function reaches

A machine without input is a step function `f : σ → σ`; `Reaches f s P` says that from `s` it comes to a state
with `P` after finitely many steps.

* `Reaches.step`, `Reaches.next`: steps before it.
* `Reaches.not_both`: two disjoint sets that the machine does not leave are not both reached.
-/

variable {σ : Type} {f : σ → σ} {s s' : σ} {P Q : σ → Prop}

def Reaches (f : σ → σ) (s : σ) (P : σ → Prop) : Prop := ∃ n, P (f^[n] s)

namespace Reaches

theorem here (h : P s) : Reaches f s P := ⟨0, h⟩

theorem next (h : Reaches f (f s) P) : Reaches f s P := by
  obtain ⟨n, hn⟩ := h
  exact ⟨n + 1, hn⟩

theorem step (hs : f s = s') (h : Reaches f s' P) : Reaches f s P := next (hs ▸ h)

theorem mono (h : Reaches f s P) (hPQ : ∀ t, P t → Q t) : Reaches f s Q := by
  obtain ⟨n, hn⟩ := h
  exact ⟨n, hPQ _ hn⟩

theorem trans (h : Reaches f s P) (hQ : ∀ t, P t → Reaches f t Q) : Reaches f s Q := by
  obtain ⟨n, hn⟩ := h
  obtain ⟨m, hm⟩ := hQ _ hn
  refine ⟨m + n, ?_⟩
  rw [Function.iterate_add_apply]
  exact hm

/-- What the machine does not leave holds from then on. -/
theorem stays (hP : ∀ t, P t → P (f t)) {n m : Nat} (hn : P (f^[n] s)) (hm : n ≤ m) : P (f^[m] s) := by
  obtain ⟨k, rfl⟩ := Nat.exists_eq_add_of_le hm
  clear hm
  induction k with
  | zero => exact hn
  | succ k ih =>
    rw [← Nat.add_assoc, Function.iterate_succ_apply']
    exact hP _ ih

theorem not_both (hP : ∀ t, P t → P (f t)) (hQ : ∀ t, Q t → Q (f t)) (hne : ∀ t, P t → ¬ Q t)
    (h1 : Reaches f s P) : ¬ Reaches f s Q := by
  rintro ⟨m, hm⟩
  obtain ⟨n, hn⟩ := h1
  exact hne _ (stays hP hn (Nat.le_max_left n m)) (stays hQ hm (Nat.le_max_right n m))

end Reaches
