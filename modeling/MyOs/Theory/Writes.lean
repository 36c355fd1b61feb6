import Mathlib.Data.Set.Function
import Mathlib.Tactic.Common

/-!
# Sequences of writes

A store is a map from addresses of any type to values; a write is an address with a value, and a log is a
list of writes, the first one first.

    apply f log                        what is in the store after the log
    LastWrite log a v                  the last write to `a` wrote `v`
    apply_eq_iff                       every address holds its last write, or what it held before
    foldlM_apply                       so it is with every operation that acts as one write
-/

namespace Writes

variable {α β : Type} [DecidableEq α]

def apply (f : α → β) (log : List (α × β)) : α → β := log.foldl (fun f w => Function.update f w.1 w.2) f

def LastWrite (log : List (α × β)) (a : α) (v : β) : Prop :=
  ∃ before after, log = before ++ (a, v) :: after ∧ ∀ w ∈ after, w.1 ≠ a

theorem apply_cons (f : α → β) (w : α × β) (log : List (α × β)) :
    apply f (w :: log) = apply (Function.update f w.1 w.2) log := rfl

theorem apply_append (f : α → β) (log1 log2 : List (α × β)) :
    apply f (log1 ++ log2) = apply (apply f log1) log2 := List.foldl_append

/-- Nothing was written there. -/
theorem apply_of_unwritten : ∀ (log : List (α × β)) (f : α → β) (a : α), (∀ w ∈ log, w.1 ≠ a) →
    apply f log a = f a := by
  intro log
  induction log with
  | nil => exact fun f a _ => rfl
  | cons w log ih =>
    intro f a h
    rw [apply_cons, ih _ a fun w' hw' => h w' (List.mem_cons_of_mem w hw')]
    exact Function.update_of_ne (h w List.mem_cons_self).symm _ _

theorem apply_of_lastWrite (f : α → β) {log : List (α × β)} {a : α} {v : β} (h : LastWrite log a v) :
    apply f log a = v := by
  obtain ⟨before, after, rfl, hafter⟩ := h
  rw [apply_append, apply_cons, apply_of_unwritten after _ a hafter]
  exact Function.update_self _ _ _

theorem lastWrite_unique {log : List (α × β)} {a : α} {v w : β} (hv : LastWrite log a v) (hw : LastWrite log a w) :
    v = w := by
  rw [← apply_of_lastWrite (fun _ => v) hv, apply_of_lastWrite (fun _ => v) hw]

/-- An address that is written at all has a last write. -/
theorem exists_lastWrite : ∀ (log : List (α × β)) (a : α), (∀ w ∈ log, w.1 ≠ a) ∨ ∃ v, LastWrite log a v := by
  intro log a
  induction log with
  | nil => exact .inl fun w hw => absurd hw List.not_mem_nil
  | cons w log ih =>
    rcases ih with hno | ⟨v, before, after, rfl, hafter⟩
    · by_cases hw : w.1 = a
      · subst hw
        exact .inr ⟨w.2, [], log, rfl, hno⟩
      · refine .inl fun w' hw' => ?_
        rcases List.mem_cons.mp hw' with rfl | hin
        · exact hw
        · exact hno w' hin
    · exact .inr ⟨v, w :: before, after, rfl, hafter⟩

theorem apply_eq_iff (f : α → β) (log : List (α × β)) (a : α) (v : β) :
    apply f log a = v ↔ LastWrite log a v ∨ ((∀ w ∈ log, w.1 ≠ a) ∧ f a = v) := by
  constructor
  · rintro rfl
    rcases exists_lastWrite log a with hno | ⟨v, hlast⟩
    · exact .inr ⟨hno, (apply_of_unwritten log f a hno).symm⟩
    · rw [apply_of_lastWrite f hlast]
      exact .inl hlast
  · rintro (hlast | ⟨hno, rfl⟩)
    · exact apply_of_lastWrite f hlast
    · exact apply_of_unwritten log f a hno

/-- Writing `g i` at the addresses `i` of a list. -/
theorem apply_map (g : α → β) : ∀ (is : List α) (f : α → β) (a : α),
    apply f (is.map fun i => (i, g i)) a = if a ∈ is then g a else f a := by
  intro is f a
  rcases exists_lastWrite (is.map fun i => (i, g i)) a with hno | ⟨v, hlast⟩
  · rw [apply_of_unwritten _ _ _ hno, if_neg]
    exact fun ha => hno (a, g a) (List.mem_map.mpr ⟨a, ha, rfl⟩) rfl
  · rw [apply_of_lastWrite f hlast]
    obtain ⟨before, after, hlog, -⟩ := hlast
    have hmem : (a, v) ∈ is.map fun i => (i, g i) := by
      rw [hlog]
      exact List.mem_append_right before List.mem_cons_self
    obtain ⟨i, hi, heq⟩ := List.mem_map.mp hmem
    obtain ⟨rfl, rfl⟩ := Prod.mk.inj heq
    rw [if_pos hi]

/-- An operation on any state whose calls act as one write on what `obs` sees of it. -/
theorem foldlM_apply {σ ε : Type} (obs : σ → α → β) (step : σ → α × β → Except ε σ) (Ok : α × β → Prop)
    (hstep : ∀ s w, Ok w → ∃ s', step s w = .ok s' ∧ obs s' = Function.update (obs s) w.1 w.2) :
    ∀ (log : List (α × β)) (s : σ), (∀ w ∈ log, Ok w) →
      ∃ s', log.foldlM step s = .ok s' ∧ obs s' = apply (obs s) log := by
  intro log
  induction log with
  | nil => exact fun s _ => ⟨s, rfl, rfl⟩
  | cons w log ih =>
    intro s h
    obtain ⟨s1, hs1, hobs1⟩ := hstep s w (h w List.mem_cons_self)
    obtain ⟨s', hs', hobs'⟩ := ih s1 fun w' hw' => h w' (List.mem_cons_of_mem w hw')
    refine ⟨s', ?_, ?_⟩
    · rw [List.foldlM_cons, hs1]
      exact hs'
    · rw [hobs', hobs1, apply_cons]

end Writes
