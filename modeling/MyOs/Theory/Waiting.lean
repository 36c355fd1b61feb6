import MyOs.Theory.Run
import Mathlib.Data.List.Basic

/-!
# Counting along a run, and waiting in a queue

`tally step f s as` adds up `f` over the steps of the events `as` from `s`.  A queue serves its first element;
elements join it at the end, and some are let in at the front.

    Runs.tally_eq        a quantity that every step pays for, over a run
    Runs.tally_le        the same as a bound
    QueueMove.idxOf_add  what a move does to the place of an element that is not served
-/

variable {σ α β ε : Type}

def tally (step : σ → α → Except ε σ) (f : σ → α → σ → Nat) : σ → List α → Nat
  | _, [] => 0
  | s, a :: as =>
    match step s a with
    | .ok s1 => f s a s1 + tally step f s1 as
    | .error _ => 0

section
variable {step : σ → α → Except ε σ} {G : σ → α → Prop} {f g : σ → α → σ → Nat}

theorem tally_cons {s s1 : σ} {a : α} {as : List α} (h : step s a = .ok s1) :
    tally step f s (a :: as) = f s a s1 + tally step f s1 as := by
  rw [tally, h]

/-- What a step takes from `Φ` it puts into `f`, and what it adds to `Φ` it takes from `g`. -/
theorem Runs.tally_eq (I : σ → Prop) (Φ : σ → Nat)
    (hstep : ∀ s a s', I s → G s a → step s a = .ok s' → I s' ∧ Φ s' + f s a s' = Φ s + g s a s') :
    ∀ (as : List α) (s s' : σ), I s → Runs step G s as s' →
      I s' ∧ Φ s' + tally step f s as = Φ s + tally step g s as := by
  intro as
  induction as with
  | nil =>
    intro s s' hI hr
    cases hr
    exact ⟨hI, rfl⟩
  | cons a as ih =>
    intro s s' hI hr
    obtain ⟨hg, s1, hs, hr⟩ := hr
    obtain ⟨hI1, h1⟩ := hstep s a s1 hI hg hs
    obtain ⟨hI', h'⟩ := ih s1 s' hI1 hr
    rw [tally_cons hs, tally_cons hs]
    exact ⟨hI', by omega⟩

theorem Runs.tally_le (I : σ → Prop) (Φ : σ → Nat) (c : Nat)
    (hstep : ∀ s a s', I s → G s a → step s a = .ok s' → I s' ∧ Φ s' + f s a s' ≤ Φ s + c * g s a s') :
    ∀ (as : List α) (s s' : σ), I s → Runs step G s as s' →
      Φ s' + tally step f s as ≤ Φ s + c * tally step g s as := by
  intro as
  induction as with
  | nil =>
    intro s s' _ hr
    cases hr
    exact Nat.le_refl _
  | cons a as ih =>
    intro s s' hI hr
    obtain ⟨hg, s1, hs, hr⟩ := hr
    obtain ⟨hI1, h1⟩ := hstep s a s1 hI hg hs
    have h' := ih s1 s' hI1 hr
    rw [tally_cons hs, tally_cons hs, Nat.mul_add]
    omega

end

/-! ## Queues -/

/-- How a queue changes: the number of elements served and of elements let in at the front. -/
inductive QueueMove (q : List β) : Nat → Nat → List β → Prop
  | join (xs : List β) : QueueMove q 0 0 (q ++ xs)
  | jump (x : β) : x ∉ q → QueueMove q 0 1 (x :: q)
  | serve (x : β) (xs q' : List β) : q ++ xs = x :: q' → QueueMove q 1 0 q'

/-- **The place in the queue** of an element that is waiting and is not the one served. -/
theorem QueueMove.idxOf_add [DecidableEq β] {q q' : List β} {served jumped : Nat} {t : β}
    (h : QueueMove q served jumped q') (ht : t ∈ q) (hfirst : served = 1 → q.head? ≠ some t) :
    t ∈ q' ∧ q'.idxOf t + served = q.idxOf t + jumped := by
  cases h with
  | join xs =>
    refine ⟨List.mem_append_left xs ht, ?_⟩
    rw [List.idxOf_append_of_mem ht]
  | jump x hx =>
    have hne : x ≠ t := fun he => hx (he ▸ ht)
    refine ⟨List.mem_cons_of_mem x ht, ?_⟩
    rw [List.idxOf_cons_ne q hne]
  | serve x xs q' he =>
    cases q with
    | nil => cases ht
    | cons y r =>
      have hq' : r ++ xs = q' := (List.cons.inj he).2
      have hy : y = x := (List.cons.inj he).1
      subst hy
      have hne : y ≠ t := fun hy => hfirst rfl (by rw [hy]; rfl)
      have hr : t ∈ r := by
        rcases List.mem_cons.mp ht with hy | hr
        · exact absurd hy.symm hne
        · exact hr
      refine ⟨by rw [← hq']; exact List.mem_append_left xs hr, ?_⟩
      rw [← hq', List.idxOf_append_of_mem hr, List.idxOf_cons_ne r hne]
