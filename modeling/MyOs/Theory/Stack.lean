import Mathlib.Algebra.Group.Basic
import Mathlib.Logic.Function.Basic

/-!
# A stack of words in memory

Addresses form a commutative group `α` and a word takes the step `d`; the stack grows downwards.

    StackIs d top mem sp ws      the words between sp and top are ws

* `StackIs.push`, `StackIs.pop`, `StackIs.drop`: the stack pointer moves.
* `StackIs.poke`, `StackIs.frame`: memory changes under a stack pointer that stays.

Two words of the stack must not fall on one address: `Apart d n` says that fewer than `n` steps never come
back.
-/

variable {α β : Type} [AddCommGroup α]

/-- The words at `a`, `a + d`, `a + 2d`, … -/
def WordsAt (d : α) (mem : α → β) : α → List β → Prop
  | _, [] => True
  | a, w :: ws => mem a = w ∧ WordsAt d mem (a + d) ws

structure StackIs (d top : α) (mem : α → β) (sp : α) (ws : List β) : Prop where
  depth : sp + ws.length • d = top
  words : WordsAt d mem sp ws

def Apart (d : α) (n : Nat) : Prop := ∀ k, 0 < k → k < n → k • d ≠ 0

variable {d top sp a : α} {mem mem' : α → β} {us ws : List β} {w v : β} {n : Nat}

/-! ## Words -/

theorem WordsAt.frame (h : WordsAt d mem a ws)
    (hf : ∀ i, i < ws.length → mem' (a + i • d) = mem (a + i • d)) : WordsAt d mem' a ws := by
  induction ws generalizing a with
  | nil => trivial
  | cons w ws ih =>
    obtain ⟨hw, hws⟩ := h
    refine ⟨?_, ih hws ?_⟩
    · have h0 := hf 0 (by simp)
      rw [zero_nsmul, add_zero] at h0
      rw [h0, hw]
    · intro i hi
      have h1 := hf (i + 1) (by simpa using hi)
      rw [succ_nsmul', ← add_assoc] at h1
      exact h1

theorem wordsAt_append :
    WordsAt d mem a (us ++ ws) ↔ WordsAt d mem a us ∧ WordsAt d mem (a + us.length • d) ws := by
  induction us generalizing a with
  | nil => simp [WordsAt]
  | cons u us ih =>
    simp only [List.cons_append, WordsAt, ih, List.length_cons, succ_nsmul', ← add_assoc, and_assoc]

/-! ## The stack pointer moves -/

theorem StackIs.nil : StackIs d sp mem sp [] := ⟨by simp, trivial⟩

theorem StackIs.push [DecidableEq α] (h : StackIs d top mem sp ws) (ha : Apart d n)
    (hn : ws.length + 1 < n) : StackIs d top (Function.update mem (sp - d) w) (sp - d) (w :: ws) where
  depth := by
    rw [List.length_cons, succ_nsmul', ← add_assoc, sub_add_cancel]
    exact h.depth
  words := by
    refine ⟨Function.update_self .., ?_⟩
    rw [sub_add_cancel]
    refine h.words.frame fun i hi => Function.update_of_ne ?_ _ _
    intro he
    refine ha (i + 1) (by omega) (by omega) ?_
    have : sp + i • d + d = sp := by rw [he, sub_add_cancel]
    rw [add_assoc, ← succ_nsmul] at this
    exact left_eq_add.mp this.symm

theorem StackIs.pop (h : StackIs d top mem sp (w :: ws)) :
    mem sp = w ∧ StackIs d top mem (sp + d) ws := by
  refine ⟨h.words.1, ?_, h.words.2⟩
  have hd := h.depth
  rw [List.length_cons, succ_nsmul', ← add_assoc] at hd
  exact hd

theorem StackIs.drop (h : StackIs d top mem sp (us ++ ws)) :
    StackIs d top mem (sp + us.length • d) ws where
  depth := by
    have hd := h.depth
    rw [List.length_append, add_nsmul, ← add_assoc] at hd
    exact hd
  words := (wordsAt_append.mp h.words).2

theorem StackIs.sp_eq (h : StackIs d top mem sp []) : sp = top := by
  have hd := h.depth
  simpa using hd

/-! ## Memory changes -/

/-- The first words may change, the others may not. -/
theorem StackIs.frame (h : StackIs d top mem sp (us ++ ws))
    (hf : ∀ i, us.length ≤ i → i < us.length + ws.length → mem' (sp + i • d) = mem (sp + i • d)) :
    StackIs d top mem' (sp + us.length • d) ws where
  depth := h.drop.depth
  words := by
    refine h.drop.words.frame fun i hi => ?_
    have := hf (us.length + i) (by omega) (by omega)
    rw [add_nsmul, ← add_assoc] at this
    exact this

/-- One word is overwritten. -/
theorem StackIs.poke [DecidableEq α] (h : StackIs d top mem sp (us ++ w :: ws)) (ha : Apart d n)
    (hn : us.length + ws.length < n) (i : Nat) (hi : us.length = i) :
    StackIs d top (Function.update mem (sp + i • d) v) sp (us ++ v :: ws) where
  depth := by
    have hd := h.depth
    rw [List.length_append, List.length_cons] at hd ⊢
    exact hd
  words := by
    subst hi
    have hw := wordsAt_append.mp h.words
    refine wordsAt_append.mpr ⟨hw.1.frame fun i hi => Function.update_of_ne ?_ _ _, ?_, ?_⟩
    · intro he
      refine ha (us.length - i) (by omega) (by omega) ?_
      have hadd : us.length • d = i • d + (us.length - i) • d := by
        rw [← add_nsmul]
        congr 1
        omega
      rw [add_right_inj, hadd] at he
      exact left_eq_add.mp he
    · exact Function.update_self ..
    · refine hw.2.2.frame fun i hi => Function.update_of_ne ?_ _ _
      intro he
      refine ha (i + 1) (by omega) (by omega) ?_
      rw [add_assoc, ← succ_nsmul'] at he
      exact add_eq_left.mp he
