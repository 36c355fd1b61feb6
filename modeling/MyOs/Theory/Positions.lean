import Mathlib.Tactic.Common

/-!
# First and last positions in a list

A search through a list of any type for the elements that pass a test.  `List.findIdx?` gives the first
position and `findLast` the last one.

    First p s i, Last p s i                     position `i` passes, and none before it, or after it, does
    s.findIdx? p = some i ↔ First p s i         (findIdx_eq_some_iff)
    findLast p s = some i ↔ Last p s i          (findLast_eq_some_iff)
    findLast p s = none ↔ s.countP p = 0        (findLast_eq_none_iff)
-/

namespace Positions

variable {α : Type} (p : α → Bool)

def First (s : List α) (i : Nat) : Prop :=
  (∃ c, s[i]? = some c ∧ p c = true) ∧ ∀ j c, j < i → s[j]? = some c → p c = false

def Last (s : List α) (i : Nat) : Prop :=
  (∃ c, s[i]? = some c ∧ p c = true) ∧ ∀ j c, i < j → s[j]? = some c → p c = false

def findLast : List α → Option Nat
  | [] => none
  | c :: s =>
    match findLast s with
    | some i => some (i + 1)
    | none => if p c then some 0 else none

theorem findIdx_eq_some_iff (s : List α) (i : Nat) : s.findIdx? p = some i ↔ First p s i := by
  rw [List.findIdx?_eq_some_iff_getElem]
  constructor
  · rintro ⟨hi, hpass, hbefore⟩
    refine ⟨⟨s[i], List.getElem?_eq_getElem hi, hpass⟩, fun j c hj hc => ?_⟩
    obtain ⟨hlt, rfl⟩ := List.getElem?_eq_some_iff.mp hc
    exact Bool.not_eq_true _ ▸ hbefore j hj
  · rintro ⟨⟨c, hc, hpass⟩, hbefore⟩
    obtain ⟨hi, rfl⟩ := List.getElem?_eq_some_iff.mp hc
    refine ⟨hi, hpass, fun j hj => ?_⟩
    rw [hbefore j s[j] hj (List.getElem?_eq_getElem (by omega))]
    exact Bool.false_ne_true

theorem findIdx_eq_none_iff (s : List α) : s.findIdx? p = none ↔ s.countP p = 0 := by
  rw [List.findIdx?_eq_none_iff, List.countP_eq_zero]
  constructor
  · intro h c hc
    rw [h c hc]
    exact Bool.false_ne_true
  · exact fun h c hc => Bool.eq_false_iff.mpr (h c hc)

theorem findLast_eq_none_iff (s : List α) : findLast p s = none ↔ s.countP p = 0 := by
  induction s with
  | nil => exact ⟨fun _ => rfl, fun _ => rfl⟩
  | cons c s ih =>
    rw [findLast, List.countP_cons]
    cases hlast : findLast p s with
    | some i =>
      rw [hlast] at ih
      constructor
      · intro h
        cases h
      · intro h
        cases ih.mpr (by omega)
    | none =>
      rw [ih.mp hlast]
      by_cases hc : p c = true
      · simp [hc]
      · simp [hc]

/-- The last position of a longer list is in its tail, or there is none in the tail. -/
theorem last_cons_iff (c : α) (s : List α) (i : Nat) :
    Last p (c :: s) i ↔ (∃ k, i = k + 1 ∧ Last p s k) ∨ (i = 0 ∧ p c = true ∧ s.countP p = 0) := by
  constructor
  · rintro ⟨⟨d, hd, hpass⟩, hafter⟩
    cases i with
    | zero =>
      obtain rfl : c = d := Option.some.inj hd
      refine .inr ⟨rfl, hpass, List.countP_eq_zero.mpr fun e he => ?_⟩
      obtain ⟨j, hj⟩ := List.mem_iff_getElem?.mp he
      rw [hafter (j + 1) e (Nat.succ_pos j) hj]
      exact Bool.false_ne_true
    | succ k =>
      refine .inl ⟨k, rfl, ⟨d, hd, hpass⟩, fun j e hj he => ?_⟩
      exact hafter (j + 1) e (Nat.succ_lt_succ hj) he
  · rintro (⟨k, rfl, ⟨d, hd, hpass⟩, hafter⟩ | ⟨rfl, hpass, hno⟩)
    · refine ⟨⟨d, hd, hpass⟩, fun j e hj he => ?_⟩
      obtain ⟨j, rfl⟩ := Nat.exists_eq_succ_of_ne_zero (Nat.ne_of_gt (Nat.lt_of_le_of_lt (Nat.zero_le _) hj))
      exact hafter j e (Nat.lt_of_succ_lt_succ hj) he
    · refine ⟨⟨c, rfl, hpass⟩, fun j e hj he => ?_⟩
      obtain ⟨j, rfl⟩ := Nat.exists_eq_succ_of_ne_zero (Nat.ne_of_gt hj)
      exact Bool.eq_false_iff.mpr (List.countP_eq_zero.mp hno e (List.mem_of_getElem? he))

theorem findLast_eq_some_iff (s : List α) : ∀ i, findLast p s = some i ↔ Last p s i := by
  induction s with
  | nil =>
    intro i
    constructor
    · intro h
      cases h
    · rintro ⟨⟨c, hc, -⟩, -⟩
      cases hc
  | cons c s ih =>
    intro i
    rw [findLast, last_cons_iff, ← findLast_eq_none_iff]
    cases hlast : findLast p s with
    | some k =>
      constructor
      · intro h
        obtain rfl := Option.some.inj h
        exact .inl ⟨k, rfl, (ih k).mp hlast⟩
      · rintro (⟨j, rfl, hj⟩ | ⟨-, -, h⟩)
        · obtain rfl := Option.some.inj (hlast.symm.trans ((ih j).mpr hj))
          rfl
        · cases h
    | none =>
      constructor
      · intro h
        by_cases hc : p c = true
        · simp only [hc, if_true, Option.some.injEq] at h
          exact .inr ⟨h.symm, hc, rfl⟩
        · simp [hc] at h
      · rintro (⟨j, rfl, hj⟩ | ⟨rfl, hc, -⟩)
        · rw [(ih j).mpr hj] at hlast
          cases hlast
        · simp [hc]

end Positions
