import Mathlib.Tactic.Common

/-!
# Comparisons that return a sign

A comparison function of C returns a number whose sign is the order of its arguments.  Here the order is any
`cmp : α → α → Ordering`, `sign` is the number, and lists are compared element by element.

    sign (cmp x y) = 0 ↔ x = y                                                   (sign_eq_zero_iff)
    sign (cmp y x) = - sign (cmp x y)                                            (sign_swap)
    sign (cmp x y) ≤ 0 → sign (cmp y z) ≤ 0 → sign (cmp x z) ≤ 0                 (sign_trans)
    the first elements decide, unless they are equal      (compareLex_cons_of_ne, compareLex_cons_self)
-/

namespace Comparison

open Std

variable {α : Type} (cmp : α → α → Ordering)

def sign : Ordering → Int
  | .lt => -1
  | .eq => 0
  | .gt => 1

theorem sign_eq_zero_iff [LawfulEqCmp cmp] (x y : α) : sign (cmp x y) = 0 ↔ x = y := by
  have h : cmp x y = .eq ↔ x = y := LawfulEqCmp.compare_eq_iff_eq
  rw [← h]
  cases cmp x y <;> decide

theorem sign_swap [OrientedCmp cmp] (x y : α) : sign (cmp y x) = - sign (cmp x y) := by
  have h : cmp y x = (cmp x y).swap := OrientedCmp.eq_swap
  rw [h]
  cases cmp x y <;> rfl

theorem sign_nonpos_iff (o : Ordering) : sign o ≤ 0 ↔ o.isLE = true := by
  cases o <;> decide

theorem sign_trans [TransCmp cmp] (x y z : α) (h1 : sign (cmp x y) ≤ 0) (h2 : sign (cmp y z) ≤ 0) :
    sign (cmp x z) ≤ 0 := by
  rw [sign_nonpos_iff] at h1 h2 ⊢
  exact TransCmp.isLE_trans h1 h2

theorem compareLex_cons_self [ReflCmp cmp] (x : α) (xs ys : List α) :
    List.compareLex cmp (x :: xs) (x :: ys) = List.compareLex cmp xs ys := by
  have h : cmp x x = .eq := ReflCmp.compare_self
  rw [List.compareLex_cons_cons, h]
  rfl

/-- Different first elements decide, whatever follows. -/
theorem compareLex_cons_of_ne [LawfulEqCmp cmp] {x y : α} (h : x ≠ y) (xs ys : List α) :
    List.compareLex cmp (x :: xs) (y :: ys) = cmp x y := by
  rw [List.compareLex_cons_cons]
  cases hc : cmp x y with
  | eq => exact absurd (LawfulEqCmp.eq_of_compare hc) h
  | lt => rfl
  | gt => rfl

end Comparison
