import Mathlib.Algebra.GroupWithZero.Nat
import Mathlib.Data.List.Rotate

/-!
# Round robin with time slices

The first thread of a queue runs, and every tick is charged to it.  A thread with slice `n` runs for `n + 1` ticks
in a row; after the last one it goes to the end of the queue with a new slice.

    turn_ahead        a tick rotates the list of the ticks ahead
    charged_getElem   the ticks are charged along that list, around and around
    charged_window    a window as long as the list is the list, rotated
-/

structure RoundRobin (α : Type) where
  head : α
  rest : List α
  /-- The ticks after the next one for which the first thread stays. -/
  left : Nat

namespace RoundRobin

variable {α : Type} (slice : α → Nat)

def turn (q : RoundRobin α) : RoundRobin α :=
  if q.left = 0 then
    match q.rest with
    | [] => { q with left := slice q.head }
    | t :: ts => { head := t, rest := ts ++ [q.head], left := slice t }
  else { q with left := q.left - 1 }

/-- The threads to which `n` ticks are charged. -/
def charged : Nat → RoundRobin α → List α
  | 0, _ => []
  | n + 1, q => q.head :: charged n (q.turn slice)

/-- The ticks a thread gets in a row. -/
def slot (t : α) : List α := List.replicate (slice t + 1) t

/-- One round of ticks, from the next one on. -/
def ahead (q : RoundRobin α) : List α :=
  List.replicate (q.left + 1) q.head ++ q.rest.flatMap (slot slice) ++ List.replicate (slice q.head - q.left) q.head

/-- The first thread has no more left than its slice. -/
def Fair (q : RoundRobin α) : Prop := q.left ≤ slice q.head

variable {slice} {q : RoundRobin α}

theorem turn_fair (h : q.Fair slice) : (q.turn slice).Fair slice := by
  unfold Fair at h
  unfold Fair turn
  by_cases h0 : q.left = 0
  · rw [if_pos h0]
    cases q.rest with
    | nil => exact Nat.le_refl _
    | cons t ts => exact Nat.le_refl _
  · rw [if_neg h0]
    exact Nat.le_trans (Nat.sub_le _ _) h

/-- **One tick** takes the first tick ahead to the end. -/
theorem turn_ahead (h : q.Fair slice) : (q.turn slice).ahead slice = (q.ahead slice).rotate 1 := by
  have hfair : q.left ≤ slice q.head := h
  have hcons : (q.ahead slice).rotate 1 = List.replicate q.left q.head ++ q.rest.flatMap (slot slice) ++
      List.replicate (slice q.head - q.left + 1) q.head := by
    unfold ahead
    rw [List.replicate_succ, List.cons_append, List.cons_append, List.rotate_cons_succ, List.rotate_zero,
      List.append_assoc, ← List.replicate_succ']
  rw [hcons]
  unfold turn
  by_cases h0 : q.left = 0
  · rw [if_pos h0, h0]
    cases q.rest with
    | nil =>
      unfold ahead
      simp
    | cons t ts =>
      unfold ahead slot
      simp [List.append_assoc]
  · rw [if_neg h0]
    unfold ahead
    dsimp only
    rw [Nat.sub_add_cancel (by omega), show slice q.head - (q.left - 1) = slice q.head - q.left + 1 by omega]

theorem ahead_head (slice : α → Nat) (q : RoundRobin α) : ∃ l, q.ahead slice = q.head :: l := ⟨_, rfl⟩

theorem length_charged (slice : α → Nat) : ∀ (n : Nat) (q : RoundRobin α), (charged slice n q).length = n := by
  intro n
  induction n with
  | zero => exact fun _ => rfl
  | succ n ih =>
    intro q
    rw [charged, List.length_cons, ih]

/-- **Around and around.** -/
theorem charged_getElem : ∀ (n i : Nat) (q : RoundRobin α), q.Fair slice → i < n →
    (charged slice n q)[i]? = (q.ahead slice)[i % (q.ahead slice).length]? := by
  intro n
  induction n with
  | zero => exact fun i q _ hi => absurd hi (Nat.not_lt_zero i)
  | succ n ih =>
    intro i q hq hi
    obtain ⟨l, hl⟩ := q.ahead_head slice
    have hpos : 0 < (q.ahead slice).length := by
      rw [hl]
      exact Nat.zero_lt_succ _
    cases i with
    | zero =>
      rw [Nat.zero_mod, hl]
      rfl
    | succ i =>
      rw [charged, List.getElem?_cons_succ, ih i _ (turn_fair hq) (by omega), turn_ahead hq, List.length_rotate,
        List.getElem?_rotate (Nat.mod_lt _ hpos), Nat.mod_add_mod]

/-- A whole round. -/
theorem charged_round (hq : q.Fair slice) : charged slice (q.ahead slice).length q = q.ahead slice := by
  refine List.ext_getElem? fun i => ?_
  by_cases hi : i < (q.ahead slice).length
  · rw [charged_getElem _ i q hq hi, Nat.mod_eq_of_lt hi]
  · have hlen := length_charged slice (q.ahead slice).length q
    rw [List.getElem?_eq_none (by omega), List.getElem?_eq_none (by omega)]

theorem charged_take : ∀ (m n : Nat) (q : RoundRobin α), m ≤ n → (charged slice n q).take m = charged slice m q := by
  intro m
  induction m with
  | zero => exact fun _ _ _ => List.take_zero
  | succ m ih =>
    intro n q h
    obtain ⟨n, rfl⟩ := Nat.exists_eq_add_of_le' (Nat.lt_of_lt_of_le (Nat.zero_lt_succ m) h)
    rw [charged, charged, List.take_succ_cons, ih n _ (by omega)]

/-- **A window** of the length of a round is a round. -/
theorem charged_window : ∀ (j n : Nat) (q : RoundRobin α), q.Fair slice → j + (q.ahead slice).length ≤ n →
    ((charged slice n q).drop j).take (q.ahead slice).length = (q.ahead slice).rotate j := by
  intro j
  induction j with
  | zero =>
    intro n q hq h
    rw [List.drop_zero, List.rotate_zero, charged_take _ _ _ (by omega), charged_round hq]
  | succ j ih =>
    intro n q hq h
    obtain ⟨n, rfl⟩ := Nat.exists_eq_add_of_le' (show 1 ≤ n by omega)
    have hlen : ((q.turn slice).ahead slice).length = (q.ahead slice).length := by
      rw [turn_ahead hq, List.length_rotate]
    have hw := ih n _ (turn_fair hq) (by omega)
    rw [hlen] at hw
    rw [charged, List.drop_succ_cons, hw, turn_ahead hq, List.rotate_rotate, Nat.add_comm]

/-- Every thread has a tick ahead. -/
theorem mem_ahead {t : α} (ht : t ∈ q.head :: q.rest) : t ∈ q.ahead slice := by
  unfold ahead
  rcases List.mem_cons.mp ht with rfl | ht
  · exact List.mem_append_left _ (List.mem_append_left _ (List.mem_replicate.mpr ⟨Nat.succ_ne_zero _, rfl⟩))
  · refine List.mem_append_left _ (List.mem_append_right _ (List.mem_flatMap.mpr ⟨t, ht, ?_⟩))
    exact List.mem_replicate.mpr ⟨Nat.succ_ne_zero _, rfl⟩

/-- With a new slice the ticks ahead are one slot after the other. -/
theorem ahead_full (h : q.left = slice q.head) : q.ahead slice = (q.head :: q.rest).flatMap (slot slice) := by
  unfold ahead
  rw [h, Nat.sub_self, List.replicate_zero, List.append_nil, List.flatMap_cons]
  rfl

theorem length_slots (ts : List α) : (ts.flatMap (slot slice)).length = (ts.map fun t => slice t + 1).sum := by
  rw [List.length_flatMap]
  congr 1
  refine List.map_congr_left fun t _ => ?_
  exact List.length_replicate

end RoundRobin
