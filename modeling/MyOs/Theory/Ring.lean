import Mathlib.Logic.Function.Basic
import Mathlib.Tactic.Common

/-!
# A ring of `N` cells read as a queue

Positions are integers in `[0, N)`.  The bytes between `tail` and `head`, going up and wrapping at `N`, are
the queue (`contents`); with `head = tail` it is empty, and since a full ring would look the same, one cell
is never used.

    contents_store   writing at `head` and moving it on appends a value
    contents_take    the value at `tail` is the first one; moving `tail` on removes it

`BoundedQueue` is what the ring is for: a queue of at most `cap` values, with all that was put and all that
was got.
-/

/-- A bounded queue with its history. -/
@[ext]
structure BoundedQueue (α : Type) where
  items : List α
  put : List α
  got : List α

namespace BoundedQueue

variable {α : Type} {cap : Nat}

inductive Step (cap : Nat) (s : BoundedQueue α) : BoundedQueue α → Prop
  | idle : Step cap s s
  | put (x : α) : s.items.length < cap →
      Step cap s { items := s.items ++ [x], put := s.put ++ [x], got := s.got }
  | get (x : α) (xs : List α) : s.items = x :: xs →
      Step cap s { items := xs, put := s.put, got := s.got ++ [x] }

/-- First in, first out: what was got, and then what is stored, is what was put. -/
structure Inv (cap : Nat) (s : BoundedQueue α) : Prop where
  fifo : s.put = s.got ++ s.items
  bound : s.items.length ≤ cap

theorem Step.inv {s s' : BoundedQueue α} (h : Inv cap s) (hs : Step cap s s') : Inv cap s' := by
  cases hs with
  | idle => exact h
  | put x hlen =>
    refine ⟨?_, ?_⟩
    · show s.put ++ [x] = s.got ++ (s.items ++ [x])
      rw [h.fifo, List.append_assoc]
    · show (s.items ++ [x]).length ≤ cap
      rw [List.length_append]
      exact hlen
  | get x xs he =>
    refine ⟨?_, ?_⟩
    · show s.put = s.got ++ [x] ++ xs
      rw [h.fifo, he, List.append_assoc]
      rfl
    · have hb := h.bound
      rw [he] at hb
      exact Nat.le_of_succ_le hb

end BoundedQueue

namespace Ring

variable {α : Type} {N : Int}

/-- How many values are stored. -/
def size (N head tail : Int) : Nat := ((head - tail) % N).toNat

def contents (N : Int) (buf : Int → α) (head tail : Int) : List α :=
  (List.range (size N head tail)).map fun i : Nat => buf ((tail + i) % N)

theorem length_contents (buf : Int → α) (head tail : Int) :
    (contents N buf head tail).length = size N head tail := by
  simp [contents]

/-- Wrapping a position that is past the end by less than a round. -/
theorem emod_wrap {a : Int} (h0 : 0 ≤ a) (h2 : a < 2 * N) : a % N = if a < N then a else a - N := by
  split
  · rename_i h
    exact Int.emod_eq_of_lt h0 h
  · rename_i h
    rw [← Int.sub_emod_right]
    exact Int.emod_eq_of_lt (by omega) (by omega)

theorem size_eq {head tail : Int} (hh : 0 ≤ head ∧ head < N) (ht : 0 ≤ tail ∧ tail < N) :
    (size N head tail : Int) = if tail ≤ head then head - tail else head - tail + N := by
  have hN : 0 < N := by omega
  have hw : (head - tail) % N = (head - tail + N) % N := (Int.add_emod_right _ _).symm
  unfold size
  rw [Int.toNat_of_nonneg (Int.emod_nonneg _ (by omega)), hw,
    emod_wrap (by omega) (by omega)]
  split <;> split <;> omega

theorem size_lt {head tail : Int} (hh : 0 ≤ head ∧ head < N) (ht : 0 ≤ tail ∧ tail < N) :
    (size N head tail : Int) < N := by
  rw [size_eq hh ht]
  split <;> omega

theorem next_range {p : Int} (hp : 0 ≤ p ∧ p < N) : 0 ≤ (p + 1) % N ∧ (p + 1) % N < N := by
  have hN : 0 < N := by omega
  exact ⟨Int.emod_nonneg _ (by omega), Int.emod_lt_of_pos _ hN⟩

/-- Storing makes the queue longer by one, unless it is full. -/
theorem size_store {head tail : Int} (hh : 0 ≤ head ∧ head < N) (ht : 0 ≤ tail ∧ tail < N)
    (hfull : (head + 1) % N ≠ tail) : size N ((head + 1) % N) tail = size N head tail + 1 := by
  have h1 := size_eq (next_range hh) ht
  have h2 := size_eq hh ht
  have hn : (head + 1) % N = _ := emod_wrap (by omega) (by omega)
  generalize (head + 1) % N = next at h1 hn hfull ⊢
  split at hn <;> split at h1 <;> split at h2 <;> omega

/-- Taking makes the queue shorter by one, unless it is empty. -/
theorem size_take {head tail : Int} (hh : 0 ≤ head ∧ head < N) (ht : 0 ≤ tail ∧ tail < N)
    (hempty : head ≠ tail) : size N head tail = size N head ((tail + 1) % N) + 1 := by
  have h1 := size_eq hh (next_range ht)
  have h2 := size_eq hh ht
  have hn : (tail + 1) % N = _ := emod_wrap (by omega) (by omega)
  generalize (tail + 1) % N = next at h1 hn ⊢
  split at hn <;> split at h1 <;> split at h2 <;> omega

/-- The cell after the last stored value is the one at `head`. -/
theorem head_eq {head tail : Int} (hh : 0 ≤ head ∧ head < N) (ht : 0 ≤ tail ∧ tail < N) :
    (tail + size N head tail) % N = head := by
  have h := size_eq hh ht
  rw [h]
  split
  · rw [show tail + (head - tail) = head by omega]
    exact Int.emod_eq_of_lt hh.1 hh.2
  · rw [show tail + (head - tail + N) = head + N by omega, Int.add_emod_right]
    exact Int.emod_eq_of_lt hh.1 hh.2

/-- The cells before it are others. -/
theorem ne_head {head tail : Int} (hh : 0 ≤ head ∧ head < N) (ht : 0 ≤ tail ∧ tail < N) {i : Nat}
    (hi : i < size N head tail) : (tail + i) % N ≠ head := by
  have h := size_eq hh ht
  have hlt := size_lt hh ht
  rw [emod_wrap (by omega) (by omega)]
  split at h <;> split <;> omega

theorem contents_store (buf : Int → α) {head tail : Int} (x : α) (hh : 0 ≤ head ∧ head < N)
    (ht : 0 ≤ tail ∧ tail < N) (hfull : (head + 1) % N ≠ tail) :
    contents N (Function.update buf head x) ((head + 1) % N) tail = contents N buf head tail ++ [x] := by
  unfold contents
  rw [size_store hh ht hfull, List.range_succ, List.map_append]
  congr 1
  · apply List.map_congr_left
    intro i hi
    rw [Function.update_of_ne (ne_head hh ht (List.mem_range.mp hi))]
  · simp [head_eq hh ht]

theorem contents_take (buf : Int → α) {head tail : Int} (hh : 0 ≤ head ∧ head < N)
    (ht : 0 ≤ tail ∧ tail < N) (hempty : head ≠ tail) :
    contents N buf head tail = buf tail :: contents N buf head ((tail + 1) % N) := by
  unfold contents
  rw [size_take hh ht hempty, List.range_succ_eq_map, List.map_cons, List.map_map]
  congr 1
  · simp [Int.emod_eq_of_lt ht.1 ht.2]
  · apply List.map_congr_left
    intro i _
    simp only [Function.comp_apply]
    congr 1
    rw [Int.emod_add_emod]
    congr 1
    push_cast
    omega

end Ring
