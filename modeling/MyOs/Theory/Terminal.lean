import Mathlib.Logic.Function.Basic
import Mathlib.Tactic.Common

/-!
# A scrolling terminal

A grid of `h` lines of `w` cells with a cursor in it.  Writing in the last cell of a line moves on to the next
line; below the last line the grid scrolls.

    t.pos = w * t.row + t.col     the place of the cursor, in the order the cells are written
    write_cell                    writing changes the cell at the cursor's place only
    newline_pos_above, newline_pos_last, advance_col, back_pos    the cursor after an operation

The types keep the cursor in the grid.
-/

structure Terminal (w h : Nat) (α : Type) where
  cell : Fin h → Fin w → α
  row : Fin h
  col : Fin w

namespace Terminal

variable {w h : Nat} {α : Type}

def firstCol (t : Terminal w h α) : Fin w := ⟨0, Nat.zero_lt_of_lt t.col.isLt⟩

/-- Every line moves up by one, the last line is blank. -/
def scroll (blank : α) (t : Terminal w h α) : Terminal w h α :=
  { t with cell := fun r c => if hr : r.val + 1 < h then t.cell ⟨r.val + 1, hr⟩ c else blank }

/-- To the start of the next line; below the last line the grid scrolls. -/
def newline (blank : α) (t : Terminal w h α) : Terminal w h α :=
  if hr : t.row.val + 1 < h then { t with row := ⟨t.row.val + 1, hr⟩, col := t.firstCol }
  else { t.scroll blank with col := t.firstCol }

def advance (blank : α) (t : Terminal w h α) : Terminal w h α :=
  if hc : t.col.val + 1 < w then { t with col := ⟨t.col.val + 1, hc⟩ } else t.newline blank

def write (a : α) (t : Terminal w h α) : Terminal w h α :=
  { t with cell := Function.update t.cell t.row (Function.update (t.cell t.row) t.col a) }

/-- Writes a cell and moves on. -/
def put (blank a : α) (t : Terminal w h α) : Terminal w h α := (t.write a).advance blank

/-- To the cell before; in the first cell the cursor stays. -/
def back (t : Terminal w h α) : Terminal w h α :=
  if t.col.val = 0 then
    if t.row.val = 0 then t
    else
      { t with
        row := ⟨t.row.val - 1, by have := t.row.isLt; omega⟩
        col := ⟨w - 1, by have := t.col.isLt; omega⟩ }
  else { t with col := ⟨t.col.val - 1, by have := t.col.isLt; omega⟩ }

/-- Blanks the cell before. -/
def erase (blank : α) (t : Terminal w h α) : Terminal w h α := t.back.write blank

/-! ## Places -/

/-- The place of a cell in the order in which they are written. -/
def place (w r c : Nat) : Nat := w * r + c

def pos (t : Terminal w h α) : Nat := place w t.row t.col

theorem place_lt (r : Fin h) (c : Fin w) : place w r c < w * h := by
  have h1 : w * (r.val + 1) ≤ w * h := Nat.mul_le_mul_left w r.isLt
  have h2 := c.isLt
  unfold place
  rw [Nat.mul_succ] at h1
  omega

theorem place_inj {r r' : Fin h} {c c' : Fin w} (he : place w r c = place w r' c') : r = r' ∧ c = c' := by
  unfold place at he
  have hw := Nat.zero_lt_of_lt c.isLt
  have hr : r.val = r'.val := by
    have h1 := congrArg (· / w) he
    simpa [Nat.mul_add_div hw, Nat.div_eq_of_lt c.isLt, Nat.div_eq_of_lt c'.isLt] using h1
  rw [hr] at he
  exact ⟨Fin.ext hr, Fin.ext (by omega)⟩

theorem pos_lt (t : Terminal w h α) : t.pos < w * h := place_lt t.row t.col

/-! ## Operations by places -/

section
variable (blank a : α) (t : Terminal w h α)

theorem write_cell (r : Fin h) (c : Fin w) :
    (t.write a).cell r c = if place w r c = t.pos then a else t.cell r c := by
  unfold write pos
  by_cases hr : r = t.row
  · subst hr
    by_cases hc : c = t.col
    · subst hc
      simp
    · have hne : place w t.row c ≠ place w t.row t.col := fun he => hc (place_inj he).2
      simp [hc, hne]
  · have hne : place w r c ≠ place w t.row t.col := fun he => hr (place_inj he).1
    simp [hr, hne]

theorem scroll_cell_up {r : Fin h} (hr : r.val + 1 < h) (c : Fin w) :
    (t.scroll blank).cell r c = t.cell ⟨r.val + 1, hr⟩ c :=
  dif_pos hr

theorem scroll_cell_last {r : Fin h} (hr : ¬ r.val + 1 < h) (c : Fin w) : (t.scroll blank).cell r c = blank :=
  dif_neg hr

theorem newline_cell_above (hr : t.row.val + 1 < h) : (t.newline blank).cell = t.cell := by
  unfold newline
  rw [dif_pos hr]

theorem newline_pos_above (hr : t.row.val + 1 < h) : (t.newline blank).pos = w * (t.row.val + 1) := by
  unfold newline
  rw [dif_pos hr]
  rfl

theorem newline_cell_last (hr : ¬ t.row.val + 1 < h) : (t.newline blank).cell = (t.scroll blank).cell := by
  unfold newline
  rw [dif_neg hr]

theorem newline_pos_last (hr : ¬ t.row.val + 1 < h) : (t.newline blank).pos = w * t.row.val := by
  unfold newline
  rw [dif_neg hr]
  rfl

/-- Before the end of the line the cursor moves on by one. -/
theorem advance_col (hc : t.col.val + 1 < w) :
    (t.advance blank).cell = t.cell ∧ (t.advance blank).pos = t.pos + 1 := by
  unfold advance
  rw [dif_pos hc]
  exact ⟨rfl, rfl⟩

theorem advance_newline (hc : ¬ t.col.val + 1 < w) : t.advance blank = t.newline blank := by
  unfold advance
  rw [dif_neg hc]

theorem back_cell : t.back.cell = t.cell := by
  unfold back
  split
  · split <;> rfl
  · rfl

theorem back_pos : t.back.pos = t.pos - 1 := by
  unfold back pos place
  have hw := t.col.isLt
  split
  · next hc =>
    split
    · next hr => simp [hc, hr]
    · next hr =>
      obtain ⟨r, hr'⟩ : ∃ r, t.row.val = r + 1 := ⟨t.row.val - 1, by omega⟩
      simp only [hc, hr', Nat.mul_succ, Nat.add_sub_cancel]
      omega
  · next hc =>
    show w * t.row.val + (t.col.val - 1) = _
    omega

end

end Terminal
