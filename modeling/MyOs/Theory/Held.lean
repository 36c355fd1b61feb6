import Mathlib.Tactic.Common

/-!
# Keys held down

A keyboard is a list of presses and releases of keys of any type `κ`, the latest first.

    held es k      the latest event of `k` is a press
    latest p es    the latest event of a key with `p` is a press: all that one flag for several keys can say
    latest p es = true → some key with `p` is held           (held_of_latest)

The converse fails when one of two keys is released.
-/

structure KeyEvent (κ : Type) where
  key : κ
  down : Bool
  deriving DecidableEq, Repr

namespace KeyEvent

variable {κ : Type} {p : κ → Bool} {e : KeyEvent κ} {es : List (KeyEvent κ)}

/-- What `e` says about the keys with `p`. -/
def about (p : κ → Bool) (e : KeyEvent κ) : Option Bool := if p e.key then some e.down else none

def latest (p : κ → Bool) (es : List (KeyEvent κ)) : Bool := (es.findSome? (about p)).getD false

theorem latest_cons (p : κ → Bool) (e : KeyEvent κ) (es : List (KeyEvent κ)) :
    latest p (e :: es) = (about p e).getD (latest p es) := by
  unfold latest
  rw [List.findSome?_cons]
  cases about p e <;> rfl

variable [DecidableEq κ]

def held (es : List (KeyEvent κ)) (k : κ) : Bool := latest (fun k' => k' = k) es

/-- A key is released only when it is down. -/
def WellFormed : List (KeyEvent κ) → Prop
  | [] => True
  | e :: es => (e.down = false → held es e.key = true) ∧ WellFormed es

theorem held_cons_self (e : KeyEvent κ) (es : List (KeyEvent κ)) : held (e :: es) e.key = e.down := by
  unfold held
  rw [latest_cons]
  simp [about]

theorem held_cons_of_ne {k : κ} (h : e.key ≠ k) : held (e :: es) k = held es k := by
  unfold held
  rw [latest_cons]
  simp [about, h]

theorem held_of_latest (h : latest p es = true) : ∃ k, p k = true ∧ held es k = true := by
  induction es with
  | nil => cases h
  | cons e es ih =>
    rw [latest_cons] at h
    unfold about at h
    by_cases hp : p e.key = true
    · rw [if_pos hp] at h
      exact ⟨e.key, hp, (held_cons_self e es).trans h⟩
    · rw [if_neg hp] at h
      obtain ⟨k, hk, hheld⟩ := ih h
      have hne : e.key ≠ k := by
        rintro rfl
        exact hp hk
      exact ⟨k, hk, (held_cons_of_ne hne).trans hheld⟩

end KeyEvent
