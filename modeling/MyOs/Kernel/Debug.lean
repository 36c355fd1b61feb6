import Mathlib.Algebra.Group.Nat.Defs
import Mathlib.Tactic.Common

/-!
# kernel/debug.h: ASSERT, PANIC and how a call can fail to return

`ASSERT(c)` calls `panic_spin` when `c` is false, and is nothing when `NDEBUG` is defined.
`panic_spin` turns interrupts off and spins, so a call that reaches it never returns; a call that
touches an unmapped page ends in the page-fault handler, which spins as well.  Kernel functions
are modelled in `Except Halt`.
-/

namespace MyOs

/-- Whether `NDEBUG` was defined when the kernel was compiled. -/
inductive Build where
  | debug
  | ndebug
  deriving DecidableEq, Repr

/-- Why a call does not return. -/
inductive Halt where
  /-- `panic_spin`, with the function and the condition it prints. -/
  | panicSpin (func condition : String)
  | pageFault (vaddr : Nat)
  /-- The caller waits for a semaphore that only its own later code would raise. -/
  | blocked
  /-- Not a call at all: an event that cannot happen in the state (an interrupt while they are off). -/
  | disabled
  deriving DecidableEq, Repr

/-- `ASSERT(CONDITION)` in function `func`. -/
def assert (b : Build) (func condition : String) (c : Bool) : Except Halt Unit :=
  match b with
  | .ndebug => .ok ()
  | .debug => if c then .ok () else .error (.panicSpin func condition)

/-- `PANIC(msg)`: not compiled out by `NDEBUG`. -/
def panic {α : Type} (func msg : String) : Except Halt α := .error (.panicSpin func msg)

theorem bind_eq_ok {ε α β : Type} (x : Except ε α) (f : α → Except ε β) (r : β) :
    (x >>= f) = .ok r ↔ ∃ a, x = .ok a ∧ f a = .ok r := by
  cases x with
  | error e => simp [bind, Except.bind]
  | ok a => simp [bind, Except.bind]

@[simp] theorem pure_eq_ok {ε α : Type} (a : α) : (pure a : Except ε α) = .ok a := rfl

theorem assert_debug_ok (func condition : String) (c : Bool) (u : Unit) :
    assert .debug func condition c = .ok u ↔ c = true := by
  unfold assert
  cases c <;> simp

/-- A NULL translation becomes a page fault. -/
def orFault {α : Type} (vaddr : Nat) : Option α → Except Halt α
  | none => .error (.pageFault vaddr)
  | some a => .ok a

end MyOs
